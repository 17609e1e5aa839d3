import LionOS.Spaces.Arranged

/-! The creation and the destruction of an address space among others, and what the rest of
the kernel may do beside them. -/
namespace LionOS.Paging
open LionOS.Memory LionOS.Physical

theorem pageFree_other (a : Allocator) {address q : Nat} (other : q ≠ address / pageSize) :
    isFree (pageFree a address) q = isFree a q := by
  unfold pageFree
  dsimp only
  split_ifs
  · rw [isFree_freePages,isFree_markFree,isFree_pageRefs,decide_eq_false (fun same => other same.1),Bool.or_false]
  · rfl
  · rfl

theorem pageFrees_other (addresses : List Nat) (a : Allocator) {q : Nat}
    (others : ∀ address ∈ addresses, q ≠ address / pageSize) : isFree (addresses.foldl pageFree a) q = isFree a q := by
  induction addresses generalizing a with
  | nil => rfl
  | cons address rest ih =>
    rw [List.foldl_cons,ih _ fun address member => others address (by simp [member]),
      pageFree_other a (others address (by simp))]

theorem unguarded {pde : Word} (kernel : has pde pteUser = false) : pde &&& ~~~pteUser = pde := by
  have clear : pde &&& pteUser = 0#64 := by
    simpa [has] using kernel
  calc pde &&& ~~~pteUser
    _ = (pde &&& ~~~pteUser) ||| (pde &&& pteUser) := by rw [clear,BitVec.or_zero]
    _ = pde &&& (~~~pteUser ||| pteUser) := BitVec.and_or_distrib_left.symm
    _ = pde := by rw [BitVec.not_or_self,BitVec.and_allOnes]

section Create
variable {role : Nat → Role} {vm : Vm} {first : Nat}

theorem newDirectory_entry {i j : Nat} (row : i < 4) :
    directoryEntry (newDirectory vm (first * pageSize)) (first * pageSize) i j = kernelEntry vm i j &&& ~~~pteUser := by
  have frame : first * pageSize / pageSize = first := Nat.mul_div_cancel _ (by decide)
  simp only [directoryEntry,newDirectory,frame]
  rw [if_neg (by omega),if_pos (by omega),show first + (i+1) - first - 1 = i by omega]

/-- A new space maps nothing, and all others stay as they are. -/
structure Creates (role' : Nat → Role) (vm vm' : Vm) (pd : Nat) : Prop where
  spaces : vm'.spaces = pd::vm.spaces
  new : pd ∉ vm.spaces
  arranged : Arranged role' vm'
  empty : ∀ va < userLimit, mapping vm'.mem pd va = none
  others : ∀ other ∈ vm.spaces, ∀ va < userLimit, mapping vm'.mem other va = mapping vm.mem other va

theorem pagingCreateAddressSpace_creates {vm' : Vm} {pd : Nat} (arranged : Arranged role vm)
    (made : pagingCreateAddressSpace vm = some (vm',pd)) : ∃ role', Creates role' vm vm' pd := by
  unfold pagingCreateAddressSpace at made
  cases allocated : pageAllocContiguous vm.pages processPagingPages with
  | none => simp [allocated] at made
  | some block =>
    obtain ⟨pages,base⟩ := block
    simp only [allocated] at made
    cases made
    obtain ⟨first,rfl,takes⟩ := pageAllocContiguous_takes allocated
    have small : first + 5 ≤ maxPages := takes.high
    have frame : first * pageSize / pageSize = first := Nat.mul_div_cancel _ (by decide)
    have in_use {f : Nat} (used : isFree vm.pages f = false) : ¬ (first ≤ f ∧ f < first + 5) := by
      rintro ⟨low,high⟩
      rw [takes.free f low high] at used
      cases used
    have structural {f : Nat} (part : role f ≠ .data) := in_use (arranged.kept f part)
    have kernel (f : Nat) (here : KernelFrame vm f) : newDirectory vm (first * pageSize) f = vm.mem f :=
      newDirectory_other (in_use (arranged.supervisor.used f here))
    have entries (i : Nat) (row : i < 4) (j : Nat) (column : j < 512) :
        kernelEntry {vm with pages,mem := newDirectory vm (first * pageSize),spaces := first * pageSize::vm.spaces} i j =
          kernelEntry vm i j := by
      refine kernelEntry_congr ?_ arranged.supervisor.aligned kernel row column
      rfl
    have guarded {i j : Nat} (row : i < 4) (column : j < 512) :
        directoryEntry (newDirectory vm (first * pageSize)) (first * pageSize) i j = kernelEntry vm i j := by
      rw [newDirectory_entry row,unguarded (arranged.supervisor.guarded i row j column)]
    have kernelOnly {i j : Nat} (row : i < 4) (column : j < 512) :
        userTable (directoryEntry (newDirectory vm (first * pageSize)) (first * pageSize) i j) = false := by
      rw [guarded row column,userTable,arranged.supervisor.guarded i row j column,Bool.and_false]
    have same (other f : Nat) (part : (role f).space = some other) :
        newDirectory vm (first * pageSize) f = vm.mem f := by
      refine newDirectory_other (structural ?_)
      intro none
      rw [none] at part
      cases part
    refine ⟨created role first,rfl,?_,⟨?_,?_,?_,?_⟩,?_,?_⟩
    · intro member
      have root := (arranged.built _ member).root
      rw [frame] at root
      exact structural (by rw [root]; simp) ⟨Nat.le_refl _,by omega⟩
    · intro f part
      by_cases inside : first ≤ f ∧ f < first + 5
      · rw [takes.rest,show processPagingPages = 5 from rfl,decide_eq_true inside]
        simp
      · rw [created_other inside] at part
        exact takes.taken (arranged.kept f part)
    · exact arranged.supervisor.congr rfl rfl fun f here => ⟨kernel f here,takes.taken (arranged.supervisor.used f here)⟩
    · intro f here
      rw [created_other (in_use (arranged.supervisor.used f here))]
      exact arranged.kernel f here
    · intro other member
      rcases List.mem_cons.mp member with rfl | old
      · refine ⟨takes.positive,Nat.mul_mod_left _ _,?_,?_,?_,?_,?_⟩
        · rw [frame,created,if_pos rfl]
        · intro i row
          rw [newDirectory_root small row,← Nat.add_mul,Nat.add_assoc]
        · intro i row
          rw [frame,created,if_neg (by omega),if_pos (by omega)]
          congr 1
          omega
        · intro i row j column user
          rw [kernelOnly row column] at user
          cases user
        · intro i row j column _
          rw [entries i row j column]
          exact guarded row column
      · refine (arranged.built other old).congr ?_ ?_ ?_ entries
        · exact fun f root => same other f (by rw [root]; rfl)
        · exact fun f i directory => same other f (by rw [directory]; rfl)
        · intro f part
          refine created_other (structural ?_)
          intro none
          rw [none] at part
          cases part
    · intro va inside
      rw [mapping,newDirectory_tables small inside]
      rfl
    · intro other member va inside
      exact mapping_congr (arranged.built other member).shaped (same other) inside

end Create

section Destroy
variable {role : Nat → Role} {vm : Vm} {pd : Nat}

/-- The roles once the frames of the space `pd` are given back. -/
def destroyed (role : Nat → Role) (pd : Nat) : Nat → Role := fun f =>
  if (role f).space = some pd then .data else role f

/-- The space is gone, and all others stay as they are. -/
structure Destroys (role' : Nat → Role) (vm vm' : Vm) (pd : Nat) : Prop where
  spaces : ∀ other, other ∈ vm'.spaces ↔ other ∈ vm.spaces ∧ other ≠ pd
  arranged : Arranged role' vm'
  others : ∀ other ∈ vm.spaces, other ≠ pd → ∀ va < userLimit, mapping vm'.mem other va = mapping vm.mem other va

theorem userTables_own (built : Built role vm pd) {t : Nat} (member : t ∈ userTables vm.mem pd) :
    (role (t / pageSize)).space = some pd := by
  unfold userTables at member
  obtain ⟨i,row,member⟩ := List.mem_flatMap.mp member
  obtain ⟨j,column,found⟩ := List.mem_filterMap.mp member
  rw [List.mem_range] at row column
  have aligned : (pd + (i+1) * pageSize) % pageSize = 0 := by rw [Nat.add_mul_mod_self_right,built.aligned]
  have entry : read vm.mem (pd + (i+1) * pageSize + 8 * j) = directoryEntry vm.mem pd i j := by
    rw [read_word vm.mem aligned column,word,directory_frame]
    rfl
  rw [entry] at found
  dsimp only at found
  split_ifs at found with user
  cases found
  rw [(built.tables i row j column user).1]
  rfl

theorem pagingDestroyAddressSpace_apart {f : Nat} (tables : ∀ t ∈ userTables vm.mem pd, f ≠ t / pageSize)
    (block : ∀ i < processPagingPages, f ≠ (pd + i * pageSize) / pageSize) :
    (pagingDestroyAddressSpace vm pd).mem f = vm.mem f ∧
      isFree (pagingDestroyAddressSpace vm pd).pages f = isFree vm.pages f := by
  unfold pagingDestroyAddressSpace
  split
  · exact ⟨rfl,rfl⟩
  · constructor
    · apply Function.update_of_ne
      have first := block 0 (by decide)
      rwa [Nat.zero_mul,Nat.add_zero] at first
    · dsimp only
      rw [← pageFrees_other (userTables vm.mem pd) vm.pages tables]
      refine Eq.trans ?_ (pageFrees_other ((List.range processPagingPages).map fun i => pd + i * pageSize) _ ?_)
      · rw [List.foldl_map]
      · intro address own
        obtain ⟨i,inside,rfl⟩ := List.mem_map.mp own
        exact block i (List.mem_range.mp inside)

theorem pagingDestroyAddressSpace_destroys (arranged : Arranged role vm) (member : pd ∈ vm.spaces) :
    Destroys (destroyed role pd) vm (pagingDestroyAddressSpace vm pd) pd := by
  have built := arranged.built pd member
  have ordinary : ¬ (pd = 0 ∨ pd = pagingKernelDirectory vm) := by
    rintro (null | kernel)
    · exact built.nonzero null
    · have root := built.root
      rw [kernel,pagingKernelDirectory,arranged.kernel _ (.inl rfl)] at root
      cases root
  have tables (f : Nat) (apart : (role f).space ≠ some pd) (t : Nat) (own : t ∈ userTables vm.mem pd) :
      f ≠ t / pageSize := by
    rintro rfl
    exact apart (userTables_own built own)
  have block (f : Nat) (apart : (role f).space ≠ some pd) {i : Nat} (inside : i < 5) :
      f ≠ (pd + i * pageSize) / pageSize := by
    rintro rfl
    cases i with
    | zero =>
      rw [Nat.zero_mul,Nat.add_zero,built.root] at apart
      exact apart rfl
    | succ i =>
      rw [directory_frame,built.directories i (by omega)] at apart
      exact apart rfl
  have outside (f : Nat) (apart : (role f).space ≠ some pd) := pagingDestroyAddressSpace_apart (tables f apart) fun _ => block f apart
  have root (f : Nat) (apart : (role f).space ≠ some pd) : (pagingDestroyAddressSpace vm pd).mem f = vm.mem f :=
    (outside f apart).1
  have free (f : Nat) (apart : (role f).space ≠ some pd) :
      isFree (pagingDestroyAddressSpace vm pd).pages f = isFree vm.pages f := (outside f apart).2
  have places : (pagingDestroyAddressSpace vm pd).kernelPd = vm.kernelPd ∧
      (pagingDestroyAddressSpace vm pd).pageRoot = vm.pageRoot := by
    unfold pagingDestroyAddressSpace
    rw [if_neg ordinary]
    exact ⟨rfl,rfl⟩
  have foreign {f : Nat} (data : role f = .data) : (role f).space ≠ some pd := by
    rw [data]
    nofun
  have kernel (f : Nat) (here : KernelFrame vm f) : (pagingDestroyAddressSpace vm pd).mem f = vm.mem f :=
    root f (foreign (arranged.kernel f here))
  have spaces (other : Nat) : other ∈ (pagingDestroyAddressSpace vm pd).spaces ↔ other ∈ vm.spaces ∧ other ≠ pd := by
    unfold pagingDestroyAddressSpace
    rw [if_neg ordinary]
    simp
  have separate {other : Nat} (apart : other ≠ pd) (f : Nat) (part : (role f).space = some other) :
      (role f).space ≠ some pd := by
    rw [part]
    exact fun same => apart (Option.some.inj same)
  refine ⟨spaces,⟨?_,?_,?_,?_⟩,?_⟩
  · intro f part
    unfold destroyed at part
    split_ifs at part with own
    · exact absurd rfl part
    · rw [free f own]
      exact arranged.kept f part
  · refine arranged.supervisor.congr places.2 places.1 fun f here => ⟨kernel f here,?_⟩
    rw [free f (foreign (arranged.kernel f here))]
    exact arranged.supervisor.used f here
  · intro f here
    rw [KernelFrame,places.1,places.2] at here
    rw [destroyed,arranged.kernel f here]
    rfl
  · intro other left
    obtain ⟨old,apart⟩ := (spaces other).mp left
    refine (arranged.built other old).congr ?_ ?_ ?_ ?_
    · exact fun f here => root f (separate apart f (by rw [here]; rfl))
    · exact fun f i here => root f (separate apart f (by rw [here]; rfl))
    · intro f part
      exact if_neg (separate apart f part)
    · intro i row j column
      exact kernelEntry_congr places.1 arranged.supervisor.aligned kernel row column
  · intro other old apart va inside
    exact mapping_congr (arranged.built other old).shaped (fun f part => root f (separate apart f part)) inside

end Destroy

section Beside
variable {role : Nat → Role} {vm vm' : Vm} {pd : Nat}

/-- The frames that an address space consists of. -/
def spaceFrames (m : Mem) (pd : Nat) : List Nat :=
  (List.range processPagingPages).map (pd / pageSize + ·) ++ (userTables m pd).map (· / pageSize)

/-- What the rest of the kernel and its programs do with other frames: allocate them, free
them and store to them. -/
structure Aside (vm vm' : Vm) : Prop where
  spaces : vm'.spaces = vm.spaces
  pageRoot : vm'.pageRoot = vm.pageRoot
  kernelPd : vm'.kernelPd = vm.kernelPd
  kernel : ∀ f, KernelFrame vm f → vm'.mem f = vm.mem f ∧ isFree vm'.pages f = false
  frames : ∀ pd ∈ vm.spaces, ∀ f ∈ spaceFrames vm.mem pd, vm'.mem f = vm.mem f ∧ isFree vm'.pages f = false

theorem userTables_member {m : Mem} (aligned : pd % pageSize = 0) {i j : Nat} (row : i < 4) (column : j < 512)
    (user : userTable (directoryEntry m pd i j) = true) : ptPtr (directoryEntry m pd i j) ∈ userTables m pd := by
  have place : (pd + (i+1) * pageSize) % pageSize = 0 := by rw [Nat.add_mul_mod_self_right,aligned]
  have entry : read m (pd + (i+1) * pageSize + 8 * j) = directoryEntry m pd i j := by
    rw [read_word m place column,word,directory_frame]
    rfl
  refine List.mem_flatMap.mpr ⟨i,List.mem_range.mpr row,List.mem_filterMap.mpr ⟨j,List.mem_range.mpr column,?_⟩⟩
  rw [entry]
  exact if_pos user

theorem Built.part (built : Built role vm pd) {f : Nat} (own : f ∈ spaceFrames vm.mem pd) :
    (role f).space = some pd := by
  rcases List.mem_append.mp own with block | table
  · obtain ⟨i,inside,rfl⟩ := List.mem_map.mp block
    rw [List.mem_range] at inside
    cases i with
    | zero =>
      rw [Nat.add_zero,built.root]
      rfl
    | succ i =>
      rw [built.directories i (by simp only [processPagingPages] at inside; omega)]
      rfl
  · obtain ⟨t,member,rfl⟩ := List.mem_map.mp table
    exact userTables_own built member

/-- The roles of the frames that the spaces really consist of. -/
def linked (role : Nat → Role) (vm : Vm) : Nat → Role := fun f =>
  if ∃ pd ∈ vm.spaces, f ∈ spaceFrames vm.mem pd then role f else .data

theorem Arranged.linked (arranged : Arranged role vm) : Arranged (linked role vm) vm := by
  have kept {pd f : Nat} (member : pd ∈ vm.spaces) (own : f ∈ spaceFrames vm.mem pd) :
      Paging.linked role vm f = role f := if_pos ⟨pd,member,own⟩
  refine ⟨?_,arranged.supervisor,?_,?_⟩
  · intro f part
    unfold Paging.linked at part
    split_ifs at part with own
    · exact arranged.kept f part
    · exact absurd rfl part
  · intro f here
    unfold Paging.linked
    split
    · exact arranged.kernel f here
    · rfl
  · intro pd member
    obtain ⟨nonzero,aligned,root,pointers,directories,tables,mirrored⟩ := arranged.built pd member
    have block {i : Nat} (inside : i < 5) : pd / pageSize + i ∈ spaceFrames vm.mem pd :=
      List.mem_append_left _ (List.mem_map.mpr ⟨i,List.mem_range.mpr inside,rfl⟩)
    refine ⟨nonzero,aligned,?_,pointers,?_,?_,mirrored⟩
    · have first := kept member (block (i := 0) (by omega))
      rw [Nat.add_zero] at first
      exact first.trans root
    · intro i row
      rw [kept member (block (by omega))]
      exact directories i row
    · intro i row j column user
      rw [kept member (List.mem_append_right _ (List.mem_map.mpr ⟨_,userTables_member aligned row column user,rfl⟩))]
      exact tables i row j column user

/-- The frames of the spaces and of the kernel are left alone. -/
structure Beside (role : Nat → Role) (vm vm' : Vm) : Prop where
  spaces : vm'.spaces = vm.spaces
  pageRoot : vm'.pageRoot = vm.pageRoot
  kernelPd : vm'.kernelPd = vm.kernelPd
  frames : ∀ f, role f ≠ .data ∨ KernelFrame vm f → vm'.mem f = vm.mem f ∧ isFree vm'.pages f = false

theorem Aside.beside (aside : Aside vm vm') : Beside (Paging.linked role vm) vm vm' := by
  refine ⟨aside.spaces,aside.pageRoot,aside.kernelPd,?_⟩
  rintro f (part | kernel)
  · unfold Paging.linked at part
    split_ifs at part with own
    · obtain ⟨pd,member,here⟩ := own
      exact aside.frames pd member f here
    · exact absurd rfl part
  · exact aside.kernel f kernel

theorem Beside.part (beside : Beside role vm vm') {other : Nat} (f : Nat) (part : (role f).space = some other) :
    vm'.mem f = vm.mem f := by
  refine (beside.frames f (.inl ?_)).1
  intro none
  rw [none] at part
  cases part

theorem Beside.arranged (beside : Beside role vm vm') (arranged : Arranged role vm) : Arranged role vm' := by
  refine ⟨?_,?_,?_,?_⟩
  · exact fun f part => (beside.frames f (.inl part)).2
  · exact arranged.supervisor.congr beside.pageRoot beside.kernelPd fun f here => beside.frames f (.inr here)
  · intro f here
    rw [KernelFrame,beside.pageRoot,beside.kernelPd] at here
    exact arranged.kernel f here
  · intro pd member
    rw [beside.spaces] at member
    refine (arranged.built pd member).congr ?_ ?_ (fun _ _ => rfl) ?_
    · exact fun f root => beside.part f (by rw [root]; rfl)
    · exact fun f i directory => beside.part f (by rw [directory]; rfl)
    · intro i row j column
      exact kernelEntry_congr beside.kernelPd arranged.supervisor.aligned
        (fun f here => (beside.frames f (.inr here)).1) row column

theorem Beside.mapping (beside : Beside role vm vm') (arranged : Arranged role vm) (member : pd ∈ vm.spaces) {va : Nat}
    (inside : va < userLimit) : mapping vm'.mem pd va = mapping vm.mem pd va :=
  mapping_congr (arranged.built pd member).shaped (fun f part => beside.part f part) inside

end Beside

end LionOS.Paging
