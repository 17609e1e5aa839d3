import LionOS.Spaces.Kernel
import LionOS.Spaces.Updates

/-! Address spaces side by side with the kernel: each has its five frames and its tables to
itself, and mirrors the supervisor mappings of the kernel wherever it has no table. -/
namespace LionOS.Paging
open LionOS.Memory LionOS.Physical

/-- The directory entry leads to a table of the space's own. -/
def userTable (pde : Word) : Bool := has pde ptePresent && has pde pteUser

/-- Entry `j` of the directory `i` of the block at `pd`. -/
def directoryEntry (m : Mem) (pd i j : Nat) : Word := m (pd / pageSize + (i+1)) j

structure Built (role : Nat → Role) (vm : Vm) (pd : Nat) : Prop where
  nonzero : pd ≠ 0
  aligned : pd % pageSize = 0
  root : role (pd / pageSize) = .root pd
  pointers : ∀ i < 4, pdPtr vm.mem pd i = pd + (i+1) * pageSize
  directories : ∀ i < 4, role (pd / pageSize + (i+1)) = .directory pd i
  tables : ∀ i < 4, ∀ j < 512, userTable (directoryEntry vm.mem pd i j) = true →
    role (ptPtr (directoryEntry vm.mem pd i j) / pageSize) = .table pd i j ∧ kernelEntry vm i j = 0
  mirrored : ∀ i < 4, ∀ j < 512, userTable (directoryEntry vm.mem pd i j) = false →
    directoryEntry vm.mem pd i j = kernelEntry vm i j

theorem directory_frame (pd i : Nat) :
    (pd + (i+1) * pageSize) / pageSize = pd / pageSize + (i+1) := by
  rw [Nat.add_mul_div_right _ _ (by decide)]

theorem pdptIndex_row {va : Nat} (inside : va < userLimit) : pdptIndex va < 4 := by
  simp only [pdptIndex,userLimit] at *
  omega

section Built
variable {role role' : Nat → Role} {vm vm' : Vm} {pd : Nat} (built : Built role vm pd)
include built

theorem Built.directory (i : Nat) (row : i < 4) : pdPtr vm.mem pd i ≠ 0 ∧
    pdPtr vm.mem pd i / pageSize = pd / pageSize + (i+1) := by
  rw [built.pointers i row,directory_frame]
  refine ⟨?_,rfl⟩
  simp only [pageSize]
  omega

theorem Built.tableOf {va : Nat} (inside : va < userLimit) : tableOf vm.mem pd va =
    if userTable (directoryEntry vm.mem pd (pdptIndex va) (pdIndex va)) then
      some (ptPtr (directoryEntry vm.mem pd (pdptIndex va) (pdIndex va))) else none := by
  obtain ⟨nonnull,frame⟩ := built.directory (pdptIndex va) (pdptIndex_row inside)
  unfold Paging.tableOf
  simp only [if_neg nonnull,word,frame]
  rfl

theorem Built.shaped : Shaped role vm.mem pd := by
  refine ⟨built.aligned,built.root,?_,?_⟩
  · intro va inside _
    rw [(built.directory _ (pdptIndex_row inside)).2]
    exact built.directories _ (pdptIndex_row inside)
  · intro va inside t table
    rw [built.tableOf inside] at table
    split_ifs at table with user
    cases table
    exact (built.tables _ (pdptIndex_row inside) _ (pdIndex_small va) user).1

/-- The tables themselves may change. -/
theorem Built.congr (root : ∀ f, role f = .root pd → vm'.mem f = vm.mem f)
    (directory : ∀ f i, role f = .directory pd i → vm'.mem f = vm.mem f)
    (roles : ∀ f, (role f).space = some pd → role' f = role f)
    (kernel : ∀ i < 4, ∀ j < 512, kernelEntry vm' i j = kernelEntry vm i j) : Built role' vm' pd := by
  have own {f : Nat} {r : Role} (here : role f = r) (part : r.space = some pd) : role' f = r := by
    rw [roles f (here ▸ part),here]
  have entry {i : Nat} (row : i < 4) (j : Nat) : directoryEntry vm'.mem pd i j = directoryEntry vm.mem pd i j := by
    rw [directoryEntry,directoryEntry,directory _ i (built.directories i row)]
  refine ⟨built.nonzero,built.aligned,own built.root rfl,?_,?_,?_,?_⟩
  · intro i row
    rw [← built.pointers i row,pdPtr_word _ built.aligned (by omega),pdPtr_word _ built.aligned (by omega),word,word,
      root _ built.root]
  · intro i row
    exact own (built.directories i row) rfl
  · intro i row j column user
    rw [entry row] at user ⊢
    obtain ⟨table,absent⟩ := built.tables i row j column user
    rw [kernel i row j column]
    exact ⟨own table rfl,absent⟩
  · intro i row j column other
    rw [entry row] at other ⊢
    rw [kernel i row j column]
    exact built.mirrored i row j column other

/-- A new table takes the place of an entry that the kernel leaves empty. -/
theorem Built.withTable {va first : Nat} {entry : Word} (inside : va < userLimit)
    (new : NewTable role vm.mem pd va first entry) (high : first < maxPages) (data : role first = .data)
    (memory : vm'.mem = withTable vm.mem pd va first entry)
    (kernel : ∀ i < 4, ∀ j < 512, kernelEntry vm' i j = kernelEntry vm i j)
    (absent : kernelEntry vm (pdptIndex va) (pdIndex va) = 0) :
    Built (Function.update role first (.table pd (pdptIndex va) (pdIndex va))) vm' pd := by
  obtain ⟨_,_,directory,elsewhere⟩ := new
  obtain ⟨aligned,small,frame⟩ := table_address high
  have row := pdptIndex_row inside
  rw [(built.directory _ row).2] at directory
  have kept {f : Nat} {r : Role} (here : role f = r) (part : r ≠ .data) :
      f ≠ first ∧ Function.update role first (.table pd (pdptIndex va) (pdIndex va)) f = r := by
    have other : f ≠ first := by
      rintro rfl
      exact part (here.symm.trans data)
    exact ⟨other,(Function.update_of_ne other _ _).trans here⟩
  have entries {i : Nat} (bound : i < 4) (j : Nat) : directoryEntry vm'.mem pd i j =
      if i = pdptIndex va ∧ j = pdIndex va then tableEntry (first * pageSize) else directoryEntry vm.mem pd i j := by
    simp only [directoryEntry,memory]
    by_cases same : i = pdptIndex va
    · subst same
      rw [directory,Function.update_apply]
      simp only [true_and]
    · rw [if_neg fun both => same both.1,elsewhere _ (kept (built.directories i bound) (by simp)).1]
      rw [built.directories i bound]
      intro here
      injection here with _ index
      exact same index
  refine ⟨built.nonzero,built.aligned,(kept built.root (by simp)).2,?_,?_,?_,?_⟩
  · intro i bound
    rw [← built.pointers i bound,pdPtr_word _ built.aligned (by omega),pdPtr_word _ built.aligned (by omega),word,word,
      memory,elsewhere _ (kept built.root (by simp)).1 (by rw [built.root]; simp)]
  · intro i bound
    exact (kept (built.directories i bound) (by simp)).2
  · intro i bound j column user
    rw [entries bound] at user ⊢
    rw [kernel i bound j column]
    by_cases here : i = pdptIndex va ∧ j = pdIndex va
    · rw [if_pos here,tableEntry_address aligned small,frame,Function.update_self,here.1,here.2]
      exact ⟨rfl,absent⟩
    · rw [if_neg here] at user ⊢
      obtain ⟨table,empty⟩ := built.tables i bound j column user
      exact ⟨(kept table (by simp)).2,empty⟩
  · intro i bound j column other
    rw [entries bound] at other ⊢
    rw [kernel i bound j column]
    by_cases here : i = pdptIndex va ∧ j = pdIndex va
    · rw [if_pos here,userTable,tableEntry_user] at other
      cases other
    · rw [if_neg here] at other ⊢
      exact built.mirrored i bound j column other

end Built

/-- Every space is built, no frame of a space or of the kernel's directory is free. -/
structure Arranged (role : Nat → Role) (vm : Vm) : Prop where
  kept : Kept role vm.pages
  supervisor : Supervisor vm
  kernel : ∀ f, KernelFrame vm f → role f = .data
  built : ∀ pd ∈ vm.spaces, Built role vm pd

/-- The new state is arranged, and of all pages of all spaces only that of `va` in `pd` is
mapped in another way. -/
structure Edits (role' : Nat → Role) (vm vm' : Vm) (pd va : Nat) (now : Option (Nat × Word)) : Prop where
  spaces : vm'.spaces = vm.spaces
  arranged : Arranged role' vm'
  mapping : ∀ other ∈ vm.spaces, ∀ va' < userLimit, mapping vm'.mem other va' =
    if other = pd ∧ va' / pageSize = va / pageSize then now else mapping vm.mem other va'

section Edit
variable {role : Nat → Role} {vm : Vm} {pd va : Nat} (arranged : Arranged role vm) (member : pd ∈ vm.spaces)
  (inside : va < userLimit)
include arranged member inside

theorem setEntry_edits {t : Nat} (table : tableOf vm.mem pd va = some t) (entry : Word) :
    Edits role vm {vm with mem := write vm.mem (t + 8 * ptIndex va) entry} pd va (leaf entry) := by
  have shaped := (arranged.built pd member).shaped
  have frames {f : Nat} (other : role f ≠ .table pd (pdptIndex va) (pdIndex va)) :
      write vm.mem (t + 8 * ptIndex va) entry f = vm.mem f := setEntry_frame shaped inside table entry other
  have kernel (f : Nat) (here : KernelFrame vm f) : write vm.mem (t + 8 * ptIndex va) entry f = vm.mem f :=
    frames (by rw [arranged.kernel f here]; nofun)
  refine ⟨rfl,⟨arranged.kept,?_,arranged.kernel,?_⟩,?_⟩
  · exact arranged.supervisor.congr rfl rfl fun f here => ⟨kernel f here,arranged.supervisor.used f here⟩
  · intro other here
    refine (arranged.built other here).congr ?_ ?_ (fun _ _ => rfl) ?_
    · intro f root
      exact frames (by rw [root]; nofun)
    · intro f i directory
      exact frames (by rw [directory]; nofun)
    · intro i row j column
      refine kernelEntry_congr ?_ arranged.supervisor.aligned kernel row column
      rfl
  · intro other here va' inside'
    by_cases own : other = pd
    · subst own
      rw [setEntry_mapping shaped inside table entry inside']
      simp only [true_and]
    · rw [if_neg fun both => own both.1]
      exact mapping_congr (arranged.built other here).shaped (setEntry_aside shaped inside table own entry) inside'

/-- A region without a table gets one in a frame that was free. -/
theorem newTable_edits (low : userFloor ≤ va) (missing : tableOf vm.mem pd va = none) {pages : Allocator} {t : Nat}
    (allocated : pageAlloc vm.pages = some (pages,t)) (entry : Word) :
    Edits (Function.update role (t / pageSize) (.table pd (pdptIndex va) (pdIndex va))) vm
      {vm with pages,mem := withTable vm.mem pd va (t / pageSize) entry} pd va (leaf entry) := by
  obtain ⟨first,rfl,takes⟩ := pageAlloc_takes allocated
  have high : first < maxPages := takes.high
  have free : isFree vm.pages first = true := takes.free first (Nat.le_refl _) (by omega)
  have data := arranged.kept.data free
  rw [(table_address high).2.2]
  have own := arranged.built pd member
  have row := pdptIndex_row inside
  have place := own.directory (pdptIndex va) row
  have new := withTable_new own.shaped inside place.1 missing data high entry
  have elsewhere := new.frames
  have in_use {f : Nat} (used : isFree vm.pages f = false) : f ≠ first := by
    rintro rfl
    rw [free] at used
    cases used
  have structural {f : Nat} (part : role f ≠ .data) : f ≠ first := in_use (arranged.kept f part)
  have kernel (f : Nat) (here : KernelFrame vm f) : withTable vm.mem pd va first entry f = vm.mem f :=
    elsewhere f (in_use (arranged.supervisor.used f here)) (by rw [arranged.kernel f here]; nofun)
  have entries (i : Nat) (row : i < 4) (j : Nat) (column : j < 512) :
      kernelEntry {vm with pages,mem := withTable vm.mem pd va first entry} i j = kernelEntry vm i j := by
    refine kernelEntry_congr ?_ arranged.supervisor.aligned kernel row column
    rfl
  have roles (f : Nat) (part : role f ≠ .data) :
      Function.update role first (.table pd (pdptIndex va) (pdIndex va)) f = role f :=
    Function.update_of_ne (structural part) _ _
  have separate {other : Nat} (apart : other ≠ pd) (f : Nat) (part : (role f).space = some other) :
      withTable vm.mem pd va first entry f = vm.mem f := by
    refine elsewhere f (structural ?_) ?_
    · intro none
      rw [none] at part
      cases part
    · intro here
      rw [here] at part
      exact apart (Option.some.inj part).symm
  refine ⟨rfl,⟨?_,?_,?_,?_⟩,?_⟩
  · intro f part
    by_cases new : f = first
    · rw [takes.single,new]
      simp
    · rw [Function.update_of_ne new] at part
      exact takes.taken (arranged.kept f part)
  · exact arranged.supervisor.congr rfl rfl fun f here => ⟨kernel f here,takes.taken (arranged.supervisor.used f here)⟩
  · intro f here
    rw [Function.update_of_ne (in_use (arranged.supervisor.used f here))]
    exact arranged.kernel f here
  · intro other here
    by_cases same : other = pd
    · subst same
      exact own.withTable inside new high data rfl entries (arranged.supervisor.lower va low inside)
    · refine (arranged.built other here).congr ?_ ?_ ?_ entries
      · exact fun f root => separate same f (by rw [root]; rfl)
      · exact fun f i directory => separate same f (by rw [directory]; rfl)
      · intro f part
        exact roles f (by intro none; rw [none] at part; cases part)
  · intro other here va' inside'
    by_cases same : other = pd
    · subst same
      rw [new.mapping va' inside']
      simp only [true_and]
    · rw [if_neg fun both => same both.1]
      exact mapping_congr (arranged.built other here).shaped (separate same) inside'

end Edit

end LionOS.Paging
