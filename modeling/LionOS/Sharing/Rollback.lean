import LionOS.Sharing.Meaning
import LionOS.Spaces.Accounts

/-! A program that cannot be started leaves no trace: whatever was taken for it is given
back, and nothing else has changed. -/
namespace LionOS.Exec
open LionOS.Memory LionOS.Physical LionOS.Paging LionOS.Processes LionOS.Files LionOS.Calls LionOS.Frames

def pageFrames (pages : List LoadPage) : List Nat := pages.map fun p => p.page / pageSize

section Images
variable {vm vm' : Vm} {pages : List LoadPage}

theorem Filled.lent (agrees : Agrees vm.pages) (filled : Filled vm pages vm') : Lent vm.pages vm'.pages ↑(pageFrames pages) := by
  induction filled with
  | start => exact .refl agrees
  | taken filled fresh allocated plain ih =>
    obtain ⟨first,rfl,_,after⟩ := ih.alloc allocated
    rw [block_one,add_comm,← Multiset.coe_singleton,Multiset.coe_add] at after
    rw [pageFrames,List.map_append,List.map_singleton,address_frame]
    exact after
  | flagged filled same plain ih =>
    have frames := congrArg (List.map (· / pageSize)) (same_frames same)
    rw [List.map_map,List.map_map] at frames
    rw [pageFrames]
    exact frames.symm ▸ ih
  | stored filled others ih => exact ih

theorem Filled.root (filled : Filled vm pages vm') : vm'.pageRoot = vm.pageRoot := by
  induction filled with
  | start => rfl
  | taken filled fresh allocated plain ih => exact ih
  | flagged filled same plain ih => exact ih
  | stored filled others ih => exact ih

theorem Lent.freePages {a a' : Allocator} {owed : Multiset Nat} {addresses : List Nat}
    (aligned : ∀ address ∈ addresses, address % pageSize = 0)
    (lent : Lent a a' (↑(addresses.map (· / pageSize)) + owed)) : Lent a (freePages a' addresses) owed := by
  induction addresses generalizing a' with
  | nil =>
    rw [List.map_nil,Multiset.coe_nil,zero_add] at lent
    exact lent
  | cons address rest ih =>
    rw [List.map_cons,← Multiset.cons_coe,Multiset.cons_add] at lent
    have low := (lent.inside _ (Multiset.mem_cons_self _ _)).1
    have nonzero : address ≠ 0 := by
      rintro rfl
      simp [reservedPages] at low
    have whole : address / pageSize * pageSize = address :=
      Nat.div_mul_cancel (Nat.dvd_of_mod_eq_zero (aligned address List.mem_cons_self))
    have next := lent.giveBack
    rw [whole] at next
    rw [Processes.freePages,List.foldl_cons,if_neg nonzero]
    exact ih (fun other member => aligned other (List.mem_cons_of_mem address member)) next

/-- `load_image` gives its pages back. -/
theorem loadFail_lent {vm₀ : Vm} {extra : Multiset Nat} (aligned : ∀ p ∈ pages, p.page % pageSize = 0)
    (lent : Lent vm₀.pages vm.pages (↑(pageFrames pages) + extra)) : Lent vm₀.pages (loadFail vm pages).pages extra := by
  refine Lent.freePages (fun address member => ?_) ?_
  · obtain ⟨p,inside,rfl⟩ := List.mem_map.mp member
    exact aligned p inside
  · rw [List.map_map]
    exact lent

theorem mapPages_loan {vm₀ : Vm} {pd : Nat} {extra : Multiset Nat} {ok : Bool} (loan : Loan vm₀ vm pd extra)
    (mapped : mapPages pd vm pages = (vm',ok)) : Loan vm₀ vm' pd extra ∧ Spares vm₀ vm vm' := by
  induction pages generalizing vm with
  | nil =>
    cases mapped
    exact ⟨loan,.refl _ _⟩
  | cons p rest ih =>
    unfold mapPages at mapped
    cases first : pagingMapUserPageIn vm pd p.va p.page (BitVec.ofNat 64 p.flags) with
    | none =>
      simp only [first] at mapped
      cases mapped
      exact ⟨loan,.refl _ _⟩
    | some next =>
      simp only [first] at mapped
      obtain ⟨loan',spares⟩ := loan.map first
      obtain ⟨last,rest⟩ := ih loan' mapped
      exact ⟨last,spares.trans rest⟩

theorem Filled.loan {pd : Nat} {vm₁ vm₂ vm₃ : Vm} {ok : Bool} (agrees : Agrees vm.pages) (filled : Filled vm pages vm₁)
    (created : pagingCreateAddressSpace vm₁ = some (vm₂,pd)) (mapped : mapPages pd vm₂ pages = (vm₃,ok)) :
    Loan vm vm₃ pd ↑(pageFrames pages) ∧ Spares vm vm vm₃ := by
  obtain ⟨loan,spares⟩ := pagingCreateAddressSpace_loan (filled.lent agrees) filled.root created
  obtain ⟨last,rest⟩ := mapPages_loan loan mapped
  have taken : Spares vm vm vm₁ := filled.placed.contents
  exact ⟨last,taken.trans (spares.trans rest)⟩

end Images

/-! ### What a failed call leaves -/

/-- The frames that the translations of a space go through are in use. -/
structure Resident (vm : Vm) (pd : Nat) : Prop where
  aligned : pd % pageSize = 0
  root : isFree vm.pages (pd / pageSize) = false
  directories : ∀ va < userLimit, pdPtr vm.mem pd (pdptIndex va) ≠ 0 →
    isFree vm.pages (pdPtr vm.mem pd (pdptIndex va) / pageSize) = false
  tables : ∀ va < userLimit, ∀ t, tableOf vm.mem pd va = some t → isFree vm.pages (t / pageSize) = false

theorem Resident.translations {vm vm' : Vm} {pd : Nat} (resident : Resident vm pd)
    (frames : ∀ f, isFree vm.pages f = false → vm'.mem f = vm.mem f) (va : Nat) :
    pagingGetUserPage vm' pd va = pagingGetUserPage vm pd va := by
  by_cases outside : pd = 0 ∨ va ≥ userLimit
  · rw [pagingGetUserPage_outside vm' outside,pagingGetUserPage_outside vm outside]
  have inside : va < userLimit := by omega
  have small := pdptIndex_small inside
  have pointer : pdPtr vm'.mem pd (pdptIndex va) = pdPtr vm.mem pd (pdptIndex va) := by
    rw [pdPtr_word vm'.mem resident.aligned small,pdPtr_word vm.mem resident.aligned small,word,word,frames _ resident.root]
  have table : tableOf vm'.mem pd va = tableOf vm.mem pd va := by
    unfold tableOf
    rw [pointer]
    by_cases null : pdPtr vm.mem pd (pdptIndex va) = 0
    · simp only [null,if_true]
    · have entry : word vm'.mem (pdPtr vm.mem pd (pdptIndex va)) (pdIndex va) =
          word vm.mem (pdPtr vm.mem pd (pdptIndex va)) (pdIndex va) := by
        rw [word,word,frames _ (resident.directories va inside null)]
      simp only [entry]
  rw [pagingGetUserPage_mapping vm' inside (by omega),pagingGetUserPage_mapping vm inside (by omega),mapping,mapping,table]
  cases found : tableOf vm.mem pd va with
  | none => rfl
  | some t => rw [Option.bind_some,Option.bind_some,word,word,frames _ (resident.tables va inside t found)]

/-- The allocator, the process table and every frame that was in use are as before. -/
structure Untouched (s s' : System) : Prop where
  rest : s' = {s with vm := s'.vm}
  allocator : s'.vm.pages = s.vm.pages
  directory : s'.vm.currentDirectory = s.vm.currentDirectory
  kernel : s'.vm.pageRoot = s.vm.pageRoot
  frames : ∀ f, isFree s.vm.pages f = false → s'.vm.mem f = s.vm.mem f
  translations : ∀ pd, Resident s.vm pd → ∀ va, pagingGetUserPage s'.vm pd va = pagingGetUserPage s.vm pd va

theorem untouched_vm {s : System} {vm : Vm} (lent : Lent s.vm.pages vm.pages 0)
    (directory : vm.currentDirectory = s.vm.currentDirectory) (kernel : vm.pageRoot = s.vm.pageRoot)
    (frames : ∀ f, isFree s.vm.pages f = false → vm.mem f = s.vm.mem f) : Untouched s {s with vm} :=
  ⟨rfl,lent.nothing,directory,kernel,frames,fun _ resident va => resident.translations frames va⟩

theorem mapPages_directory {pages : List LoadPage} {pd : Nat} {vm vm' : Vm} {ok : Bool} (mapped : mapPages pd vm pages = (vm',ok)) :
    vm'.currentDirectory = vm.currentDirectory := by
  induction pages generalizing vm with
  | nil =>
    cases mapped
    rfl
  | cons p rest ih =>
    unfold mapPages at mapped
    cases first : pagingMapUserPageIn vm pd p.va p.page (BitVec.ofNat 64 p.flags) with
    | none =>
      simp only [first] at mapped
      cases mapped
      rfl
    | some next =>
      simp only [first] at mapped
      rw [ih mapped,pagingMapUserPageIn_directory first]

theorem pagingDestroyAddressSpace_directory (vm : Vm) (pd : Nat) :
    (pagingDestroyAddressSpace vm pd).currentDirectory = vm.currentDirectory := by
  unfold pagingDestroyAddressSpace
  split <;> rfl

theorem pagingCreateAddressSpace_directory {vm vm' : Vm} {pd : Nat} (made : pagingCreateAddressSpace vm = some (vm',pd)) :
    vm'.currentDirectory = vm.currentDirectory := by
  unfold pagingCreateAddressSpace at made
  split at made
  · cases made
  · cases made
    rfl

section Failures
variable {s : System} {pages : List LoadPage} {vm₁ vm₂ vm₃ : Vm} {pd : Nat} {ok : Bool}

theorem dropped_untouched (agrees : Agrees s.vm.pages) (filled : Filled s.vm pages vm₁) :
    Untouched s {s with vm := loadFail vm₁ pages} := by
  refine untouched_vm (loadFail_lent filled.aligned ?_) filled.placed.directory filled.root filled.placed.contents
  rw [add_zero]
  exact filled.lent agrees

/-- Whether all pages could be mapped or not. -/
theorem unmapped_untouched (regular : Regular (s.vm.pageRoot / pageSize) s.vm.pages) (filled : Filled s.vm pages vm₁)
    (created : pagingCreateAddressSpace vm₁ = some (vm₂,pd)) (mapped : mapPages pd vm₂ pages = (vm₃,ok)) :
    Untouched s {s with vm := loadFail (pagingDestroyAddressSpace vm₃ pd) pages} := by
  obtain ⟨loan,before⟩ := filled.loan regular.agrees created mapped
  obtain ⟨lent,after⟩ := loan.destroy regular.used
  rw [← add_zero (↑(pageFrames pages) : Multiset Nat)] at lent
  have kernel := (pagingDestroyAddressSpace_root vm₃ pd).trans loan.kernel
  refine untouched_vm (loadFail_lent filled.aligned lent) ?_ kernel (before.trans after)
  refine (pagingDestroyAddressSpace_directory vm₃ pd).trans ((mapPages_directory mapped).trans ?_)
  exact (pagingCreateAddressSpace_directory created).trans filled.placed.directory

end Failures

/-- A load that fails changes nothing; one that succeeds can be undone. -/
theorem loadImage_untouched {s : System} (regular : Regular (s.vm.pageRoot / pageSize) s.vm.pages) (r : RamFs) (name : List Byte) :
    match loadImage s.vm r name with
    | (vm,none) => Untouched s {s with vm}
    | (vm,some program) => Untouched s (discard {s with vm} program) := by
  have loads := loadImage_loads s.vm r name
  cases loaded : loadImage s.vm r name with
  | mk vm result =>
    rw [loaded] at loads
    dsimp only at loads ⊢
    cases loads with
    | refused => exact untouched_vm (.refl regular.agrees) rfl rfl fun _ _ => rfl
    | dropped filled => exact dropped_untouched regular.agrees filled
    | unmapped filled created mapped => exact unmapped_untouched regular filled created mapped
    | loaded filled short created mapped => exact unmapped_untouched regular filled created mapped

theorem execRunFile_untouched {s s' : System} (regular : Regular (s.vm.pageRoot / pageSize) s.vm.pages) {r : RamFs} {cpu : Nat}
    {name : List Byte} (failed : execRunFile s r cpu name = (s',none)) : Untouched s s' := by
  have load := loadImage_untouched regular r name
  unfold execRunFile at failed
  cases loaded : loadImage s.vm r name with
  | mk vm result =>
    rw [loaded] at load
    simp only [loaded] at failed
    cases result with
    | none =>
      cases failed
      exact load
    | some program =>
      dsimp only at failed
      split at failed
      · cases failed
        exact load
      · cases failed

theorem execReplaceCurrent_untouched {s s' : System} (regular : Regular (s.vm.pageRoot / pageSize) s.vm.pages) {r : RamFs}
    {cpu : Nat} {name : List Byte} (failed : execReplaceCurrent s r cpu name = (s',false)) : Untouched s s' := by
  have load := loadImage_untouched regular r name
  unfold execReplaceCurrent at failed
  cases loaded : loadImage s.vm r name with
  | mk vm result =>
    rw [loaded] at load
    simp only [loaded] at failed
    cases result with
    | none =>
      cases failed
      exact load
    | some program =>
      dsimp only at failed
      split at failed
      · cases failed
        exact load
      · cases failed

/-- Neither call leaves a trace where it returns -1. -/
theorem failed_start_clean {s s' : System} (reached : Reached (s.vm.pageRoot / pageSize) s.vm.pages) (r : RamFs) (cpu : Nat)
    (name : List Byte) : (execRunFile s r cpu name = (s',none) → Untouched s s') ∧
      (execReplaceCurrent s r cpu name = (s',false) → Untouched s s') :=
  ⟨execRunFile_untouched reached.regular,execReplaceCurrent_untouched reached.regular⟩

/-- The stack has no room for a name of more than 32 bytes. -/
theorem loadImage_long (vm : Vm) (r : RamFs) {name : List Byte} (long : 32 < name.length) : (loadImage vm r name).2 = none := by
  cases loaded : loadImage vm r name with
  | mk vm' result =>
    cases result with
    | none => rfl
    | some program =>
      obtain ⟨_,_,_,_,composed,_⟩ := loadImage_composed loaded
      obtain ⟨_,_,_,built⟩ := composed.stack
      have short := built.short
      omega

def longName : List Byte := List.replicate 33 0x74

def longFile : RamFs := {sharedFile with files := fun i => {sharedFile.files i with name := longName}}

/-- A program that fails after its first page was taken. -/
theorem longFile_clean : ∃ s s', isFree s.vm.pages 2048 = true ∧ execRunFile s longFile 0 longName = (s',none) ∧ Untouched s s' := by
  obtain ⟨a,booted,free⟩ := onePage_boots
  have reached : Reached (0x100000 / pageSize) a := .booted booted (by decide) (by decide) (by decide)
  obtain ⟨s,root,pages⟩ : ∃ s : System, s.vm.pageRoot = 0x100000 ∧ s.vm.pages = a :=
    ⟨{blank with vm := {blank.vm with pages := a,pageRoot := 0x100000}},rfl,rfl⟩
  rw [← root,← pages] at reached
  have failed : ∃ s', execRunFile s longFile 0 longName = (s',none) := by
    have none := loadImage_long s.vm longFile (by decide : 32 < longName.length)
    unfold execRunFile
    cases loaded : loadImage s.vm longFile longName with
    | mk vm result =>
      rw [loaded] at none
      dsimp only at none
      rw [none]
      exact ⟨_,rfl⟩
  obtain ⟨s',failed⟩ := failed
  rw [← pages] at free
  exact ⟨s,s',free,failed,(failed_start_clean reached longFile 0 longName).1 failed⟩

end LionOS.Exec
