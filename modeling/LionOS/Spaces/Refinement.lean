import LionOS.Frames.Allocation
import LionOS.Library.Run
import LionOS.Spaces.Lifetime

/-! The page tables as a finite map: whatever is done to any number of address spaces, each
holds for each page what was established there last. -/
namespace LionOS.Paging
open LionOS.Memory LionOS.Physical LionOS.Library

inductive Operation where
  | createAddressSpace
  | mapUserPageIn (pd va pa : Nat) (flags : Word)
  | setUserPageFlags (pd va : Nat) (flags : Word)
  | markCow (pd va : Nat)
  | resolveCow (pd va : Nat)
  | destroyAddressSpace (pd : Nat)
  | elsewhere (vm : Vm)

/-- The memory state after an operation; `none` where it fails. -/
def Operation.perform (vm : Vm) : Operation → Option Vm
  | .createAddressSpace => (pagingCreateAddressSpace vm).map Prod.fst
  | .mapUserPageIn pd va pa flags => pagingMapUserPageIn vm pd va pa flags
  | .setUserPageFlags pd va flags => pagingSetUserPageFlags vm pd va flags
  | .markCow pd va => pagingMarkCow vm pd va
  | .resolveCow pd va => pagingResolveCow vm pd va
  | .destroyAddressSpace pd => some (pagingDestroyAddressSpace vm pd)
  | .elsewhere vm => some vm

/-- For each address space and page number, what was established there last. -/
abbrev Pages := Nat → Nat → Option (Nat × Word)

def userFlags (flags : Word) : Word := (flags &&& pteFlagsMask) ||| ptePresent ||| pteUser

def Pages.put (pages : Pages) (pd page : Nat) (now : Option (Nat × Word)) : Pages :=
  Function.update pages pd (Function.update (pages pd) page now)

def Pages.alter (pages : Pages) (pd page : Nat) (change : Nat × Word → Nat × Word) : Pages :=
  pages.put pd page ((pages pd page).map change)

/-- The frame of a page that is resolved: its own for the last holder, or else a new one. -/
def resolvedFrame (vm : Vm) (frame : Nat) : Nat :=
  if pageRefcount vm.pages frame = 1 then frame
  else match pageAlloc vm.pages with
    | none => frame
    | some (_,page) => page

/-- What an operation that succeeds establishes. -/
def Operation.establish (vm : Vm) (pages : Pages) : Operation → Pages
  | .createAddressSpace => match pagingCreateAddressSpace vm with
    | none => pages
    | some (_,pd) => Function.update pages pd fun _ => none
  | .mapUserPageIn pd va pa flags => pages.put pd (va / pageSize) (some (pa,userFlags flags))
  | .setUserPageFlags pd va flags => pages.alter pd (va / pageSize) fun page => (page.1,userFlags flags)
  | .markCow pd va =>
    pages.alter pd (va / pageSize) fun page => (page.1,userFlags ((page.2 &&& ~~~pteWritable) ||| pteCow))
  | .resolveCow pd va =>
    pages.alter pd (va / pageSize) fun page =>
      (resolvedFrame vm page.1,userFlags ((page.2 ||| pteWritable) &&& ~~~pteCow))
  | .destroyAddressSpace pd => Function.update pages pd fun _ => none
  | .elsewhere _ => pages

structure Mapped where
  vm : Vm
  pages : Pages

def Mapped.step (t : Mapped) (operation : Operation) : Mapped :=
  match operation.perform t.vm with
  | none => t
  | some vm => ⟨vm,operation.establish t.vm t.pages⟩

/-- A page of user programs in a space that exists. -/
def Mapped.Place (t : Mapped) (pd va : Nat) : Prop := pd ∈ t.vm.spaces ∧ userFloor ≤ va ∧ va < userLimit

def Mapped.Proper (t : Mapped) : Operation → Prop
  | .createAddressSpace => True
  | .mapUserPageIn pd va pa _ => t.Place pd va ∧ pa < 2^32
  | .setUserPageFlags pd va _ | .markCow pd va | .resolveCow pd va => t.Place pd va
  | .destroyAddressSpace pd => pd ∈ t.vm.spaces
  | .elsewhere vm => Aside t.vm vm

/-- The space and the page that an operation is about. -/
def Operation.place : Operation → Option (Nat × Nat)
  | .mapUserPageIn pd va _ _ | .setUserPageFlags pd va _ | .markCow pd va | .resolveCow pd va => some (pd,va / pageSize)
  | _ => none

/-- What a directory entry maps for the kernel. -/
def supervisorEntry (pde : Word) : Word := if userTable pde then 0 else pde

structure Refines (t : Mapped) : Prop where
  translations : ∀ pd ∈ t.vm.spaces, ∀ va, pagingGetUserPage t.vm pd va = t.pages pd (va / pageSize)
  supervisor : ∀ pd ∈ t.vm.spaces, ∀ i < 4, ∀ j < 512,
    supervisorEntry (read t.vm.mem (pdPtr t.vm.mem pd i + 8 * j)) = kernelEntry t.vm i j

/-- An operation leaves every other page of every space as it is, and where it fails, all pages. -/
structure Isolates (t : Mapped) (operation : Operation) : Prop where
  others : ∀ pd ∈ t.vm.spaces, pd ∈ (t.step operation).vm.spaces → ∀ va, operation.place ≠ some (pd,va / pageSize) →
    pagingGetUserPage (t.step operation).vm pd va = pagingGetUserPage t.vm pd va
  failed : operation.perform t.vm = none → (t.step operation).vm = t.vm

/-- The invariant of all runs: the spaces are arranged and map what was established. -/
structure Agrees (role : Nat → Role) (t : Mapped) : Prop where
  arranged : Arranged role t.vm
  inside : ∀ pd ∈ t.vm.spaces, ∀ va < userLimit, mapping t.vm.mem pd va = t.pages pd (va / pageSize)
  outside : ∀ pd ∈ t.vm.spaces, ∀ page, userLimit / pageSize ≤ page → t.pages pd page = none

section Steps
variable {role : Nat → Role} {t : Mapped} (agrees : Agrees role t)
include agrees

theorem Agrees.refines : Refines t := by
  refine ⟨?_,?_⟩
  · intro pd member va
    by_cases high : va < userLimit
    · rw [pagingGetUserPage_mapping t.vm high (agrees.arranged.built pd member).nonzero]
      exact agrees.inside pd member va high
    · rw [pagingGetUserPage_outside t.vm (.inr (by omega)),agrees.outside pd member]
      exact Nat.div_le_div_right (by omega)
  · intro pd member i row j column
    have built := agrees.arranged.built pd member
    obtain ⟨_,frame⟩ := built.directory i row
    have entry : read t.vm.mem (pdPtr t.vm.mem pd i + 8 * j) = directoryEntry t.vm.mem pd i j := by
      rw [read_word t.vm.mem (pdPtr_aligned _ _ _) column,word,frame]
      rfl
    rw [entry,supervisorEntry]
    split_ifs with user
    · exact (built.tables i row j column user).2.symm
    · exact built.mirrored i row j column (by simpa using user)

/-- An edit of one page that is recorded as such. -/
theorem Agrees.edit {role' : Nat → Role} {vm : Vm} {pd va : Nat} {now : Option (Nat × Word)} (inside : va < userLimit)
    (edits : Edits role' t.vm vm pd va now) : Agrees role' ⟨vm,t.pages.put pd (va / pageSize) now⟩ := by
  refine ⟨edits.arranged,?_,?_⟩
  · intro other member va' inside'
    dsimp only at member ⊢
    rw [edits.spaces] at member
    rw [edits.mapping other member va' inside',Pages.put]
    by_cases own : other = pd
    · subst own
      rw [Function.update_self,Function.update_apply]
      simp only [true_and]
      rw [agrees.inside other member va' inside']
    · rw [if_neg fun both => own both.1,Function.update_of_ne own]
      exact agrees.inside other member va' inside'
  · intro other member page high
    dsimp only at member ⊢
    rw [edits.spaces] at member
    rw [Pages.put]
    by_cases own : other = pd
    · subst own
      rw [Function.update_self,Function.update_of_ne]
      · exact agrees.outside other member page high
      · rintro rfl
        simp only [userLimit,pageSize] at *
        omega
    · rw [Function.update_of_ne own]
      exact agrees.outside other member page high

end Steps

theorem resolved_flags (old : Word) : resolvedFlags old ||| ptePresent ||| pteUser =
    userFlags (((old &&& pteFlagsMask) ||| pteWritable) &&& ~~~pteCow) := by
  have bare : resolvedFlags old &&& pteFlagsMask = resolvedFlags old := resolvedFlags_bare old
  rw [userFlags,← resolvedFlags,bare]

section Operations
variable {role : Nat → Role} {vm vm' : Vm} {pd va : Nat} (arranged : Arranged role vm) (member : pd ∈ vm.spaces)
include arranged member

theorem pagingMapUserPageIn_edits {pa : Nat} {flags : Word} (low : userFloor ≤ va) (small : pa < 2^32)
    (done : pagingMapUserPageIn vm pd va pa flags = some vm') :
    ∃ role', Edits role' vm vm' pd va (some (pa,userFlags flags)) := by
  obtain ⟨_,inside,_,aligned,_,⟨t,table,rfl⟩ | ⟨missing,pages,t,allocated,rfl⟩⟩ := pagingMapUserPageIn_cases done
  all_goals rw [userFlags,← entryOf_leaf flags aligned small]
  · exact ⟨role,setEntry_edits arranged member inside table _⟩
  · exact ⟨_,newTable_edits arranged member inside low missing allocated _⟩

theorem pagingSetUserPageFlags_edits {flags : Word} (done : pagingSetUserPageFlags vm pd va flags = some vm') :
    va < userLimit ∧ ∃ page, mapping vm.mem pd va = some page ∧
      Edits role vm vm' pd va (some (page.1,userFlags flags)) := by
  unfold pagingSetUserPageFlags at done
  by_cases refused : pd = 0 ∨ va ≥ userLimit ∨ va % pageSize ≠ 0
  · rw [if_pos refused] at done
    cases done
  · have inside : va < userLimit := by omega
    rw [if_neg refused,pteSlot_table] at done
    cases table : tableOf vm.mem pd va with
    | none => simp [table] at done
    | some t =>
      have reads : Physical.read vm.mem (t + 8 * ptIndex va) = entryAt vm.mem t va :=
        read_word vm.mem (tableOf_aligned table) (ptIndex_small va)
      have here : mapping vm.mem pd va = leaf (entryAt vm.mem t va) := by
        rw [mapping,table]
        rfl
      simp only [table,Option.map_some,reads] at done
      split_ifs at done with user
      cases done
      refine ⟨inside,_,here.trans (if_pos user),?_⟩
      rw [userFlags,← leaf_userEntry (entryAt vm.mem t va) (bare_masked flags)]
      exact setEntry_edits arranged member inside table _

theorem pagingMarkCow_edits (done : pagingMarkCow vm pd va = some vm') :
    va < userLimit ∧ ∃ page, mapping vm.mem pd va = some page ∧
      Edits role vm vm' pd va (some (page.1,userFlags ((page.2 &&& ~~~pteWritable) ||| pteCow))) := by
  unfold pagingMarkCow at done
  cases found : pagingGetUserPage vm pd va with
  | none => simp [found] at done
  | some page =>
    obtain ⟨frame,flags⟩ := page
    simp only [found] at done
    split_ifs at done
    obtain ⟨inside,page,here,edits⟩ := pagingSetUserPageFlags_edits arranged member done
    have same : page = (frame,flags) := by
      rw [pagingGetUserPage_mapping vm inside (arranged.built pd member).nonzero,here] at found
      exact Option.some.inj found
    subst same
    exact ⟨inside,_,here,edits⟩

theorem pagingResolveCow_edits (done : pagingResolveCow vm pd va = some vm') :
    va < userLimit ∧ ∃ page, mapping vm.mem pd va = some page ∧
      Edits role vm vm' pd va
        (some (resolvedFrame vm page.1,userFlags ((page.2 ||| pteWritable) &&& ~~~pteCow))) := by
  obtain ⟨_,inside,_,t,table,present,_,⟨last,rfl⟩ | ⟨shared,pages,page,allocated,rfl⟩⟩ := pagingResolveCow_cases done
  all_goals
    have here : mapping vm.mem pd va = _ := (congrArg (Option.bind · _) table).trans present
    refine ⟨inside,_,here,?_⟩
    dsimp only
    generalize entryAt vm.mem t va = old at *
    rw [← resolved_flags old]
  · rw [resolvedFrame,if_pos last,← leaf_userEntry old (resolvedFlags_bare old)]
    exact setEntry_edits arranged member inside table _
  · obtain ⟨first,rfl,takes⟩ := pageAlloc_takes allocated
    have high : first < maxPages := takes.high
    obtain ⟨aligned,small,frame⟩ := table_address high
    obtain ⟨_,used,counted⟩ := pageRefcount_positive (by omega : 0 < pageRefcount vm.pages (ptPtr old))
    have free : isFree vm.pages first = true := takes.free first (Nat.le_refl _) (by omega)
    have references : 1 < pages.pageRefs (ptPtr old / pageSize) := by
      rw [takes.refs,if_neg]
      · omega
      · rintro ⟨low,below⟩
        rw [takes.free _ low below] at used
        cases used
    rw [frame]
    have in_use {f : Nat} (held : isFree vm.pages f = false) :
        Function.update vm.mem first (vm.mem (ptPtr old / pageSize)) f = vm.mem f ∧
          isFree (pageFree pages (ptPtr old)) f = false := by
      refine ⟨Function.update_of_ne ?_ _ _,(isFree_pageFree references f).trans (takes.taken held)⟩
      rintro rfl
      rw [free] at held
      cases held
    have beside : Beside role vm {vm with
        pages := pageFree pages (ptPtr old)
        mem := Function.update vm.mem first (vm.mem (ptPtr old / pageSize))} := by
      refine ⟨rfl,rfl,rfl,?_⟩
      rintro f (part | kernel)
      · exact in_use (arranged.kept f part)
      · exact in_use (arranged.supervisor.used f kernel)
    have tables : tableOf (Function.update vm.mem first (vm.mem (ptPtr old / pageSize))) pd va = some t := by
      rw [← table]
      apply tableOf_congr (arranged.built pd member).shaped _ _ inside
      · exact fun f root => beside.part f (by rw [root]; rfl)
      · exact fun f i directory => beside.part f (by rw [directory]; rfl)
    have entry := leaf_userEntry (BitVec.ofNat 64 (first * pageSize)) (resolvedFlags_bare old)
    rw [ptPtr_ofNat aligned small] at entry
    rw [resolvedFrame,if_neg (by omega),allocated]
    dsimp only
    rw [← entry]
    obtain ⟨spaces,final,mappings⟩ := setEntry_edits (beside.arranged arranged) member inside tables
      (userEntry (BitVec.ofNat 64 (first * pageSize)) (resolvedFlags old))
    refine ⟨spaces,final,?_⟩
    intro other here va' inside'
    rw [mappings other here va' inside',beside.mapping arranged here inside']

end Operations

section Runs
variable {role : Nat → Role} {t : Mapped}

theorem Agrees.alter {role' : Nat → Role} {vm : Vm} {pd va : Nat} {page : Nat × Word}
    {change : Nat × Word → Nat × Word} (agrees : Agrees role t) (member : pd ∈ t.vm.spaces) (inside : va < userLimit)
    (here : mapping t.vm.mem pd va = some page) (edits : Edits role' t.vm vm pd va (some (change page))) :
    Agrees role' ⟨vm,t.pages.alter pd (va / pageSize) change⟩ := by
  rw [Pages.alter,← agrees.inside pd member va inside,here]
  exact agrees.edit inside edits

theorem Agrees.create {role' : Nat → Role} {vm : Vm} {pd : Nat} (agrees : Agrees role t)
    (creates : Creates role' t.vm vm pd) : Agrees role' ⟨vm,Function.update t.pages pd fun _ => none⟩ := by
  have old {other : Nat} (member : other ∈ t.vm.spaces) : other ≠ pd := by
    rintro rfl
    exact creates.new member
  refine ⟨creates.arranged,?_,?_⟩
  · intro other member va inside
    dsimp only at member ⊢
    rw [creates.spaces] at member
    rcases List.mem_cons.mp member with rfl | member
    · rw [Function.update_self]
      exact creates.empty va inside
    · rw [Function.update_of_ne (old member),creates.others other member va inside]
      exact agrees.inside other member va inside
  · intro other member page high
    dsimp only at member ⊢
    rw [creates.spaces] at member
    rcases List.mem_cons.mp member with rfl | member
    · rw [Function.update_self]
    · rw [Function.update_of_ne (old member)]
      exact agrees.outside other member page high

theorem Agrees.destroy {role' : Nat → Role} {vm : Vm} {pd : Nat} (agrees : Agrees role t)
    (destroys : Destroys role' t.vm vm pd) : Agrees role' ⟨vm,Function.update t.pages pd fun _ => none⟩ := by
  refine ⟨destroys.arranged,?_,?_⟩
  · intro other left va inside
    obtain ⟨member,apart⟩ := (destroys.spaces other).mp left
    dsimp only
    rw [Function.update_of_ne apart,destroys.others other member apart va inside]
    exact agrees.inside other member va inside
  · intro other left page high
    obtain ⟨member,apart⟩ := (destroys.spaces other).mp left
    dsimp only
    rw [Function.update_of_ne apart]
    exact agrees.outside other member page high

theorem Agrees.beside {vm : Vm} (agrees : Agrees role t) (aside : Aside t.vm vm) :
    Agrees (linked role t.vm) ⟨vm,t.pages⟩ := by
  have arranged := agrees.arranged.linked
  have beside : Beside (linked role t.vm) t.vm vm := aside.beside
  refine ⟨beside.arranged arranged,?_,?_⟩
  · intro other member va inside
    dsimp only at member ⊢
    rw [aside.spaces] at member
    rw [beside.mapping arranged member inside]
    exact agrees.inside other member va inside
  · intro other member page high
    dsimp only at member ⊢
    rw [aside.spaces] at member
    exact agrees.outside other member page high

theorem Mapped.step_failed {operation : Operation} (failed : operation.perform t.vm = none) : t.step operation = t := by
  rw [Mapped.step,failed]

/-- One case for each operation. -/
theorem Agrees.step {operation : Operation} (agrees : Agrees role t) (proper : t.Proper operation) :
    ∃ role', Agrees role' (t.step operation) := by
  cases performed : operation.perform t.vm with
  | none =>
    rw [Mapped.step_failed performed]
    exact ⟨role,agrees⟩
  | some vm =>
    rw [Mapped.step,performed]
    dsimp only
    cases operation with
    | createAddressSpace =>
      obtain ⟨⟨vm,pd⟩,made,rfl⟩ := Option.map_eq_some_iff.mp performed
      obtain ⟨role',creates⟩ := pagingCreateAddressSpace_creates agrees.arranged made
      rw [Operation.establish,made]
      exact ⟨role',agrees.create creates⟩
    | mapUserPageIn pd va pa flags =>
      obtain ⟨⟨member,low,inside⟩,small⟩ := proper
      obtain ⟨role',edits⟩ := pagingMapUserPageIn_edits agrees.arranged member low small performed
      exact ⟨role',agrees.edit inside edits⟩
    | setUserPageFlags pd va flags =>
      obtain ⟨inside,page,here,edits⟩ := pagingSetUserPageFlags_edits agrees.arranged proper.1 performed
      exact ⟨role,agrees.alter proper.1 inside here edits⟩
    | markCow pd va =>
      obtain ⟨inside,page,here,edits⟩ := pagingMarkCow_edits agrees.arranged proper.1 performed
      exact ⟨role,agrees.alter proper.1 inside here edits⟩
    | resolveCow pd va =>
      obtain ⟨inside,page,here,edits⟩ := pagingResolveCow_edits agrees.arranged proper.1 performed
      exact ⟨role,agrees.alter proper.1 inside here edits⟩
    | destroyAddressSpace pd =>
      cases performed
      exact ⟨_,agrees.destroy (pagingDestroyAddressSpace_destroys agrees.arranged proper)⟩
    | elsewhere vm' =>
      cases performed
      exact ⟨_,agrees.beside proper⟩

/-- What an operation establishes is about the page it is about, or about a space that is new or gone. -/
theorem Agrees.establish {operation : Operation} (agrees : Agrees role t) {pd page : Nat}
    (before : pd ∈ t.vm.spaces) (after : pd ∈ (t.step operation).vm.spaces)
    (other : operation.place ≠ some (pd,page)) : operation.establish t.vm t.pages pd page = t.pages pd page := by
  have apart {pd' page' : Nat} (place : operation.place = some (pd',page')) (now : Option (Nat × Word)) :
      t.pages.put pd' page' now pd page = t.pages pd page := by
    rw [place] at other
    rw [Pages.put]
    by_cases own : pd = pd'
    · subst own
      rw [Function.update_self,Function.update_of_ne]
      rintro rfl
      exact other rfl
    · rw [Function.update_of_ne own]
  cases operation with
  | createAddressSpace =>
    unfold Operation.establish
    cases made : pagingCreateAddressSpace t.vm with
    | none => rfl
    | some result =>
      obtain ⟨vm,pd'⟩ := result
      obtain ⟨_,creates⟩ := pagingCreateAddressSpace_creates agrees.arranged made
      dsimp only
      rw [Function.update_of_ne]
      rintro rfl
      exact creates.new before
  | destroyAddressSpace pd' =>
    refine congrFun (Function.update_of_ne ?_ _ _) page
    rintro rfl
    exact (((pagingDestroyAddressSpace_destroys agrees.arranged before).spaces pd).mp after).2 rfl
  | elsewhere vm => rfl
  | mapUserPageIn pd' va pa flags => exact apart rfl _
  | setUserPageFlags pd' va flags => exact apart rfl _
  | markCow pd' va => exact apart rfl _
  | resolveCow pd' va => exact apart rfl _

theorem Agrees.isolates {operation : Operation} (agrees : Agrees role t) (proper : t.Proper operation) :
    Isolates t operation := by
  refine ⟨?_,fun failed => by rw [Mapped.step_failed failed]⟩
  intro pd before after va other
  obtain ⟨role',agrees'⟩ := agrees.step proper
  rw [agrees'.refines.translations pd after va,agrees.refines.translations pd before va]
  cases performed : operation.perform t.vm with
  | none => rw [Mapped.step_failed performed]
  | some vm =>
    have recorded : (t.step operation).pages = operation.establish t.vm t.pages := by rw [Mapped.step,performed]
    rw [recorded]
    exact agrees.establish before after other

/-- Before the first address space. -/
def Mapped.initial (vm : Vm) : Mapped := ⟨vm,fun _ _ => none⟩

theorem bootVm_agrees {image : Image} {m : Mem} {bytes : Nat → Byte} {mi fuel : Nat} {a : Allocator}
    (booted : Frames.memoryInit bytes mi image.start image.finish fuel = some a) :
    Agrees (fun _ => .data) (.initial (bootVm image m a)) := by
  refine ⟨⟨?_,bootVm_supervisor booted,fun _ _ => rfl,nofun⟩,nofun,nofun⟩
  intro f part
  exact absurd rfl part

/-- Whatever the spaces and the pages, the order and the failures: the tables are the finite
map of what was established last. -/
theorem tables_refine {image : Image} {m : Mem} {bytes : Nat → Byte} {mi fuel : Nat} {a : Allocator}
    {operations : List Operation} (booted : Frames.memoryInit bytes mi image.start image.finish fuel = some a)
    (proper : Meets Mapped.step Mapped.Proper (.initial (bootVm image m a)) operations) :
    Refines (run Mapped.step (.initial (bootVm image m a)) operations) ∧
      ∀ operation, (run Mapped.step (.initial (bootVm image m a)) operations).Proper operation →
        Isolates (run Mapped.step (.initial (bootVm image m a)) operations) operation := by
  have preserved (t : Mapped) (operation : Operation) (kept : ∃ role, Agrees role t) (proper : t.Proper operation) :
      ∃ role, Agrees role (t.step operation) := by
    obtain ⟨role,agrees⟩ := kept
    exact agrees.step proper
  obtain ⟨role,agrees⟩ := proper.invariant preserved ⟨_,bootVm_agrees booted⟩
  exact ⟨agrees.refines,fun operation proper => agrees.isolates proper⟩

end Runs

/-- A machine with eight available pages above the reserved ones. -/
def eightPages : Nat → Byte := Function.update Frames.onePage 33 0x80

def smallImage : Image where
  start := 0x100000
  finish := 0x300000
  pageRoot := 0x100000
  kernelPd := 0x101000
  identityPt := 0x105000
  kernelMmioPt := 0x185000
  small := by decide
  aligned := by decide
  within := by decide
  apart := by decide

theorem eightPages_boots : ∃ a, Frames.memoryInit eightPages 0 smallImage.start smallImage.finish 8 = some a ∧
    Frames.FreeRun a processPagingPages reservedPages := by
  have mapped : ((Frames.forTags eightPages (Frames.mmapTag eightPages 8) 48 8 8
      ⟨fun _ => 0xFFFFFFFF#32,fun _ => 0,0,0⟩).map
        fun a => (List.range processPagingPages).all fun i => isFree a (reservedPages + i)) = some true := by
    decide +kernel
  obtain ⟨a,scanned,free⟩ := Option.map_eq_some_iff.mp mapped
  have modules (a : Allocator) : Frames.forTags eightPages (Frames.moduleTag eightPages) 48 8 8 a = some a := rfl
  refine ⟨Frames.reserveRange (Frames.reserveRange (Frames.reserveRange a 0 (reservedPages * pageSize))
    0x100000 0x300000) 0 48,?_,?_⟩
  · unfold Frames.memoryInit
    rw [show Frames.read32 eightPages 0 = 48 from rfl]
    simp only [Nat.zero_add,scanned,modules]
    rfl
  · refine ⟨by decide,by decide,by decide,?_⟩
    intro p low high
    have above {a : Allocator} {first last : Nat} (small : Frames.alignUp last ≤ reservedPages * pageSize) :
        isFree (Frames.reserveRange a first last) p = isFree a p := Frames.reserveRange_above small low
    rw [above (by decide),above (by decide),above (by decide)]
    have here := List.all_eq_true.mp free (p - reservedPages) (List.mem_range.mpr (by omega))
    rwa [Nat.add_sub_cancel' low] at here

/-- A page of a first program. -/
theorem first_page_refined : ∃ a, Frames.memoryInit eightPages 0 smallImage.start smallImage.finish 8 = some a ∧
    Refines (run Mapped.step (.initial (bootVm smallImage (fun _ => zeroPage) a))
      [.createAddressSpace,.mapUserPageIn 0x800000 0x10000000 0x807000 pteWritable]) := by
  obtain ⟨a,booted,free⟩ := eightPages_boots
  refine ⟨a,booted,(tables_refine booted ?_).1⟩
  obtain ⟨pages,allocated,_⟩ := Frames.freeRun_taken free
  have spaces : (Mapped.step (.initial (bootVm smallImage (fun _ => zeroPage) a)) .createAddressSpace).vm.spaces =
      [0x800000] := by
    simp only [Mapped.step,Operation.perform,pagingCreateAddressSpace,Mapped.initial,bootVm,allocated,Option.map_some]
    rfl
  refine ⟨trivial,⟨⟨?_,by decide,by decide⟩,by decide⟩,trivial⟩
  rw [spaces]
  exact List.mem_singleton_self _

end LionOS.Paging
