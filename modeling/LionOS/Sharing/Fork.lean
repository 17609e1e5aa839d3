import LionOS.Sharing.Lifecycle
import LionOS.Spaces.Marks

/-! A fork that fails: what its two loops have done until then and how much of it the
rollback undoes. -/
namespace LionOS.Processes
open LionOS.Memory LionOS.Physical LionOS.Paging LionOS.Frames LionOS.Exec LionOS.Calls

/-- The number of page tables that a space with these pages has. -/
def tableCount (vas : List Nat) : Nat := (vas.map (· / 2^21)).toFinset.card

theorem tableCount_append (vas rest : List Nat) : tableCount vas ≤ tableCount (vas ++ rest) := by
  refine Finset.card_le_card fun region member => ?_
  rw [List.mem_toFinset] at member ⊢
  rw [List.map_append]
  exact List.mem_append_left _ member

theorem tableCount_one (vas : List Nat) (va : Nat) :
    tableCount (vas ++ [va]) = tableCount vas + if va / 2^21 ∈ vas.map (· / 2^21) then 0 else 1 := by
  have grown : ((vas ++ [va]).map (· / 2^21)).toFinset = insert (va / 2^21) (vas.map (· / 2^21)).toFinset := by
    ext region
    simp
  rw [tableCount,tableCount,grown]
  split
  next old => rw [Finset.insert_eq_of_mem (List.mem_toFinset.mpr old),Nat.add_zero]
  next new => rw [Finset.card_insert_of_notMem (mt List.mem_toFinset.mp new)]

def userVas (p : Process) : List Nat := (List.range p.userPageCount).map p.userPageVas

/-- The pages are handed out, and no more often counted than there can be user pages. -/
def Referenced (vm : Vm) (pd : Nat) (vas : List Nat) : Prop :=
  ∀ va ∈ vas, ∀ page flags, pagingGetUserPage vm pd va = some (page,flags) →
    managed page = true ∧ isFree vm.pages (page / pageSize) = false ∧ vm.pages.pageRefs (page / pageSize) ≠ 0 ∧
      vm.pages.pageRefs (page / pageSize) ≤ processMax * maxUserPages

/-- The allocator, the address space of the task and its list of pages are as the kernel keeps
them: in an entry are an address and flags, and no page is listed twice. -/
structure Forkable (role : Nat → Role) (s : System) (p : Process) : Prop where
  regular : Regular (s.vm.pageRoot / pageSize) s.vm.pages
  kept : Paging.Kept role s.vm.pages
  shaped : Shaped role s.vm.mem p.pageDirectory
  few : p.userPageCount ≤ maxUserPages
  distinct : ((userVas p).map (· / pageSize)).Nodup
  counted : Referenced s.vm p.pageDirectory (userVas p)
  tidy : ∀ va ∈ userVas p, ∀ t, tableOf s.vm.mem p.pageDirectory va = some t →
    word s.vm.mem t (ptIndex va) = userEntry (word s.vm.mem t (ptIndex va)) (word s.vm.mem t (ptIndex va) &&& pteFlagsMask)

/-- All pages can be mapped a second time. -/
def Shareable (vm : Vm) (pd : Nat) (vas : List Nat) : Prop :=
  (∀ va ∈ vas, pagingGetUserPage vm pd va ≠ none ∧ va % pageSize = 0) ∧
    processPagingPages + tableCount vas ≤ vm.pages.freePages

def writablePage (vm : Vm) (pd va : Nat) : Bool :=
  match pagingGetUserPage vm pd va with
  | none => false
  | some (_,flags) => has flags pteWritable

/-- Every writable page stands before every page that is not. -/
def WritableFirst (vm : Vm) (pd : Nat) (vas : List Nat) : Prop :=
  vas.Pairwise fun va later => writablePage vm pd later = true → writablePage vm pd va = true

/-- The fork comes as far as the child's kernel stack. -/
def Arrives (s : System) (c : Slot) : Prop :=
  c ≠ bootstrap ∧ (s.processes c).userPageCount ≠ 0 ∧ findFreeSlot s ≠ none ∧
    pageAllocContiguous s.vm.pages processPagingPages ≠ none ∧
    Shareable s.vm (s.processes c).pageDirectory (userVas (s.processes c))

/-- No frame is left for the kernel stack and the list of pages is mixed, or there is one and
the child gets the pid that stands for an error. -/
def Spoils (s : System) (c : Slot) : Prop :=
  Arrives s c ∧
    (s.vm.pages.freePages = processPagingPages + tableCount (userVas (s.processes c)) ∧
        ¬ WritableFirst s.vm (s.processes c).pageDirectory (userVas (s.processes c)) ∨
      processPagingPages + tableCount (userVas (s.processes c)) < s.vm.pages.freePages ∧ s.nextPid = syscallErr)

/-! ### The first loop -/

theorem Shaped.resident {role : Nat → Role} {vm : Vm} {pd : Nat} (shaped : Shaped role vm.mem pd) (kept : Paging.Kept role vm.pages) :
    Resident vm pd := by
  refine ⟨shaped.aligned,kept _ ?_,?_,?_⟩
  · rw [shaped.root]
    nofun
  · intro va inside nonnull
    refine kept _ ?_
    rw [shaped.directories va inside nonnull]
    nofun
  · intro va inside t table
    refine kept _ ?_
    rw [shaped.tables va inside t table]
    nofun

/-- The frames that the child shares with its parent. -/
def sharedFrames (shared : List ForkPage) : List Nat := shared.map fun p => p.page / pageSize

/-- The first loop has come as far as `shared`. -/
structure Shared (vm₀ : Vm) (parentPd pd : Nat) (shared : List ForkPage) (vm : Vm) : Prop where
  loan : Loan vm₀ vm pd ↑(sharedFrames shared)
  spares : Paging.Spares vm₀ vm₀ vm
  directory : vm.currentDirectory = vm₀.currentDirectory
  pages : ∀ p ∈ shared, pagingGetUserPage vm₀ parentPd p.va = some (p.page,p.flags) ∧ p.va % pageSize = 0
  tables : ∀ va < userLimit, tableOf vm.mem pd va = none ↔ va / 2^21 ∉ (shared.map ForkPage.va).map (· / 2^21)
  counter : vm.pages.freePages + (processPagingPages + tableCount (shared.map ForkPage.va)) = vm₀.pages.freePages

section Share
variable {vm₀ vm vm' : Vm} {parentPd pd : Nat} {shared : List ForkPage}

theorem created_shared (agrees : Agrees vm₀.pages) (made : pagingCreateAddressSpace vm₀ = some (vm,pd)) :
    Shared vm₀ parentPd pd [] vm := by
  obtain ⟨loan,spares⟩ := pagingCreateAddressSpace_loan (.refl agrees) rfl made
  unfold pagingCreateAddressSpace at made
  cases allocated : pageAllocContiguous vm₀.pages processPagingPages with
  | none => simp [allocated] at made
  | some result =>
    obtain ⟨pages,base⟩ := result
    simp only [allocated] at made
    cases made
    obtain ⟨first,rfl,takes⟩ := pageAllocContiguous_takes allocated
    obtain ⟨_,none⟩ := newDirectory_grown vm₀ takes.positive takes.high
    refine ⟨loan,spares,rfl,by simp,?_,pageAllocContiguous_counter agrees allocated⟩
    intro va inside
    refine ⟨fun _ => by simp,fun _ => ?_⟩
    by_contra present
    obtain ⟨t,table⟩ := Option.ne_none_iff_exists'.mp present
    have member := loan.grown.table_member inside table
    rw [none] at member
    cases member

/-- One more page is shared. -/
theorem Shared.page {va page : Nat} {flags flags' : Word} (earlier : Shared vm₀ parentPd pd shared vm)
    (few : shared.length < maxUserPages) (found : pagingGetUserPage vm₀ parentPd va = some (page,flags))
    (held : managed page = true ∧ isFree vm₀.pages (page / pageSize) = false ∧ vm₀.pages.pageRefs (page / pageSize) ≠ 0 ∧
      vm₀.pages.pageRefs (page / pageSize) ≤ processMax * maxUserPages)
    (mapped : pagingMapUserPageIn vm pd va page flags' = some vm') :
    Shared vm₀ parentPd pd (shared ++ [⟨va,page,flags⟩]) {vm' with pages := pageRetain vm'.pages page} := by
  obtain ⟨own,used,positive,bounded⟩ := held
  simp only [managed,Bool.and_eq_true,decide_eq_true_eq] at own
  obtain ⟨⟨aligned,low⟩,high⟩ := own
  obtain ⟨loan,spares⟩ := earlier.loan.map mapped
  obtain ⟨tables,counter⟩ := earlier.loan.map_tables mapped
  obtain ⟨_,inside,place,_⟩ := pagingMapUserPageIn_cases mapped
  have whole : page / pageSize * pageSize = page := Nat.div_mul_cancel (Nat.dvd_of_mod_eq_zero aligned)
  have frames : sharedFrames (shared ++ [⟨va,page,flags⟩]) = sharedFrames shared ++ [page / pageSize] := by
    rw [sharedFrames,List.map_append,List.map_singleton,sharedFrames]
  have room : vm'.pages.pageRefs (page / pageSize) < 0xFFFF := by
    have apart : page / pageSize ∉ spaceOwed vm'.mem pd := by
      intro member
      rw [loan.new _ member] at used
      cases used
    have times : (sharedFrames shared).count (page / pageSize) ≤ shared.length := by
      refine List.count_le_length.trans (Nat.le_of_eq ?_)
      rw [sharedFrames,List.length_map]
    rw [loan.lent.refs,Multiset.count_add,Multiset.count_eq_zero_of_notMem apart,Multiset.coe_count]
    simp only [processMax,maxUserPages] at *
    omega
  have lent := loan.lent.retain low high ⟨used,positive⟩ room
  rw [whole] at lent
  have more : (↑(sharedFrames (shared ++ [⟨va,page,flags⟩])) : Multiset Nat) = page / pageSize ::ₘ ↑(sharedFrames shared) := by
    rw [frames,Multiset.cons_coe,Multiset.coe_eq_coe]
    exact List.perm_append_singleton _ _
  refine ⟨loan.congr (fun _ _ => rfl) ?_,earlier.spares.trans spares,
    (pagingMapUserPageIn_directory mapped).trans earlier.directory,?_,?_,?_⟩
  · rw [more,Multiset.add_cons]
    exact lent
  · intro p member
    rcases List.mem_append.mp member with old | new
    · exact earlier.pages p old
    · rw [List.mem_singleton.mp new]
      exact ⟨found,place⟩
  · intro va' inside'
    dsimp only
    rw [tables va' inside',earlier.tables va' inside',List.map_append,List.map_append,List.mem_append,not_or]
    simp
  · have counter' : (pageRetain vm'.pages page).freePages = vm'.pages.freePages := by
      unfold pageRetain
      dsimp only
      split <;> rfl
    have before := earlier.counter
    have region := earlier.tables va inside
    dsimp only
    rw [counter',List.map_append,List.map_singleton,tableCount_one]
    by_cases missing : tableOf vm.mem pd va = none
    · rw [if_pos missing] at counter
      rw [if_neg (region.mp missing)]
      omega
    · rw [if_neg missing] at counter
      rw [if_pos (not_not.mp (mt region.mpr missing))]
      omega

/-- The first loop ends with all pages where they can all be mapped, and otherwise fails. -/
theorem forkShare_shared {rest : List Nat} {shared' : List ForkPage} {ok : Bool} (resident : Resident vm₀ parentPd)
    (reserved : ∀ p < reservedPages, isFree vm₀.pages p = false) (counted : Referenced vm₀ parentPd rest)
    (few : shared.length + rest.length ≤ maxUserPages) (earlier : Shared vm₀ parentPd pd shared vm)
    (done : forkShare parentPd pd rest vm shared = (vm',shared',ok)) : Shared vm₀ parentPd pd shared' vm' ∧
      (ok = true → shared'.map ForkPage.va = shared.map ForkPage.va ++ rest) ∧
      (ok = true ↔ (∀ va ∈ rest, pagingGetUserPage vm₀ parentPd va ≠ none ∧ va % pageSize = 0) ∧
        processPagingPages + tableCount (shared.map ForkPage.va ++ rest) ≤ vm₀.pages.freePages) := by
  induction rest generalizing shared vm with
  | nil =>
    cases done
    have counter := earlier.counter
    refine ⟨earlier,fun _ => (List.append_nil _).symm,?_⟩
    rw [List.append_nil]
    exact ⟨fun _ => ⟨by simp,by omega⟩,fun _ => rfl⟩
  | cons va rest ih =>
    unfold forkShare at done
    rw [resident.translations earlier.spares va] at done
    cases found : pagingGetUserPage vm₀ parentPd va with
    | none =>
      simp only [found] at done
      cases done
      refine ⟨earlier,by simp,by simp,fun both => ?_⟩
      exact absurd found (both.1 va List.mem_cons_self).1
    | some result =>
      obtain ⟨page,flags⟩ := result
      have held := counted va List.mem_cons_self page flags found
      simp only [found] at done
      cases mapped : pagingMapUserPageIn vm pd va page (shareFlags flags) with
      | none =>
        simp only [mapped] at done
        cases done
        refine ⟨earlier,by simp,by simp,fun both => ?_⟩
        have own := held.1
        simp only [managed,Bool.and_eq_true,decide_eq_true_eq] at own
        obtain ⟨inside,_⟩ := pagingGetUserPage_bounds found
        obtain ⟨directory,_⟩ := earlier.loan.grown.directory (pdptIndex_row inside)
        obtain ⟨missing,exhausted⟩ := pagingMapUserPageIn_fails earlier.loan.grown.nonzero inside
          (both.1 va List.mem_cons_self).2 own.1.1 mapped directory
        have zero := (earlier.loan.lent.exhausted reserved).mp exhausted
        have new := (earlier.tables va inside).mp missing
        have more := tableCount_append (shared'.map ForkPage.va ++ [va]) rest
        rw [tableCount_one,if_neg new,List.append_assoc,List.singleton_append] at more
        have counter := earlier.counter
        have enough := both.2
        omega
      | some next =>
        simp only [mapped] at done
        have later := earlier.page (by rw [List.length_cons] at few; omega) found held mapped
        have list : (shared ++ [(⟨va,page,flags⟩ : ForkPage)]).map ForkPage.va ++ rest = shared.map ForkPage.va ++ va::rest := by
          simp
        obtain ⟨last,all,succeeds⟩ := ih (fun va' member => counted va' (List.mem_cons_of_mem va member))
          (by rw [List.length_append,List.length_singleton]; rw [List.length_cons] at few; omega) later done
        rw [list] at all succeeds
        refine ⟨last,all,succeeds.trans ?_⟩
        obtain ⟨_,_,place,_⟩ := pagingMapUserPageIn_cases mapped
        constructor
        · rintro ⟨pages,enough⟩
          refine ⟨fun va' member => ?_,enough⟩
          rcases List.mem_cons.mp member with rfl | tail
          · rw [found]
            exact ⟨by simp,place⟩
          · exact pages va' tail
        · rintro ⟨pages,enough⟩
          exact ⟨fun va' member => pages va' (List.mem_cons_of_mem va member),enough⟩

end Share

/-! ### The second loop and what is restored of it -/

def cells (m : Mem) (pd : Nat) (l : List ForkPage) : Set (Nat × Nat) := {x | ∃ p ∈ l, x = cell m pd p.va}

def ForkPage.writable (p : ForkPage) : Bool := has p.flags pteWritable

section Flags
variable {role : Nat → Role} {m : Mem} {vm vm' : Vm} {pd : Nat} {marks : Set (Nat × Nat)} {l : List ForkPage}

theorem cells_cons (m : Mem) (pd : Nat) (p : ForkPage) (l : List ForkPage) :
    cells m pd (p::l) = insert (cell m pd p.va) (cells m pd l) := by
  ext x
  simp [cells]

theorem cells_nil (m : Mem) (pd : Nat) : cells m pd [] = ∅ := by
  ext x
  simp [cells]

variable (shaped : Shaped role m pd) (root : pd ≠ 0) (entered : ∀ p ∈ l, Entered m pd p.va p.flags)
include shaped root entered

/-- The second loop does not fail: it marks every writable page. -/
theorem forkProtect_marked {cowed cowed' : Nat} {ok : Bool} (leaves : Leaves role pd marks)
    (marked : Marked shareFlags m vm.mem marks) (done : forkProtect pd l vm cowed = (vm',cowed',ok)) :
    ok = true ∧ cowed' = cowed + l.countP ForkPage.writable ∧ vm' = {vm with mem := vm'.mem} ∧
      Marked shareFlags m vm'.mem (marks ∪ cells m pd (l.filter ForkPage.writable)) ∧
      Leaves role pd (marks ∪ cells m pd (l.filter ForkPage.writable)) := by
  induction l generalizing vm cowed marks with
  | nil =>
    cases done
    rw [List.filter_nil,cells_nil,Set.union_empty]
    exact ⟨rfl,rfl,rfl,marked,leaves⟩
  | cons p rest ih =>
    have later (q : ForkPage) (member : q ∈ rest) := entered q (List.mem_cons_of_mem p member)
    unfold forkProtect at done
    by_cases writable : has p.flags pteWritable = true
    · obtain ⟨next,set,same,marked',leaves'⟩ := marked.mark leaves shaped root (entered p List.mem_cons_self)
      rw [if_pos writable] at done
      simp only [set] at done
      obtain ⟨passed,count,last,marks',leaves''⟩ := ih later leaves' marked' done
      have sets : insert (cell m pd p.va) marks ∪ cells m pd (rest.filter ForkPage.writable) =
          marks ∪ cells m pd ((p::rest).filter ForkPage.writable) := by
        rw [List.filter_cons_of_pos (p := ForkPage.writable) writable,cells_cons,Set.insert_union,Set.union_insert]
      rw [sets] at marks' leaves''
      refine ⟨passed,?_,?_,marks',leaves''⟩
      · rw [count,List.countP_cons_of_pos (p := ForkPage.writable) writable]
        omega
      · rw [last,same]
    · rw [if_neg writable] at done
      rw [List.filter_cons_of_neg (p := ForkPage.writable) writable,List.countP_cons_of_neg (p := ForkPage.writable) writable]
      exact ih later leaves marked done

/-- The restored pages lose their marks. -/
theorem restored_marked (leaves : Leaves role pd marks) (marked : Marked shareFlags m vm.mem marks) :
    ∃ m', l.foldl (fun vm p => (pagingSetUserPageFlags vm pd p.va p.flags).getD vm) vm = {vm with mem := m'} ∧
      Marked shareFlags m m' (marks \ cells m pd l) := by
  induction l generalizing vm marks with
  | nil =>
    rw [cells_nil,Set.sdiff_empty]
    exact ⟨vm.mem,rfl,marked⟩
  | cons p rest ih =>
    obtain ⟨next,set,same,marked'⟩ := marked.unmark leaves shaped root (entered p List.mem_cons_self)
    obtain ⟨m',last,marks'⟩ := ih (fun q member => entered q (List.mem_cons_of_mem p member))
      (fun x member => leaves x member.1) marked'
    rw [Set.sdiff_sdiff,Set.singleton_union,← cells_cons] at marks'
    refine ⟨m',?_,marks'⟩
    rw [List.foldl_cons,set,Option.getD_some,last,same]

end Flags

/-- As many pages from the front of the list as it has writable ones are all of those exactly if
no other page stands before one. -/
theorem front_writable {α : Type} (w : α → Bool) (l : List α) :
    l.Pairwise (fun a b => w b = true → w a = true) ↔ ∀ a ∈ l.drop (l.countP w), w a = false := by
  induction l with
  | nil => simp
  | cons a rest ih =>
    rw [List.pairwise_cons,ih]
    by_cases writable : w a = true
    · rw [List.countP_cons_of_pos writable,List.drop_succ_cons]
      exact ⟨And.right,fun tail => ⟨fun _ _ _ => writable,tail⟩⟩
    · rw [List.countP_cons_of_neg writable]
      rw [Bool.not_eq_true] at writable
      constructor
      · rintro ⟨first,_⟩
        have none (b : α) (member : b ∈ rest) : w b = false := by
          by_contra other
          rw [Bool.not_eq_false] at other
          rw [first b member other] at writable
          cases writable
        have zero : rest.countP w = 0 := List.countP_eq_zero.mpr fun b member => by simp [none b member]
        rw [zero,List.drop_zero]
        intro b member
        rcases List.mem_cons.mp member with rfl | tail
        · exact writable
        · exact none b tail
      · intro last
        cases count : rest.countP w with
        | zero =>
          have none (b : α) (member : b ∈ rest) : w b = false := by
            simpa using List.countP_eq_zero.mp count b member
          refine ⟨fun b member own => ?_,fun b member => none b (List.mem_of_mem_drop member)⟩
          rw [none b member] at own
          cases own
        | succ n =>
          rw [count,List.drop_succ_cons] at last
          have tail : (rest.drop n).countP w = 0 := List.countP_eq_zero.mpr fun b member => by simp [last b member]
          have split : rest.countP w = (rest.take n).countP w + (rest.drop n).countP w := by
            rw [← List.countP_append,List.take_append_drop]
          rw [count,tail] at split
          have short := (List.countP_le_length (p := w) (l := rest.take n)).trans (List.length_take_le n rest)
          omega

/-! ### When a failed fork is clean -/

theorem shareFlags_bare {flags : Word} (bare : Bare flags) : Bare (shareFlags flags) := by
  unfold shareFlags
  split
  · rw [Bare,BitVec.and_or_distrib_right,BitVec.and_assoc,BitVec.and_comm (~~~pteWritable),← BitVec.and_assoc,bare,
      show pteCow &&& pteFlagsMask = pteCow by decide]
  · exact bare

/-- A marked entry differs from the one that was writable. -/
theorem shareFlags_read (entry : Word) : has (userEntry entry (shareFlags (entry &&& pteFlagsMask) &&& pteFlagsMask)) pteWritable = false := by
  have bare : shareFlags (entry &&& pteFlagsMask) &&& pteFlagsMask = shareFlags (entry &&& pteFlagsMask) :=
    shareFlags_bare (bare_masked entry)
  rw [has_userEntry _ (by decide),bare,shareFlags]
  split
  next =>
    rw [has_or,has,BitVec.and_assoc,show ~~~pteWritable &&& pteWritable = 0#64 by decide,BitVec.and_zero]
    decide
  next absent =>
    rw [Bool.not_eq_true] at absent
    rw [absent]
    decide

section Fork
variable {role : Nat → Role} {s : System} {c : Slot} {vm : Vm} {pd : Nat} {shared : List ForkPage} {marks : Set (Nat × Nat)} {m : Mem}

theorem Shared.vacant (earlier : Shared s.vm (s.processes c).pageDirectory pd shared vm) {k : Nat} (bound : k < processPagingPages) :
    isFree s.vm.pages (pd / pageSize + k) = true := earlier.loan.new _ (block_owed vm.mem pd bound)

/-- Giving the shared pages and the child's space back restores the allocator, whatever marks
are left in the tables of the parent. -/
theorem forkFail_lent (forkable : Forkable role s (s.processes c)) (earlier : Shared s.vm (s.processes c).pageDirectory pd shared vm)
    (leaves : Leaves role (s.processes c).pageDirectory marks) (marked : Marked shareFlags vm.mem m marks) :
    Lent s.vm.pages (forkFail {vm with mem := m} pd shared).pages 0 ∧
      ∀ f, isFree s.vm.pages f = false → (forkFail {vm with mem := m} pd shared).mem f = m f := by
  have used {f i : Nat} (mark : (f,i) ∈ marks) : isFree s.vm.pages f = false := by
    obtain ⟨_,_,table⟩ := leaves _ mark
    refine forkable.kept f ?_
    rw [table]
    nofun
  have same (k : Nat) (bound : k < processPagingPages) : m (pd / pageSize + k) = vm.mem (pd / pageSize + k) := by
    funext i
    refine marked.outside _ i fun mark => ?_
    have taken := used mark
    rw [earlier.vacant bound] at taken
    cases taken
  have lent := earlier.loan.lent
  rw [add_comm] at lent
  have back := lent.giveBackAll
  rw [← add_zero (spaceOwed vm.mem pd)] at back
  have frames : (sharedFrames shared).map (· * pageSize) = shared.map ForkPage.page := by
    rw [sharedFrames,List.map_map]
    refine List.map_congr_left fun p member => ?_
    obtain ⟨found,_⟩ := earlier.pages p member
    obtain ⟨inside,root⟩ := pagingGetUserPage_bounds found
    rw [pagingGetUserPage_mapping _ inside root] at found
    exact Nat.div_mul_cancel (Nat.dvd_of_mod_eq_zero (mapping_aligned found))
  rw [frames,List.foldl_map] at back
  have loan := earlier.loan.congr same back
  obtain ⟨last,spares⟩ := loan.destroy forkable.regular.used
  exact ⟨last,spares⟩

theorem forkFail_untouched (forkable : Forkable role s (s.processes c))
    (earlier : Shared s.vm (s.processes c).pageDirectory pd shared vm)
    (leaves : Leaves role (s.processes c).pageDirectory marks) (marked : Marked shareFlags vm.mem m marks)
    (restored : marks = ∅) :
    Untouched s {s with vm := forkFail {vm with mem := m} pd shared} := by
  subst restored
  obtain ⟨lent,frames⟩ := forkFail_lent forkable earlier leaves marked
  have kernel : (forkFail {vm with mem := m} pd shared).pageRoot = s.vm.pageRoot :=
    (pagingDestroyAddressSpace_root _ pd).trans earlier.loan.kernel
  refine untouched_vm lent ((pagingDestroyAddressSpace_directory _ pd).trans earlier.directory) kernel fun f used => ?_
  rw [frames f used,← earlier.spares f used]
  exact funext fun i => marked.outside f i (Set.notMem_empty _)

/-- The entries that fork marks are those that it found in the first loop. -/
theorem Shared.entered (forkable : Forkable role s (s.processes c)) (earlier : Shared s.vm (s.processes c).pageDirectory pd shared vm)
    (list : shared.map ForkPage.va = userVas (s.processes c)) :
    ∀ p ∈ shared, Entered vm.mem (s.processes c).pageDirectory p.va p.flags := by
  intro p member
  obtain ⟨found,place⟩ := earlier.pages p member
  obtain ⟨inside,root⟩ := pagingGetUserPage_bounds found
  have same {f : Nat} (part : role f ≠ .data) : vm.mem f = s.vm.mem f := earlier.spares f (forkable.kept f part)
  rw [pagingGetUserPage_mapping _ inside root,mapping] at found
  obtain ⟨t,table,present⟩ := Option.bind_eq_some_iff.mp found
  have table' : tableOf vm.mem (s.processes c).pageDirectory p.va = some t := by
    rw [← table]
    apply tableOf_congr forkable.shaped _ _ inside
    · exact fun f own => same (by rw [own]; simp)
    · exact fun f i own => same (by rw [own]; simp)
  have entry : entryIn vm.mem (cell vm.mem (s.processes c).pageDirectory p.va) = word s.vm.mem t (ptIndex p.va) := by
    rw [cell_table table',entryIn,word]
    dsimp only
    rw [same]
    rw [forkable.shaped.tables p.va inside t table]
    simp
  have listed : p.va ∈ userVas (s.processes c) := by
    rw [← list]
    exact List.mem_map_of_mem member
  have tidy := forkable.tidy p.va listed t table
  have bits : word s.vm.mem t (ptIndex p.va) &&& pteFlagsMask = p.flags := by
    unfold leaf at present
    split_ifs at present
    exact congrArg Prod.snd (Option.some.inj present)
  refine ⟨inside,place,?_,?_,?_,?_⟩
  · rw [table']
    simp
  · rw [entry,present]
    simp
  · rw [entry]
    exact bits
  · rw [entry,← bits]
    exact tidy

/-- Every mark is taken off again exactly if the writable pages come first. -/
theorem marks_restored (shaped : Shaped role m pd) (entered : ∀ p ∈ shared, Entered m pd p.va p.flags)
    (distinct : ((shared.map ForkPage.va).map (· / pageSize)).Nodup) :
    cells m pd (shared.filter ForkPage.writable) \ cells m pd (shared.take (shared.countP ForkPage.writable)) = ∅ ↔
      shared.Pairwise fun p later => later.writable = true → p.writable = true := by
  rw [front_writable,Set.sdiff_eq_empty]
  constructor
  · intro back p member
    by_contra writable
    rw [Bool.not_eq_false] at writable
    have own := List.mem_of_mem_drop member
    obtain ⟨q,front,same⟩ := back ⟨p,List.mem_filter.mpr ⟨own,writable⟩,rfl⟩
    have first := entered p own
    have second := entered q (List.mem_of_mem_take front)
    have number := cell_page shaped first.inside second.inside first.table second.table same
    rw [← List.take_append_drop (shared.countP ForkPage.writable) shared,List.map_append,List.map_append,List.nodup_append] at distinct
    refine distinct.2.2 _ ?_ _ ?_ number.symm
    · exact List.mem_map_of_mem (List.mem_map_of_mem front)
    · exact List.mem_map_of_mem (List.mem_map_of_mem member)
  · rintro last x ⟨p,member,rfl⟩
    obtain ⟨own,writable⟩ := List.mem_filter.mp member
    rw [← List.take_append_drop (shared.countP ForkPage.writable) shared] at own
    rcases List.mem_append.mp own with front | back
    · exact ⟨p,front,rfl⟩
    · rw [last p back] at writable
      cases writable

/-- Where the child gets no kernel stack, the parent is as before exactly if its writable pages
come first. -/
theorem rolledBack {vm' : Vm} {cowed : Nat} {ok : Bool} (forkable : Forkable role s (s.processes c))
    (earlier : Shared s.vm (s.processes c).pageDirectory pd shared vm) (some : (s.processes c).userPageCount ≠ 0)
    (list : shared.map ForkPage.va = userVas (s.processes c))
    (done : forkProtect (s.processes c).pageDirectory shared vm 0 = (vm',cowed,ok)) :
    ok = true ∧ vm'.pages = vm.pages ∧
      (Untouched s {s with vm := forkFail (forkRestore vm' (s.processes c).pageDirectory shared cowed) pd shared} ↔
        WritableFirst s.vm (s.processes c).pageDirectory (userVas (s.processes c))) := by
  have shaped : Shaped role vm.mem (s.processes c).pageDirectory :=
    forkable.shaped.congr fun f own => earlier.spares f (forkable.kept f fun data => by rw [data] at own; cases own)
  have entered := earlier.entered forkable list
  have root : (s.processes c).pageDirectory ≠ 0 := by
    obtain ⟨p,member⟩ : ∃ p, p ∈ shared := by
      refine List.exists_mem_of_ne_nil shared ?_
      rintro rfl
      have length := congrArg List.length list
      rw [List.map_nil,List.length_nil,userVas,List.length_map,List.length_range] at length
      exact some length.symm
    exact (pagingGetUserPage_bounds (earlier.pages p member).1).2
  have protection := forkProtect_marked shaped root entered (.start role _) (.start shareFlags vm.mem) done
  rw [Set.empty_union,Nat.zero_add] at protection
  obtain ⟨passed,count,rest,marked,leaves⟩ := protection
  subst count
  obtain ⟨m,restore,marks⟩ := restored_marked shaped root (fun p member => entered p (List.mem_of_mem_take member)) leaves marked
    (l := shared.take (shared.countP ForkPage.writable))
  have result : forkRestore vm' (s.processes c).pageDirectory shared (shared.countP ForkPage.writable) = {vm with mem := m} := by
    rw [forkRestore,restore,rest]
  have remaining : Leaves role (s.processes c).pageDirectory (cells vm.mem (s.processes c).pageDirectory (shared.filter ForkPage.writable) \
      cells vm.mem (s.processes c).pageDirectory (shared.take (shared.countP ForkPage.writable))) :=
    fun x member => leaves x member.1
  have distinct := forkable.distinct
  rw [← list] at distinct
  have ordered : WritableFirst s.vm (s.processes c).pageDirectory (userVas (s.processes c)) ↔
      shared.Pairwise fun p later => later.writable = true → p.writable = true := by
    rw [WritableFirst,← list,List.pairwise_map]
    have flag (p : ForkPage) (member : p ∈ shared) : writablePage s.vm (s.processes c).pageDirectory p.va = p.writable := by
      rw [writablePage,(earlier.pages p member).1]
      rfl
    exact List.Pairwise.iff_of_mem fun {p q} first second => by rw [flag p first,flag q second]
  refine ⟨passed,by rw [rest],?_⟩
  rw [result,ordered,← marks_restored shaped entered distinct]
  constructor
  · intro untouched
    rw [Set.eq_empty_iff_forall_notMem]
    rintro x member
    obtain ⟨p,listed,rfl⟩ := member.1
    obtain ⟨own,writable⟩ := List.mem_filter.mp listed
    have entry := entered p own
    obtain ⟨_,_,table⟩ := leaves _ member.1
    have used : isFree s.vm.pages (cell vm.mem (s.processes c).pageDirectory p.va).1 = false := by
      refine forkable.kept _ ?_
      rw [table]
      nofun
    obtain ⟨_,frames⟩ := forkFail_lent forkable earlier remaining marks
    have same := untouched.frames _ used
    dsimp only at same
    rw [frames _ used,← earlier.spares _ used] at same
    have back : entryIn m (cell vm.mem (s.processes c).pageDirectory p.va) = entryIn vm.mem (cell vm.mem (s.processes c).pageDirectory p.va) :=
      congrFun same _
    have mark : entryIn m (cell vm.mem (s.processes c).pageDirectory p.va) = _ := marks.inside _ _ member
    have read := shareFlags_read (entryIn vm.mem (cell vm.mem (s.processes c).pageDirectory p.va))
    have kept : has (entryIn vm.mem (cell vm.mem (s.processes c).pageDirectory p.va)) pteWritable = p.writable := by
      rw [ForkPage.writable,← entry.bits,has,has,BitVec.and_assoc,show pteFlagsMask &&& pteWritable = pteWritable by decide]
    have off : has (entryIn m (cell vm.mem (s.processes c).pageDirectory p.va)) pteWritable = false := by
      rw [mark]
      exact read
    rw [← back,off,writable] at kept
    cases kept
  · exact forkFail_untouched forkable earlier remaining marks

/-- What comes of a fork: it fails before it has touched the parent, it fails for want of a kernel
stack, or it makes a child. -/
inductive Forks (s : System) (c : Slot) : System × Nat → Prop
  | refused {s' : System} (missing : ¬ Arrives s c) (untouched : Untouched s s') : Forks s c (s',syscallErr)
  | starved {s' : System} (arrives : Arrives s c)
      (exact : s.vm.pages.freePages = processPagingPages + tableCount (userVas (s.processes c)))
      (rolled : Untouched s s' ↔ WritableFirst s.vm (s.processes c).pageDirectory (userVas (s.processes c))) :
      Forks s c (s',syscallErr)
  | served {s' : System} {i : Slot} (arrives : Arrives s c)
      (spare : processPagingPages + tableCount (userVas (s.processes c)) < s.vm.pages.freePages)
      (vacant : (s.processes i).state = .unused) (child : (s'.processes i).state = .ready) : Forks s c (s',s.nextPid)

theorem processForkCurrent_forks {cpu : Nat} (caller : currentLocal s cpu = some c) (forkable : Forkable role s (s.processes c))
    (frame : Frame) : Forks s c (processForkCurrent s cpu frame) := by
  have calm : Untouched s s := untouched_vm (.refl forkable.regular.agrees) rfl rfl fun _ _ => rfl
  unfold processForkCurrent
  simp only [caller]
  by_cases refused : c = bootstrap ∨ (s.processes c).userPageCount = 0
  · rw [if_pos refused]
    exact .refused (fun arrives => refused.elim arrives.1 arrives.2.1) calm
  rw [if_neg refused]
  have ordinary := not_or.mp refused
  cases free : findFreeSlot s with
  | none => exact .refused (fun arrives => arrives.2.2.1 free) calm
  | some i =>
    cases made : pagingCreateAddressSpace s.vm with
    | none =>
      refine .refused (fun arrives => arrives.2.2.2.1 ?_) calm
      unfold pagingCreateAddressSpace at made
      cases allocated : pageAllocContiguous s.vm.pages processPagingPages with
      | none => rfl
      | some result => simp [allocated] at made
    | some created =>
      obtain ⟨vm,pd⟩ := created
      have block : pageAllocContiguous s.vm.pages processPagingPages ≠ none := by
        intro none
        simp [pagingCreateAddressSpace,none] at made
      have start : Shared s.vm (s.processes c).pageDirectory pd [] vm := created_shared forkable.regular.agrees made
      dsimp only
      cases sharing : forkShare (s.processes c).pageDirectory pd
          ((List.range (s.processes c).userPageCount).map (s.processes c).userPageVas) vm [] with
      | mk vm₁ rest =>
        obtain ⟨shared,ok⟩ := rest
        have few : ([] : List ForkPage).length + (userVas (s.processes c)).length ≤ maxUserPages := by
          rw [userVas,List.length_map,List.length_range,List.length_nil,Nat.zero_add]
          exact forkable.few
        obtain ⟨earlier,all,succeeds⟩ := forkShare_shared (Shaped.resident forkable.shaped forkable.kept) forkable.regular.reserved
          forkable.counted few start sharing
        rw [List.map_nil,List.nil_append] at all succeeds
        cases ok with
        | false =>
          refine .refused (fun arrives => ?_) (forkFail_untouched forkable earlier (.start role _) (.start shareFlags vm₁.mem) rfl)
          cases succeeds.mpr arrives.2.2.2.2
        | true =>
          have list := all rfl
          have arrives : Arrives s c := ⟨ordinary.1,ordinary.2,by rw [free]; nofun,block,succeeds.mp rfl⟩
          have left := earlier.counter
          have exhausted := earlier.loan.lent.exhausted forkable.regular.reserved
          rw [list] at left
          dsimp only
          cases protection : forkProtect (s.processes c).pageDirectory shared vm₁ 0 with
          | mk vm₂ rest =>
            obtain ⟨cowed,ok⟩ := rest
            obtain ⟨rfl,pages,rolled⟩ := rolledBack forkable earlier ordinary.2 list protection
            have many : ¬ (pd = 0 ∨ (s.processes c).userPageCount = 0 ∨ (s.processes c).userPageCount > maxUserPages) := by
              have nonzero := earlier.loan.grown.nonzero
              have few := forkable.few
              omega
            have slot : findFreeSlot {s with vm := vm₂} = some i := free
            rw [← pages] at exhausted
            simp only [processCreateExVasLocked,slot,if_neg many]
            cases allocated : pageAlloc vm₂.pages with
            | none =>
              have zero := exhausted.mp allocated
              rw [pages] at zero
              exact .starved arrives (by omega) rolled
            | some taken =>
              obtain ⟨frames,ks⟩ := taken
              have spare : vm₁.pages.freePages ≠ 0 := by
                intro zero
                rw [← pages] at zero
                rw [exhausted.mpr zero] at allocated
                cases allocated
              simp only [setProcess,Function.update_self]
              refine .served arrives (by omega) (findFreeSlot_unused free) ?_
              dsimp only
              rw [Function.update_self]
              rfl

/-- When a fork that reports an error has left no trace. -/
theorem failed_fork_clean {cpu : Nat} (caller : currentLocal s cpu = some c) (forkable : Forkable role s (s.processes c))
    (frame : Frame) : ((processForkCurrent s cpu frame).2 = syscallErr → Untouched s (processForkCurrent s cpu frame).1) ↔
      ¬ Spoils s c := by
  have forks := processForkCurrent_forks caller forkable frame
  cases result : processForkCurrent s cpu frame with
  | mk s' value =>
    rw [result] at forks
    dsimp only
    cases forks with
    | refused missing untouched => exact ⟨fun _ spoils => missing spoils.1,fun _ _ => untouched⟩
    | starved arrives exact rolled =>
      constructor
      · intro clean spoils
        rcases spoils.2 with ⟨_,mixed⟩ | ⟨spare,_⟩
        · exact mixed (rolled.mp (clean rfl))
        · omega
      · intro clean _
        refine rolled.mpr ?_
        by_contra mixed
        exact clean ⟨arrives,.inl ⟨exact,mixed⟩⟩
    | @served s' i arrives spare vacant child =>
      constructor
      · intro clean spoils
        rcases spoils.2 with ⟨exact,_⟩ | ⟨_,error⟩
        · omega
        · have same := congrArg (fun s => (s.processes i).state) (clean error).rest
          dsimp only at same
          rw [child,vacant] at same
          cases same
      · intro clean error
        exact absurd ⟨arrives,.inr ⟨spare,error⟩⟩ clean

end Fork

/-! ### A program that forks in its first time slice -/

/-- What `Forkable` says of the record and the entries of the task. -/
def listedWell (s : System) (p : Process) : Bool :=
  decide (p.userPageCount ≤ maxUserPages) && decide ((userVas p).map (· / pageSize)).Nodup &&
    (userVas p).all fun va =>
      ((pagingGetUserPage s.vm p.pageDirectory va).all fun (page,_) =>
        managed page && !isFree s.vm.pages (page / pageSize) && decide (s.vm.pages.pageRefs (page / pageSize) ≠ 0) &&
          decide (s.vm.pages.pageRefs (page / pageSize) ≤ processMax * maxUserPages)) &&
      (tableOf s.vm.mem p.pageDirectory va).all fun t => decide (word s.vm.mem t (ptIndex va) =
        userEntry (word s.vm.mem t (ptIndex va)) (word s.vm.mem t (ptIndex va) &&& pteFlagsMask))

theorem started_forkable {s s' : System} {ram : Files.RamFs} {name : List Byte} {pid : Nat} {i : Slot} {acquired : Bool} {frame : Frame}
    (startable : Startable s) (occupied : Occupied s) (slot : findFreeSlot s = some i)
    (done : execRunFile s ram 0 name = (s',some pid)) {u : System} (ticked : u = (processSchedule s' 0 acquired frame).1)
    (listed : listedWell u (u.processes i) = true) : ∃ role, Forkable role u (u.processes i) := by
  have running := execRunFile_running startable slot done
  obtain ⟨role,settled⟩ := Sharing.execRunFile_settled occupied slot done
  have proper : Sharing.Group.Proper ⟨s',i,[i]⟩ (.schedule acquired frame) := by
    intro c caller other
    rw [List.mem_singleton] at other
    exact ⟨running.pending c,running.others c other⟩
  have after := settled.scheduled proper
  rw [← ticked] at after
  have owns := (running.tick acquired frame).owns
  have regular := owns.loan.lent.regular startable.regular
  rw [← owns.loan.kernel] at regular
  have same : (Life.step ⟨s',i⟩ (.tick acquired frame)).system = u := ticked.symm
  rw [same] at regular
  simp only [listedWell,Bool.and_eq_true,decide_eq_true_eq,List.all_eq_true,Option.all_eq_true,Bool.not_eq_true'] at listed
  obtain ⟨⟨few,distinct⟩,each⟩ := listed
  refine ⟨role,regular,after.kept,after.space.formed.shaped,few,distinct,?_,?_⟩
  · intro va member page flags found
    obtain ⟨⟨⟨own,used⟩,positive⟩,bounded⟩ := (each va member).1 (page,flags) found
    exact ⟨own,used,positive,bounded⟩
  · intro va member t table
    exact (each va member).2 t table

/-- Its text can only be read, its stack can be written. -/
def textFile : Files.RamFs where
  programs := fun _ => []
  files := fun _ => ⟨[0x74],fun i => ((Sharing.imageAt userBase).set 76 5).getD i 0,(Sharing.imageAt userBase).length⟩
  count := 1

def textLoad (n : Nat) : System × Option Nat := execRunFile (scarceBoot n) textFile 0 [0x74]

def textTask (n : Nat) : System := (processSchedule (textLoad n).1 0 true zeroFrame).1

theorem textTask_forkable {n : Nat} (few : n ≤ 32) (slot : findFreeSlot (scarceBoot n) = some 1) (loads : (textLoad n).2 = some 2)
    (listed : listedWell (textTask n) ((textTask n).processes 1) = true) :
    ∃ role, Forkable role (textTask n) ((textTask n).processes 1) := by
  have occupied : Occupied (scarceBoot n) := (boot_registered _ _ _).occupied
  have done : textLoad n = ((textLoad n).1,some 2) := pair_eq loads
  exact started_forkable (scarceBoot_startable few) occupied slot done rfl listed

/-- With seven frames left the text is marked, the stack is marked after it, and the rollback
gives back as many of the marks as it has counted. -/
theorem fork_spoils : ¬ ∀ (role : Nat → Role) (s : System) (c : Slot) (cpu : Nat) (frame : Frame), currentLocal s cpu = some c →
    Forkable role s (s.processes c) → (processForkCurrent s cpu frame).2 = syscallErr → Untouched s (processForkCurrent s cpu frame).1 := by
  intro clean
  obtain ⟨s,task⟩ : ∃ s, s = textTask 18 := ⟨_,rfl⟩
  have start : findFreeSlot (scarceBoot 18) = some 1 ∧ (textLoad 18).2 = some 2 ∧
      listedWell (textTask 18) ((textTask 18).processes 1) = true := by
    decide +kernel
  have facts : currentLocal s 0 = some 1 ∧ Arrives s 1 ∧
      s.vm.pages.freePages = processPagingPages + tableCount (userVas (s.processes 1)) ∧
      ¬ WritableFirst s.vm (s.processes 1).pageDirectory (userVas (s.processes 1)) := by
    rw [task]
    unfold Arrives Shareable WritableFirst
    decide +kernel
  obtain ⟨role,forkable⟩ := textTask_forkable (by decide) start.1 start.2.1 start.2.2
  obtain ⟨caller,arrives,exact,mixed⟩ := facts
  rw [← task] at forkable
  have forks := processForkCurrent_forks caller forkable zeroFrame
  have clean := clean role s 1 0 zeroFrame caller forkable
  cases result : processForkCurrent s 0 zeroFrame with
  | mk s' value =>
    rw [result] at forks clean
    cases forks with
    | refused missing _ => exact missing arrives
    | starved _ _ rolled => exact mixed (rolled.mp (clean rfl))
    | served _ spare _ _ => omega

/-- With six frames left there is none for the child's tables. -/
theorem starved_fork_clean : (processForkCurrent (textTask 17) 0 zeroFrame).2 = syscallErr ∧
    Untouched (textTask 17) (processForkCurrent (textTask 17) 0 zeroFrame).1 := by
  obtain ⟨s,task⟩ : ∃ s, s = textTask 17 := ⟨_,rfl⟩
  have start : findFreeSlot (scarceBoot 17) = some 1 ∧ (textLoad 17).2 = some 2 ∧
      listedWell (textTask 17) ((textTask 17).processes 1) = true := by
    decide +kernel
  have facts : currentLocal s 0 = some 1 ∧ s.vm.pages.freePages < processPagingPages + tableCount (userVas (s.processes 1)) := by
    rw [task]
    decide +kernel
  obtain ⟨role,forkable⟩ := textTask_forkable (by decide) start.1 start.2.1 start.2.2
  rw [← task] at forkable ⊢
  have missing : ¬ Arrives s 1 := by
    intro arrives
    have enough := arrives.2.2.2.2.2
    have few := facts.2
    omega
  have forks := processForkCurrent_forks facts.1 forkable zeroFrame
  have error : (processForkCurrent s 0 zeroFrame).2 = syscallErr := by
    cases result : processForkCurrent s 0 zeroFrame with
    | mk s' value =>
      rw [result] at forks
      cases forks with
      | refused _ _ => rfl
      | starved arrives _ _ => exact absurd arrives missing
      | served arrives _ _ _ => exact absurd arrives missing
  exact ⟨error,(failed_fork_clean facts.1 forkable zeroFrame).mpr (fun spoils => missing spoils.1) error⟩

end LionOS.Processes
