import LionOS.Spaces.Updates

/-! Entries of page tables whose flags are changed and changed back. -/
namespace LionOS.Paging
open LionOS.Memory LionOS.Physical

/-- The frame and the index of the entry of `va`, where its region has a table. -/
def cell (m : Mem) (pd va : Nat) : Nat × Nat := ((tableOf m pd va).getD 0 / pageSize,ptIndex va)

def entryIn (m : Mem) (x : Nat × Nat) : Word := m x.1 x.2

/-- The entry of `va` is one that the kernel wrote, for a page with these flags. -/
structure Entered (m : Mem) (pd va : Nat) (flags : Word) : Prop where
  inside : va < userLimit
  place : va % pageSize = 0
  table : tableOf m pd va ≠ none
  present : leaf (entryIn m (cell m pd va)) ≠ none
  bits : entryIn m (cell m pd va) &&& pteFlagsMask = flags
  tidy : entryIn m (cell m pd va) = userEntry (entryIn m (cell m pd va)) flags

/-- The entries of `marks` have the flags that `change` gives them, and no other word differs. -/
structure Marked (change : Word → Word) (m m' : Mem) (marks : Set (Nat × Nat)) : Prop where
  inside : ∀ f i, (f,i) ∈ marks → m' f i = userEntry (m f i) (change (m f i &&& pteFlagsMask) &&& pteFlagsMask)
  outside : ∀ f i, (f,i) ∉ marks → m' f i = m f i

theorem Marked.start (change : Word → Word) (m : Mem) : Marked change m m ∅ := ⟨nofun,fun _ _ _ => rfl⟩

/-- The marks lie in the tables of the space. -/
def Leaves (role : Nat → Role) (pd : Nat) (marks : Set (Nat × Nat)) : Prop :=
  ∀ x ∈ marks, ∃ i j, role x.1 = .table pd i j

theorem Leaves.start (role : Nat → Role) (pd : Nat) : Leaves role pd ∅ := fun _ mark => absurd mark (Set.notMem_empty _)

section Marked
variable {role : Nat → Role} {change : Word → Word} {m : Mem} {vm : Vm} {marks : Set (Nat × Nat)} {pd va : Nat} {flags : Word}

theorem Marked.frame (marked : Marked change m vm.mem marks) {f : Nat} (apart : ∀ i, (f,i) ∉ marks) : vm.mem f = m f :=
  funext fun i => marked.outside f i (apart i)

theorem cell_table {t : Nat} (table : tableOf m pd va = some t) : cell m pd va = (t / pageSize,ptIndex va) := by
  rw [cell,table]
  rfl

theorem cell_leaves (shaped : Shaped role m pd) (inside : va < userLimit) (table : tableOf m pd va ≠ none) :
    ∃ i j, role (cell m pd va).1 = .table pd i j := by
  obtain ⟨t,found⟩ := Option.ne_none_iff_exists'.mp table
  rw [cell_table found]
  exact ⟨_,_,shaped.tables va inside t found⟩

/-- Pages with different numbers have different entries. -/
theorem cell_page {va' : Nat} (shaped : Shaped role m pd) (inside : va < userLimit) (inside' : va' < userLimit)
    (table : tableOf m pd va ≠ none) (table' : tableOf m pd va' ≠ none) (same : cell m pd va = cell m pd va') :
    va / pageSize = va' / pageSize := by
  obtain ⟨t,found⟩ := Option.ne_none_iff_exists'.mp table
  obtain ⟨t',found'⟩ := Option.ne_none_iff_exists'.mp table'
  rw [cell_table found,cell_table found'] at same
  obtain ⟨frame,index⟩ := Prod.mk.inj same
  have role := shaped.tables va inside t found
  rw [frame,shaped.tables va' inside' t' found'] at role
  injection role with _ first second
  exact (same_page va' va).mpr ⟨first.symm,second.symm,index⟩

theorem Marked.table (marked : Marked change m vm.mem marks) (leaves : Leaves role pd marks) (shaped : Shaped role m pd)
    (inside : va < userLimit) : tableOf vm.mem pd va = tableOf m pd va := by
  apply tableOf_congr shaped _ _ inside
  · intro f root
    refine marked.frame fun i mark => ?_
    obtain ⟨_,_,table⟩ := leaves _ mark
    rw [root] at table
    cases table
  · intro f k directory
    refine marked.frame fun i mark => ?_
    obtain ⟨_,_,table⟩ := leaves _ mark
    rw [directory] at table
    cases table

/-- A mark changes neither the address nor the presence of an entry. -/
theorem Marked.entry (marked : Marked change m vm.mem marks) (x : Nat × Nat) (present : leaf (entryIn m x) ≠ none) :
    entryIn vm.mem x &&& pteAddrMask = entryIn m x &&& pteAddrMask ∧ leaf (entryIn vm.mem x) ≠ none := by
  by_cases mark : x ∈ marks
  · have entry : entryIn vm.mem x = _ := marked.inside x.1 x.2 mark
    rw [entry]
    refine ⟨userEntry_address _ (bare_masked _),?_⟩
    rw [leaf_userEntry _ (bare_masked _)]
    nofun
  · have entry : entryIn vm.mem x = entryIn m x := marked.outside x.1 x.2 mark
    rw [entry]
    exact ⟨rfl,present⟩

/-- Setting the flags of a page that the space has changes its entry and nothing else. -/
theorem Marked.set (marked : Marked change m vm.mem marks) (leaves : Leaves role pd marks) (shaped : Shaped role m pd)
    (root : pd ≠ 0) (entered : Entered m pd va flags) (flags' : Word) : ∃ vm', pagingSetUserPageFlags vm pd va flags' = some vm' ∧
      vm' = {vm with mem := vm'.mem} ∧ entryIn vm'.mem (cell m pd va) =
        userEntry (entryIn m (cell m pd va)) (flags' &&& pteFlagsMask) ∧
      ∀ f i, (f,i) ≠ cell m pd va → vm'.mem f i = vm.mem f i := by
  obtain ⟨t,table⟩ := Option.ne_none_iff_exists'.mp entered.table
  have own := cell_table table
  have same : tableOf vm.mem pd va = some t := (marked.table leaves shaped entered.inside).trans table
  have aligned := tableOf_aligned same
  have entry : word vm.mem t (ptIndex va) = entryIn vm.mem (cell m pd va) := by rw [own]; rfl
  obtain ⟨address,present⟩ := marked.entry (cell m pd va) entered.present
  have user : (has (entryIn vm.mem (cell m pd va)) ptePresent && has (entryIn vm.mem (cell m pd va)) pteUser) = true := by
    by_contra absent
    exact present (if_neg absent)
  have valid : ¬ (pd = 0 ∨ va ≥ userLimit ∨ va % pageSize ≠ 0) := by
    have inside := entered.inside
    have place := entered.place
    omega
  have done : pagingSetUserPageFlags vm pd va flags' = some {vm with
      mem := write vm.mem (t + 8 * ptIndex va) (userEntry (entryIn m (cell m pd va)) (flags' &&& pteFlagsMask))} := by
    unfold pagingSetUserPageFlags
    rw [if_neg valid,pteSlot_table,same]
    simp only [Option.map_some,read_word _ aligned (ptIndex_small va),entry]
    rw [if_pos user,← userEntry_congr address]
    rfl
  refine ⟨_,done,rfl,?_,?_⟩
  · dsimp only
    rw [write_word _ aligned (ptIndex_small va),own,entryIn,Function.update_self,Function.update_self]
  · intro f i other
    rw [own] at other
    dsimp only
    rw [write_word _ aligned (ptIndex_small va)]
    by_cases frame : f = t / pageSize
    · subst frame
      rw [Function.update_self,Function.update_of_ne]
      rintro rfl
      exact other rfl
    · rw [Function.update_of_ne frame]

theorem Marked.mark (marked : Marked change m vm.mem marks) (leaves : Leaves role pd marks) (shaped : Shaped role m pd)
    (root : pd ≠ 0) (entered : Entered m pd va flags) : ∃ vm', pagingSetUserPageFlags vm pd va (change flags) = some vm' ∧
      vm' = {vm with mem := vm'.mem} ∧ Marked change m vm'.mem (insert (cell m pd va) marks) ∧
      Leaves role pd (insert (cell m pd va) marks) := by
  obtain ⟨vm',done,rest,own,others⟩ := marked.set leaves shaped root entered (change flags)
  refine ⟨vm',done,rest,⟨?_,?_⟩,?_⟩
  · intro f i mark
    by_cases here : (f,i) = cell m pd va
    · rw [← here] at own
      have bits := entered.bits
      rw [← here] at bits
      rw [show m f i = entryIn m (f,i) from rfl,bits]
      exact own
    · rw [others f i here]
      exact marked.inside f i (Set.mem_of_mem_insert_of_ne mark here)
  · intro f i absent
    have parts : (f,i) ≠ cell m pd va ∧ (f,i) ∉ marks := by
      rw [Set.mem_insert_iff,not_or] at absent
      exact absent
    rw [others f i parts.1]
    exact marked.outside f i parts.2
  · rintro x (rfl | old)
    · exact cell_leaves shaped entered.inside entered.table
    · exact leaves x old

/-- The entry as it was. -/
theorem Marked.unmark (marked : Marked change m vm.mem marks) (leaves : Leaves role pd marks) (shaped : Shaped role m pd)
    (root : pd ≠ 0) (entered : Entered m pd va flags) : ∃ vm', pagingSetUserPageFlags vm pd va flags = some vm' ∧
      vm' = {vm with mem := vm'.mem} ∧ Marked change m vm'.mem (marks \ {cell m pd va}) := by
  obtain ⟨vm',done,rest,own,others⟩ := marked.set leaves shaped root entered flags
  have bare : flags &&& pteFlagsMask = flags := by
    rw [← entered.bits,BitVec.and_assoc,BitVec.and_self]
  rw [bare,← entered.tidy] at own
  refine ⟨vm',done,rest,?_,?_⟩
  · rintro f i ⟨mark,other⟩
    rw [others f i other]
    exact marked.inside f i mark
  · intro f i absent
    by_cases here : (f,i) = cell m pd va
    · rw [← here] at own
      exact own
    · rw [others f i here]
      exact marked.outside f i fun mark => absent ⟨mark,here⟩

end Marked

end LionOS.Paging
