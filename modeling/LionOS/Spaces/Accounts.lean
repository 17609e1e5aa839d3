import LionOS.Frames.Loans
import LionOS.Spaces.Lifetime

/-! Every frame that an address space takes from the allocator, from its creation until it
is destroyed. -/
namespace LionOS.Paging
open LionOS.Memory LionOS.Physical LionOS.Frames

/-- A function that gains a value at one place of a list. -/
theorem filterMap_gain {α β : Type} [DecidableEq α] {f g : α → Option β} {l : List α} {a : α} {b : β} (nodup : l.Nodup)
    (member : a ∈ l) (before : f a = none) (after : g a = some b) (others : ∀ x ∈ l, x ≠ a → g x = f x) :
    (l.filterMap g).Perm (b :: l.filterMap f) := by
  induction l with
  | nil => cases member
  | cons x rest ih =>
    obtain ⟨absent,nodup⟩ := List.nodup_cons.mp nodup
    by_cases here : x = a
    · subst here
      rw [List.filterMap_cons_some after,List.filterMap_cons_none before]
      have same : rest.filterMap g = rest.filterMap f := by
        refine List.filterMap_congr fun y inside => others y (List.mem_cons_of_mem _ inside) ?_
        rintro rfl
        exact absent inside
      rw [same]
    · have later : a ∈ rest := (List.mem_cons.mp member).resolve_left (Ne.symm here)
      have tail := ih nodup later fun y inside => others y (List.mem_cons_of_mem _ inside)
      have equal := others x List.mem_cons_self here
      cases value : f x with
      | none => rwa [List.filterMap_cons_none (equal.trans value),List.filterMap_cons_none value]
      | some c =>
        rw [List.filterMap_cons_some (equal.trans value),List.filterMap_cons_some value]
        exact (tail.cons c).trans (List.Perm.swap b c _)

/-- The places of the entries of the four directories. -/
def places : List (Nat × Nat) := (List.range 4).flatMap fun i => (List.range 512).map fun j => (i,j)

theorem mem_places {i j : Nat} : (i,j) ∈ places ↔ i < 4 ∧ j < 512 := by simp [places]

theorem places_nodup : places.Nodup := by
  unfold places
  rw [List.nodup_flatMap]
  refine ⟨fun i _ => List.nodup_range.map fun j k same => (Prod.mk.inj same).2,?_⟩
  refine List.nodup_range.imp fun {i j} apart => ?_
  simp only [Function.onFun,List.disjoint_left]
  intro place first second
  obtain ⟨_,_,here⟩ := List.mem_map.mp first
  obtain ⟨_,_,there⟩ := List.mem_map.mp second
  exact apart (congrArg Prod.fst (here.trans there.symm))

def tableAt (m : Mem) (pd : Nat) (place : Nat × Nat) : Option Nat :=
  if userTable (directoryEntry m pd place.1 place.2) then some (ptPtr (directoryEntry m pd place.1 place.2)) else none

theorem userTables_places {m : Mem} {pd : Nat} (aligned : pd % pageSize = 0) : userTables m pd = places.filterMap (tableAt m pd) := by
  unfold userTables places
  rw [List.filterMap_flatMap]
  refine List.flatMap_congr fun i row => ?_
  rw [List.filterMap_map]
  refine List.filterMap_congr fun j column => ?_
  rw [List.mem_range] at row column
  have place : (pd + (i+1) * pageSize) % pageSize = 0 := by rw [Nat.add_mul_mod_self_right,aligned]
  have entry : read m (pd + (i+1) * pageSize + 8 * j) = directoryEntry m pd i j := by
    rw [read_word m place column,word,directory_frame]
    rfl
  rw [entry]
  rfl

/-- The directories of a space under construction, with its tables outside of them. -/
structure Grown (m : Mem) (pd : Nat) : Prop where
  nonzero : pd ≠ 0
  aligned : pd % pageSize = 0
  pointers : ∀ i < 4, pdPtr m pd i = pd + (i+1) * pageSize
  outside : ∀ t ∈ userTables m pd, ∀ k < processPagingPages, t / pageSize ≠ pd / pageSize + k

section Grown
variable {m m' : Mem} {pd : Nat}

theorem Grown.directory (grown : Grown m pd) {i : Nat} (row : i < 4) : pdPtr m pd i ≠ 0 ∧
    pdPtr m pd i / pageSize = pd / pageSize + (i+1) ∧ pdPtr m pd i % pageSize = 0 := by
  rw [grown.pointers i row,directory_frame,Nat.add_mul_mod_self_right,grown.aligned]
  refine ⟨?_,rfl,rfl⟩
  simp only [pageSize]
  omega

theorem Grown.tableOf (grown : Grown m pd) {va : Nat} (inside : va < userLimit) :
    tableOf m pd va = tableAt m pd (pdptIndex va,pdIndex va) := by
  obtain ⟨nonnull,frame,_⟩ := grown.directory (pdptIndex_row inside)
  unfold Paging.tableOf tableAt
  simp only [if_neg nonnull,word,frame]
  rfl

theorem tableAt_congr {place : Nat × Nat} (row : place.1 < 4)
    (same : ∀ k < processPagingPages, m' (pd / pageSize + k) = m (pd / pageSize + k)) : tableAt m' pd place = tableAt m pd place := by
  have entry : directoryEntry m' pd place.1 place.2 = directoryEntry m pd place.1 place.2 := by
    rw [directoryEntry,directoryEntry,same _ (by simp only [processPagingPages]; omega)]
  rw [tableAt,tableAt,entry]

theorem pointers_congr (aligned : pd % pageSize = 0) (same : m' (pd / pageSize) = m (pd / pageSize)) {i : Nat} (row : i < 4) :
    pdPtr m' pd i = pdPtr m pd i := by
  rw [pdPtr_word _ aligned (by omega),pdPtr_word _ aligned (by omega),word,word,same]

/-- Changes outside the directories. -/
theorem Grown.congr (grown : Grown m pd) (same : ∀ k < processPagingPages, m' (pd / pageSize + k) = m (pd / pageSize + k)) :
    Grown m' pd ∧ userTables m' pd = userTables m pd := by
  have tables : userTables m' pd = userTables m pd := by
    rw [userTables_places grown.aligned,userTables_places grown.aligned]
    exact List.filterMap_congr fun place member => tableAt_congr (mem_places.mp member).1 same
  refine ⟨⟨grown.nonzero,grown.aligned,?_,?_⟩,tables⟩
  · intro i row
    rw [pointers_congr grown.aligned (same 0 (by decide)) row,grown.pointers i row]
  · rw [tables]
    exact grown.outside

theorem Grown.table_member (grown : Grown m pd) {va t : Nat} (inside : va < userLimit) (table : Paging.tableOf m pd va = some t) :
    t ∈ userTables m pd := by
  rw [grown.tableOf inside] at table
  rw [userTables_places grown.aligned]
  exact List.mem_filterMap.mpr ⟨_,mem_places.mpr ⟨pdptIndex_row inside,pdIndex_small va⟩,table⟩

/-- A new table in a frame outside the directories. -/
theorem Grown.withTable (grown : Grown m pd) {va first : Nat} (inside : va < userLimit) (high : first < maxPages)
    (missing : Paging.tableOf m pd va = none) (apart : ∀ k < processPagingPages, first ≠ pd / pageSize + k) (entry : Word) :
    Grown (withTable m pd va first entry) pd ∧
      (userTables (Paging.withTable m pd va first entry) pd).Perm (first * pageSize :: userTables m pd) ∧
      (∀ va' < userLimit, Paging.tableOf (Paging.withTable m pd va first entry) pd va' =
        if va' / 2^21 = va / 2^21 then some (first * pageSize) else Paging.tableOf m pd va') ∧
      ∀ f, f ≠ first → (∀ k < processPagingPages, f ≠ pd / pageSize + k) → Paging.withTable m pd va first entry f = m f := by
  obtain ⟨aligned,small,frame⟩ := table_address high
  have row := pdptIndex_row inside
  obtain ⟨_,directory,whole⟩ := grown.directory row
  have result (f : Nat) (other : f ≠ first) : Paging.withTable m pd va first entry f =
      if f = pd / pageSize + (pdptIndex va + 1) then
        Function.update (m f) (pdIndex va) (tableEntry (first * pageSize)) else m f := by
    have kept : pd / pageSize + (pdptIndex va + 1) ≠ first := (apart _ (by simp only [processPagingPages]; omega)).symm
    rw [Paging.withTable,write_word _ aligned (ptIndex_small va),frame,Function.update_of_ne other,
      write_word _ whole (pdIndex_small va),directory,Function.update_apply]
    split
    next same => rw [Function.update_of_ne kept,same]
    next => rw [Function.update_of_ne other]
  have root : Paging.withTable m pd va first entry (pd / pageSize) = m (pd / pageSize) := by
    have away : pd / pageSize ≠ first := (apart 0 (by decide)).symm
    rw [result _ away,if_neg (by omega)]
  have entries {i j : Nat} (bound : i < 4) : directoryEntry (Paging.withTable m pd va first entry) pd i j =
      if i = pdptIndex va ∧ j = pdIndex va then tableEntry (first * pageSize) else directoryEntry m pd i j := by
    rw [directoryEntry,result _ (apart _ (by simp only [processPagingPages]; omega)).symm]
    by_cases same : i = pdptIndex va
    · subst same
      rw [if_pos rfl,Function.update_apply]
      simp only [true_and]
      rfl
    · rw [if_neg (by omega),if_neg fun both => same both.1]
      rfl
  have grows : (userTables (Paging.withTable m pd va first entry) pd).Perm (first * pageSize :: userTables m pd) := by
    rw [userTables_places grown.aligned,userTables_places grown.aligned]
    refine filterMap_gain (a := (pdptIndex va,pdIndex va)) places_nodup (mem_places.mpr ⟨row,pdIndex_small va⟩) ?_ ?_ ?_
    · rw [← grown.tableOf inside,missing]
    · rw [tableAt]
      simp only [entries row,and_self,if_true,userTable,tableEntry_user,tableEntry_address aligned small]
    · rintro ⟨i,j⟩ member other
      have here : ¬ (i = pdptIndex va ∧ j = pdIndex va) := fun both => other (Prod.ext both.1 both.2)
      rw [tableAt,tableAt]
      simp only [entries (mem_places.mp member).1,if_neg here]
  have whole' : Grown (Paging.withTable m pd va first entry) pd := by
    refine ⟨grown.nonzero,grown.aligned,?_,?_⟩
    · intro i bound
      rw [pointers_congr grown.aligned root bound,grown.pointers i bound]
    · intro t member k bound
      rcases List.mem_cons.mp (grows.mem_iff.mp member) with rfl | old
      · rw [frame]
        exact apart k bound
      · exact grown.outside t old k bound
  refine ⟨whole',grows,?_,?_⟩
  · intro va' inside'
    have region : va' / 2^21 = va / 2^21 ↔ pdptIndex va' = pdptIndex va ∧ pdIndex va' = pdIndex va := by
      simp only [pdptIndex,pdIndex]
      omega
    rw [whole'.tableOf inside',grown.tableOf inside',tableAt,tableAt]
    simp only [entries (pdptIndex_row inside'),region]
    split
    next same =>
      rw [userTable,tableEntry_user,tableEntry_address aligned small]
      rfl
    next => rfl
  · intro f other away
    rw [result f other,if_neg]
    exact away _ (by simp only [processPagingPages]; omega)

theorem newDirectory_grown (vm : Vm) {first : Nat} (positive : first * pageSize ≠ 0) (small : first + 5 ≤ maxPages) :
    Grown (newDirectory vm (first * pageSize)) (first * pageSize) ∧
      userTables (newDirectory vm (first * pageSize)) (first * pageSize) = [] := by
  have aligned : first * pageSize % pageSize = 0 := Nat.mul_mod_left _ _
  have none : userTables (newDirectory vm (first * pageSize)) (first * pageSize) = [] := by
    rw [userTables_places aligned,List.filterMap_eq_nil_iff]
    rintro ⟨i,j⟩ member
    have guarded (pde : Word) : has (pde &&& ~~~pteUser) pteUser = false := by
      rw [has,BitVec.and_assoc,show ~~~pteUser &&& pteUser = 0#64 by decide,BitVec.and_zero]
      rfl
    rw [tableAt,newDirectory_entry (mem_places.mp member).1,userTable,guarded,Bool.and_false]
    rfl
  refine ⟨⟨positive,aligned,?_,?_⟩,none⟩
  · intro i row
    rw [newDirectory_root small row,← Nat.add_mul,Nat.add_assoc]
  · rw [none]
    simp

end Grown

/-- The frames that a space consists of, each as often as the allocator counts it. -/
def spaceOwed (m : Mem) (pd : Nat) : Multiset Nat :=
  Frames.block (pd / pageSize) processPagingPages + ↑((userTables m pd).map (· / pageSize))

/-- The state `vm` has, since `vm₀`, taken the frames of `pd` and lent `extra`. -/
structure Loan (vm₀ vm : Vm) (pd : Nat) (extra : Multiset Nat) : Prop where
  grown : Grown vm.mem pd
  lent : Lent vm₀.pages vm.pages (spaceOwed vm.mem pd + extra)
  new : ∀ f ∈ spaceOwed vm.mem pd, isFree vm₀.pages f = true
  kernel : vm.pageRoot = vm₀.pageRoot

/-- The frames that were in use in `vm₀` have kept their contents from `vm` to `vm'`. -/
def Spares (vm₀ vm vm' : Vm) : Prop := ∀ f, isFree vm₀.pages f = false → vm'.mem f = vm.mem f

theorem Spares.refl (vm₀ vm : Vm) : Spares vm₀ vm vm := fun _ _ => rfl

theorem Spares.trans {vm₀ vm vm' vm'' : Vm} (first : Spares vm₀ vm vm') (second : Spares vm₀ vm' vm'') : Spares vm₀ vm vm'' :=
  fun f used => (second f used).trans (first f used)

section Loan
variable {vm₀ vm vm' : Vm} {pd : Nat} {extra : Multiset Nat}

theorem pagingCreateAddressSpace_loan (lent : Lent vm₀.pages vm.pages extra) (kernel : vm.pageRoot = vm₀.pageRoot)
    (made : pagingCreateAddressSpace vm = some (vm',pd)) : Loan vm₀ vm' pd extra ∧ Spares vm₀ vm vm' := by
  unfold pagingCreateAddressSpace at made
  cases allocated : pageAllocContiguous vm.pages processPagingPages with
  | none => simp [allocated] at made
  | some result =>
    obtain ⟨pages,base⟩ := result
    simp only [allocated] at made
    cases made
    obtain ⟨first,rfl,takes,after⟩ := lent.alloc allocated
    obtain ⟨grown,none⟩ := newDirectory_grown vm takes.positive takes.high
    have owed : spaceOwed (newDirectory vm (first * pageSize)) (first * pageSize) = Frames.block first processPagingPages := by
      rw [spaceOwed,none,address_frame]
      simp
    have free {f : Nat} (member : f ∈ Frames.block first processPagingPages) : isFree vm₀.pages f = true := by
      obtain ⟨low,high⟩ := mem_block.mp member
      have vacant := takes.free f low high
      rw [lent.free,Bool.and_eq_true] at vacant
      exact vacant.1
    refine ⟨⟨grown,?_,?_,kernel⟩,?_⟩
    · rw [owed]
      exact after
    · rw [owed]
      exact fun f => free
    · intro f used
      refine newDirectory_other fun within => ?_
      rw [free (mem_block.mpr within)] at used
      cases used

theorem block_owed (m : Mem) (pd : Nat) {k : Nat} (bound : k < processPagingPages) : pd / pageSize + k ∈ spaceOwed m pd :=
  Multiset.mem_add.mpr (.inl (mem_block.mpr ⟨by omega,by omega⟩))

/-- Changes outside the frames of the space. -/
theorem Loan.congr (loan : Loan vm₀ vm pd extra) {m : Mem} {pages : Allocator} {extra' : Multiset Nat}
    (same : ∀ k < processPagingPages, m (pd / pageSize + k) = vm.mem (pd / pageSize + k))
    (lent : Lent vm₀.pages pages (spaceOwed vm.mem pd + extra')) : Loan vm₀ {vm with mem := m,pages} pd extra' := by
  obtain ⟨grown,tables⟩ := loan.grown.congr same
  have owed : spaceOwed m pd = spaceOwed vm.mem pd := by rw [spaceOwed,tables,spaceOwed]
  refine ⟨grown,?_,?_,loan.kernel⟩
  · rw [owed]
    exact lent
  · rw [owed]
    exact loan.new

theorem table_owed {m : Mem} {t : Nat} (member : t ∈ userTables m pd) : t / pageSize ∈ spaceOwed m pd :=
  Multiset.mem_add.mpr (.inr (Multiset.mem_coe.mpr (List.mem_map_of_mem member)))

theorem Loan.map {va pa : Nat} {flags : Word} (loan : Loan vm₀ vm pd extra)
    (mapped : pagingMapUserPageIn vm pd va pa flags = some vm') : Loan vm₀ vm' pd extra ∧ Spares vm₀ vm vm' := by
  obtain ⟨_,inside,_,_,_,⟨t,table,rfl⟩ | ⟨missing,pages,t,allocated,rfl⟩⟩ := pagingMapUserPageIn_cases mapped
  · have member := loan.grown.table_member inside table
    have frame (f : Nat) (other : f ≠ t / pageSize) : write vm.mem (t + 8 * ptIndex va) (entryOf pa flags) f = vm.mem f := by
      rw [write_word _ (tableOf_aligned table) (ptIndex_small va)]
      exact Function.update_of_ne other _ _
    have apart (k : Nat) (bound : k < processPagingPages) := frame _ (loan.grown.outside t member k bound).symm
    obtain ⟨grown,tables⟩ := loan.grown.congr apart
    have owed : spaceOwed (write vm.mem (t + 8 * ptIndex va) (entryOf pa flags)) pd = spaceOwed vm.mem pd := by
      rw [spaceOwed,tables,spaceOwed]
    refine ⟨⟨grown,?_,?_,loan.kernel⟩,?_⟩
    · rw [owed]
      exact loan.lent
    · rw [owed]
      exact loan.new
    · intro f used
      refine frame f ?_
      rintro rfl
      rw [loan.new _ (table_owed member)] at used
      cases used
  · obtain ⟨first,rfl,takes,after⟩ := loan.lent.alloc allocated
    have free : isFree vm.pages first = true := takes.free first (Nat.le_refl _) (by omega)
    have apart {f : Nat} (own : f ∈ spaceOwed vm.mem pd) : first ≠ f := by
      rintro rfl
      rw [loan.lent.used (Multiset.mem_add.mpr (.inl own))] at free
      cases free
    have vacant : isFree vm₀.pages first = true := by
      rw [loan.lent.free,Bool.and_eq_true] at free
      exact free.1
    obtain ⟨grown,tables,_,others⟩ := loan.grown.withTable inside takes.high missing (fun k bound => apart (block_owed _ _ bound))
      (entryOf pa flags)
    have owed : spaceOwed (withTable vm.mem pd va first (entryOf pa flags)) pd = first ::ₘ spaceOwed vm.mem pd := by
      have moved : (↑((userTables (withTable vm.mem pd va first (entryOf pa flags)) pd).map (· / pageSize)) : Multiset Nat) =
          first ::ₘ ↑((userTables vm.mem pd).map (· / pageSize)) := by
        rw [Multiset.coe_eq_coe.mpr (tables.map _),List.map_cons,address_frame,Multiset.cons_coe]
      rw [spaceOwed,moved,Multiset.add_cons,spaceOwed]
    rw [address_frame]
    refine ⟨⟨grown,?_,?_,loan.kernel⟩,?_⟩
    · dsimp only
      rw [owed,Multiset.cons_add]
      rw [block_one,Multiset.singleton_add] at after
      exact after
    · dsimp only
      rw [owed]
      intro f member
      rcases Multiset.mem_cons.mp member with rfl | old
      · exact vacant
      · exact loan.new f old
    · intro f used
      refine others f ?_ ?_
      · rintro rfl
        rw [vacant] at used
        cases used
      · rintro k bound rfl
        rw [loan.new _ (block_owed _ _ bound)] at used
        cases used

/-- Which regions have a table after a page was mapped, and how many frames that took. -/
theorem Loan.map_tables {va pa : Nat} {flags : Word} (loan : Loan vm₀ vm pd extra)
    (mapped : pagingMapUserPageIn vm pd va pa flags = some vm') :
    (∀ va' < userLimit, tableOf vm'.mem pd va' = none ↔ tableOf vm.mem pd va' = none ∧ va' / 2^21 ≠ va / 2^21) ∧
      vm'.pages.freePages + (if tableOf vm.mem pd va = none then 1 else 0) = vm.pages.freePages := by
  obtain ⟨_,inside,_,_,_,⟨t,table,rfl⟩ | ⟨missing,pages,t,allocated,rfl⟩⟩ := pagingMapUserPageIn_cases mapped
  · have member := loan.grown.table_member inside table
    have apart (k : Nat) (bound : k < processPagingPages) :
        write vm.mem (t + 8 * ptIndex va) (entryOf pa flags) (pd / pageSize + k) = vm.mem (pd / pageSize + k) := by
      rw [write_word _ (tableOf_aligned table) (ptIndex_small va)]
      exact Function.update_of_ne (loan.grown.outside t member k bound).symm _ _
    obtain ⟨grown,_⟩ := loan.grown.congr apart
    refine ⟨?_,by rw [table]; rfl⟩
    intro va' inside'
    rw [grown.tableOf inside',tableAt_congr (pdptIndex_row inside') apart,← loan.grown.tableOf inside']
    refine ⟨fun none => ⟨none,?_⟩,And.left⟩
    intro region
    have first : pdptIndex va' = pdptIndex va := by
      simp only [pdptIndex]
      omega
    have second : pdIndex va' = pdIndex va := by rw [pdIndex,pdIndex,region]
    rw [loan.grown.tableOf inside',first,second,← loan.grown.tableOf inside,table] at none
    cases none
  · obtain ⟨first,rfl,takes,_⟩ := loan.lent.alloc allocated
    have free : isFree vm.pages first = true := takes.free first (Nat.le_refl _) (by omega)
    have apart (k : Nat) (bound : k < processPagingPages) : first ≠ pd / pageSize + k := by
      rintro rfl
      rw [loan.lent.used (Multiset.mem_add.mpr (.inl (block_owed _ _ bound)))] at free
      cases free
    obtain ⟨_,_,tables,_⟩ := loan.grown.withTable inside takes.high missing apart (entryOf pa flags)
    rw [address_frame]
    refine ⟨?_,?_⟩
    · intro va' inside'
      dsimp only
      rw [tables va' inside']
      split
      next region => exact ⟨by simp,fun both => absurd region both.2⟩
      next region => exact ⟨fun none => ⟨none,region⟩,And.left⟩
    · rw [if_pos missing]
      exact pageAllocContiguous_counter loan.lent.agrees allocated

theorem userTables_frames (m : Mem) (pd : Nat) : ((userTables m pd).map (· / pageSize)).map (· * pageSize) = userTables m pd := by
  rw [List.map_map]
  refine (List.map_congr_left fun t member => ?_).trans (List.map_id _)
  obtain ⟨i,_,inner⟩ := List.mem_flatMap.mp member
  obtain ⟨j,_,found⟩ := List.mem_filterMap.mp inner
  dsimp only at found
  split_ifs at found
  cases found
  have aligned := ptPtr_aligned (read m (pd + (i+1) * pageSize + 8 * j))
  rw [Function.comp_apply,Nat.div_mul_cancel (Nat.dvd_of_mod_eq_zero aligned)]
  rfl

/-- Destroying the space gives back what it consists of and nothing else. -/
theorem Loan.destroy (loan : Loan vm₀ vm pd extra) (kernel : isFree vm₀.pages (vm₀.pageRoot / pageSize) = false) :
    Lent vm₀.pages (pagingDestroyAddressSpace vm pd).pages extra ∧ Spares vm₀ vm (pagingDestroyAddressSpace vm pd) := by
  have lent := loan.lent
  rw [spaceOwed,add_comm (Frames.block (pd / pageSize) processPagingPages),add_assoc] at lent
  have tables := lent.giveBackAll
  rw [userTables_frames] at tables
  have blocks := tables.giveBackAll
  have addresses : ((List.range processPagingPages).map (pd / pageSize + ·)).map (· * pageSize) =
      (List.range processPagingPages).map fun i => pd + i * pageSize := by
    rw [List.map_map]
    refine List.map_congr_left fun i _ => ?_
    rw [Function.comp_apply,Nat.add_mul,Nat.div_mul_cancel (Nat.dvd_of_mod_eq_zero loan.grown.aligned)]
  rw [addresses,List.foldl_map] at blocks
  have taken : ¬ (pd = 0 ∨ pd = pagingKernelDirectory vm) := by
    rintro (null | same)
    · exact loan.grown.nonzero null
    · have free := loan.new _ (block_owed vm.mem pd (by decide : 0 < processPagingPages))
      rw [same,pagingKernelDirectory,loan.kernel,Nat.add_zero,kernel] at free
      cases free
  unfold pagingDestroyAddressSpace
  rw [if_neg taken]
  dsimp only
  refine ⟨blocks,?_⟩
  intro f used
  refine Function.update_of_ne ?_ _ _
  rintro rfl
  have free : isFree vm₀.pages (pd / pageSize) = true := loan.new _ (block_owed vm.mem pd (by decide : 0 < processPagingPages))
  rw [free] at used
  cases used

/-- Only the root of a space is written to when it is destroyed. -/
theorem pagingDestroyAddressSpace_mem (vm : Vm) {pd f : Nat} (other : f ≠ pd / pageSize) :
    (pagingDestroyAddressSpace vm pd).mem f = vm.mem f := by
  unfold pagingDestroyAddressSpace
  split
  · rfl
  · exact Function.update_of_ne other _ _

theorem pagingDestroyAddressSpace_root (vm : Vm) (pd : Nat) : (pagingDestroyAddressSpace vm pd).pageRoot = vm.pageRoot := by
  unfold pagingDestroyAddressSpace
  split <;> rfl

end Loan

end LionOS.Paging
