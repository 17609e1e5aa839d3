import LionOS.Calls.UserMemory
import LionOS.Spaces.Updates

/-! The stores of the kernel to user memory: where they can be made, and what the
checks of a buffer establish for them. -/
namespace LionOS.Calls
open LionOS.Memory LionOS.Physical LionOS.Paging LionOS.Processes

/-- The page of the byte was present, of the user and writable when it was stored. -/
def Writable (st : UserStore) : Prop :=
  has st.flags ptePresent = true ∧ has st.flags pteUser = true ∧ has st.flags pteWritable = true

/-- What has been stored to user memory since `vm` went through writable pages of the
address spaces in `live`. -/
def Writes (live : Nat → Prop) (vm vm' : Vm) : Prop :=
  ∃ stores, vm'.userStores = vm.userStores ++ stores ∧ ∀ st ∈ stores, live st.directory ∧ Writable st

theorem Writes.silent {live : Nat → Prop} {vm vm' : Vm} (same : vm'.userStores = vm.userStores) : Writes live vm vm' :=
  ⟨[],by rw [same,List.append_nil],by simp⟩

theorem Writes.trans {live : Nat → Prop} {u v w : Vm} (first : Writes live u v) (second : Writes live v w) :
    Writes live u w := by
  obtain ⟨before,joined,good⟩ := first
  obtain ⟨after,later,fine⟩ := second
  refine ⟨before ++ after,by rw [later,joined,List.append_assoc],?_⟩
  intro st member
  rcases List.mem_append.mp member with early | late
  · exact good st early
  · exact fine st late

/-- A byte that a store through the directory does not fault on. -/
def writableAt (vm : Vm) (pd va : Nat) : Bool :=
  match pagingGetUserPage vm pd va with
  | none => false
  | some (_,flags) => has flags pteWritable

theorem writableAt_page (vm : Vm) (pd : Nat) {va va' : Nat} (same : va' / pageSize = va / pageSize) :
    writableAt vm pd va' = writableAt vm pd va := by
  rw [writableAt,writableAt,pagingGetUserPage_page vm pd same]

/-- Stores of the kernel to user memory, which leave the tables of `pd` alone. -/
structure Stored (live : Nat → Prop) (role : Nat → Role) (pd : Nat) (vm vm' : Vm) : Prop where
  pages : vm'.pages = vm.pages
  directory : vm'.currentDirectory = vm.currentDirectory
  tables : ∀ f, (role f).space = some pd → vm'.mem f = vm.mem f
  writes : Writes live vm vm'

section Stored
variable {live : Nat → Prop} {role : Nat → Role} {pd : Nat} {u v w : Vm}

theorem Stored.refl (vm : Vm) : Stored live role pd vm vm := ⟨rfl,rfl,fun _ _ => rfl,.silent rfl⟩

theorem Stored.trans (first : Stored live role pd u v) (second : Stored live role pd v w) : Stored live role pd u w :=
  ⟨second.pages.trans first.pages,second.directory.trans first.directory,
    fun f own => (second.tables f own).trans (first.tables f own),first.writes.trans second.writes⟩

theorem Stored.formed (stored : Stored live role pd u v) (formed : Formed role u.mem pd) : Formed role v.mem pd :=
  formed.congr stored.tables

theorem Stored.writableAt (stored : Stored live role pd u v) (formed : Formed role u.mem pd) (va : Nat) :
    writableAt v pd va = writableAt u pd va := by
  rw [Calls.writableAt,Calls.writableAt,pagingGetUserPage_congr formed.shaped stored.tables va]

theorem Stored.space (stored : Stored live role pd u v) (space : Space role u pd) : Space role v pd := by
  refine ⟨stored.formed space.formed,?_⟩
  intro va inside page flags
  rw [mapping_congr space.formed.shaped stored.tables inside,stored.pages]
  exact space.held va inside page flags

end Stored

section StoreUser
variable {live : Nat → Prop} {role : Nat → Role} {vm : Vm} {cpu : Nat}
  (formed : Formed role vm.mem (vm.currentDirectory cpu)) (own : live (vm.currentDirectory cpu))
include formed own

theorem storeUser_stored {va : Nat} (writable : writableAt vm (vm.currentDirectory cpu) va = true) (value : Byte) :
    ∃ vm', storeUser vm cpu va value = some vm' ∧ Stored live role (vm.currentDirectory cpu) vm vm' := by
  unfold writableAt at writable
  unfold storeUser
  cases found : pagingGetUserPage vm (vm.currentDirectory cpu) va with
  | none => simp [found] at writable
  | some page =>
    obtain ⟨physical,flags⟩ := page
    simp only [found] at writable
    obtain ⟨inside,root⟩ := pagingGetUserPage_bounds found
    rw [pagingGetUserPage_mapping vm inside root] at found
    have aligned := mapping_aligned found
    have frame : (physical + va % pageSize) / 4096 = physical / pageSize := by
      simp only [pageSize] at *
      omega
    refine ⟨_,if_pos writable,rfl,rfl,?_,?_⟩
    · intro f structural
      dsimp only [writeByte]
      rw [frame]
      exact data_outside (formed.pages va inside physical flags found) vm.mem _ f structural
    · refine ⟨_,rfl,?_⟩
      rintro st member
      rw [List.mem_singleton] at member
      subst member
      obtain ⟨present,user⟩ := mapping_flags found
      exact ⟨own,present,user,writable⟩

theorem storeUserBytes_stored {bytes : List Byte} {va : Nat}
    (writable : ∀ i < bytes.length, writableAt vm (vm.currentDirectory cpu) (va + i) = true) :
    ∃ vm', storeUserBytes vm cpu va bytes = some vm' ∧ Stored live role (vm.currentDirectory cpu) vm vm' := by
  induction bytes generalizing vm va with
  | nil => exact ⟨vm,rfl,.refl vm⟩
  | cons value rest ih =>
    obtain ⟨next,stored,kept⟩ := storeUser_stored formed own (writable 0 (by simp)) value
    have same : next.currentDirectory cpu = vm.currentDirectory cpu := by rw [kept.directory]
    rw [← same] at kept formed own
    have later : ∀ i < rest.length, writableAt next (next.currentDirectory cpu) (va + 1 + i) = true := by
      intro i inside
      rw [kept.writableAt formed,same,Nat.add_assoc,Nat.add_comm 1]
      exact writable (i+1) (by simpa using inside)
    obtain ⟨last,done,rests⟩ := ih (kept.formed formed) own later
    refine ⟨last,?_,?_⟩
    · rw [storeUserBytes,show storeUser vm cpu va value = some next from stored]
      exact done
    · rw [← same]
      exact kept.trans rests

/-- A store to a page that is not writable faults. -/
theorem storeUserBytes_faults {bytes : List Byte} {va i : Nat} (inside : i < bytes.length)
    (refused : writableAt vm (vm.currentDirectory cpu) (va + i) = false) : storeUserBytes vm cpu va bytes = none := by
  induction bytes generalizing vm va i with
  | nil => simp at inside
  | cons value rest ih =>
    cases stored : storeUser vm cpu va value with
    | none => rw [storeUserBytes,stored]
    | some next =>
      rw [storeUserBytes,stored]
      have here : writableAt vm (vm.currentDirectory cpu) va = true := by
        unfold storeUser at stored
        unfold writableAt
        cases found : pagingGetUserPage vm (vm.currentDirectory cpu) va with
        | none => simp [found] at stored
        | some page =>
          by_contra readOnly
          simp [found,readOnly] at stored
      obtain ⟨other,same,kept⟩ := storeUser_stored formed own here value
      rw [stored] at same
      cases same
      have directory : next.currentDirectory cpu = vm.currentDirectory cpu := by rw [kept.directory]
      cases i with
      | zero =>
        rw [Nat.add_zero,here] at refused
        cases refused
      | succ i =>
        rw [← directory] at kept formed own
        apply ih (kept.formed formed) own (i := i) (by simpa using inside)
        rw [kept.writableAt formed,directory,Nat.add_assoc,Nat.add_comm 1]
        exact refused

end StoreUser

theorem rangePages_aligned {ptr len va : Nat} (member : va ∈ rangePages ptr len) : va % pageSize = 0 := by
  obtain ⟨i,_,rfl⟩ := List.mem_map.mp member
  simp only [pageOf,pageSize]
  omega

theorem rangePages_covers {ptr len i : Nat} (inside : i < len) : pageOf (ptr + i) ∈ rangePages ptr len := by
  refine List.mem_map.mpr ⟨(ptr % pageSize + i) / pageSize,List.mem_range.mpr ?_,?_⟩
  · simp only [pageSize]
    omega
  · simp only [pageOf,pageSize]
    omega

theorem pageOf_page (va : Nat) : va / pageSize = pageOf va / pageSize := by
  simp only [pageOf,pageSize]
  omega

/-- A checked buffer can be read. -/
theorem loadUserBytes_checked {vm : Vm} {cpu ptr len : Nat} (checked : userRangeOk vm cpu ptr len = true) :
    ∃ bytes, loadUserBytes vm cpu ptr len = some bytes := by
  have present : ∀ i < len, (pagingGetUserPage vm (vm.currentDirectory cpu) (ptr + i)).isSome = true := by
    intro i inside
    rw [userRangeOk,if_neg (by omega),Bool.and_eq_true,List.all_eq_true] at checked
    rw [pagingGetUserPage_page vm _ (pageOf_page (ptr + i))]
    exact checked.2 _ (rangePages_covers inside)
  clear checked
  induction len generalizing ptr with
  | zero => exact ⟨[],rfl⟩
  | succ n ih =>
    have first : (loadUser vm cpu ptr).isSome = true := by
      rw [loadUser,Option.isSome_map]
      exact present 0 (by omega)
    obtain ⟨c,here⟩ := Option.isSome_iff_exists.mp first
    have shifted : ∀ i < n, (pagingGetUserPage vm (vm.currentDirectory cpu) (ptr + 1 + i)).isSome = true := by
      intro i inside
      rw [Nat.add_assoc,Nat.add_comm 1]
      exact present (i+1) (by omega)
    obtain ⟨rest,later⟩ := ih shifted
    refine ⟨c::rest,?_⟩
    simp only [loadUserBytes,here,later,Option.map_some]

theorem pagingResolveCow_keeps {vm vm' : Vm} {pd va : Nat} (resolved : pagingResolveCow vm pd va = some vm') :
    vm'.userStores = vm.userStores ∧ vm'.currentDirectory = vm.currentDirectory := by
  obtain ⟨_,_,_,t,_,_,_,⟨_,rfl⟩ | ⟨_,pages,page,_,rfl⟩⟩ := pagingResolveCow_cases resolved
  · exact ⟨rfl,rfl⟩
  · exact ⟨rfl,rfl⟩

/-- Copy-on-write pages of `pd` may have become writable, and no page has been lost. -/
structure Opened (role : Nat → Role) (pd : Nat) (vm vm' : Vm) : Prop where
  stores : vm'.userStores = vm.userStores
  directory : vm'.currentDirectory = vm.currentDirectory
  kept : Kept role vm'.pages
  space : Space role vm' pd
  writable : ∀ va, writableAt vm pd va = true → writableAt vm' pd va = true

section Opened
variable {role : Nat → Role} {pd : Nat} {u v w : Vm}

theorem Opened.refl (kept : Kept role v.pages) (space : Space role v pd) : Opened role pd v v :=
  ⟨rfl,rfl,kept,space,fun _ writable => writable⟩

theorem Opened.trans (first : Opened role pd u v) (second : Opened role pd v w) : Opened role pd u w :=
  ⟨second.stores.trans first.stores,second.directory.trans first.directory,second.kept,second.space,
    fun va writable => second.writable va (first.writable va writable)⟩

theorem writableAt_remaps {va page va' : Nat} {flags : Word} (root : pd ≠ 0) (inside : va < userLimit)
    (remaps : Remaps role role v w pd va (some (page,flags))) :
    writableAt w pd va' = if va' / pageSize = va / pageSize then has flags pteWritable else writableAt v pd va' := by
  unfold Calls.writableAt
  by_cases outside : va' ≥ userLimit
  · have apart : va' / pageSize ≠ va / pageSize := by
      simp only [userLimit,pageSize] at *
      omega
    rw [pagingGetUserPage_outside w (.inr outside),pagingGetUserPage_outside v (.inr outside),if_neg apart]
  · rw [pagingGetUserPage_mapping w (by omega) root,pagingGetUserPage_mapping v (by omega) root,
      remaps.mapping va' (by omega)]
    split_ifs <;> rfl

theorem pagingResolveCow_opened {va : Nat} (kept : Kept role v.pages) (space : Space role v pd)
    (resolved : pagingResolveCow v pd va = some w) :
    Opened role pd v w ∧ ∀ va', va' / pageSize = va / pageSize → writableAt w pd va' = true := by
  obtain ⟨stores,directory⟩ := pagingResolveCow_keeps resolved
  obtain ⟨root,inside,_⟩ := pagingResolveCow_cases resolved
  obtain ⟨page,flags,writable,remaps⟩ := pagingResolveCow_remaps space kept resolved
  refine ⟨⟨stores,directory,remaps.kept,remaps.space,?_⟩,?_⟩
  · intro va' before
    rw [writableAt_remaps root inside remaps]
    split_ifs
    · exact writable
    · exact before
  · intro va' same
    rw [writableAt_remaps root inside remaps,if_pos same]
    exact writable

theorem makeWritable_opened {pages : List Nat} {ok : Bool} (kept : Kept role v.pages) (space : Space role v pd)
    (made : makeWritable v pd pages = (w,ok)) :
    Opened role pd v w ∧ (ok = true → ∀ va ∈ pages, writableAt w pd va = true) := by
  induction pages generalizing v with
  | nil =>
    cases made
    exact ⟨.refl kept space,by simp⟩
  | cons va rest ih =>
    unfold makeWritable at made
    cases found : pagingGetUserPage v pd va with
    | none =>
      simp only [found] at made
      cases made
      exact ⟨.refl kept space,by simp⟩
    | some page =>
      obtain ⟨physical,flags⟩ := page
      simp only [found] at made
      by_cases writable : has flags pteWritable = true
      · rw [if_pos writable] at made
        obtain ⟨opened,all⟩ := ih kept space made
        refine ⟨opened,?_⟩
        intro granted other member
        rcases List.mem_cons.mp member with rfl | later
        · apply opened.writable
          simp only [Calls.writableAt,found]
          exact writable
        · exact all granted other later
      · rw [if_neg writable] at made
        by_cases marked : has flags pteCow = true
        · rw [if_pos marked] at made
          cases resolved : pagingResolveCow v pd va with
          | none =>
            simp only [resolved] at made
            cases made
            exact ⟨.refl kept space,by simp⟩
          | some next =>
            simp only [resolved] at made
            obtain ⟨first,here⟩ := pagingResolveCow_opened kept space resolved
            obtain ⟨opened,all⟩ := ih first.kept first.space made
            refine ⟨first.trans opened,?_⟩
            intro granted other member
            rcases List.mem_cons.mp member with rfl | later
            · exact opened.writable other (here other rfl)
            · exact all granted other later
        · rw [if_neg marked] at made
          cases made
          exact ⟨.refl kept space,by simp⟩

end Opened

/-- What `user_range_ok_write` establishes. -/
theorem userRangeOkWrite_opened {role : Nat → Role} {vm vm' : Vm} {cpu ptr len : Nat} {ok : Bool}
    (kept : Kept role vm.pages) (space : Space role vm (vm.currentDirectory cpu))
    (checked : userRangeOkWrite vm cpu ptr len = (vm',ok)) :
    Opened role (vm.currentDirectory cpu) vm vm' ∧
      (ok = true → ∀ i < len, writableAt vm' (vm.currentDirectory cpu) (ptr + i) = true) := by
  unfold userRangeOkWrite at checked
  by_cases empty : len = 0
  · rw [if_pos empty] at checked
    cases checked
    exact ⟨.refl kept space,by omega⟩
  · rw [if_neg empty] at checked
    split_ifs at checked with inside
    · obtain ⟨opened,all⟩ := makeWritable_opened kept space checked
      refine ⟨opened,?_⟩
      intro granted i below
      rw [writableAt_page vm' _ (pageOf_page (ptr + i))]
      exact all granted _ (rangePages_covers below)
    · cases checked
      exact ⟨.refl kept space,by simp⟩

/-- The word at `ptr` lies in a page that is neither writable nor copy-on-write. -/
def readOnlyWord (vm : Vm) (pd ptr : Nat) : Bool :=
  decide (ptr ≠ 0) && decide (ptr ≤ 0xBFFFFFFC) && decide (ptr % 4 = 0) &&
    match pagingGetUserPage vm pd (pageOf ptr) with
    | none => false
    | some (_,flags) => !has flags pteWritable && !has flags pteCow

section StatusWord
variable {live : Nat → Prop} {role : Nat → Role} {vm : Vm} {pd : Nat}

theorem storePhysical_writes {v : Vm} {ptr physical value : Nat} {flags : Word} (own : live pd)
    (found : pagingGetUserPage v pd (pageOf ptr) = some (physical,flags)) (writable : has flags pteWritable = true)
    (same : v.userStores = vm.userStores) : Writes live vm (storePhysical v pd ptr physical flags value) := by
  obtain ⟨inside,root⟩ := pagingGetUserPage_bounds found
  rw [pagingGetUserPage_mapping v inside root] at found
  obtain ⟨present,user⟩ := mapping_flags found
  refine ⟨_,by rw [storePhysical,same],?_⟩
  intro st member
  obtain ⟨i,_,rfl⟩ := List.mem_map.mp member
  exact ⟨own,present,user,writable⟩

theorem writeUserU32_writes (kept : Kept role vm.pages) (space : Space role vm pd) (own : live pd)
    {ptr : Nat} (value : Nat) (allowed : readOnlyWord vm pd ptr = false) :
    Writes live vm (writeUserU32 vm pd ptr value).1 := by
  unfold writeUserU32
  by_cases refused : ptr = 0 ∨ ptr > 0xBFFFFFFC ∨ ptr % 4 ≠ 0
  · rw [if_pos refused]
    exact .silent rfl
  · rw [if_neg refused]
    cases found : pagingGetUserPage vm pd (pageOf ptr) with
    | none => exact .silent rfl
    | some page =>
      obtain ⟨physical,flags⟩ := page
      simp only
      by_cases marked : has flags pteCow = true
      · rw [if_pos marked]
        cases resolved : pagingResolveCow vm pd (pageOf ptr) with
        | none => exact .silent rfl
        | some next =>
          obtain ⟨opened,writable⟩ := pagingResolveCow_opened kept space resolved
          have here := writable _ rfl
          simp only
          unfold writableAt at here
          cases again : pagingGetUserPage next pd (pageOf ptr) with
          | none => simp [again] at here
          | some page =>
            obtain ⟨physical,flags⟩ := page
            simp only [again] at here ⊢
            exact storePhysical_writes own again here opened.stores
      · rw [if_neg marked]
        have writable : has flags pteWritable = true := by
          simp only [readOnlyWord,found] at allowed
          by_contra readOnly
          simp only [Bool.not_eq_true] at readOnly marked
          simp only [readOnly,marked,Bool.not_false,Bool.and_true,Bool.and_eq_false_iff,decide_eq_false_iff_not] at allowed
          omega
        exact storePhysical_writes own found writable rfl

theorem writeUserU32_readOnly {ptr : Nat} (value : Nat) (readOnly : readOnlyWord vm pd ptr = true) :
    ¬ Writes live vm (writeUserU32 vm pd ptr value).1 := by
  simp only [readOnlyWord,Bool.and_eq_true,decide_eq_true_eq] at readOnly
  obtain ⟨bounds,refused⟩ := readOnly
  unfold writeUserU32
  rw [if_neg (by omega)]
  cases found : pagingGetUserPage vm pd (pageOf ptr) with
  | none => simp [found] at refused
  | some page =>
    obtain ⟨physical,flags⟩ := page
    simp only [found,Bool.and_eq_true,Bool.not_eq_true'] at refused
    simp only [refused.2]
    rintro ⟨stores,logged,good⟩
    have same := List.append_cancel_left logged
    have first : (⟨pd,ptr + 0,flags⟩ : UserStore) ∈ stores := by
      rw [← same]
      exact List.mem_map.mpr ⟨0,by simp,rfl⟩
    have writable := (good _ first).2.2.2
    rw [refused.1] at writable
    cases writable

end StatusWord

end LionOS.Calls
