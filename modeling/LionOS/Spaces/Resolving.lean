import LionOS.Frames.Allocation
import LionOS.Spaces.Updates

/-! When a copy-on-write page can be resolved, what that takes from the page allocator, and
that no process sees another byte for it. -/
namespace LionOS.Paging
open LionOS.Memory LionOS.Physical LionOS.Frames

/-- The frames that `page_alloc` can hand out. -/
def spareFrames (a : Allocator) : Finset Nat := (Finset.Ico reservedPages maxPages).filter fun p => isFree a p = true

theorem mem_spareFrames (a : Allocator) (p : Nat) :
    p ∈ spareFrames a ↔ (reservedPages ≤ p ∧ p < maxPages) ∧ isFree a p = true := by
  rw [spareFrames,Finset.mem_filter,Finset.mem_Ico]

theorem pageAlloc_fails (a : Allocator) : pageAlloc a = none ↔ (spareFrames a).card = 0 := by
  rw [pageAlloc,(pageAllocContiguous_allocates a 1).fails,Finset.card_eq_zero,Finset.eq_empty_iff_forall_notMem]
  constructor
  · intro absent p member
    obtain ⟨⟨low,high⟩,free⟩ := (mem_spareFrames a p).mp member
    refine absent p ⟨by omega,low,by omega,?_⟩
    intro q above below
    rwa [show q = p by omega]
  · intro empty p run
    have low := run.low
    have high := run.high
    exact empty p ((mem_spareFrames a p).mpr ⟨⟨low,by omega⟩,run.free p (Nat.le_refl p) (by omega)⟩)

theorem spareFrames_takes {a a' : Allocator} {first : Nat} (takes : Takes a a' first 1) :
    (spareFrames a').card + 1 = (spareFrames a).card := by
  have low := takes.low
  have high := takes.high
  have member : first ∈ spareFrames a :=
    (mem_spareFrames a first).mpr ⟨⟨low,by omega⟩,takes.free first (Nat.le_refl first) (by omega)⟩
  have rest : spareFrames a' = (spareFrames a).erase first := by
    ext p
    rw [Finset.mem_erase,mem_spareFrames,mem_spareFrames,takes.single,Bool.and_eq_true,decide_eq_true_eq]
    constructor
    · rintro ⟨range,free,other⟩
      exact ⟨other,range,free⟩
    · rintro ⟨other,range,free⟩
      exact ⟨range,free,other⟩
  rw [rest]
  exact Finset.card_erase_add_one member

theorem spareFrames_congr {a a' : Allocator} (same : ∀ p, isFree a' p = isFree a p) : spareFrames a' = spareFrames a := by
  ext p
  rw [mem_spareFrames,mem_spareFrames,same]

/-- The byte that a process with the directory `pd` sees at `va`. -/
def userByte (vm : Vm) (pd va : Nat) : Option Byte :=
  (pagingGetUserPage vm pd va).map fun page => readByte vm.mem (page.1 + va % pageSize)

theorem userByte_outside (vm : Vm) {pd va : Nat} (outside : pd = 0 ∨ va ≥ userLimit) : userByte vm pd va = none := by
  rw [userByte,pagingGetUserPage_outside vm outside]
  rfl

theorem userByte_mapped {vm : Vm} {pd va page : Nat} {flags : Word} (found : pagingGetUserPage vm pd va = some (page,flags))
    (aligned : page % pageSize = 0) : userByte vm pd va = some (byteOf (vm.mem (page / pageSize)) (va % pageSize)) := by
  have frame : (page + va % pageSize) / 4096 = page / pageSize := by
    simp only [pageSize] at *
    omega
  have offset : (page + va % pageSize) % 4096 = va % pageSize := by
    simp only [pageSize] at *
    omega
  simp only [userByte,found,Option.map_some,readByte,frame,offset]

theorem userByte_congr {vm vm' : Vm} {pd va page page' : Nat} {flags flags' : Word}
    (found : pagingGetUserPage vm pd va = some (page,flags)) (aligned : page % pageSize = 0)
    (found' : pagingGetUserPage vm' pd va = some (page',flags')) (aligned' : page' % pageSize = 0)
    (same : vm'.mem (page' / pageSize) = vm.mem (page / pageSize)) : userByte vm' pd va = userByte vm pd va := by
  rw [userByte_mapped found aligned,userByte_mapped found' aligned',same]

/-- What resolving a page of the frame `page` takes: nothing for its last holder, and else a
frame for the copy, with a holder less for the old one. -/
structure Accounts (vm vm' : Vm) (page : Nat) : Prop where
  last : pageRefcount vm.pages page = 1 → vm'.pages = vm.pages
  shared : pageRefcount vm.pages page ≠ 1 → 1 < pageRefcount vm.pages page ∧
    (spareFrames vm'.pages).card + 1 = (spareFrames vm.pages).card ∧
    ∀ address, address % pageSize = 0 → isFree vm.pages (address / pageSize) = false →
      pageRefcount vm'.pages address =
        Function.update (pageRefcount vm.pages) page (pageRefcount vm.pages page - 1) address

section Resolve
variable {vm vm' : Vm} {pd va page : Nat} {flags : Word}

theorem pagingResolveCow_accounts (resolved : pagingResolveCow vm pd va = some vm')
    (mapped : mapping vm.mem pd va = some (page,flags)) : Accounts vm vm' page := by
  obtain ⟨_,_,_,t,table,present,_,outcome⟩ := pagingResolveCow_cases resolved
  have here : mapping vm.mem pd va = _ := (congrArg (Option.bind · _) table).trans present
  rw [mapped] at here
  generalize entryAt vm.mem t va = old at *
  cases here
  rcases outcome with ⟨single,rfl⟩ | ⟨several,pages,fresh,allocated,rfl⟩
  · exact ⟨fun _ => rfl,fun other => absurd single other⟩
  · obtain ⟨first,rfl,takes⟩ := pageAlloc_takes allocated
    obtain ⟨inside,used,counted⟩ := pageRefcount_positive (by omega : 0 < pageRefcount vm.pages (ptPtr old))
    have free : isFree vm.pages first = true := takes.free first (Nat.le_refl _) (by omega)
    have elsewhere {f : Nat} (held : isFree vm.pages f = false) : f ≠ first := by
      rintro rfl
      rw [free] at held
      cases held
    have references : 1 < pages.pageRefs (ptPtr old / pageSize) := by
      rw [takes.refs,if_neg (by have := elsewhere used; omega)]
      omega
    have freed := isFree_pageFree references
    obtain ⟨refs,_⟩ := pageFree_held inside (takes.taken used) (by omega)
    refine ⟨fun single => by omega,fun _ => ⟨several,?_,?_⟩⟩
    · rw [spareFrames_congr freed]
      exact spareFrames_takes takes
    · intro address aligned held
      have other : ¬ (first ≤ address / pageSize ∧ address / pageSize < first + 1) := by
        have := elsewhere held
        omega
      have count : pageRefcount (pageFree pages (ptPtr old)) address =
          if managed address then (pageFree pages (ptPtr old)).pageRefs (address / pageSize) else 0 := by
        simp only [pageRefcount,freed,takes.taken held,Bool.not_false,Bool.and_true]
      have before : pageRefcount vm.pages address = if managed address then vm.pages.pageRefs (address / pageSize) else 0 := by
        simp only [pageRefcount,held,Bool.not_false,Bool.and_true]
      rw [count,refs,takes.refs,if_neg other,Function.update_apply]
      by_cases same : address = ptPtr old
      · rw [if_pos same,same,if_pos inside,if_pos rfl,counted]
      · have apart : address / pageSize ≠ ptPtr old / pageSize := by
          have aligned' := ptPtr_aligned old
          simp only [pageSize] at *
          omega
        rw [if_neg same,if_neg apart,before]

/-- When a mapped copy-on-write page can be resolved. -/
theorem pagingResolveCow_fails (root : pd ≠ 0) (inside : va < userLimit) (place : va % pageSize = 0)
    (mapped : mapping vm.mem pd va = some (page,flags)) (marked : has flags pteCow = true) :
    pagingResolveCow vm pd va = none ↔ pageRefcount vm.pages page = 0 ∨
      pageRefcount vm.pages page ≠ 1 ∧ (spareFrames vm.pages).card = 0 := by
  obtain ⟨t,table,entry⟩ := Option.bind_eq_some_iff.mp mapped
  have reads : Physical.read vm.mem (t + 8 * ptIndex va) = word vm.mem t (ptIndex va) :=
    read_word vm.mem (tableOf_aligned table) (ptIndex_small va)
  generalize word vm.mem t (ptIndex va) = old at *
  unfold leaf at entry
  split_ifs at entry with user
  cases entry
  have cow : has old pteCow = true := by
    rwa [has,BitVec.and_assoc,show pteFlagsMask &&& pteCow = pteCow by decide] at marked
  rw [← pageAlloc_fails]
  unfold pagingResolveCow
  rw [if_neg (by omega),pteSlot_table,table]
  simp only [Option.map_some,reads,user,cow,Bool.and_true,if_true]
  cases pageRefcount vm.pages (ptPtr old) with
  | zero => simp
  | succ n =>
    cases n with
    | zero => simp
    | succ n => cases pageAlloc vm.pages <;> simp

variable {role : Nat → Role} (space : Space role vm pd) (kept : Kept role vm.pages)
include space kept

/-- The page has the bytes it had. -/
theorem pagingResolveCow_contents (resolved : pagingResolveCow vm pd va = some vm')
    (mapped : mapping vm.mem pd va = some (page,flags)) :
    ∃ page' flags', mapping vm'.mem pd va = some (page',flags') ∧
      vm'.mem (page' / pageSize) = vm.mem (page / pageSize) := by
  obtain ⟨_,inside,_,t,table,present,_,outcome⟩ := pagingResolveCow_cases resolved
  have here : mapping vm.mem pd va = _ := (congrArg (Option.bind · _) table).trans present
  have data := space.formed.pages va inside page flags mapped
  rw [mapped] at here
  generalize entryAt vm.mem t va = old at *
  cases here
  rcases outcome with ⟨_,rfl⟩ | ⟨_,pages,fresh,allocated,rfl⟩
  · refine ⟨ptPtr old,resolvedFlags old ||| ptePresent ||| pteUser,?_,?_⟩
    · dsimp only
      rw [setEntry_mapping space.formed.shaped inside table _ inside,if_pos rfl]
      exact leaf_userEntry old (resolvedFlags_bare old)
    · exact setEntry_frame space.formed.shaped inside table _ (by rw [data]; nofun)
  · obtain ⟨first,rfl,takes⟩ := pageAlloc_takes allocated
    obtain ⟨aligned,small,frame⟩ := table_address takes.high
    have vacant := kept.data (takes.free first (Nat.le_refl _) (by omega))
    have outside : ∀ f, (role f).space = some pd →
        Function.update vm.mem first (vm.mem (ptPtr old / pageSize)) f = vm.mem f := data_outside vacant vm.mem _
    have shaped := space.formed.shaped.congr outside
    have tables : tableOf (Function.update vm.mem first (vm.mem (ptPtr old / pageSize))) pd va = some t := by
      rw [← table]
      apply tableOf_congr space.formed.shaped _ _ inside
      · intro f root
        exact outside f (by rw [root]; rfl)
      · intro f i directory
        exact outside f (by rw [directory]; rfl)
    have entry := leaf_userEntry (BitVec.ofNat 64 (first * pageSize)) (resolvedFlags_bare old)
    rw [ptPtr_ofNat aligned small] at entry
    refine ⟨first * pageSize,resolvedFlags old ||| ptePresent ||| pteUser,?_,?_⟩
    · dsimp only
      rw [frame,setEntry_mapping shaped inside tables _ inside,if_pos rfl]
      exact entry
    · dsimp only
      rw [frame,setEntry_frame shaped inside tables _ (by rw [vacant]; nofun),Function.update_self]

/-- No process sees another byte once a page has been resolved. -/
theorem pagingResolveCow_bytes (resolved : pagingResolveCow vm pd va = some vm')
    {other : Nat} (separate : Space role vm other) (place : Nat) : userByte vm' other place = userByte vm other place := by
  by_cases outside : other = 0 ∨ place ≥ userLimit
  · rw [userByte_outside vm outside,userByte_outside vm' outside]
  · obtain ⟨_,inside,_⟩ := pagingResolveCow_cases resolved
    obtain ⟨_,_,_,remaps⟩ := pagingResolveCow_remaps space kept resolved
    have below : place < userLimit := by omega
    have now := pagingGetUserPage_mapping vm' below (by omega : other ≠ 0)
    have before := pagingGetUserPage_mapping vm below (by omega : other ≠ 0)
    have unmoved (same : mapping vm'.mem other place = mapping vm.mem other place) :
        userByte vm' other place = userByte vm other place := by
      cases mapped : mapping vm.mem other place with
      | none =>
        rw [mapped] at same before
        rw [userByte,userByte,now,same,before]
        rfl
      | some page =>
        obtain ⟨page,flags⟩ := page
        have aligned := mapping_aligned mapped
        rw [mapped] at same before
        rw [same] at now
        refine userByte_congr before aligned now aligned ?_
        exact remaps.contents _ (separate.held place below page flags mapped) (separate.formed.pages place below page flags mapped)
    by_cases own : other = pd
    · subst own
      have moved := remaps.mapping place below
      by_cases page' : place / pageSize = va / pageSize
      · obtain ⟨_,_,_,t,table,present,_⟩ := pagingResolveCow_cases resolved
        have here : mapping vm.mem other va = _ := (congrArg (Option.bind · _) table).trans present
        obtain ⟨fresh,flags,shown,bytes⟩ := pagingResolveCow_contents space kept resolved here
        rw [mapping_page vm.mem other page',here] at before
        rw [mapping_page vm'.mem other page',shown] at now
        exact userByte_congr before (mapping_aligned here) now (mapping_aligned shown) bytes
      · rw [if_neg page'] at moved
        exact unmoved moved
    · exact unmoved ((remaps.others other own separate).2 place below)

end Resolve

end LionOS.Paging
