import LionOS.Calls.Protection
import LionOS.Library.Shares
import LionOS.Spaces.Resolving

/-! The checks of user buffers, with the page loop as the code runs it: which buffers pass,
and that the bytes of no process change, not even where a check fails half way. -/
namespace LionOS.Calls
open LionOS.Memory LionOS.Physical LionOS.Paging LionOS.Processes LionOS.Library LionOS.Frames

/-- The page loop of the two checks with its 32-bit sums: it goes on with the next page while
a page is fine and the range does not end in it. `none` is a loop without end. -/
def pageLoop {σ : Type} (visit : σ → Nat → σ × Bool) (finish : Nat) : Nat → σ → Nat → Option (σ × Bool)
  | 0, _, _ => none
  | fuel+1, s, addr =>
    match visit s addr with
    | (s,false) => some (s,false)
    | (s,true) =>
      if (addr + pageSize) % 2^32 ≥ finish then some (s,true)
      else pageLoop visit finish fuel s ((addr + pageSize) % 2^32)

def visitRead (pd : Nat) (vm : Vm) (va : Nat) : Vm × Bool := (vm,(pagingGetUserPage vm pd va).isSome)

def visitWrite (pd : Nat) (vm : Vm) (va : Nat) : Vm × Bool :=
  match pagingGetUserPage vm pd va with
  | none => (vm,false)
  | some (_,flags) =>
    if has flags pteWritable then (vm,true)
    else if has flags pteCow then
      match pagingResolveCow vm pd va with
      | none => (vm,false)
      | some vm => (vm,true)
    else (vm,false)

/-- The frame that `user_range_ok` and `user_range_ok_write` share, around the loop with
`visit`. No range touches more pages than there are in 32 bits of addresses. -/
def checkRange (visit : Nat → Vm → Nat → Vm × Bool) (vm : Vm) (cpu ptr len : Nat) : Option (Vm × Bool) :=
  if len = 0 then some (vm,decide (ptr ≥ userMin) && decide (ptr < userMax))
  else if ptr < userMin ∨ ptr ≥ userMax ∨ len > userMax - ptr then some (vm,false)
  else
    let finish := (ptr + len) % 2^32
    let addr := pageOf ptr
    let pd := pagingCurrentAddressSpace vm cpu
    if pd = 0 then some (vm,false)
    else pageLoop (visit pd) finish (2^32 / pageSize) vm addr

def userRangeOkLoop (vm : Vm) (cpu ptr len : Nat) : Option Bool := (checkRange visitRead vm cpu ptr len).map Prod.snd

def userRangeOkWriteLoop (vm : Vm) (cpu ptr len : Nat) : Option (Vm × Bool) := checkRange visitWrite vm cpu ptr len

/-! ### The pages that the loop visits -/

def pagesFrom (addr count : Nat) : List Nat := (List.range count).map fun i => addr + i * pageSize

theorem pagesFrom_succ (addr n : Nat) : pagesFrom addr (n+1) = addr :: pagesFrom (addr + pageSize) n := by
  rw [pagesFrom,List.range_succ_eq_map,List.map_cons,List.map_map,Nat.zero_mul,Nat.add_zero,pagesFrom]
  congr 1
  apply List.map_congr_left
  intro i _
  simp only [Function.comp_apply,Nat.succ_eq_add_one]
  rw [Nat.add_mul]
  omega

/-- The visits of the pages one after the other, up to the first that is not fine. -/
def visitPages {σ : Type} (visit : σ → Nat → σ × Bool) : σ → List Nat → σ × Bool
  | s, [] => (s,true)
  | s, va::rest => match visit s va with
    | (s,false) => (s,false)
    | (s,true) => visitPages visit s rest

/-- The loop visits the pages up to the one with the last byte, and its sums do not wrap. -/
theorem pageLoop_pages {σ : Type} (visit : σ → Nat → σ × Bool) {finish fuel n addr : Nat} (s : σ) (enough : n < fuel)
    (more : n = 0 ∨ addr + n * pageSize < finish) (last : finish ≤ addr + (n+1) * pageSize)
    (small : finish + pageSize < 2^32) (low : addr < finish) :
    pageLoop visit finish fuel s addr = some (visitPages visit s (pagesFrom addr (n+1))) := by
  induction fuel generalizing n addr s with
  | zero => omega
  | succ fuel ih =>
    have sum : (addr + pageSize) % 2^32 = addr + pageSize := Nat.mod_eq_of_lt (by omega)
    rw [pagesFrom_succ,pageLoop,visitPages,sum]
    rcases visit s addr with ⟨s,ok⟩
    cases ok with
    | false => rfl
    | true =>
      dsimp only
      cases n with
      | zero =>
        rw [if_pos (by omega)]
        rfl
      | succ n =>
        have next : addr + (n+1) * pageSize = addr + pageSize + n * pageSize := by
          rw [Nat.add_mul]
          omega
        have after : addr + (n+1+1) * pageSize = addr + pageSize + (n+1) * pageSize := by
          rw [Nat.add_mul (n+1)]
          omega
        have inside : addr + pageSize < finish := by
          have := Nat.zero_le (n * pageSize)
          omega
        rw [if_neg (by omega)]
        exact ih s (by omega) (.inr (by omega)) (by omega) inside

theorem rangePages_from (ptr len : Nat) : rangePages ptr len = pagesFrom (pageOf ptr) ((ptr % pageSize + len + pageSize - 1) / pageSize) :=
  rfl

/-- The touched pages are those of the bytes of the range. -/
theorem mem_rangePages {ptr len va : Nat} (positive : 0 < len) :
    va ∈ rangePages ptr len ↔ ∃ i < len, va = pageOf (ptr + i) := by
  constructor
  · intro member
    obtain ⟨j,below,rfl⟩ := List.mem_map.mp member
    rw [List.mem_range] at below
    refine ⟨j * pageSize - ptr % pageSize,?_,?_⟩
    · simp only [pageSize] at *
      omega
    · simp only [pageOf,pageSize] at *
      omega
  · rintro ⟨i,inside,rfl⟩
    exact rangePages_covers inside

theorem rangePages_distinct (ptr len : Nat) : (rangePages ptr len).Pairwise fun a b => a / pageSize ≠ b / pageSize := by
  rw [rangePages,List.pairwise_map]
  refine List.nodup_range.imp ?_
  intro i j apart same
  apply apart
  simp only [pageOf,pageSize] at same
  omega

theorem makeWritable_visits (vm : Vm) (pd : Nat) (pages : List Nat) :
    makeWritable vm pd pages = visitPages (visitWrite pd) vm pages := by
  induction pages generalizing vm with
  | nil => rfl
  | cons va rest ih =>
    rw [makeWritable,visitPages,visitWrite]
    cases pagingGetUserPage vm pd va with
    | none => rfl
    | some page =>
      obtain ⟨physical,flags⟩ := page
      dsimp only
      by_cases writable : has flags pteWritable = true
      · rw [if_pos writable,if_pos writable,ih]
      · rw [if_neg writable,if_neg writable]
        by_cases marked : has flags pteCow = true
        · rw [if_pos marked,if_pos marked]
          cases pagingResolveCow vm pd va with
          | none => rfl
          | some next => exact ih next
        · rw [if_neg marked,if_neg marked]

theorem visitRead_all (vm : Vm) (pd : Nat) (pages : List Nat) :
    visitPages (visitRead pd) vm pages = (vm,pages.all fun va => (pagingGetUserPage vm pd va).isSome) := by
  induction pages with
  | nil => rfl
  | cons va rest ih =>
    rw [visitPages,visitRead,List.all_cons]
    cases (pagingGetUserPage vm pd va).isSome with
    | false => rfl
    | true =>
      dsimp only
      rw [ih,Bool.true_and]

/-- The loop ends, and what it has visited are the pages of the range. -/
theorem checkRange_visits (visit : Nat → Vm → Nat → Vm × Bool) (vm : Vm) (cpu : Nat) {ptr len : Nat} (positive : 0 < len) :
    checkRange visit vm cpu ptr len = some
      (if inUserRange ptr len && decide (pagingCurrentAddressSpace vm cpu ≠ 0) then
        visitPages (visit (pagingCurrentAddressSpace vm cpu)) vm (rangePages ptr len)
      else (vm,false)) := by
  unfold checkRange inUserRange
  rw [if_neg (by omega)]
  by_cases refused : ptr < userMin ∨ ptr ≥ userMax ∨ len > userMax - ptr
  · rw [if_pos refused,if_neg]
    simp only [Bool.and_eq_true,decide_eq_true_eq]
    omega
  · rw [if_neg refused]
    by_cases root : pagingCurrentAddressSpace vm cpu = 0
    · dsimp only
      rw [if_pos root,if_neg]
      simp [root]
    · have inside : (decide (userMin ≤ ptr) && decide (ptr < userMax) && decide (len ≤ userMax - ptr) &&
          decide (pagingCurrentAddressSpace vm cpu ≠ 0)) = true := by
        simp only [Bool.and_eq_true,decide_eq_true_eq]
        omega
      dsimp only
      rw [if_neg root,if_pos inside]
      simp only [userMin,userMax] at refused
      have sum : (ptr + len) % 2^32 = ptr + len := Nat.mod_eq_of_lt (by omega)
      obtain ⟨n,pages⟩ : ∃ n, (ptr % pageSize + len + pageSize - 1) / pageSize = n + 1 := by
        refine ⟨(ptr % pageSize + len - 1) / pageSize,?_⟩
        simp only [pageSize]
        omega
      rw [sum,rangePages_from,pages]
      simp only [pageSize] at pages
      apply pageLoop_pages
      all_goals
        simp only [pageOf,pageSize]
        omega

theorem userRangeOkLoop_ends (vm : Vm) (cpu ptr len : Nat) :
    userRangeOkLoop vm cpu ptr len = some (userRangeOk vm cpu ptr len) := by
  unfold userRangeOkLoop userRangeOk
  by_cases empty : len = 0
  · rw [checkRange,if_pos empty,if_pos empty,inUserRange]
    simp
  · rw [checkRange_visits visitRead vm cpu (by omega),if_neg empty,Option.map_some,visitRead_all]
    cases inUserRange ptr len && decide (pagingCurrentAddressSpace vm cpu ≠ 0) with
    | false => simp
    | true => simp

theorem userRangeOkWriteLoop_ends (vm : Vm) (cpu ptr len : Nat) :
    userRangeOkWriteLoop vm cpu ptr len = some (userRangeOkWrite vm cpu ptr len) := by
  unfold userRangeOkWriteLoop userRangeOkWrite
  by_cases empty : len = 0
  · rw [checkRange,if_pos empty,if_pos empty,inUserRange]
    simp
  · rw [checkRange_visits visitWrite vm cpu (by omega),if_neg empty,makeWritable_visits]

/-! ### Which pages can be made writable -/

/-- The page of `va` is present, and it is writable or a copy-on-write page of a counted frame. -/
def MayWrite (vm : Vm) (pd va : Nat) : Prop :=
  ∃ page flags, pagingGetUserPage vm pd va = some (page,flags) ∧
    (has flags pteWritable = true ∨ has flags pteCow = true ∧ pageRefcount vm.pages page ≠ 0)

/-- The frame of a page that has to be resolved before it is written to. -/
def cowFrame (vm : Vm) (pd va : Nat) : Option Nat :=
  (pagingGetUserPage vm pd va).bind fun page =>
    if has page.2 pteWritable then none else if has page.2 pteCow then some page.1 else none

/-- All of `pages` can be resolved: there are frames enough for the copies that are needed when
the last holder of a frame keeps it. -/
def Resolvable (vm : Vm) (pd : Nat) (pages : List Nat) : Prop :=
  copies (pageRefcount vm.pages) (pages.filterMap (cowFrame vm pd)) ≤ (spareFrames vm.pages).card

section Resolving
variable {role : Nat → Role} {vm next : Vm} {pd va : Nat}

/-- Resolving a page leaves the other pages of the space alone. -/
theorem resolved_elsewhere (kept : Kept role vm.pages) (space : Space role vm pd)
    (resolved : pagingResolveCow vm pd va = some next) {other : Nat} (apart : other / pageSize ≠ va / pageSize) :
    pagingGetUserPage next pd other = pagingGetUserPage vm pd other := by
  obtain ⟨root,inside,_⟩ := pagingResolveCow_cases resolved
  obtain ⟨_,_,_,remaps⟩ := pagingResolveCow_remaps space kept resolved
  by_cases outside : other ≥ userLimit
  · rw [pagingGetUserPage_outside next (.inr outside),pagingGetUserPage_outside vm (.inr outside)]
  · rw [pagingGetUserPage_mapping next (by omega) root,pagingGetUserPage_mapping vm (by omega) root,
      remaps.mapping other (by omega),if_neg apart]

theorem cowFrame_mapped {other frame : Nat} (found : cowFrame vm pd other = some frame) :
    ∃ flags, pagingGetUserPage vm pd other = some (frame,flags) ∧ has flags pteWritable = false ∧ has flags pteCow = true := by
  obtain ⟨⟨page,flags⟩,here,chosen⟩ := Option.bind_eq_some_iff.mp found
  dsimp only at chosen
  split_ifs at chosen with writable marked
  cases chosen
  exact ⟨flags,here,by simpa using writable,marked⟩

/-- A mapped frame is page aligned and in use. -/
theorem mapped_frame (space : Space role vm pd) {other page : Nat} {flags : Word}
    (found : pagingGetUserPage vm pd other = some (page,flags)) :
    page % pageSize = 0 ∧ isFree vm.pages (page / pageSize) = false := by
  obtain ⟨inside,root⟩ := pagingGetUserPage_bounds found
  rw [pagingGetUserPage_mapping vm inside root] at found
  exact ⟨mapping_aligned found,space.held other inside page flags found⟩

variable {page : Nat} {flags : Word} (kept : Kept role vm.pages) (space : Space role vm pd)
  (found : pagingGetUserPage vm pd va = some (page,flags)) (resolved : pagingResolveCow vm pd va = some next)
include kept space found resolved

omit kept space in
theorem resolved_accounts : Accounts vm next page ∧ pageRefcount vm.pages page ≠ 0 := by
  obtain ⟨root,inside,_,t,table,present,_,counted⟩ := pagingResolveCow_cases resolved
  have here : mapping vm.mem pd va = _ := (congrArg (Option.bind · _) table).trans present
  rw [pagingGetUserPage_mapping vm inside root] at found
  refine ⟨pagingResolveCow_accounts resolved found,?_⟩
  rw [found] at here
  cases here
  rcases counted with ⟨single,_⟩ | ⟨several,_⟩
  · omega
  · omega

omit kept space in
/-- A holder more or less of the frame that has been resolved makes no frame uncounted. -/
theorem resolved_counted {frame : Nat} (aligned : frame % pageSize = 0) (used : isFree vm.pages (frame / pageSize) = false) :
    pageRefcount next.pages frame ≠ 0 ↔ pageRefcount vm.pages frame ≠ 0 := by
  obtain ⟨⟨last,shared⟩,counted⟩ := resolved_accounts found resolved
  by_cases single : pageRefcount vm.pages page = 1
  · rw [last single]
  · obtain ⟨several,_,refs⟩ := shared single
    rw [refs frame aligned used,Function.update_apply]
    by_cases same : frame = page
    · rw [if_pos same,same]
      omega
    · rw [if_neg same]

theorem resolved_mayWrite {other : Nat} (apart : other / pageSize ≠ va / pageSize) :
    MayWrite next pd other ↔ MayWrite vm pd other := by
  unfold MayWrite
  rw [resolved_elsewhere kept space resolved apart]
  constructor
  · rintro ⟨frame,flags,here,may⟩
    obtain ⟨aligned,used⟩ := mapped_frame space here
    rw [resolved_counted found resolved aligned used] at may
    exact ⟨frame,flags,here,may⟩
  · rintro ⟨frame,flags,here,may⟩
    obtain ⟨aligned,used⟩ := mapped_frame space here
    rw [← resolved_counted found resolved aligned used] at may
    exact ⟨frame,flags,here,may⟩

/-- The copies that are needed and the frames that are left go down together. -/
theorem resolved_resolvable (readOnly : has flags pteWritable = false) (marked : has flags pteCow = true) {rest : List Nat}
    (apart : ∀ other ∈ rest, other / pageSize ≠ va / pageSize) :
    Resolvable next pd rest ↔ Resolvable vm pd (va::rest) := by
  have own : cowFrame vm pd va = some page := by
    simp [cowFrame,found,readOnly,marked]
  have frames : rest.filterMap (cowFrame next pd) = rest.filterMap (cowFrame vm pd) := by
    apply List.filterMap_congr
    intro other member
    rw [cowFrame,cowFrame,resolved_elsewhere kept space resolved (apart other member)]
  unfold Resolvable
  rw [List.filterMap_cons_some own,frames]
  obtain ⟨⟨last,shared⟩,_⟩ := resolved_accounts found resolved
  by_cases single : pageRefcount vm.pages page = 1
  · rw [last single,copies_last (Nat.le_of_eq single)]
  · obtain ⟨several,spare,refs⟩ := shared single
    have same : ∀ frame ∈ rest.filterMap (cowFrame vm pd), pageRefcount next.pages frame =
        Function.update (pageRefcount vm.pages) page (pageRefcount vm.pages page - 1) frame := by
      intro frame member
      obtain ⟨other,_,here⟩ := List.mem_filterMap.mp member
      obtain ⟨_,mapped,_⟩ := cowFrame_mapped here
      obtain ⟨aligned,used⟩ := mapped_frame space mapped
      exact refs frame aligned used
    rw [copies_congr same,copies_shared several]
    omega

end Resolving

/-- The write check passes where each page may be written to and the frames suffice. -/
theorem makeWritable_exact {role : Nat → Role} {vm : Vm} {pd : Nat} {pages : List Nat} (kept : Kept role vm.pages)
    (space : Space role vm pd) (distinct : pages.Pairwise fun a b => a / pageSize ≠ b / pageSize)
    (aligned : ∀ va ∈ pages, va % pageSize = 0) :
    (makeWritable vm pd pages).2 = true ↔ (∀ va ∈ pages, MayWrite vm pd va) ∧ Resolvable vm pd pages := by
  induction pages generalizing vm with
  | nil => simp [makeWritable,Resolvable,copies]
  | cons va rest ih =>
    obtain ⟨apart,later⟩ := List.pairwise_cons.mp distinct
    have places : ∀ other ∈ rest, other % pageSize = 0 := fun other member => aligned other (List.mem_cons_of_mem va member)
    rw [makeWritable,List.forall_mem_cons]
    cases found : pagingGetUserPage vm pd va with
    | none =>
      constructor
      · nofun
      · rintro ⟨⟨⟨_,_,here,_⟩,_⟩,_⟩
        rw [found] at here
        cases here
    | some page =>
      obtain ⟨page,flags⟩ := page
      dsimp only
      by_cases writable : has flags pteWritable = true
      · have skipped : cowFrame vm pd va = none := by simp [cowFrame,found,writable]
        have here : MayWrite vm pd va := ⟨page,flags,found,.inl writable⟩
        rw [if_pos writable,ih kept space later places,Resolvable,Resolvable,List.filterMap_cons_none skipped]
        simp only [here,true_and]
      · rw [if_neg writable]
        have readOnly : has flags pteWritable = false := by simpa using writable
        by_cases marked : has flags pteCow = true
        · rw [if_pos marked]
          obtain ⟨inside,root⟩ := pagingGetUserPage_bounds found
          have mapped := (pagingGetUserPage_mapping vm inside root).symm.trans found
          cases resolved : pagingResolveCow vm pd va with
          | none =>
            have own : cowFrame vm pd va = some page := by simp [cowFrame,found,readOnly,marked]
            have failed := (pagingResolveCow_fails root inside (aligned va List.mem_cons_self) mapped marked).mp resolved
            constructor
            · nofun
            · rintro ⟨⟨⟨_,_,here,may⟩,_⟩,enough⟩
              rw [found] at here
              cases here
              rw [Resolvable,List.filterMap_cons_some own] at enough
              rcases failed with uncounted | ⟨other,full⟩
              · rcases may with may | ⟨_,counted⟩
                · exact absurd may writable
                · exact absurd uncounted counted
              · rcases may with may | ⟨_,counted⟩
                · exact absurd may writable
                · rw [copies_shared (by omega)] at enough
                  omega
          | some next =>
            obtain ⟨opened,_⟩ := pagingResolveCow_opened kept space resolved
            have counted := (resolved_accounts found resolved).2
            have here : MayWrite vm pd va := ⟨page,flags,found,.inr ⟨marked,counted⟩⟩
            have after : ∀ other ∈ rest, other / pageSize ≠ va / pageSize := fun other member => (apart other member).symm
            have others : (∀ other ∈ rest, MayWrite next pd other) ↔ ∀ other ∈ rest, MayWrite vm pd other :=
              forall₂_congr fun other member => resolved_mayWrite kept space found resolved (after other member)
            dsimp only
            rw [ih opened.kept opened.space later places,others,
              resolved_resolvable kept space found resolved readOnly marked after]
            simp only [here,true_and]
        · rw [if_neg marked]
          constructor
          · nofun
          · rintro ⟨⟨⟨_,_,here,may⟩,_⟩,_⟩
            rw [found] at here
            cases here
            rcases may with may | ⟨may,_⟩
            · exact absurd may writable
            · exact absurd may marked

/-- The spaces of all processes stay formed, and no process sees another byte. -/
theorem makeWritable_bytes {role : Nat → Role} {live : Nat → Prop} {vm vm' : Vm} {pd : Nat} {pages : List Nat} {ok : Bool}
    (kept : Kept role vm.pages) (spaces : ∀ other, live other → Space role vm other) (own : live pd)
    (made : makeWritable vm pd pages = (vm',ok)) :
    ∀ other, live other → ∀ va, userByte vm' other va = userByte vm other va := by
  induction pages generalizing vm with
  | nil =>
    cases made
    exact fun _ _ _ => rfl
  | cons va rest ih =>
    rw [makeWritable] at made
    cases found : pagingGetUserPage vm pd va with
    | none =>
      simp only [found] at made
      cases made
      exact fun _ _ _ => rfl
    | some page =>
      simp only [found] at made
      split_ifs at made with writable marked
      · exact ih kept spaces made
      · cases resolved : pagingResolveCow vm pd va with
        | none =>
          simp only [resolved] at made
          cases made
          exact fun _ _ _ => rfl
        | some next =>
          simp only [resolved] at made
          obtain ⟨_,_,_,remaps⟩ := pagingResolveCow_remaps (spaces pd own) kept resolved
          have formed : ∀ other, live other → Space role next other := by
            intro other alive
            by_cases same : other = pd
            · rw [same]
              exact remaps.space
            · exact (remaps.others other same (spaces other alive)).1
          intro other alive place
          rw [ih remaps.kept formed made other alive place]
          exact pagingResolveCow_bytes (spaces pd own) kept resolved (spaces other alive) place
      · cases made
        exact fun _ _ _ => rfl

/-- The range lies in the memory of users, over the integers. -/
def InUserMemory (ptr len : Nat) : Prop := userMin ≤ ptr ∧ ptr + len ≤ userMax

/-- What the two checks of a range say, and what the second leaves behind. -/
structure ChecksRange (live : Nat → Prop) (vm : Vm) (cpu ptr len : Nat) : Prop where
  reads : ∃ ok, userRangeOkLoop vm cpu ptr len = some ok ∧
    (ok = true ↔ InUserMemory ptr len ∧ ∀ i < len, (pagingGetUserPage vm (vm.currentDirectory cpu) (ptr + i)).isSome = true)
  writes : ∃ vm' ok, userRangeOkWriteLoop vm cpu ptr len = some (vm',ok) ∧
    (ok = true ↔ InUserMemory ptr len ∧ (∀ i < len, MayWrite vm (vm.currentDirectory cpu) (ptr + i)) ∧
      Resolvable vm (vm.currentDirectory cpu) (rangePages ptr len)) ∧
    (ok = true → ∀ i < len, writableAt vm' (vm.currentDirectory cpu) (ptr + i) = true) ∧
    ∀ other, live other → ∀ va, userByte vm' other va = userByte vm other va

theorem touched_pages {P : Nat → Prop} (paged : ∀ a b, a / pageSize = b / pageSize → (P a ↔ P b)) {ptr len : Nat}
    (positive : 0 < len) : (∀ va ∈ rangePages ptr len, P va) ↔ ∀ i < len, P (ptr + i) := by
  constructor
  · intro all i inside
    exact (paged _ _ (pageOf_page (ptr + i))).mpr (all _ (rangePages_covers inside))
  · intro all va member
    obtain ⟨i,inside,rfl⟩ := (mem_rangePages positive).mp member
    exact (paged _ _ (pageOf_page (ptr + i))).mp (all i inside)

theorem inUserRange_memory {ptr len : Nat} (positive : 0 < len) : inUserRange ptr len = true ↔ InUserMemory ptr len := by
  rw [inUserRange,Bool.and_eq_true,Bool.and_eq_true,decide_eq_true_eq,decide_eq_true_eq,decide_eq_true_eq,InUserMemory]
  have room : userMin ≤ userMax := by decide
  omega

/-- The read-only page of `textSpace`, and a copy-on-write page behind it. -/
def cowSpace (vm : Vm) : Option (Vm × Nat) := do
  let (vm,pd) ← textSpace vm
  let (pages,page) ← pageAlloc vm.pages
  let vm ← pagingMapUserPageIn {vm with pages} pd 0x10001000 page (ptePresent ||| pteCow)
  return (vm,pd)

/-- The end of the copy-on-write page passes the second check, and the last bytes of the
read-only page do not. -/
example : (cowSpace blank.vm).map (fun made => [0x10000FF0,0x10001FF0].map fun ptr =>
    (userRangeOkWrite {made.1 with currentDirectory := fun _ => made.2} 0 ptr 16).2) = some [false,true] := by
  decide +kernel

end LionOS.Calls
