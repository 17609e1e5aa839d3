import Mathlib.Order.Interval.Finset.Nat
import LionOS.Library.Run
import LionOS.Frames.Search

/-! The page allocator under any sequence of calls: what it hands out, and that its records
agree as long as no reference count is full. -/
namespace LionOS.Frames
open LionOS.Library LionOS.Memory LionOS.Physical

inductive Request where
  | alloc (count : Nat)
  | retain (address : Nat)
  | free (address : Nat)

/-- The allocator with the references that its callers hold: those of the last allocation of
a frame and of the calls of `page_retain` since, less those given back. -/
structure Ledger where
  allocator : Allocator
  owed : Nat → Nat

def allocate (t : Ledger) (count : Nat) : Ledger :=
  match pageAllocContiguous t.allocator count with
  | none => t
  | some (a,address) =>
    let first := address / pageSize
    ⟨a,fun p => if first ≤ p ∧ p < first + count then 1 else t.owed p⟩

/-- A reference more or less on a frame that has one. -/
def account (t : Ledger) (address : Nat) (change : Nat → Nat) : Nat → Nat :=
  let p := address / pageSize
  if managed address = true ∧ t.owed p ≠ 0 then Function.update t.owed p (change (t.owed p)) else t.owed

def serve (t : Ledger) : Request → Ledger
  | .alloc count => allocate t count
  | .retain address => ⟨pageRetain t.allocator address,account t address Nat.succ⟩
  | .free address => ⟨pageFree t.allocator address,account t address Nat.pred⟩

def opened (a : Allocator) : Ledger := ⟨a,fun _ => 0⟩

/-- Callers retain and give back frames that they hold. -/
def Held (t : Ledger) : Request → Prop
  | .alloc _ => True
  | .retain address => managed address = true ∧ t.owed (address / pageSize) ≠ 0
  | .free address => managed address = true ∧ t.owed (address / pageSize) ≠ 0

instance Held.decidable (t : Ledger) : ∀ request, Decidable (Held t request)
  | .alloc _ => isTrue trivial
  | .retain _ => inferInstanceAs (Decidable (_ ∧ _))
  | .free _ => inferInstanceAs (Decidable (_ ∧ _))

/-- No reference is added to a frame whose count is full, nor to one that is in use without
having been handed out. -/
def Countable (t : Ledger) : Request → Prop
  | .retain address => managed address = true → isFree t.allocator (address / pageSize) = false →
      t.allocator.pageRefs (address / pageSize) ≠ 0xFFFF ∧ t.allocator.pageRefs (address / pageSize) ≠ 0
  | _ => True

instance Countable.decidable (t : Ledger) : ∀ request, Decidable (Countable t request)
  | .alloc _ => isTrue trivial
  | .retain _ => inferInstanceAs (Decidable (_ → _ → _))
  | .free _ => isTrue trivial

/-! ### The references of a frame -/

/-- The records of the allocator against the references that callers hold and the frames
that were free in the beginning. -/
structure Balanced (start : Allocator) (t : Ledger) : Prop where
  agrees : Agrees t.allocator
  refs : ∀ p, t.allocator.pageRefs p = t.owed p
  bounded : ∀ p, t.owed p ≤ 0xFFFF
  free : ∀ p, isFree t.allocator p = true ↔ isFree start p = true ∧ t.owed p = 0
  origin : ∀ p, t.owed p ≠ 0 → isFree start p = true

theorem opened_balanced {a : Allocator} (unused : Unused a) : Balanced a (opened a) := by
  refine ⟨unused.agrees,unused.refs,fun _ => Nat.zero_le _,?_,fun p held => absurd rfl held⟩
  intro p
  exact ⟨fun free => ⟨free,rfl⟩,And.left⟩

theorem address_frame {first : Nat} : first * pageSize / pageSize = first := Nat.mul_div_cancel first (by decide)

theorem freeFrames_card (a : Allocator) : (freeFrames a).card ≤ maxPages := by
  have all := Finset.card_filter_le (Finset.range maxPages) fun p => isFree a p = true
  rwa [Finset.card_range] at all

theorem freeFrames_inside {a a' : Allocator} {first count : Nat} (takes : Takes a a' first count) :
    Finset.Ico first (first + count) ⊆ freeFrames a := by
  intro p member
  rw [Finset.mem_Ico] at member
  exact (mem_freeFrames a p).mpr (takes.free p member.1 member.2)

theorem freeFrames_enough {a a' : Allocator} {first count : Nat} (takes : Takes a a' first count) :
    count ≤ (freeFrames a).card := by
  have enough := Finset.card_le_card (freeFrames_inside takes)
  rw [Nat.card_Ico] at enough
  omega

theorem freeFrames_takes {a a' : Allocator} {first count : Nat} (takes : Takes a a' first count) :
    (freeFrames a').card = (freeFrames a).card - count := by
  have block : freeFrames a' = freeFrames a \ Finset.Ico first (first + count) := by
    ext p
    rw [mem_freeFrames,Finset.mem_sdiff,mem_freeFrames,Finset.mem_Ico,takes.rest,Bool.and_eq_true,Bool.not_eq_true',
      decide_eq_false_iff_not]
  rw [block,Finset.card_sdiff_of_subset (freeFrames_inside takes),Nat.card_Ico]
  omega

/-- Whoever calls, the records agree after an allocation. -/
theorem Agrees.alloc {a a' : Allocator} {count address : Nat} (agrees : Agrees a)
    (allocated : pageAllocContiguous a count = some (a',address)) : Agrees a' := by
  obtain ⟨first,_,takes⟩ := pageAllocContiguous_takes allocated
  obtain ⟨_,_,_,_,counter⟩ := pageAllocContiguous_found allocated
  have few := freeFrames_card a
  have enough := freeFrames_enough takes
  unfold maxPages at few
  refine ⟨?_,?_⟩
  · rw [counter,freeFrames_takes takes,agrees.counter]
    omega
  · intro p free
    rw [takes.rest,Bool.and_eq_true,Bool.not_eq_true',decide_eq_false_iff_not] at free
    rw [takes.refs,if_neg free.2]
    exact agrees.unreferenced p free.1

/-- The last reference to a frame frees it. -/
theorem pageFree_held {a : Allocator} {address : Nat} (inside : managed address = true)
    (used : isFree a (address / pageSize) = false) (counted : a.pageRefs (address / pageSize) ≠ 0) :
    (∀ p, (pageFree a address).pageRefs p = if p = address / pageSize then a.pageRefs p - 1 else a.pageRefs p) ∧
      (∀ p, isFree (pageFree a address) p = true ↔
        isFree a p = true ∨ p = address / pageSize ∧ a.pageRefs p = 1) ∧
      (pageFree a address).freePages =
        if a.pageRefs (address / pageSize) = 1 then (a.freePages + 1) % 2^32 else a.freePages := by
  have bound : address / pageSize < maxPages := by
    simp only [managed,Bool.and_eq_true,decide_eq_true_eq] at inside
    exact inside.2
  have accepted : (managed address && !isFree a (address / pageSize) && decide (a.pageRefs (address / pageSize) ≠ 0)) =
      true := by simp [inside,used,counted]
  have count (p : Nat) : Function.update a.pageRefs (address / pageSize) (a.pageRefs (address / pageSize) - 1) p =
      if p = address / pageSize then a.pageRefs p - 1 else a.pageRefs p := by
    rw [Function.update_apply]
    split
    next own => rw [own]
    next => rfl
  unfold pageFree
  dsimp only
  rw [if_pos accepted]
  simp only [Function.update_self]
  by_cases last : a.pageRefs (address / pageSize) - 1 = 0
  · have single : a.pageRefs (address / pageSize) = 1 := by omega
    rw [if_pos last]
    refine ⟨?_,?_,?_⟩
    · intro p
      rw [pageRefs_markFree]
      exact count p
    · intro p
      rw [isFree_freePages,isFree_markFree,Bool.or_eq_true,decide_eq_true_eq,isFree_pageRefs]
      constructor
      · rintro (free | ⟨own,_⟩)
        · exact .inl free
        · exact .inr ⟨own,by rw [own]; exact single⟩
      · rintro (free | ⟨own,_⟩)
        · exact .inl free
        · exact .inr ⟨own,bound⟩
    · rw [freePages_markFree,if_pos single]
  · have several : a.pageRefs (address / pageSize) ≠ 1 := by omega
    rw [if_neg last]
    refine ⟨?_,?_,?_⟩
    · exact count
    · intro p
      rw [isFree_pageRefs]
      constructor
      · exact .inl
      · rintro (free | ⟨own,single⟩)
        · exact free
        · rw [own] at single
          exact absurd single several
    · rw [if_neg several]

theorem pageFree_refused {a : Allocator} {address : Nat}
    (refused : ¬ (managed address = true ∧ isFree a (address / pageSize) = false ∧
      a.pageRefs (address / pageSize) ≠ 0)) : pageFree a address = a := by
  unfold pageFree
  dsimp only
  rw [if_neg]
  simp only [Bool.and_eq_true,Bool.not_eq_true',decide_eq_true_eq,and_assoc]
  exact refused

/-- Whoever calls, the records agree after a frame is given back. -/
theorem Agrees.free {a : Allocator} (agrees : Agrees a) (address : Nat) : Agrees (pageFree a address) := by
  by_cases held : managed address = true ∧ isFree a (address / pageSize) = false ∧ a.pageRefs (address / pageSize) ≠ 0
  · obtain ⟨refs,free,counter⟩ := pageFree_held held.1 held.2.1 held.2.2
    have absent : address / pageSize ∉ freeFrames a := by
      rw [mem_freeFrames,held.2.1]
      nofun
    refine ⟨?_,?_⟩
    · rw [counter,agrees.counter]
      split
      next last =>
        have block : freeFrames (pageFree a address) = insert (address / pageSize) (freeFrames a) := by
          ext p
          rw [mem_freeFrames,free,Finset.mem_insert,mem_freeFrames,or_comm]
          constructor
          · rintro (⟨own,_⟩ | free)
            · exact .inl own
            · exact .inr free
          · rintro (own | free)
            · exact .inl ⟨own,by rw [own]; exact last⟩
            · exact .inr free
        have few := freeFrames_card a
        unfold maxPages at few
        rw [block,Finset.card_insert_of_notMem absent]
        omega
      next several =>
        have same : freeFrames (pageFree a address) = freeFrames a := by
          apply freeFrames_congr
          intro p
          rw [Bool.eq_iff_iff,free]
          constructor
          · rintro (free | ⟨own,single⟩)
            · exact free
            · rw [own] at single
              exact absurd single several
          · exact .inl
        rw [same]
    · intro p vacant
      rw [refs]
      rcases (free p).mp vacant with before | ⟨own,last⟩
      · rw [if_neg]
        · exact agrees.unreferenced p before
        · rintro rfl
          rw [held.2.1] at before
          cases before
      · rw [if_pos own,last]
  · rw [pageFree_refused held]
    exact agrees

theorem Agrees.retain {a : Allocator} (agrees : Agrees a) (address : Nat) : Agrees (pageRetain a address) := by
  unfold pageRetain
  dsimp only
  split_ifs with held
  · simp only [Bool.and_eq_true,Bool.not_eq_true'] at held
    refine ⟨agrees.counter,?_⟩
    intro p free
    rw [isFree_pageRefs] at free
    dsimp only
    rw [Function.update_of_ne]
    · exact agrees.unreferenced p free
    · rintro rfl
      rw [held.1.2] at free
      cases free
  · exact agrees

section Steps
variable {start : Allocator} {t : Ledger}

theorem allocate_balanced (balanced : Balanced start t) (count : Nat) : Balanced start (allocate t count) := by
  unfold allocate
  cases allocated : pageAllocContiguous t.allocator count with
  | none => exact balanced
  | some result =>
    obtain ⟨a,address⟩ := result
    obtain ⟨first,place,takes⟩ := pageAllocContiguous_takes allocated
    dsimp only
    rw [place,address_frame]
    have vacant {p : Nat} (inside : first ≤ p ∧ p < first + count) : isFree start p = true ∧ t.owed p = 0 :=
      (balanced.free p).mp (takes.free p inside.1 inside.2)
    constructor
    · exact balanced.agrees.alloc allocated
    · intro p
      dsimp only
      rw [takes.refs]
      split
      · rfl
      · exact balanced.refs p
    · intro p
      dsimp only
      split
      · decide
      · exact balanced.bounded p
    · intro p
      dsimp only
      rw [takes.rest]
      by_cases inside : first ≤ p ∧ p < first + count
      · simp [inside]
      · rw [if_neg inside,← balanced.free p]
        simp [inside]
    · intro p held
      dsimp only at held
      split at held
      next inside => exact (vacant inside).1
      · exact balanced.origin p held

theorem account_other {address : Nat} {change : Nat → Nat} {p : Nat} (other : p ≠ address / pageSize) :
    account t address change p = t.owed p := by
  unfold account
  split
  · rw [Function.update_of_ne other]
  · rfl

theorem account_same {address : Nat} {change : Nat → Nat} (held : managed address = true ∧ t.owed (address / pageSize) ≠ 0) :
    account t address change (address / pageSize) = change (t.owed (address / pageSize)) := by
  unfold account
  rw [if_pos held,Function.update_self]

theorem account_none {address : Nat} {change : Nat → Nat}
    (absent : ¬ (managed address = true ∧ t.owed (address / pageSize) ≠ 0)) : account t address change = t.owed := by
  unfold account
  rw [if_neg absent]

theorem retain_balanced (balanced : Balanced start t) {address : Nat} (countable : Countable t (.retain address)) :
    Balanced start (serve t (.retain address)) := by
  have refs := balanced.refs (address / pageSize)
  by_cases held : managed address = true ∧ t.owed (address / pageSize) ≠ 0
  · have used : isFree t.allocator (address / pageSize) = false := by
      by_contra free
      exact held.2 ((balanced.free _).mp (by simpa using free)).2
    obtain ⟨room,_⟩ := countable held.1 used
    rw [refs] at room
    have small : t.owed (address / pageSize) < 0xFFFF := lt_of_le_of_ne (balanced.bounded _) room
    have result : pageRetain t.allocator address = {t.allocator with
        pageRefs := Function.update t.allocator.pageRefs (address / pageSize)
          (t.allocator.pageRefs (address / pageSize) + 1)} := by
      have space : t.allocator.pageRefs (address / pageSize) < 0xFFFF := by
        rw [refs]
        exact small
      simp [pageRetain,held.1,used,space]
    simp only [serve,result]
    have count (p : Nat) : Function.update t.allocator.pageRefs (address / pageSize)
        (t.allocator.pageRefs (address / pageSize) + 1) p = account t address Nat.succ p := by
      by_cases own : p = address / pageSize
      · rw [own,Function.update_self,account_same held,refs]
      · rw [Function.update_of_ne own,account_other own,balanced.refs]
    have free (p : Nat) : account t address Nat.succ p = 0 ↔ t.owed p = 0 := by
      by_cases own : p = address / pageSize
      · rw [own,account_same held]
        exact ⟨fun zero => absurd zero (Nat.succ_ne_zero _),fun zero => absurd zero held.2⟩
      · rw [account_other own]
    have agrees := balanced.agrees.retain address
    rw [result] at agrees
    refine ⟨agrees,count,?_,?_,?_⟩
    · intro p
      dsimp only
      by_cases own : p = address / pageSize
      · rw [own,account_same held]
        exact small
      · rw [account_other own]
        exact balanced.bounded p
    · intro p
      dsimp only
      rw [free]
      exact balanced.free p
    · intro p owed
      rw [Ne,free] at owed
      exact balanced.origin p owed
  · have same : pageRetain t.allocator address = t.allocator := by
      unfold pageRetain
      dsimp only
      rw [if_neg]
      simp only [Bool.and_eq_true,Bool.not_eq_true',not_and]
      intro valid _
      obtain ⟨inside,used⟩ := valid
      have counted := (countable inside used).2
      rw [refs] at counted
      exact absurd ⟨inside,counted⟩ held
    simp only [serve,same,account_none held]
    exact balanced

theorem Balanced.used (balanced : Balanced start t) {p : Nat} (held : t.owed p ≠ 0) : isFree t.allocator p = false := by
  by_contra free
  exact held ((balanced.free p).mp (by simpa using free)).2

theorem free_balanced (balanced : Balanced start t) (address : Nat) : Balanced start (serve t (.free address)) := by
  have counts := balanced.refs (address / pageSize)
  by_cases held : managed address = true ∧ t.owed (address / pageSize) ≠ 0
  · have used := balanced.used held.2
    obtain ⟨refs,free,_⟩ := pageFree_held held.1 used (by rw [counts]; exact held.2)
    have count (p : Nat) : (pageFree t.allocator address).pageRefs p = account t address Nat.pred p := by
      rw [refs]
      split
      next own => rw [own,account_same held,counts,Nat.pred_eq_sub_one]
      next other => rw [account_other other,balanced.refs]
    have vacant (p : Nat) : isFree (pageFree t.allocator address) p = true ↔
        isFree start p = true ∧ account t address Nat.pred p = 0 := by
      rw [free]
      by_cases own : p = address / pageSize
      · rw [own,account_same held,used,counts]
        have origin := balanced.origin _ held.2
        have nonzero := held.2
        simp only [origin,Nat.pred_eq_sub_one,true_and]
        constructor
        · rintro (absurd' | last)
          · cases absurd'
          · omega
        · intro last
          exact .inr (by omega)
      · rw [account_other own,balanced.free p]
        simp [own]
    simp only [serve]
    refine ⟨balanced.agrees.free address,count,?_,vacant,?_⟩
    · intro p
      dsimp only
      by_cases own : p = address / pageSize
      · rw [own,account_same held]
        exact (Nat.pred_le _).trans (balanced.bounded _)
      · rw [account_other own]
        exact balanced.bounded p
    · intro p owed
      by_cases own : p = address / pageSize
      · rw [own]
        exact balanced.origin _ held.2
      · dsimp only at owed
        rw [account_other own] at owed
        exact balanced.origin p owed
  · have same : pageFree t.allocator address = t.allocator := by
      apply pageFree_refused
      rintro ⟨inside,_,counted⟩
      rw [counts] at counted
      exact held ⟨inside,counted⟩
    simp only [serve,same,account_none held]
    exact balanced

theorem serve_balanced (balanced : Balanced start t) (request : Request) (countable : Countable t request) :
    Balanced start (serve t request) := by
  cases request with
  | alloc count => exact allocate_balanced balanced count
  | retain address => exact retain_balanced balanced countable
  | free address => exact free_balanced balanced address

end Steps

/-! ### Runs -/

/-- No reference is added to a frame whose count is full. -/
def Roomy (t : Ledger) : Request → Prop
  | .retain address => managed address = true → t.allocator.pageRefs (address / pageSize) ≠ 0xFFFF
  | _ => True

instance Roomy.decidable (t : Ledger) : ∀ request, Decidable (Roomy t request)
  | .alloc _ => isTrue trivial
  | .retain _ => inferInstanceAs (Decidable (_ → _))
  | .free _ => isTrue trivial

theorem Balanced.countable {start : Allocator} {t : Ledger} (balanced : Balanced start t) {request : Request}
    (held : Held t request) (roomy : Roomy t request) : Countable t request := by
  cases request with
  | retain address =>
    intro inside _
    refine ⟨roomy inside,?_⟩
    rw [balanced.refs]
    exact held.2
  | alloc | free => trivial

/-- The records agree, every allocation is the lowest one there is, and no frame of it
belongs to a block that is still held. -/
structure Consistent (t : Ledger) : Prop where
  agrees : Agrees t.allocator
  allocates : ∀ count, Allocates t.allocator count
  apart : ∀ count a address, pageAllocContiguous t.allocator count = some (a,address) →
    ∀ p, address / pageSize ≤ p → p < address / pageSize + count → t.owed p = 0

theorem Balanced.consistent {start : Allocator} {t : Ledger} (balanced : Balanced start t) : Consistent t := by
  refine ⟨balanced.agrees,pageAllocContiguous_allocates t.allocator,?_⟩
  intro count a address allocated p above below
  obtain ⟨first,place,takes⟩ := pageAllocContiguous_takes allocated
  rw [place,address_frame] at above below
  exact ((balanced.free p).mp (takes.free p above below)).2

theorem run_balanced {start : Allocator} {t : Ledger} {requests : List Request} (balanced : Balanced start t)
    (held : Meets serve Held t requests) (roomy : Meets serve Roomy t requests) :
    Balanced start (run serve t requests) := by
  induction requests generalizing t with
  | nil => exact balanced
  | cons request rest ih =>
    have next := serve_balanced balanced request (balanced.countable held.1 roomy.1)
    exact ih next held.2 roomy.2

/-- Callers that use the frames they hold, and never add a reference to a full count. -/
theorem allocator_consistent {bytes : Nat → Byte} {mi kernelStart kernelEnd fuel : Nat} {a : Allocator}
    (booted : memoryInit bytes mi kernelStart kernelEnd fuel = some a) (requests : List Request)
    (held : Meets serve Held (opened a) requests) (roomy : Meets serve Roomy (opened a) requests) :
    Consistent (run serve (opened a) requests) :=
  (run_balanced (opened_balanced (memoryInit_unused booted)) held roomy).consistent

/-- The boot information of a machine with one available page above the reserved ones: its
size, the header of a memory map with entries of 24 bytes, and the entry. -/
def onePage : Nat → Byte := fun i =>
  if i = 0 then 48 else if i = 8 then 6 else if i = 12 then 40 else if i = 16 then 24
  else if i = 26 then 0x80 else if i = 33 then 0x10 else if i = 40 then 1 else 0

theorem reserveRange_outside {a : Allocator} {first last q : Nat}
    (outside : ∀ address ∈ pagesBetween (alignDown first) (alignUp last), frameOf address ≠ q) :
    isFree (reserveRange a first last) q = isFree a q := by
  unfold reserveRange
  split
  · rfl
  · refine List.foldlRecOn _ _ (motive := fun b => isFree b q = isFree a q) rfl ?_
    intro b same address member
    rw [← same]
    unfold reserveFrame
    split
    · rw [isFree_freePages,isFree_markUsed]
      simp [(outside address member).symm]
    · rfl

theorem pagesBetween_below {first last bound address : Nat} (inside : address ∈ pagesBetween first last)
    (small : last ≤ bound * pageSize) : frameOf address < bound := by
  obtain ⟨i,within,rfl⟩ := List.mem_map.mp inside
  rw [List.mem_range] at within
  simp only [frameOf,pageSize] at *
  omega

theorem reserveRange_above {a : Allocator} {first last bound q : Nat} (small : alignUp last ≤ bound * pageSize)
    (above : bound ≤ q) : isFree (reserveRange a first last) q = isFree a q := by
  apply reserveRange_outside
  intro address member
  have below := pagesBetween_below member small
  omega

/-- That page is frame 2048, the first one above the reserved frames. -/
theorem onePage_boots : ∃ a, memoryInit onePage 0 0x100000 0x200000 8 = some a ∧ isFree a 2048 = true := by
  have mapped : ((forTags onePage (mmapTag onePage 8) 48 8 8 ⟨fun _ => 0xFFFFFFFF#32,fun _ => 0,0,0⟩).map
      fun a => isFree a 2048) = some true := by decide +kernel
  obtain ⟨a,scanned,free⟩ := Option.map_eq_some_iff.mp mapped
  have modules (a : Allocator) : forTags onePage (moduleTag onePage) 48 8 8 a = some a := rfl
  have above {a : Allocator} {first last : Nat} (small : alignUp last ≤ 2048 * pageSize) :
      isFree (reserveRange a first last) 2048 = isFree a 2048 := reserveRange_above small (Nat.le_refl _)
  refine ⟨reserveRange (reserveRange (reserveRange a 0 (reservedPages * pageSize)) 0x100000 0x200000) 0 48,?_,?_⟩
  · unfold memoryInit
    rw [show read32 onePage 0 = 48 from rfl]
    simp only [Nat.zero_add,scanned,modules]
  · rw [above (by decide),above (by decide),above (by decide),free]

/-- Frame 2048 is in use with `count` references recorded and `owed` references held. -/
structure Counts (t : Ledger) (count owed : Nat) : Prop where
  used : isFree t.allocator 2048 = false
  refs : t.allocator.pageRefs 2048 = count
  owed : t.owed 2048 = owed

theorem Counts.held {t : Ledger} {count owed : Nat} (counts : Counts t count (owed + 1)) :
    managed 0x800000 = true ∧ t.owed (0x800000 / pageSize) ≠ 0 := by
  have place : 0x800000 / pageSize = 2048 := rfl
  rw [place,counts.owed]
  exact ⟨rfl,Nat.succ_ne_zero owed⟩

theorem Counts.retain {t : Ledger} {count owed : Nat} (counts : Counts t count (owed + 1)) :
    Counts (serve t (.retain 0x800000)) (if count < 0xFFFF then count + 1 else count) (owed + 2) := by
  have place : 0x800000 / pageSize = 2048 := rfl
  have inside : managed 0x800000 = true := rfl
  have owes : account t 0x800000 Nat.succ 2048 = owed + 2 := by
    rw [← place,account_same counts.held,place,counts.owed]
  by_cases room : count < 0xFFFF
  · have result : pageRetain t.allocator 0x800000 = {t.allocator with
        pageRefs := Function.update t.allocator.pageRefs 2048 (count + 1)} := by
      simp [pageRetain,inside,place,counts.used,counts.refs,room]
    rw [if_pos room]
    refine ⟨?_,?_,owes⟩
    · simp only [serve,result]
      exact counts.used
    · simp only [serve,result,Function.update_self]
  · have result : pageRetain t.allocator 0x800000 = t.allocator := by
      simp [pageRetain,inside,place,counts.used,counts.refs,room]
    rw [if_neg room]
    refine ⟨?_,?_,owes⟩
    · simp only [serve,result]
      exact counts.used
    · simp only [serve,result]
      exact counts.refs

theorem Counts.free {t : Ledger} {count owed : Nat} (counts : Counts t (count + 2) (owed + 1)) :
    Counts (serve t (.free 0x800000)) (count + 1) owed := by
  have place : 0x800000 / pageSize = 2048 := rfl
  obtain ⟨refs,free,_⟩ := pageFree_held (a := t.allocator) (rfl : managed 0x800000 = true) counts.used (by
    rw [place,counts.refs]
    nofun)
  refine ⟨?_,?_,?_⟩
  · rw [Bool.eq_false_iff]
    intro vacant
    rcases (free 2048).mp vacant with before | ⟨_,single⟩
    · rw [counts.used] at before
      cases before
    · rw [counts.refs] at single
      omega
  · exact (refs 2048).trans (by rw [if_pos place.symm,counts.refs]; rfl)
  · simp only [serve]
    rw [← place,account_same counts.held,place,counts.owed,Nat.pred_succ]

/-- The count stops at 0xFFFF, the references go on. -/
theorem Counts.retains {t : Ledger} (counts : Counts t 1 1) (k : Nat) :
    Counts (run serve t (List.replicate k (.retain 0x800000))) (min (k + 1) 0xFFFF) (k + 1) ∧
      Meets serve Held t (List.replicate k (.retain 0x800000)) := by
  induction k with
  | zero => exact ⟨counts,trivial⟩
  | succ k ih =>
    obtain ⟨before,met⟩ := ih
    rw [List.replicate_succ',run_append,meets_append]
    refine ⟨?_,met,before.held,trivial⟩
    have next := before.retain
    have count : (if min (k + 1) 0xFFFF < 0xFFFF then min (k + 1) 0xFFFF + 1 else min (k + 1) 0xFFFF) =
        min (k + 1 + 1) 0xFFFF := by
      split <;> omega
    rw [count] at next
    exact next

theorem Counts.frees {t : Ledger} {count owed : Nat} (k : Nat) (counts : Counts t (count + k + 1) (owed + k)) :
    Counts (run serve t (List.replicate k (.free 0x800000))) (count + 1) owed ∧
      Meets serve Held t (List.replicate k (.free 0x800000)) := by
  induction k generalizing t with
  | zero => exact ⟨counts,trivial⟩
  | succ k ih =>
    have held := (counts : Counts t (count + (k + 1) + 1) (owed + k + 1)).held
    obtain ⟨after,met⟩ := ih (counts : Counts t (count + k + 2) (owed + k + 1)).free
    exact ⟨after,held,met⟩

theorem allocate_first {a : Allocator} (free : isFree a 2048 = true) :
    ∃ a', pageAllocContiguous a 1 = some (a',0x800000) ∧ isFree a' 2048 = false ∧ a'.pageRefs 2048 = 1 := by
  have whole : FreeRun a 1 2048 := by
    refine ⟨by decide,by decide,by decide,?_⟩
    intro p above below
    rw [show p = 2048 by omega]
    exact free
  obtain ⟨a',allocated,takes⟩ := freeRun_taken whole
  refine ⟨a',allocated,?_,?_⟩
  · rw [takes.rest]
    simp [reservedPages]
  · rw [takes.refs]
    simp [reservedPages]

theorem onePage_given {a : Allocator} (free : isFree a 2048 = true) : Counts (serve (opened a) (.alloc 1)) 1 1 := by
  obtain ⟨a',allocated,used,refs⟩ := allocate_first free
  have result : serve (opened a) (.alloc 1) = ⟨a',fun p => if 2048 ≤ p ∧ p < 2048 + 1 then 1 else 0⟩ := by
    simp only [serve,allocate,opened,allocated]
    rfl
  rw [result]
  exact ⟨used,refs,rfl⟩

/-- A page that is shared and given back once. -/
theorem shared_page_consistent : ∃ a, memoryInit onePage 0 0x100000 0x200000 8 = some a ∧
    Consistent (run serve (opened a) [.alloc 1,.retain 0x800000,.free 0x800000]) := by
  obtain ⟨a,booted,free⟩ := onePage_boots
  have given := onePage_given free
  refine ⟨a,booted,allocator_consistent booted _ ⟨trivial,given.held,given.retain.held,trivial⟩ ⟨trivial,?_,trivial,trivial⟩⟩
  intro _
  have refs : (serve (opened a) (.alloc 1)).allocator.pageRefs (0x800000 / pageSize) = 1 := given.refs
  rw [refs]
  decide

/-- The last recorded reference frees the frame, whoever still holds one. -/
theorem Counts.last {t : Ledger} {owed : Nat} (counts : Counts t 1 (owed + 1)) :
    isFree (serve t (.free 0x800000)).allocator 2048 = true ∧ (serve t (.free 0x800000)).owed 2048 = owed := by
  have place : 0x800000 / pageSize = 2048 := rfl
  obtain ⟨_,free,_⟩ := pageFree_held (a := t.allocator) (rfl : managed 0x800000 = true) counts.used (by
    rw [place,counts.refs]
    nofun)
  refine ⟨(free 2048).mpr (.inr ⟨rfl,counts.refs⟩),?_⟩
  simp only [serve]
  rw [← place,account_same counts.held,place,counts.owed,Nat.pred_succ]

/-- A caller that keeps 65536 references of its page and gives back 65535 of them. -/
def overfull : List Request :=
  .alloc 1 :: (List.replicate 65535 (.retain 0x800000) ++ (List.replicate 65534 (.free 0x800000) ++ [.free 0x800000]))

/-- The page is handed out once more while the caller still holds a reference of it. -/
theorem held_page_reallocated : ¬ ∀ (bytes : Nat → Byte) (mi kernelStart kernelEnd fuel : Nat) (a : Allocator),
    memoryInit bytes mi kernelStart kernelEnd fuel = some a → ∀ requests, Meets serve Held (opened a) requests →
      Consistent (run serve (opened a) requests) := by
  intro consistent
  obtain ⟨a,booted,free⟩ := onePage_boots
  obtain ⟨full,retained⟩ := (onePage_given free).retains 65535
  obtain ⟨single,freed⟩ := Counts.frees 65534 (full : Counts _ (0 + 65534 + 1) (2 + 65534))
  obtain ⟨vacant,owed⟩ := single.last
  have met : Meets serve Held (opened a) overfull := by
    refine ⟨trivial,?_⟩
    rw [meets_append,meets_append]
    exact ⟨retained,freed,single.held,trivial⟩
  have apart := (consistent onePage 0 0x100000 0x200000 8 a booted overfull met).apart
  obtain ⟨_,again,_⟩ := allocate_first vacant
  rw [overfull,run_cons,run_append,run_append] at apart
  have clash := apart 1 _ _ again 2048 (by decide) (by decide)
  exact absurd (owed.symm.trans clash) (by decide)

end LionOS.Frames
