import LionOS.Frames.Allocation

/-! Reference counting under any sequence of calls with any pointers: when a frame goes back
to the free pool, and that the frames that are reserved at boot never do. -/
namespace LionOS.Frames
open LionOS.Library LionOS.Memory LionOS.Physical

/-- A request gives a frame back exactly where it is the `page_free` of the last reference
that is owed, and it never gives out one of the frames that `start` reserves. -/
structure Settled (start : Allocator) (t : Ledger) (request : Request) : Prop where
  balance : ∀ p, isFree t.allocator p = false ∧ isFree (serve t request).allocator p = true ↔
    ∃ address, request = .free address ∧ managed address = true ∧ address / pageSize = p ∧ t.owed p = 1
  reserved : ∀ p, isFree start p = false → isFree (serve t request).allocator p = false

/-- Only a `page_free` takes the references that are owed for a frame from some to none. -/
theorem owed_gone {t : Ledger} {request : Request} {p : Nat} (held : t.owed p ≠ 0) (gone : (serve t request).owed p = 0) :
    ∃ address, request = .free address ∧ managed address = true ∧ address / pageSize = p ∧ t.owed p = 1 := by
  cases request with
  | alloc count =>
    exfalso
    simp only [serve,allocate] at gone
    split at gone
    · exact held gone
    · dsimp only at gone
      split at gone
      · cases gone
      · exact held gone
  | retain address =>
    exfalso
    simp only [serve,account] at gone
    split at gone
    · rw [Function.update_apply] at gone
      split at gone
      · cases gone
      · exact held gone
    · exact held gone
  | free address =>
    refine ⟨address,rfl,?_⟩
    simp only [serve,account] at gone
    split at gone
    next valid =>
      rw [Function.update_apply] at gone
      split at gone
      next own =>
        rw [← own,Nat.pred_eq_sub_one] at gone
        exact ⟨valid.1,own.symm,by omega⟩
      · exact absurd gone held
    · exact absurd gone held

theorem Balanced.settled {start : Allocator} {t : Ledger} (balanced : Balanced start t) {request : Request}
    (countable : Countable t request) : Settled start t request := by
  have after := serve_balanced balanced request countable
  constructor
  · intro p
    constructor
    · rintro ⟨used,free⟩
      obtain ⟨allocatable,gone⟩ := (after.free p).mp free
      refine owed_gone ?_ gone
      intro none
      have free := (balanced.free p).mpr ⟨allocatable,none⟩
      rw [used] at free
      cases free
    · rintro ⟨address,rfl,inside,rfl,last⟩
      have held : t.owed (address / pageSize) ≠ 0 := by
        rw [last]
        nofun
      refine ⟨balanced.used held,(after.free _).mpr ⟨balanced.origin _ held,?_⟩⟩
      simp only [serve]
      rw [account_same ⟨inside,held⟩,last]
      rfl
  · intro p reserved
    rw [Bool.eq_false_iff]
    intro free
    rw [((after.free p).mp free).1] at reserved
    cases reserved

/-- In a run that adds no reference to a full count and none to a reserved frame, the count
of a frame balances. -/
theorem references_balanced {bytes : Nat → Byte} {mi kernelStart kernelEnd fuel : Nat} {a : Allocator}
    (booted : memoryInit bytes mi kernelStart kernelEnd fuel = some a) (requests : List Request) (request : Request)
    (countable : Meets serve Countable (opened a) (requests ++ [request])) :
    Settled a (run serve (opened a) requests) request := by
  obtain ⟨before,last⟩ := (meets_append serve Countable (opened a) requests [request]).mp countable
  have preserved (t : Ledger) (request : Request) (balanced : Balanced a t) (countable : Countable t request) :
      Balanced a (serve t request) := serve_balanced balanced request countable
  exact (before.invariant preserved (opened_balanced (memoryInit_unused booted))).settled last.1

theorem shared_page_settled : ∃ a, memoryInit onePage 0 0x100000 0x200000 8 = some a ∧
    Settled a (run serve (opened a) [.alloc 1,.retain 0x800000]) (.free 0x800000) := by
  obtain ⟨a,booted,free⟩ := onePage_boots
  have given := onePage_given free
  refine ⟨a,booted,references_balanced booted [.alloc 1,.retain 0x800000] _ ⟨trivial,?_,trivial,trivial⟩⟩
  intro _ _
  have refs : (serve (opened a) (.alloc 1)).allocator.pageRefs (0x800000 / pageSize) = 1 := given.refs
  rw [refs]
  decide

/-- Boot information without a memory map. -/
def bare : Nat → Byte := fun i => if i = 0 then 8 else 0

theorem bare_boots : ∃ a, memoryInit bare 0 0x100000 0x200000 1 = some a ∧ isFree a 2048 = false := by
  have below {first last : Nat} (small : alignUp last ≤ 2048 * pageSize) (address : Nat)
      (member : address ∈ pagesBetween (alignDown first) (alignUp last)) : frameOf address ≠ 2048 :=
    (pagesBetween_below member small).ne
  refine ⟨reserveRange (reserveRange (reserveRange ⟨fun _ => 0xFFFFFFFF#32,fun _ => 0,0,0⟩ 0 (reservedPages * pageSize))
    0x100000 0x200000) 0 8,rfl,?_⟩
  rw [reserveRange_outside (below (by decide)),reserveRange_outside (below (by decide)),
    reserveRange_outside (below (by decide))]
  decide

/-- A reserved frame is retained and given back: it is allocatable from then on. -/
theorem reserved_frame_released : ¬ ∀ (bytes : Nat → Byte) (mi kernelStart kernelEnd fuel : Nat) (a : Allocator),
    memoryInit bytes mi kernelStart kernelEnd fuel = some a → ∀ requests request,
      Settled a (run serve (opened a) requests) request := by
  intro settled
  obtain ⟨a,booted,reserved⟩ := bare_boots
  have refs := (memoryInit_unused booted).refs 2048
  have place : 0x800000 / pageSize = 2048 := rfl
  have inside : managed 0x800000 = true := rfl
  have retained : pageRetain a 0x800000 = {a with pageRefs := Function.update a.pageRefs 2048 1} := by
    simp [pageRetain,inside,place,reserved,refs]
  have counted : (pageRetain a 0x800000).pageRefs (0x800000 / pageSize) = 1 := by
    rw [retained,place]
    simp only [Function.update_self]
  have used : isFree (pageRetain a 0x800000) (0x800000 / pageSize) = false := by
    rw [retained]
    exact reserved
  obtain ⟨_,free,_⟩ := pageFree_held inside used (by rw [counted]; simp)
  have released : isFree (pageFree (pageRetain a 0x800000) 0x800000) 2048 = true := (free 2048).mpr (.inr ⟨rfl,counted⟩)
  have kept := (settled bare 0 0x100000 0x200000 1 a booted [.retain 0x800000] (.free 0x800000)).reserved 2048 reserved
  have clash : true = false := released.symm.trans kept
  cases clash

end LionOS.Frames
