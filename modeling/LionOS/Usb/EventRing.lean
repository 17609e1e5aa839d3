import Mathlib.Data.List.TakeWhile
import LionOS.Library.Laps
import LionOS.Library.Run
import LionOS.Usb.Trb

/-! The event ring of the xHCI driver and the controller that fills it. -/
namespace LionOS.Usb
open LionOS.Library

def eventTrbs : Nat := 256

/-- The ring in memory at the address `base`, the state of the driver and the register ERDP. -/
structure Events where
  base : Nat
  ring : Nat → Trb
  index : Nat
  cycle : Bool
  erdp : Nat

/-- `next_event`; `none` is the result -1. -/
def nextEvent (e : Events) : Option (Events × Trb) :=
  let t := e.ring e.index
  if t.cycle ≠ e.cycle then none
  else
    let index := e.index + 1
    let (index,cycle) := if index ≥ eventTrbs then (0,!e.cycle) else (index,e.cycle)
    some ({e with index,cycle,erdp := (e.base + index * trbSize) ||| 8},t)

/-- The loop of `event_available_count` with `left` rounds to go. -/
def countEvents (ring : Nat → Trb) : Nat → Nat → Bool → Nat
  | 0, _, _ => 0
  | left+1, index, cycle =>
    if (ring index).cycle ≠ cycle then 0
    else
      let next := index + 1
      let (next,cycle) := if next ≥ eventTrbs then (0,!cycle) else (next,cycle)
      countEvents ring left next cycle + 1

def eventAvailableCount (e : Events) : Nat := countEvents e.ring eventTrbs e.index e.cycle

/-- The rings are zeroed before `setup_rings`. -/
def setupEvents (base : Nat) : Events := ⟨base,fun _ => noTrb,0,true,base⟩

/-- The entry that a value of ERDP points to. The low four bits hold flags. -/
def erdpEntry (base erdp : Nat) : Nat := erdp / trbSize - base / trbSize

/-- The driver and the controller. `written` are the events of the controller and `taken`
those that `next_event` has returned. The controller keeps the place of its next event and
how many entries ERDP has been moved past. -/
structure Hub where
  driver : Events
  enqueue : Nat
  producerCycle : Bool
  passed : Nat
  written : List Trb
  taken : List Trb

inductive HubAct
  | post (event : Trb)
  | next
  | count

/-- The controller notes a new value of ERDP. -/
def Hub.acknowledge (h : Hub) (driver : Events) : Hub :=
  {h with
    driver
    passed := h.passed +
      (erdpEntry driver.base driver.erdp + eventTrbs - erdpEntry h.driver.base h.driver.erdp) % eventTrbs}

/-- The controller writes an event unless it would overtake ERDP. -/
def Hub.post (h : Hub) (event : Trb) : Hub :=
  if h.written.length < h.passed + eventTrbs then
    let t := event.withCycle h.producerCycle
    let (enqueue,producerCycle) := lapNext eventTrbs (h.enqueue,h.producerCycle)
    {h with
      driver := {h.driver with ring := Function.update h.driver.ring h.enqueue t}
      enqueue,producerCycle,written := h.written ++ [t]}
  else h

def Hub.step (h : Hub) : HubAct → Hub
  | .post event => h.post event
  | .next => match nextEvent h.driver with
    | none => h
    | some (driver,t) => {h.acknowledge driver with taken := h.taken ++ [t]}
  | .count => h

def setupHub (base : Nat) : Hub := ⟨setupEvents base,0,true,0,[],[]⟩

theorem nextEvent_lap (e : Events) (owned : (e.ring e.index).cycle = e.cycle) :
    nextEvent e = some ({e with
      index := (lapNext eventTrbs (e.index,e.cycle)).1,cycle := (lapNext eventTrbs (e.index,e.cycle)).2
      erdp := (e.base + (lapNext eventTrbs (e.index,e.cycle)).1 * trbSize) ||| 8},e.ring e.index) := by
  unfold nextEvent
  rw [if_neg (not_not.mpr owned)]
  rfl

theorem erdp_entry {base index : Nat} (aligned : base % 4096 = 0) :
    erdpEntry base ((base + index * trbSize) ||| 8) = index := by
  have whole : base + index * trbSize = 2^4 * (base / 16 + index) := by
    unfold trbSize
    omega
  have flag : 8 < 2^4 := by decide
  rw [whole,← Nat.two_pow_add_eq_or_of_lt flag]
  unfold erdpEntry trbSize
  omega

/-- What the driver knows about the ring: it has taken a first part of the events, it is at
most a lap behind, and ERDP points to the next event. -/
structure InStep (h : Hub) : Prop where
  laps : Laps eventTrbs Trb.cycle true h.driver.ring h.written
  fresh : Fresh eventTrbs Trb.cycle true h.driver.ring h.written.length
  enqueue : (h.enqueue,h.producerCycle) = (h.written.length % eventTrbs,lapBit eventTrbs true h.written.length)
  dequeue : (h.driver.index,h.driver.cycle) = (h.taken.length % eventTrbs,lapBit eventTrbs true h.taken.length)
  taken : h.taken = h.written.take h.taken.length
  behind : h.taken.length ≤ h.written.length
  near : h.written.length ≤ h.taken.length + eventTrbs
  passed : h.passed = h.taken.length
  erdp : erdpEntry h.driver.base h.driver.erdp = h.taken.length % eventTrbs
  aligned : h.driver.base % 4096 = 0

theorem first_place : (0,true) = (0 % eventTrbs,lapBit eventTrbs true 0) := by decide

theorem noTrb_unowned : noTrb.cycle ≠ true := by decide

theorem setup_inStep {base : Nat} (aligned : base % 4096 = 0) : InStep (setupHub base) where
  laps := .empty noTrb_unowned
  fresh := fun _ _ _ => noTrb_unowned
  enqueue := first_place
  dequeue := first_place
  taken := rfl
  behind := Nat.le_refl 0
  near := Nat.zero_le _
  passed := rfl
  erdp := Nat.sub_self _
  aligned := aligned

section Step
variable {h : Hub} (inStep : InStep h)
include inStep

theorem InStep.index : h.driver.index = h.taken.length % eventTrbs := congrArg Prod.fst inStep.dequeue

theorem InStep.cycle : h.driver.cycle = lapBit eventTrbs true h.taken.length := congrArg Prod.snd inStep.dequeue

theorem InStep.owned : (h.driver.ring h.driver.index).cycle = h.driver.cycle ↔ h.taken.length < h.written.length := by
  rw [inStep.index,inStep.cycle]
  exact inStep.laps.owned inStep.behind inStep.near

theorem InStep.next (left : h.taken.length < h.written.length) :
    h.written[h.taken.length]? = some (h.driver.ring h.driver.index) := by
  rw [inStep.index]
  exact inStep.laps.read left inStep.near

theorem InStep.post (event : Trb) : InStep (h.post event) := by
  unfold Hub.post
  split
  next room =>
    have index : h.enqueue = h.written.length % eventTrbs := congrArg Prod.fst inStep.enqueue
    have cycle : h.producerCycle = lapBit eventTrbs true h.written.length := congrArg Prod.snd inStep.enqueue
    have length : (h.written ++ [event.withCycle h.producerCycle]).length = h.written.length + 1 := by simp
    have laps : Laps eventTrbs Trb.cycle true (Function.update h.driver.ring h.enqueue (event.withCycle h.producerCycle))
        (h.written ++ [event.withCycle h.producerCycle]) := by
      rw [index]
      apply inStep.laps.put (by decide)
      · rw [withCycle_cycle]
        exact cycle
      · exact inStep.fresh.ahead inStep.laps (by decide) (Nat.lt_succ_self _) (Nat.add_lt_add_left (by decide) _)
    refine ⟨laps,?_,?_,inStep.dequeue,?_,?_,?_,inStep.passed,inStep.erdp,inStep.aligned⟩
    · dsimp only
      rw [length,index]
      exact inStep.fresh.put _
    · rw [length,← lapNext_write (by decide),← inStep.enqueue]
    · dsimp only
      rw [List.take_append_of_le_length inStep.behind]
      exact inStep.taken
    · dsimp only
      rw [length]
      exact Nat.le_succ_of_le inStep.behind
    · dsimp only
      rw [length]
      rw [inStep.passed] at room
      exact room
  next => exact inStep

theorem InStep.take (left : h.taken.length < h.written.length) {driver : Events} {t : Trb}
    (returned : nextEvent h.driver = some (driver,t)) :
    t = h.written[h.taken.length] ∧ InStep {h.acknowledge driver with taken := h.taken ++ [t]} := by
  rw [nextEvent_lap h.driver (inStep.owned.mpr left),Option.some.injEq,Prod.mk.injEq] at returned
  obtain ⟨rfl,rfl⟩ := returned
  have here : h.driver.ring h.driver.index = h.written[h.taken.length] := by
    have found := inStep.next left
    rw [List.getElem?_eq_getElem left] at found
    exact (Option.some.inj found).symm
  have length : (h.taken ++ [h.driver.ring h.driver.index]).length = h.taken.length + 1 := by simp
  have advanced : lapNext eventTrbs (h.driver.index,h.driver.cycle) =
      ((h.taken.length + 1) % eventTrbs,lapBit eventTrbs true (h.taken.length + 1)) := by
    rw [inStep.dequeue]
    exact lapNext_write (by decide) _
  have entry : erdpEntry h.driver.base
      ((h.driver.base + (lapNext eventTrbs (h.driver.index,h.driver.cycle)).1 * trbSize) ||| 8) =
        (h.taken.length + 1) % eventTrbs := by
    rw [erdp_entry inStep.aligned,advanced]
  refine ⟨here,inStep.laps,inStep.fresh,inStep.enqueue,?_,?_,?_,?_,?_,?_,inStep.aligned⟩
  · dsimp only
    rw [length]
    exact advanced
  · have first : h.written.take (h.taken.length + 1) = h.taken ++ [h.driver.ring h.driver.index] := by
      rw [List.take_add_one,← inStep.taken,List.getElem?_eq_getElem left,here]
      rfl
    dsimp only
    rw [length]
    exact first.symm
  · dsimp only
    rw [length]
    exact left
  · dsimp only
    rw [length]
    exact Nat.le_trans inStep.near (Nat.add_le_add_right (Nat.le_succ _) _)
  · unfold Hub.acknowledge
    dsimp only
    rw [length,entry,inStep.erdp,inStep.passed]
    unfold eventTrbs at *
    omega
  · dsimp only
    rw [length]
    exact entry

theorem InStep.step (act : HubAct) : InStep (h.step act) := by
  cases act with
  | post event => exact inStep.post event
  | next =>
    unfold Hub.step
    dsimp only
    split
    next => exact inStep
    next driver t returned =>
      by_cases left : h.taken.length < h.written.length
      · exact (inStep.take left returned).2
      · have refused : nextEvent h.driver = none := if_pos (mt inStep.owned.mp left)
        rw [refused] at returned
        cases returned
  | count => exact inStep

theorem InStep.count {k left : Nat} (behind : k ≤ h.written.length) (near : h.written.length ≤ k + left)
    (few : left ≤ eventTrbs) :
    countEvents h.driver.ring left (k % eventTrbs) (lapBit eventTrbs true k) = h.written.length - k := by
  induction left generalizing k with
  | zero =>
    unfold countEvents
    omega
  | succ left ih =>
    have owned := inStep.laps.owned behind (by omega)
    unfold countEvents
    by_cases more : k < h.written.length
    · rw [if_neg (not_not.mpr (owned.mpr more))]
      have later := ih more (by omega) (by omega)
      have advanced := @lapNext_write eventTrbs true (by decide) k
      unfold lapNext at advanced
      dsimp only at advanced ⊢
      rw [advanced]
      dsimp only
      rw [later]
      omega
    · rw [if_pos (mt owned.mp more)]
      omega

end Step

/-- The events that were returned are a first part of those written, the next one is
returned unless all have been, ERDP points to it, and the count is that of the rest. -/
structure Faithful (h : Hub) : Prop where
  order : h.taken = h.written.take h.taken.length
  next : ∀ left : h.taken.length < h.written.length, ∃ driver, nextEvent h.driver = some (driver,h.written[h.taken.length])
  empty : nextEvent h.driver = none ↔ h.taken.length = h.written.length
  erdp : erdpEntry h.driver.base h.driver.erdp = h.taken.length % eventTrbs
  count : eventAvailableCount h.driver = h.written.length - h.taken.length

theorem InStep.faithful {h : Hub} (inStep : InStep h) : Faithful h := by
  have behind := inStep.behind
  refine ⟨inStep.taken,?_,?_,inStep.erdp,?_⟩
  · intro left
    have returned := nextEvent_lap h.driver (inStep.owned.mpr left)
    exact ⟨_,returned.trans (congrArg some (Prod.ext rfl (inStep.take left returned).1))⟩
  · constructor
    · intro refused
      by_contra more
      have left : h.taken.length < h.written.length := by omega
      rw [nextEvent_lap h.driver (inStep.owned.mpr left)] at refused
      cases refused
    · intro all
      refine if_pos (mt inStep.owned.mp ?_)
      omega
  · unfold eventAvailableCount
    rw [inStep.index,inStep.cycle]
    exact inStep.count behind inStep.near (Nat.le_refl _)

/-- Whatever order events and calls come in, the driver takes the events as they were
written. -/
theorem events_in_order (base : Nat) (aligned : base % 4096 = 0) (acts : List HubAct) :
    Faithful (run Hub.step (setupHub base) acts) := by
  have inStep : InStep (run Hub.step (setupHub base) acts) :=
    run_invariant (fun _ act held => held.step act) (setup_inStep aligned)
  exact inStep.faithful

theorem events_in_order_page : Faithful (run Hub.step (setupHub 0x300000)
    [.post ⟨1,0,0x01000000,0x8400⟩,.count,.next,.next,.post ⟨2,0,0x01000000,0x8400⟩]) :=
  events_in_order 0x300000 (by decide) _

end LionOS.Usb
