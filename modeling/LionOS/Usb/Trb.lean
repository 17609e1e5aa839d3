import Mathlib.Algebra.Group.Nat.Defs
import Mathlib.Data.List.Basic
import Mathlib.Logic.Function.Basic

/-! The transfer request blocks of the xHCI driver, its Link TRBs and the controller's side
of a ring. -/
namespace LionOS.Usb

structure Trb where
  lo : BitVec 32
  hi : BitVec 32
  status : BitVec 32
  control : BitVec 32
  deriving DecidableEq, Inhabited

def trbSize : Nat := 16
def ringTrbs : Nat := 256
def trbLink : BitVec 32 := 6
def trbTc : BitVec 32 := 2

/-- The bit `TRB_CYCLE` of the control word. -/
def Trb.cycle (t : Trb) : Bool := t.control.getLsbD 0

/-- The bit `TRB_TC` of the control word. -/
def Trb.toggles (t : Trb) : Bool := t.control.getLsbD 1

def Trb.kind (t : Trb) : BitVec 32 := (t.control >>> 10) &&& 0x3F

/-- The address in the first two words. The low four bits are no part of it. -/
def Trb.pointer (t : Trb) : Nat := (t.hi.toNat * 2^32 + t.lo.toNat) / trbSize * trbSize

def cycleBit (cycle : Bool) : BitVec 32 := if cycle then 1 else 0

def Trb.withCycle (t : Trb) (cycle : Bool) : Trb := {t with control := (t.control &&& ~~~1) ||| cycleBit cycle}

/-- The TRB at each address. -/
abbrev Trbs := Nat → Trb

def noTrb : Trb := ⟨0,0,0,0⟩

/-- The address of `ring[index]`. -/
def trbAt (ring index : Nat) : Nat := ring + index * trbSize

def low (address : Nat) : BitVec 32 := BitVec.ofNat 32 address
def high (address : Nat) : BitVec 32 := BitVec.ofNat 32 (address / 2^32)

def linkControl (toggle : Bool) : BitVec 32 := (trbLink <<< 10) ||| (if toggle then trbTc else 0)

/-- The contents that `link_trb` gives to the last TRB of a segment. -/
def linkTo (next : Nat) (toggle : Bool) : Trb := ⟨low next,high next,0,linkControl toggle⟩

def linkTrb (m : Trbs) (ring next : Nat) (toggle : Bool) : Trbs :=
  Function.update m (trbAt ring (ringTrbs - 1)) (linkTo next toggle)

def Trb.flip (t : Trb) : Trb := {t with control := t.control ^^^ 1}

def advanceLink (m : Trbs) (link : Nat) (cycle : Bool) : Trbs × Bool :=
  (Function.update m link (m link).flip,if (m link).toggles then !cycle else cycle)

/-- The dequeue pointer of the controller and its cycle state. -/
structure Consumer where
  pointer : Nat
  cycle : Bool
  deriving DecidableEq

/-- One step of the controller on a ring, with the TRB that it executes if it is no Link
TRB. It stops where the cycle bit is not its own. -/
def Consumer.fetch (c : Consumer) (m : Trbs) : Option (Consumer × Option Trb) :=
  let t := m c.pointer
  if t.cycle ≠ c.cycle then none
  else if t.kind = trbLink then some (⟨t.pointer,c.cycle ^^ t.toggles⟩,none)
  else some (⟨c.pointer + trbSize,c.cycle⟩,some t)

@[simp] theorem noTrb_cycle : noTrb.cycle = false := by decide

@[simp] theorem withCycle_cycle (t : Trb) (cycle : Bool) : (t.withCycle cycle).cycle = cycle := by
  cases cycle <;> simp [Trb.withCycle,Trb.cycle,cycleBit]

@[simp] theorem flip_cycle (t : Trb) : t.flip.cycle = !t.cycle := by
  simp [Trb.flip,Trb.cycle]

@[simp] theorem flip_toggles (t : Trb) : t.flip.toggles = t.toggles := by
  simp [Trb.flip,Trb.toggles]

@[simp] theorem flip_kind (t : Trb) : t.flip.kind = t.kind := by
  unfold Trb.flip Trb.kind
  dsimp only
  ext i
  simp [BitVec.getLsbD_xor]

@[simp] theorem flip_pointer (t : Trb) : t.flip.pointer = t.pointer := rfl

/-- A Link TRB to the segment `next`, on either lap. -/
structure IsLink (t : Trb) (next : Nat) (toggle : Bool) : Prop where
  kind : t.kind = trbLink
  pointer : t.pointer = next
  toggles : t.toggles = toggle

theorem IsLink.flip {t : Trb} {next : Nat} {toggle : Bool} (link : IsLink t next toggle) : IsLink t.flip next toggle :=
  ⟨(flip_kind t).trans link.kind,link.pointer,(flip_toggles t).trans link.toggles⟩

theorem linkControl_bits : ∀ toggle, (linkControl toggle >>> 10) &&& 0x3F = trbLink ∧
    (linkControl toggle).getLsbD 1 = toggle ∧ (linkControl toggle).getLsbD 0 = false := by decide

theorem linkTo_link {next : Nat} (toggle : Bool) (aligned : next % 4096 = 0) (inside : next < 2^64) :
    IsLink (linkTo next toggle) next toggle := by
  refine ⟨(linkControl_bits toggle).1,?_,(linkControl_bits toggle).2.1⟩
  unfold linkTo Trb.pointer low high trbSize
  rw [BitVec.toNat_ofNat,BitVec.toNat_ofNat]
  omega

theorem linkTo_cycle (next : Nat) (toggle : Bool) : (linkTo next toggle).cycle = false := (linkControl_bits toggle).2.2

end LionOS.Usb
