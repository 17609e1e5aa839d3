import LionOS.Library.Walk
import LionOS.Frames.Boot

/-! The tables of the firmware from which the processors are enumerated. -/
namespace LionOS.Boot
open LionOS.Library
open LionOS.Physical (Byte)
open LionOS.Frames (read32 read64)

/-- Pointers have 32 bits. -/
def pointer (n : Nat) : Nat := n % 2^32

def kernelIdentityLimit : Nat := 0x10000000

def checksum8 (bytes : Nat → Byte) (p n : Nat) : Byte := (List.range n).foldl (fun s i => s + bytes (pointer (p + i))) 0

def sig4 (bytes : Nat → Byte) (p : Nat) (s : List Char) : Bool :=
  (List.range 4).all fun i => (s[i]?).map Char.toNat == some (bytes (pointer (p + i))).toNat

def identityRangeOk (address length : Nat) : Bool :=
  address != 0 && decide (address < kernelIdentityLimit) && decide (length ≤ kernelIdentityLimit - address)

def sdtLength (bytes : Nat → Byte) (table : Nat) : Nat := read32 bytes (pointer (table + 4))

/-- The checks on a table before it is used. -/
def sdtValid (bytes : Nat → Byte) (table : Nat) (sig : List Char) : Bool :=
  sig4 bytes table sig && decide (36 ≤ sdtLength bytes table) && identityRangeOk table (sdtLength bytes table) &&
    checksum8 bytes table (sdtLength bytes table) == 0

def isMadt (bytes : Nat → Byte) (table : Nat) : Bool := identityRangeOk table 36 && sdtValid bytes table ['A','P','I','C']

/-- The tables that an XSDT names below 4 GiB. -/
def xsdtTables (bytes : Nat → Byte) (table : Nat) : List Nat :=
  ((List.range ((sdtLength bytes table - 36) / 8)).map fun i => read64 bytes (pointer (table + 36 + i * 8))).filter (· < 2^32)

def rsdtTables (bytes : Nat → Byte) (table : Nat) : List Nat :=
  (List.range ((sdtLength bytes table - 36) / 4)).map fun i => read32 bytes (pointer (table + 36 + i * 4))

def acpiFindMadt (bytes : Nat → Byte) (rsdt xsdt revision : Nat) : Nat :=
  let extended := revision ≥ 2 ∧ xsdt < 2^32 ∧ xsdt ≠ 0
  if extended ∧ ¬identityRangeOk xsdt 36 then 0
  else
    match (if extended ∧ sdtValid bytes xsdt ['X','S','D','T'] then (xsdtTables bytes xsdt).find? (isMadt bytes) else none) with
    | some table => table
    | none =>
      if rsdt ≠ 0 ∧ identityRangeOk rsdt 36 ∧ sdtValid bytes rsdt ['R','S','D','T'] then
        ((rsdtTables bytes rsdt).find? (isMadt bytes)).getD 0
      else 0

def lionosMaxCpus : Nat := 16

structure CpuInfo where
  index : Nat
  apicId : Nat
  logicalPerPackage : Nat
  online : Nat

def resetCpus : Nat → CpuInfo := fun i => ⟨i,0xFFFFFFFF,1,0⟩

/-- The variables of the loop over the MADT. -/
structure Enumeration where
  p : Nat
  found : Nat
  bspIndex : Nat
  cpus : Nat → CpuInfo

/-- An enabled processor is entered while there is room. -/
def Enumeration.enter (e : Enumeration) (apic flags bspApic : Nat) : Enumeration :=
  if flags % 2 = 1 ∧ e.found < lionosMaxCpus then
    {e with
      found := e.found + 1
      bspIndex := if apic = bspApic then e.found else e.bspIndex
      cpus := Function.update e.cpus e.found {e.cpus e.found with apicId := apic,logicalPerPackage := 1}}
  else e

def madtTurn (bytes : Nat → Byte) (endm bspApic : Nat) (e : Enumeration) : Turn Enumeration Nat Enumeration :=
  if ¬pointer (e.p + 2) ≤ endm then .ends [] e
  else
    let type := (bytes (pointer e.p)).toNat
    let len := (bytes (pointer (e.p + 1))).toNat
    if len < 2 ∨ pointer (e.p + len) > endm then .ends [] e
    else
      let next := pointer (e.p + len)
      if type = 0 ∧ len ≥ 8 then
        let apic := (bytes (pointer (e.p + 3))).toNat
        .goes [] {e.enter apic (read32 bytes (pointer (e.p + 4))) bspApic with p := next}
      else if type = 9 ∧ len ≥ 16 then
        let apic := read32 bytes (pointer (e.p + 4))
        .goes [] {e.enter apic (read32 bytes (pointer (e.p + 8))) bspApic with p := next}
      else .goes [] {e with p := next}

/-- What `acpi_enumerate` returns, and the processors that it leaves. -/
def Enumeration.settle (e : Enumeration) : Nat × (Nat → CpuInfo) :=
  if e.found = 0 ∨ e.bspIndex = 0xFFFFFFFF then (0,resetCpus)
  else
    let swapped := if e.bspIndex ≠ 0 then
        Function.update (Function.update e.cpus 0 (e.cpus e.bspIndex)) e.bspIndex (e.cpus 0)
      else e.cpus
    (e.found,fun i => if i < e.found then {swapped i with index := i,online := if i = 0 then 1 else 0} else swapped i)

/-- The part of `acpi_enumerate` behind the loop over the tags. -/
def enumerateMadt (bytes : Nat → Byte) (madt bspApic fuel : Nat) (cpus : Nat → CpuInfo) : Option (Nat × (Nat → CpuInfo)) :=
  if madt = 0 then some (0,cpus)
  else if ¬identityRangeOk madt (sdtLength bytes madt) ∨ sdtLength bytes madt < 44 then some (0,cpus)
  else
    (loop (madtTurn bytes (pointer (madt + sdtLength bytes madt)) bspApic) fuel ⟨pointer (madt + 44),0,0xFFFFFFFF,cpus⟩).map
      fun result => result.2.settle

@[simp] theorem enter_p (e : Enumeration) (apic flags bspApic : Nat) : (e.enter apic flags bspApic).p = e.p := by
  unfold Enumeration.enter
  split <;> rfl

/-- A turn that goes on moves inside the table. -/
theorem madtTurn_next {bytes : Nat → Byte} {endm bspApic : Nat} {e e' : Enumeration}
    (on : (madtTurn bytes endm bspApic e).next = some e') :
    pointer (e.p + 2) ≤ endm ∧ ∃ len, 2 ≤ len ∧ len < 2^8 ∧ e'.p = pointer (e.p + len) ∧ e'.p ≤ endm := by
  have short := (bytes (pointer (e.p + 1))).isLt
  unfold madtTurn at on
  split at on
  · cases on
  next room =>
    refine ⟨Decidable.not_not.mp room,(bytes (pointer (e.p + 1))).toNat,?_⟩
    dsimp only at on
    split at on
    · cases on
    next sized =>
      rw [not_or,Nat.not_lt,Nat.not_lt] at sized
      split at on
      · cases on
        exact ⟨sized.1,short,rfl,sized.2⟩
      · split at on
        · cases on
          exact ⟨sized.1,short,rfl,sized.2⟩
        · cases on
          exact ⟨sized.1,short,rfl,sized.2⟩

theorem madtTurn_fine (bytes : Nat → Byte) (endm bspApic : Nat) (e : Enumeration) :
    (madtTurn bytes endm bspApic e).Fine fun _ => True := by
  unfold madtTurn
  dsimp only
  repeat' split
  all_goals exact fun _ _ => trivial

/-- The loop over the MADT ends. -/
theorem enumerateMadt_returns (bytes : Nat → Byte) (madt bspApic : Nat) (cpus : Nat → CpuInfo) :
    ∃ least, ∀ fuel, least ≤ fuel → ∃ result, enumerateMadt bytes madt bspApic fuel cpus = some result := by
  unfold enumerateMadt
  split
  · exact ⟨0,fun _ _ => ⟨_,rfl⟩⟩
  split
  · exact ⟨0,fun _ _ => ⟨_,rfl⟩⟩
  next checked =>
    rw [not_or,Nat.not_lt,Decidable.not_not] at checked
    obtain ⟨range,least⟩ := checked
    unfold identityRangeOk kernelIdentityLimit at range
    simp only [Bool.and_eq_true,decide_eq_true_eq] at range
    let start : Enumeration := ⟨pointer (madt + 44),0,0xFFFFFFFF,cpus⟩
    let endm := pointer (madt + sdtLength bytes madt)
    have low : endm ≤ 2^28 := by
      simp only [endm,pointer]
      omega
    have inside (e : Enumeration) (reached : OnWay (fun e => (madtTurn bytes endm bspApic e).next) start e) : e.p ≤ endm := by
      induction reached with
      | refl =>
        simp only [start,endm,pointer]
        omega
      | tail _ on _ => exact (madtTurn_next on).2.choose_spec.2.2.2
    have falls (e e' : Enumeration) (reached : OnWay (fun e => (madtTurn bytes endm bspApic e).next) start e)
        (on : (madtTurn bytes endm bspApic e).next = some e') : endm - e'.p < endm - e.p := by
      have before := inside e reached
      obtain ⟨room,len,least,short,place,after⟩ := madtTurn_next on
      unfold pointer at room place
      omega
    obtain ⟨way,found,_⟩ := walk_exists (fun e : Enumeration => endm - e.p) falls
    refine ⟨way.length,fun fuel above => ?_⟩
    obtain ⟨result,done,_⟩ := loop_iff.mpr ⟨way,found,above,fun e _ => madtTurn_fine bytes endm bspApic e⟩
    exact ⟨result.2.settle,by rw [done]; rfl⟩

end LionOS.Boot
