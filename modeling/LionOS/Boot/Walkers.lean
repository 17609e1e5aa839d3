import LionOS.Boot.Acpi

/-! The four functions that walk the tags of the boot information, with what they read there. -/
namespace LionOS.Boot
open LionOS.Library
open LionOS.Physical (Byte)
open LionOS.Frames (read32 read64 tagEnd tagModule tagMmap memoryAvailable tagStride)

def tagFramebuffer : Nat := 8
def tagAcpiOld : Nat := 14
def tagAcpiNew : Nat := 15

/-- The size of `struct mb2_fb_tag`. -/
def fbTagSize : Nat := 38

/-- The places of a field of `count` bytes. -/
def bytesAt (address count : Nat) : List Nat := (List.range count).map fun i => pointer address + i

section Loops
variable (bytes : Nat → Byte)

def sizeAt (tag : Nat) : Nat := read32 bytes (pointer (tag + 4))

def advance (tag : Nat) : Nat := pointer (tag + tagStride (sizeAt bytes tag))

def typeReads (tag : Nat) : List Nat := bytesAt tag 4

def headReads (tag : Nat) : List Nat := typeReads tag ++ bytesAt (tag + 4) 4

def mapEntrySize (tag : Nat) : Nat := read32 bytes (pointer (tag + 8))

/-- A turn of the loop over the entries of a memory map. -/
def entryTurn (tag p : Nat) : Turn Nat Nat Unit :=
  if pointer (p + mapEntrySize bytes tag) ≤ pointer (tag + sizeAt bytes tag) then
    .goes (bytesAt (tag + 8) 4 ++ bytesAt (p + 16) 4 ++
        if read32 bytes (pointer (p + 16)) = memoryAvailable then bytesAt p 8 ++ bytesAt (p + 8) 8 else [])
      (pointer (p + mapEntrySize bytes tag))
  else .ends (bytesAt (tag + 8) 4) ()

/-- A turn of the first loop of `memory_init`. -/
def mmapTurn (finish fuel tag : Nat) : Turn Nat Nat Unit :=
  if ¬pointer (tag + 8) ≤ finish then .ends [] ()
  else if read32 bytes tag = tagEnd then .ends (typeReads tag) ()
  else if read32 bytes tag = tagMmap then
    match loop (entryTurn bytes tag) fuel (pointer (tag + 16)) with
    | none => .hangs
    | some entries => .goes (headReads tag ++ entries.1) (advance bytes tag)
  else .goes (headReads tag) (advance bytes tag)

/-- A turn of its second loop. -/
def moduleTurn (finish tag : Nat) : Turn Nat Nat Unit :=
  if ¬pointer (tag + 8) ≤ finish then .ends [] ()
  else if read32 bytes tag = tagEnd then .ends (typeReads tag) ()
  else if read32 bytes tag = tagModule ∧ sizeAt bytes tag ≥ 16 then
    .goes (headReads tag ++ bytesAt (tag + 8) 4 ++ bytesAt (tag + 12) 4) (advance bytes tag)
  else .goes (headReads tag) (advance bytes tag)

def memoryInit (mi fuel : Nat) : Option (List Nat) :=
  let finish := pointer (mi + read32 bytes mi)
  match loop (mmapTurn bytes finish fuel) fuel (pointer (mi + 8)) with
  | none => none
  | some maps => (loop (moduleTurn bytes finish) fuel (pointer (mi + 8))).map fun modules => maps.1 ++ modules.1

/-- Whether the functions accept the mode of a framebuffer tag. -/
def modeAccepted (tag : Nat) : Bool :=
  bytes (pointer (tag + 29)) == 1 && [16,24,32].contains (bytes (pointer (tag + 28))).toNat

/-- A turn of the loops of the framebuffer driver, which leave at the first framebuffer tag and
return the tag if they accept it. `fields` is what they copy of it. -/
def framebufferTurn (fields : Nat → List Nat) (tag : Nat) : Turn Nat Nat (Option Nat) :=
  if read32 bytes tag = tagEnd then .ends (typeReads tag) none
  else if read32 bytes tag = tagFramebuffer ∧ sizeAt bytes tag ≥ fbTagSize then
    .ends (headReads tag ++ bytesAt (tag + 29) 1 ++ (if bytes (pointer (tag + 29)) = 1 then bytesAt (tag + 28) 1 else []) ++
        if modeAccepted bytes tag then fields tag else [])
      (if modeAccepted bytes tag then some tag else none)
  else .goes (headReads tag) (advance bytes tag)

def framebufferPrepare (mi fuel : Nat) : Option (List Nat × Option Nat) :=
  loop (framebufferTurn bytes fun tag => bytesAt tag fbTagSize) fuel (pointer (mi + 8))

/-- The address, the pitch, the size, the depth and the colours. -/
def modeReads (tag : Nat) : List Nat :=
  bytesAt (tag + 8) 8 ++ bytesAt (tag + 16) 4 ++ bytesAt (tag + 20) 4 ++ bytesAt (tag + 24) 4 ++ bytesAt (tag + 28) 1 ++
    ([32,33,34,35,36,37].flatMap fun i => bytesAt (tag + i) 1)

/-- `framebuffer_init` walks the tags unless `framebuffer_prepare` has saved one. -/
def framebufferInit (saved : Option Nat) (mi fuel : Nat) : Option (List Nat × Option Nat) :=
  match saved with
  | some tag => some ([],some tag)
  | none => loop (framebufferTurn bytes modeReads) fuel (pointer (mi + 8))

def revisionAt (tag : Nat) : Nat := (bytes (pointer (tag + 23))).toNat

def extendedRsdp (tag : Nat) : Bool := decide (revisionAt bytes tag ≥ 2) && decide (sizeAt bytes tag ≥ 44)

/-- The 36 bytes of the structure are summed up, and the sum is right. -/
def summedRsdp (tag : Nat) : Bool := extendedRsdp bytes tag && checksum8 bytes (pointer (tag + 8)) 36 == 0

def rootTag (tag : Nat) : Bool :=
  (read32 bytes tag == tagAcpiOld || read32 bytes tag == tagAcpiNew) && decide (sizeAt bytes tag ≥ 16)

/-- The MADT that a root pointer leads to, or 0. -/
def madtAt (tag : Nat) : Nat :=
  let rsdt := read32 bytes (pointer (tag + 24))
  if summedRsdp bytes tag then acpiFindMadt bytes rsdt (read64 bytes (pointer (tag + 32))) (revisionAt bytes tag)
  else if sizeAt bytes tag ≥ 28 ∧ checksum8 bytes (pointer (tag + 8)) 20 = 0 then acpiFindMadt bytes rsdt 0 1
  else 0

def rootReads (tag : Nat) : List Nat :=
  bytesAt (tag + 23) 1 ++ (if extendedRsdp bytes tag then bytesAt (tag + 8) 36 else []) ++
    if summedRsdp bytes tag then bytesAt (tag + 24) 4 ++ bytesAt (tag + 32) 8
    else if sizeAt bytes tag ≥ 28 then bytesAt (tag + 8) 20 else []

/-- A turn of the loop of `acpi_enumerate` over the tags. -/
def acpiTurn (finish tag : Nat) : Turn Nat Nat Nat :=
  if ¬pointer (tag + 8) ≤ finish then .ends [] 0
  else if read32 bytes tag = tagEnd then .ends (typeReads tag) 0
  else if rootTag bytes tag then
    if madtAt bytes tag ≠ 0 then .ends (headReads tag ++ rootReads bytes tag) (madtAt bytes tag)
    else .goes (headReads tag ++ rootReads bytes tag) (advance bytes tag)
  else .goes (headReads tag) (advance bytes tag)

/-- What `acpi_enumerate` reads of the tags, and what it returns. -/
def acpiEnumerate (mb2 bspApic fuel : Nat) (cpus : Nat → CpuInfo) : Option (List Nat × Nat × (Nat → CpuInfo)) :=
  if mb2 = 0 then some ([],0,cpus)
  else
    match loop (acpiTurn bytes (pointer (mb2 + read32 bytes mb2))) fuel (pointer (mb2 + 8)) with
    | none => none
    | some tags => (enumerateMadt bytes tags.2 bspApic fuel cpus).map fun result => (tags.1,result)

end Loops

end LionOS.Boot
