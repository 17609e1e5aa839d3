import LionOS.Files.RamFs

/-! LionFS: a superblock, a directory of 32 entries in five sectors and one extent of
eight sectors for each entry, on an ATA disk whose transfers may fail. -/
namespace LionOS.Files
open LionOS.Physical LionOS.Library

def ataSectorSize : Nat := 512
def diskfsVersion : Nat := 2
def diskfsMaxFiles : Nat := 32
def diskfsNameMax : Nat := 64
def diskfsMaxFileSize : Nat := 4096
def diskfsSuperLba : Nat := 0
def diskfsDirLba : Nat := 1
def diskfsDirSectors : Nat := 5
def diskfsDataLba : Nat := 6
def diskfsSectorsPerFile : Nat := 8
def entrySize : Nat := 72

abbrev Sector := Nat → Byte

/-- The sectors of the disk and, for each transfer to come, whether it fails; past the
end of the list no transfer fails. -/
structure Disk where
  sectors : Nat → Sector
  faults : List Bool

def nextFault (d : Disk) : Disk × Bool :=
  match d.faults with
  | [] => (d,false)
  | fault::rest => ({d with faults := rest},fault)

def ataReadSector (d : Disk) (lba : Nat) : Disk × Option Sector :=
  match nextFault d with
  | (d,true) => (d,none)
  | (d,false) => (d,some (d.sectors lba))

def ataWriteSector (d : Disk) (lba : Nat) (sector : Sector) : Disk × Bool :=
  match nextFault d with
  | (d,true) => (d,false)
  | (d,false) => ({d with sectors := Function.update d.sectors lba sector},true)

structure Entry where
  name : Nat → Byte
  size : Nat
  startLba : Nat
  deriving Inhabited

structure DiskFs where
  disk : Disk
  entries : Nat → Entry
  fileCount : Nat
  available : Bool

def byte32 (value k : Nat) : Byte := (bytes32 value).getD k 0

/-- The entry as its 72 bytes in memory and on the disk. -/
def entryByte (e : Entry) (k : Nat) : Byte :=
  if k < 64 then e.name k else if k < 68 then byte32 e.size (k-64) else byte32 e.startLba (k-68)

def tableByte (entries : Nat → Entry) (offset : Nat) : Byte :=
  entryByte (entries (offset / entrySize)) (offset % entrySize)

/-- The string that starts at the name of entry `i`, read on past its 64 bytes where
none of them is zero. -/
def nameAt (entries : Nat → Entry) (i : Nat) : Nat → Byte := fun k => tableByte entries (i * entrySize + k)

def validName (name : List Byte) : Bool :=
  decide (name ≠ []) && !name.contains backslash && decide (name.length < diskfsNameMax)

def holds (entries : Nat → Entry) (name : List Byte) (i : Nat) : Bool :=
  (entries i).name 0 != 0 && streq (nameAt entries i) name

def diskfsFind (entries : Nat → Entry) (name : List Byte) : Option Nat :=
  (List.range diskfsMaxFiles).find? (holds entries name)

def freeEntry (entries : Nat → Entry) : Option Nat :=
  (List.range diskfsMaxFiles).find? fun i => (entries i).name 0 == 0

def superSector (fileCount : Nat) : Sector := fun i =>
  if i < 7 then (ascii ['L','I','O','N','F','S','1']).getD i 0
  else if 8 ≤ i ∧ i < 12 then byte32 diskfsVersion (i-8)
  else if 12 ≤ i ∧ i < 16 then byte32 fileCount (i-12)
  else 0

def saveSuper (d : DiskFs) : DiskFs × Bool :=
  let (disk,ok) := ataWriteSector d.disk diskfsSuperLba (superSector d.fileCount)
  ({d with disk},ok)

def directorySector (entries : Nat → Entry) (s : Nat) : Sector := fun i =>
  let offset := s * ataSectorSize + i
  if i < ataSectorSize ∧ offset < diskfsMaxFiles * entrySize then tableByte entries offset else 0

def writeDirectorySector (d : DiskFs) (s : Nat) : DiskFs × Bool :=
  if s * ataSectorSize ≥ diskfsMaxFiles * entrySize then (d,false)
  else
    let (disk,ok) := ataWriteSector d.disk (diskfsDirLba + s) (directorySector d.entries s)
    ({d with disk},ok)

def writeSectors (d : DiskFs) : List Nat → DiskFs × Bool
  | [] => (d,true)
  | s::rest => match writeDirectorySector d s with
    | (d,false) => (d,false)
    | (d,true) => writeSectors d rest

def writeEntrySectors (d : DiskFs) (index : Nat) : DiskFs × Bool :=
  let first := index * entrySize / ataSectorSize
  let last := ((index + 1) * entrySize - 1) / ataSectorSize
  writeSectors d ((List.range (last + 1 - first)).map (first + ·))

def sectorOf (bytes : List Byte) : Sector := fun i => bytes.getD i 0

/-- The data loop of `diskfs_write`: `count` sectors from `lba` on, filled up with
zeros. -/
def writeData (disk : Disk) (lba : Nat) (bytes : List Byte) : Nat → Disk × Bool
  | 0 => (disk,true)
  | count+1 => match ataWriteSector disk lba (sectorOf (bytes.take ataSectorSize)) with
    | (disk,false) => (disk,false)
    | (disk,true) => writeData disk (lba+1) (bytes.drop ataSectorSize) count

/-- The data loop of `diskfs_read`: the first `remaining` bytes from sector `lba` on,
in `count` sectors. -/
def readData (disk : Disk) (lba remaining : Nat) : Nat → Disk × Option (List Byte)
  | 0 => (disk,some [])
  | count+1 => match ataReadSector disk lba with
    | (disk,none) => (disk,none)
    | (disk,some sector) =>
      let n := min remaining ataSectorSize
      match readData disk (lba+1) (remaining - n) count with
      | (disk,none) => (disk,none)
      | (disk,some rest) => (disk,some ((List.range n).map sector ++ rest))

def diskfsAvailable (d : DiskFs) : Bool := d.available
def diskfsCount (d : DiskFs) : Nat := if d.available then d.fileCount else 0
def diskfsExists (d : DiskFs) (name : List Byte) : Bool := d.available && (diskfsFind d.entries name).isSome

def diskfsSize (d : DiskFs) (name : List Byte) : Nat :=
  match diskfsFind d.entries name with
  | none => 0
  | some i => (d.entries i).size

def diskfsName (d : DiskFs) (index : Nat) : Option (List Byte) :=
  if !d.available then none
  else ((List.range diskfsMaxFiles).filter fun i => (d.entries i).name 0 != 0)[index]?.map fun i =>
    cstring ((List.range ((diskfsMaxFiles - i) * entrySize)).map (nameAt d.entries i))

/-- `diskfs_read` into a buffer of `capacity` bytes: the bytes of the file, or `none`
for -1. -/
def diskfsRead (d : DiskFs) (name : List Byte) (capacity : Nat) : DiskFs × Option (List Byte) :=
  if !d.available then (d,none)
  else match diskfsFind d.entries name with
    | none => (d,none)
    | some i =>
      let e := d.entries i
      if capacity < e.size then (d,none)
      else
        let (disk,bytes) := readData d.disk e.startLba e.size ((e.size + ataSectorSize - 1) / ataSectorSize)
        ({d with disk},bytes)

/-- The entry that `diskfs_write` fills: the one of that name or a free one, which it
names and counts. -/
def claimEntry (d : DiskFs) (name : List Byte) : Option (DiskFs × Nat) :=
  match diskfsFind d.entries name with
  | some i => some (d,i)
  | none => match freeEntry d.entries with
    | none => none
    | some i =>
      let e := d.entries i
      let named := {e with
        name := copyName e.name name,startLba := diskfsDataLba + i * diskfsSectorsPerFile}
      some ({d with entries := Function.update d.entries i named,fileCount := d.fileCount + 1},i)

/-- `diskfs_write`; the flag is its success. -/
def diskfsWrite (d : DiskFs) (name bytes : List Byte) : DiskFs × Bool :=
  if !d.available || !validName name || decide (bytes.length > diskfsMaxFileSize) then (d,false)
  else match claimEntry d name with
    | none => (d,false)
    | some (d,i) => match writeData d.disk (d.entries i).startLba bytes diskfsSectorsPerFile with
      | (disk,false) => ({d with disk},false)
      | (disk,true) =>
        let e := {d.entries i with size := bytes.length}
        match saveSuper {d with disk,entries := Function.update d.entries i e} with
        | (d,false) => (d,false)
        | (d,true) => writeEntrySectors d i

def diskfsRemove (d : DiskFs) (name : List Byte) : DiskFs × Bool :=
  if !d.available then (d,false)
  else match diskfsFind d.entries name with
    | none => (d,false)
    | some i =>
      let d := {d with
        entries := Function.update d.entries i ⟨fun _ => 0,0,0⟩
        fileCount := d.fileCount - 1}
      match saveSuper d with
      | (d,false) => (d,false)
      | (d,true) => writeEntrySectors d i

def word32 (sector : Sector) (offset : Nat) : Nat :=
  (sector offset).toNat + 2^8 * (sector (offset+1)).toNat + 2^16 * (sector (offset+2)).toNat +
    2^24 * (sector (offset+3)).toNat

/-- The directory loop of `diskfs_init`: the bytes of the table as far as the sectors
could be read. -/
def readDirectory (disk : Disk) (table : Nat → Byte) : List Nat → Disk × (Nat → Byte) × Bool
  | [] => (disk,table,true)
  | s::rest => match ataReadSector disk (diskfsDirLba + s) with
    | (disk,none) => (disk,table,false)
    | (disk,some sector) =>
      let offset := s * ataSectorSize
      readDirectory disk (fun k =>
        if offset ≤ k ∧ k < offset + ataSectorSize ∧ k < diskfsMaxFiles * entrySize then sector (k - offset)
        else table k) rest

def loadEntry (table : Nat → Byte) (i : Nat) : Entry where
  name k := if k < 64 then table (i * entrySize + k) else 0
  size := word32 (fun k => table (i * entrySize + 64 + k)) 0
  startLba := word32 (fun k => table (i * entrySize + 68 + k)) 0

/-- An entry that is too long or not in its own extent loses its name. -/
def checkEntry (i : Nat) (e : Entry) : Entry :=
  if e.name 0 ≠ 0 ∧ (e.size > diskfsMaxFileSize ∨ e.startLba ≠ diskfsDataLba + i * diskfsSectorsPerFile) then
    {e with name := Function.update e.name 0 0}
  else e

def signed (sector : Sector) : Bool :=
  (List.range 7).all fun i => sector i == (ascii ['L','I','O','N','F','S','1']).getD i 0

/-- `diskfs_init` with the success of `ata_init`; the flag is its own success. -/
def diskfsInit (disk : Disk) (present : Bool) : DiskFs × Bool :=
  let empty : Nat → Byte := fun _ => 0
  if !present then (⟨disk,loadEntry empty,0,false⟩,false)
  else match ataReadSector disk diskfsSuperLba with
    | (disk,none) => (⟨disk,loadEntry empty,0,false⟩,false)
    | (disk,some sector) =>
      if !signed sector || decide (word32 sector 8 ≠ diskfsVersion) then
        (⟨disk,loadEntry empty,0,false⟩,false)
      else if word32 sector 12 > diskfsMaxFiles then (⟨disk,loadEntry empty,word32 sector 12,false⟩,false)
      else match readDirectory disk empty (List.range diskfsDirSectors) with
        | (disk,table,false) => (⟨disk,loadEntry table,word32 sector 12,false⟩,false)
        | (disk,table,true) =>
          let entries := fun i => checkEntry i (loadEntry table i)
          let count := ((List.range diskfsMaxFiles).filter fun i => (entries i).name 0 != 0).length
          (⟨disk,entries,count,true⟩,true)

/-- Each named entry of a table in use has its own extent. -/
def Mounted (d : DiskFs) : Prop :=
  d.available = true → ∀ i, i < diskfsMaxFiles → (d.entries i).name 0 ≠ 0 →
    (d.entries i).startLba = diskfsDataLba + i * diskfsSectorsPerFile

theorem checkEntry_checked (i : Nat) (e : Entry) (named : (checkEntry i e).name 0 ≠ 0) :
    (checkEntry i e).startLba = diskfsDataLba + i * diskfsSectorsPerFile := by
  by_cases bad : e.name 0 ≠ 0 ∧
      (e.size > diskfsMaxFileSize ∨ e.startLba ≠ diskfsDataLba + i * diskfsSectorsPerFile)
  · rw [checkEntry,if_pos bad] at named
    exact absurd (Function.update_self 0 0 e.name) named
  · rw [checkEntry,if_neg bad] at named ⊢
    simp only [not_and,not_or,ne_eq,not_not] at bad
    exact (bad named).2

theorem diskfsInit_mounted {disk : Disk} {present ok : Bool} {d : DiskFs}
    (init : diskfsInit disk present = (d,ok)) : Mounted d := by
  unfold diskfsInit at init
  intro available
  split at init
  · cases init
    cases available
  split at init
  · cases init
    cases available
  split at init
  · cases init
    cases available
  split at init
  · cases init
    cases available
  dsimp only at init
  split at init
  · cases init
    cases available
  · cases init
    intro i _ named
    exact checkEntry_checked i _ named

theorem claimEntry_mounted {d d' : DiskFs} {name : List Byte} {i : Nat} (mounted : Mounted d)
    (claimed : claimEntry d name = some (d',i)) : Mounted d' := by
  unfold claimEntry at claimed
  split at claimed
  · cases claimed
    exact mounted
  split at claimed
  · cases claimed
  · cases claimed
    intro available j bound named
    by_cases same : j = i
    · subst same
      simp
    · simp only [Function.update_of_ne same] at named ⊢
      exact mounted available j bound named

theorem saveSuper_entries (d : DiskFs) :
    (saveSuper d).1.entries = d.entries ∧ (saveSuper d).1.available = d.available := ⟨rfl,rfl⟩

theorem writeSectors_entries (d : DiskFs) (sectors : List Nat) :
    (writeSectors d sectors).1.entries = d.entries ∧ (writeSectors d sectors).1.available = d.available := by
  induction sectors generalizing d with
  | nil => exact ⟨rfl,rfl⟩
  | cons s rest ih =>
    have kept : (writeDirectorySector d s).1.entries = d.entries ∧
        (writeDirectorySector d s).1.available = d.available := by
      unfold writeDirectorySector
      split <;> exact ⟨rfl,rfl⟩
    unfold writeSectors
    split
    next written => simpa only [written] using kept
    next d' written =>
      rw [written] at kept
      exact ⟨(ih d').1.trans kept.1,(ih d').2.trans kept.2⟩

theorem Mounted.congr {d d' : DiskFs} (mounted : Mounted d) (entries : d'.entries = d.entries)
    (available : d'.available = d.available) : Mounted d' := by
  unfold Mounted
  rw [entries,available]
  exact mounted

theorem flush_mounted {d d' : DiskFs} {i : Nat} {ok : Bool} (mounted : Mounted d)
    (flushed : (match saveSuper d with
      | (d,false) => (d,false)
      | (d,true) => writeEntrySectors d i) = (d',ok)) : Mounted d' := by
  have super := saveSuper_entries d
  split at flushed
  next d₁ saved =>
    cases flushed
    rw [saved] at super
    exact mounted.congr super.1 super.2
  next d₁ saved =>
    rw [saved] at super
    have sectors := writeSectors_entries d₁
      ((List.range (((i + 1) * entrySize - 1) / ataSectorSize + 1 - i * entrySize / ataSectorSize)).map
        (i * entrySize / ataSectorSize + ·))
    unfold writeEntrySectors at flushed
    rw [flushed] at sectors
    exact mounted.congr (sectors.1.trans super.1) (sectors.2.trans super.2)

/-- Transfers may fail: the table stays in order. -/
theorem diskfsWrite_mounted {d d' : DiskFs} {name bytes : List Byte} {ok : Bool} (mounted : Mounted d)
    (written : diskfsWrite d name bytes = (d',ok)) : Mounted d' := by
  unfold diskfsWrite at written
  split at written
  · cases written
    exact mounted
  split at written
  · cases written
    exact mounted
  next d₁ i claimed =>
    have mounted₁ := claimEntry_mounted mounted claimed
    split at written
    · cases written
      exact mounted₁
    next disk stored =>
      refine flush_mounted ?_ written
      intro available j bound named
      by_cases same : j = i
      · subst same
        simp only [Function.update_self] at named ⊢
        exact mounted₁ available j bound named
      · simp only [Function.update_of_ne same] at named ⊢
        exact mounted₁ available j bound named

theorem diskfsRemove_mounted {d d' : DiskFs} {name : List Byte} {ok : Bool} (mounted : Mounted d)
    (removed : diskfsRemove d name = (d',ok)) : Mounted d' := by
  unfold diskfsRemove at removed
  split at removed
  · cases removed
    exact mounted
  split at removed
  · cases removed
    exact mounted
  next i found =>
    refine flush_mounted ?_ removed
    intro available j bound named
    by_cases same : j = i
    · subst same
      simp at named
    · simp only [Function.update_of_ne same] at named ⊢
      exact mounted available j bound named

theorem diskfsRead_mounted {d d' : DiskFs} {name : List Byte} {capacity : Nat} {bytes : Option (List Byte)}
    (mounted : Mounted d) (read : diskfsRead d name capacity = (d',bytes)) : Mounted d' := by
  unfold diskfsRead at read
  split at read
  · cases read
    exact mounted
  split at read
  · cases read
    exact mounted
  dsimp only at read
  split at read
  · cases read
    exact mounted
  · cases read
    exact mounted

section Faultless
variable {disk : Disk}

theorem ataWriteSector_ok (ready : disk.faults = []) (lba : Nat) (sector : Sector) :
    ataWriteSector disk lba sector =
      ({disk with sectors := Function.update disk.sectors lba sector},true) := by
  simp [ataWriteSector,nextFault,ready]

theorem ataReadSector_ok (ready : disk.faults = []) (lba : Nat) :
    ataReadSector disk lba = (disk,some (disk.sectors lba)) := by
  simp [ataReadSector,nextFault,ready]

theorem writeData_ok (ready : disk.faults = []) (lba count : Nat) (bytes : List Byte) :
    ∃ disk', writeData disk lba bytes count = (disk',true) ∧ disk'.faults = [] ∧
      (∀ s, s < count → disk'.sectors (lba+s) =
        sectorOf ((bytes.drop (ataSectorSize * s)).take ataSectorSize)) ∧
      ∀ k, k < lba ∨ lba + count ≤ k → disk'.sectors k = disk.sectors k := by
  induction count generalizing disk lba bytes with
  | zero => exact ⟨disk,rfl,ready,by simp,fun _ _ => rfl⟩
  | succ count ih =>
    simp only [writeData,ataWriteSector_ok ready]
    generalize first : ({disk with
      sectors := Function.update disk.sectors lba (sectorOf (bytes.take ataSectorSize))} : Disk) = disk₁
    have ready₁ : disk₁.faults = [] := by subst first; exact ready
    obtain ⟨disk',written,ready',inside,outside⟩ := ih ready₁ (lba+1) (bytes.drop ataSectorSize)
    refine ⟨disk',written,ready',?_,?_⟩
    · intro s bound
      cases s with
      | zero =>
        rw [Nat.add_zero,outside lba (.inl (by omega)),← first]
        simp
      | succ s =>
        rw [show lba + (s+1) = lba + 1 + s by omega,inside s (by omega),List.drop_drop]
        rw [Nat.mul_succ,Nat.add_comm]
    · intro k apart
      rw [outside k (by omega),← first]
      have other : k ≠ lba := by omega
      simp [other]

theorem range_sectorOf (bytes : List Byte) (n : Nat) (bound : n ≤ bytes.length) :
    (List.range n).map (sectorOf bytes) = bytes.take n := by
  apply List.ext_getElem
  · simp [bound]
  · intro i left right
    have inside : i < bytes.length := by
      rw [List.length_map,List.length_range] at left
      omega
    simp [sectorOf,List.getD_eq_getElem?_getD,List.getElem?_eq_getElem inside]

theorem readData_ok (ready : disk.faults = []) (lba count : Nat) (bytes : List Byte)
    (room : bytes.length ≤ ataSectorSize * count)
    (stored : ∀ s, s < count → disk.sectors (lba+s) =
      sectorOf ((bytes.drop (ataSectorSize * s)).take ataSectorSize)) :
    readData disk lba bytes.length count = (disk,some bytes) := by
  induction count generalizing lba bytes with
  | zero =>
    have none : bytes = [] := List.length_eq_zero_iff.mp (by omega)
    subst none
    rfl
  | succ count ih =>
    have first : disk.sectors lba = sectorOf (bytes.take ataSectorSize) := by
      simpa using stored 0 (by omega)
    have rest := ih (lba+1) (bytes.drop ataSectorSize)
      (by rw [List.length_drop]; rw [Nat.mul_succ] at room; omega)
      (by
        intro s bound
        have sector := stored (s+1) (by omega)
        rw [show lba + (s+1) = lba + 1 + s by omega] at sector
        rw [sector,List.drop_drop,Nat.mul_succ,Nat.add_comm])
    simp only [readData,ataReadSector_ok ready,first]
    rw [show bytes.length - min bytes.length ataSectorSize = (bytes.drop ataSectorSize).length by
      rw [List.length_drop]; omega,rest]
    dsimp only
    rw [range_sectorOf _ _ (by rw [List.length_take]; omega),
      List.take_of_length_le (by rw [List.length_take]; omega),List.take_append_drop]

end Faultless

/-- Only the superblock and the directory are written and no transfer fails. -/
structure Directory (d d' : DiskFs) : Prop where
  ready : d'.disk.faults = []
  entries : d'.entries = d.entries
  fileCount : d'.fileCount = d.fileCount
  available : d'.available = d.available
  data : ∀ k, diskfsDataLba ≤ k → d'.disk.sectors k = d.disk.sectors k

theorem Directory.trans {d d' d'' : DiskFs} (first : Directory d d') (second : Directory d' d'') :
    Directory d d'' :=
  ⟨second.ready,second.entries.trans first.entries,second.fileCount.trans first.fileCount,
    second.available.trans first.available,fun k high => (second.data k high).trans (first.data k high)⟩

theorem saveSuper_ok {d : DiskFs} (ready : d.disk.faults = []) :
    ∃ d', saveSuper d = (d',true) ∧ Directory d d' := by
  simp only [saveSuper,ataWriteSector_ok ready]
  refine ⟨_,rfl,ready,rfl,rfl,rfl,?_⟩
  intro k high
  have other : k ≠ diskfsSuperLba := by
    unfold diskfsDataLba at high
    unfold diskfsSuperLba
    omega
  simp [other]

theorem writeDirectorySector_ok {d : DiskFs} (ready : d.disk.faults = []) {s : Nat} (inside : s < diskfsDirSectors) :
    ∃ d', writeDirectorySector d s = (d',true) ∧ Directory d d' := by
  unfold diskfsDirSectors at inside
  unfold writeDirectorySector
  rw [if_neg (by unfold ataSectorSize diskfsMaxFiles entrySize; omega)]
  simp only [ataWriteSector_ok ready]
  refine ⟨_,rfl,ready,rfl,rfl,rfl,?_⟩
  intro k high
  have other : k ≠ diskfsDirLba + s := by
    unfold diskfsDataLba at high
    unfold diskfsDirLba
    omega
  simp [other]

theorem writeSectors_ok {d : DiskFs} (ready : d.disk.faults = []) {sectors : List Nat}
    (inside : ∀ s ∈ sectors, s < diskfsDirSectors) :
    ∃ d', writeSectors d sectors = (d',true) ∧ Directory d d' := by
  induction sectors generalizing d with
  | nil => exact ⟨d,rfl,ready,rfl,rfl,rfl,fun _ _ => rfl⟩
  | cons s rest ih =>
    obtain ⟨d₁,written,first⟩ := writeDirectorySector_ok ready (inside s (by simp))
    obtain ⟨d₂,rest',second⟩ := ih first.ready (fun s member => inside s (by simp [member]))
    refine ⟨d₂,?_,first.trans second⟩
    simp only [writeSectors,written]
    exact rest'

theorem writeEntrySectors_ok {d : DiskFs} (ready : d.disk.faults = []) {i : Nat} (bound : i < diskfsMaxFiles) :
    ∃ d', writeEntrySectors d i = (d',true) ∧ Directory d d' := by
  apply writeSectors_ok ready
  intro s member
  simp only [List.mem_map,List.mem_range] at member
  obtain ⟨k,inside,rfl⟩ := member
  unfold diskfsMaxFiles at bound
  unfold diskfsDirSectors
  unfold entrySize ataSectorSize at inside ⊢
  omega

theorem validName_given {name : List Byte} (valid : validName name = true) : name ≠ [] ∧ name.length ≤ 63 := by
  simp only [validName,Bool.and_eq_true,decide_eq_true_eq] at valid
  obtain ⟨⟨given,_⟩,length⟩ := valid
  unfold diskfsNameMax at length
  exact ⟨given,by omega⟩

theorem nameAt_inside (entries : Nat → Entry) (i : Nat) {k : Nat} (inside : k < 64) :
    nameAt entries i k = (entries i).name k := by
  have slot : (i * entrySize + k) / entrySize = i := by
    unfold entrySize
    omega
  have offset : (i * entrySize + k) % entrySize = k := by
    unfold entrySize
    omega
  rw [nameAt,tableByte,slot,offset,entryByte,if_pos inside]

/-- A name of a path is compared within the 64 bytes of the entry. -/
theorem holds_eq (entries : Nat → Entry) {name : List Byte} (short : name.length ≤ 63) (i : Nat) :
    holds entries name i = ((entries i).name 0 != 0 && streq (entries i).name name) := by
  rw [holds]
  congr 1
  apply streq_congr
  intro k bound
  exact nameAt_inside entries i (by omega)

theorem diskfsFind_congr {entries entries' : Nat → Entry} {name : List Byte} (short : name.length ≤ 63)
    (names : ∀ i, (entries' i).name = (entries i).name) :
    diskfsFind entries' name = diskfsFind entries name := by
  unfold diskfsFind
  congr 1
  funext i
  rw [holds_eq entries' short,holds_eq entries short,names i]

theorem copyName_named (old : Nat → Byte) {name : List Byte} (given : name ≠ []) (text : 0 ∉ name) :
    copyName old name 0 ≠ 0 := by
  cases name with
  | nil => exact absurd rfl given
  | cons c rest =>
    intro zero
    have first : copyName old (c::rest) 0 = c := by simp [copyName]
    rw [first] at zero
    exact text (by simp [zero])

/-- The entry that a write fills is the one that the name is found at afterwards. -/
theorem claimEntry_found {d d' : DiskFs} {name : List Byte} {i : Nat} (short : name.length ≤ 63)
    (given : name ≠ []) (text : 0 ∉ name) (mounted : Mounted d) (available : d.available = true)
    (claimed : claimEntry d name = some (d',i)) :
    i < diskfsMaxFiles ∧ diskfsFind d'.entries name = some i ∧
      (d'.entries i).startLba = diskfsDataLba + i * diskfsSectorsPerFile ∧
      d'.disk = d.disk ∧ d'.available = d.available ∧
      ∀ j, j ≠ i → d'.entries j = d.entries j := by
  unfold claimEntry at claimed
  cases found : diskfsFind d.entries name with
  | some k =>
    simp only [found,Option.some.injEq,Prod.mk.injEq] at claimed
    obtain ⟨rfl,rfl⟩ := claimed
    obtain ⟨bound,named,_⟩ := find_range.mp found
    rw [holds_eq d.entries short] at named
    simp only [Bool.and_eq_true,bne_iff_ne,ne_eq] at named
    exact ⟨bound,found,mounted available k bound named.1,rfl,rfl,fun _ _ => rfl⟩
  | none =>
    simp only [found] at claimed
    cases free : freeEntry d.entries with
    | none => simp [free] at claimed
    | some k =>
      simp only [free,Option.some.injEq,Prod.mk.injEq] at claimed
      obtain ⟨rfl,rfl⟩ := claimed
      obtain ⟨bound,_,_⟩ := find_range.mp free
      have others := find_range_none.mp found
      refine ⟨bound,find_range.mpr ⟨bound,?_,?_⟩,by simp,rfl,rfl,fun j other => by simp [other]⟩
      · have named := copyName_named (d.entries k).name given text
        rw [holds_eq _ short]
        simpa [streq_copyName _ short] using named
      · intro j before
        have absent := others j (by omega)
        rw [holds_eq _ short] at absent ⊢
        simpa [show j ≠ k by omega] using absent

/-- After a successful write without a failing transfer the file has exactly the bytes
written. -/
theorem diskfsWrite_stored {d d' : DiskFs} {name bytes : List Byte} (mounted : Mounted d)
    (ready : d.disk.faults = []) (text : 0 ∉ name) (written : diskfsWrite d name bytes = (d',true)) :
    d'.disk.faults = [] ∧ d'.available = true ∧
      ∃ i, diskfsFind d'.entries name = some i ∧ (d'.entries i).size = bytes.length ∧
        bytes.length ≤ diskfsMaxFileSize ∧
        ∀ s, s < diskfsSectorsPerFile → d'.disk.sectors ((d'.entries i).startLba + s) =
          sectorOf ((bytes.drop (ataSectorSize * s)).take ataSectorSize) := by
  unfold diskfsWrite at written
  split at written
  · simp at written
  next valid =>
    simp only [Bool.or_eq_true,Bool.not_eq_eq_eq_not,Bool.not_true,decide_eq_true_eq,not_or,
      Bool.not_eq_false,Nat.not_lt,gt_iff_lt] at valid
    obtain ⟨⟨available,name'⟩,size⟩ := valid
    obtain ⟨nonempty,short⟩ := validName_given name'
    split at written
    · simp at written
    next d₁ i claimed =>
      obtain ⟨bound,found,start,disk,available',others⟩ :=
        claimEntry_found short nonempty text mounted available claimed
      have ready₁ : d₁.disk.faults = [] := by rw [disk,ready]
      obtain ⟨data,stored,ready₂,inside,_⟩ :=
        writeData_ok ready₁ (d₁.entries i).startLba diskfsSectorsPerFile bytes
      rw [stored] at written
      dsimp only at written
      generalize sized : ({d₁ with
        disk := data
        entries := Function.update d₁.entries i {d₁.entries i with size := bytes.length}} : DiskFs) = d₂ at written
      have ready₂' : d₂.disk.faults = [] := by rw [← sized]; exact ready₂
      obtain ⟨d₃,saved,super⟩ := saveSuper_ok ready₂'
      obtain ⟨d₄,listed,directory⟩ := writeEntrySectors_ok super.ready bound
      rw [saved] at written
      dsimp only at written
      rw [listed] at written
      cases written
      have kept := super.trans directory
      have entry : d₂.entries i = {d₁.entries i with size := bytes.length} := by rw [← sized]; simp
      have names (j : Nat) : (d₂.entries j).name = (d₁.entries j).name := by
        rw [← sized]
        by_cases same : j = i
        · subst same
          simp
        · simp [same]
      have start' : (d₂.entries i).startLba = diskfsDataLba + i * diskfsSectorsPerFile := by
        rw [entry,← start]
      refine ⟨kept.ready,?_,i,?_,?_,size,?_⟩
      · rw [kept.available,← sized]
        exact available'.trans available
      · rw [kept.entries,diskfsFind_congr short names]
        exact found
      · rw [kept.entries,entry]
      · intro s inside'
        rw [kept.entries,start',kept.data _ (by omega),← sized,← start]
        exact inside s inside'

theorem diskfsWrite_read {d d' : DiskFs} {name bytes : List Byte} (mounted : Mounted d)
    (ready : d.disk.faults = []) (text : 0 ∉ name) (written : diskfsWrite d name bytes = (d',true)) :
    diskfsExists d' name = true ∧ diskfsSize d' name = bytes.length ∧
      diskfsRead d' name diskfsMaxFileSize = (d',some bytes) := by
  obtain ⟨ready',available,i,found,size,room,stored⟩ := diskfsWrite_stored mounted ready text written
  refine ⟨by simp [diskfsExists,available,found],by simp [diskfsSize,found,size],?_⟩
  simp only [diskfsRead,available,Bool.not_true,Bool.false_eq_true,if_false,found,size]
  rw [if_neg (by omega),readData_ok ready' _ _ bytes]
  · cases d'
    cases available
    rfl
  · unfold ataSectorSize
    omega
  · intro s inside
    apply stored
    unfold diskfsMaxFileSize at room
    unfold ataSectorSize at inside
    unfold diskfsSectorsPerFile
    omega

end LionOS.Files
