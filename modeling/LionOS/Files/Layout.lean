import LionOS.Files.Transfers

/-! Where the bytes of the directory are on the disk, and what a mount makes of them. -/
namespace LionOS.Files
open LionOS.Physical LionOS.Library

/-- The directory as it is in the sectors of a disk. -/
def diskTable (sectors : Nat → Sector) : Nat → Byte := fun k =>
  if k < diskfsMaxFiles * entrySize then sectors (diskfsDirLba + k / ataSectorSize) (k % ataSectorSize) else 0

/-- The entry in the sectors of a disk, before any check. -/
def rawEntry (sectors : Nat → Sector) (i : Nat) : Entry := loadEntry (diskTable sectors) i

/-- An entry that a mount keeps: it has a name, fits into an extent and is in its own. -/
def kept (i : Nat) (e : Entry) : Prop :=
  e.name 0 ≠ 0 ∧ e.size ≤ diskfsMaxFileSize ∧ e.startLba = diskfsDataLba + i * diskfsSectorsPerFile

instance kept.decidable (i : Nat) (e : Entry) : Decidable (kept i e) := inferInstanceAs (Decidable (_ ∧ _ ∧ _))

def liveCount (entries : Nat → Entry) : Nat :=
  ((List.range diskfsMaxFiles).filter fun i => (entries i).name 0 != 0).length

theorem checkEntry_kept {i : Nat} {e : Entry} (good : kept i e) : checkEntry i e = e := by
  obtain ⟨_,small,own⟩ := good
  rw [checkEntry,if_neg]
  rintro ⟨_,large | elsewhere⟩
  · omega
  · exact elsewhere own

theorem checkEntry_dropped {i : Nat} {e : Entry} (bad : ¬ kept i e) : (checkEntry i e).name 0 = 0 := by
  by_cases named : e.name 0 = 0
  · rwa [checkEntry,if_neg (fun both => both.1 named)]
  · rw [checkEntry,if_pos]
    · exact Function.update_self 0 0 e.name
    · refine ⟨named,?_⟩
      by_contra fits
      rw [not_or,not_not,Nat.not_lt] at fits
      exact bad ⟨named,fits⟩

theorem checkEntry_named {i : Nat} {e : Entry} : (checkEntry i e).name 0 ≠ 0 ↔ kept i e := by
  refine ⟨?_,?_⟩
  · intro named
    by_contra bad
    exact named (checkEntry_dropped bad)
  · intro good
    rw [checkEntry_kept good]
    exact good.1

theorem ataReadSector_given {disk disk' : Disk} {lba : Nat} {sector : Sector}
    (read : ataReadSector disk lba = (disk',some sector)) :
    sector = disk.sectors lba ∧ disk'.sectors = disk.sectors := by
  obtain ⟨sectors,faults⟩ := disk
  match faults with
  | [] =>
    cases read
    exact ⟨rfl,rfl⟩
  | true::_ => cases read
  | false::_ =>
    cases read
    exact ⟨rfl,rfl⟩

/-- A directory that could be read is the one on the disk. -/
theorem readDirectory_table {disk disk' : Disk} {table table' : Nat → Byte} {sectors : List Nat}
    (read : readDirectory disk table sectors = (disk',table',true)) :
    disk'.sectors = disk.sectors ∧ ∀ k, table' k =
      if k / ataSectorSize ∈ sectors ∧ k < diskfsMaxFiles * entrySize then
        disk.sectors (diskfsDirLba + k / ataSectorSize) (k % ataSectorSize) else table k := by
  induction sectors generalizing disk table with
  | nil =>
    cases read
    exact ⟨rfl,fun k => by simp⟩
  | cons s rest ih =>
    rw [readDirectory] at read
    split at read
    · cases read
    next disk₁ sector got =>
      obtain ⟨rfl,same⟩ := ataReadSector_given got
      obtain ⟨same',later⟩ := ih read
      refine ⟨same'.trans same,?_⟩
      intro k
      rw [later k,same]
      by_cases after : k / ataSectorSize ∈ rest ∧ k < diskfsMaxFiles * entrySize
      · rw [if_pos after,if_pos ⟨List.mem_cons_of_mem _ after.1,after.2⟩]
      · rw [if_neg after]
        have position : s * ataSectorSize ≤ k ∧ k < s * ataSectorSize + ataSectorSize ↔ k / ataSectorSize = s := by
          unfold ataSectorSize
          omega
        by_cases here : k / ataSectorSize = s ∧ k < diskfsMaxFiles * entrySize
        · obtain ⟨low,high⟩ := position.mpr here.1
          rw [if_pos ⟨low,high,here.2⟩,if_pos ⟨here.1 ▸ List.mem_cons_self,here.2⟩,here.1]
          refine congrArg _ ?_
          unfold ataSectorSize at here ⊢
          omega
        · rw [if_neg,if_neg]
          · rintro ⟨member,bound⟩
            rcases List.mem_cons.mp member with first | later
            · exact here ⟨first,bound⟩
            · exact after ⟨later,bound⟩
          · rintro ⟨low,high,bound⟩
            exact here ⟨position.mp ⟨low,high⟩,bound⟩

theorem readDirectory_disk {disk disk' : Disk} {table' : Nat → Byte}
    (read : readDirectory disk (fun _ => 0) (List.range diskfsDirSectors) = (disk',table',true)) :
    disk'.sectors = disk.sectors ∧ table' = diskTable disk.sectors := by
  obtain ⟨same,bytes⟩ := readDirectory_table read
  refine ⟨same,?_⟩
  ext1 k
  rw [bytes k,diskTable]
  by_cases inside : k < diskfsMaxFiles * entrySize
  · have low : k / ataSectorSize ∈ List.range diskfsDirSectors := by
      rw [List.mem_range]
      unfold diskfsMaxFiles entrySize at inside
      unfold ataSectorSize diskfsDirSectors
      omega
    rw [if_pos ⟨low,inside⟩,if_pos inside]
  · rw [if_neg (fun both => inside both.2),if_neg inside]

theorem readDirectory_ok {disk : Disk} (ready : disk.faults = []) (table : Nat → Byte) (sectors : List Nat) :
    ∃ table', readDirectory disk table sectors = (disk,table',true) := by
  induction sectors generalizing table with
  | nil => exact ⟨table,rfl⟩
  | cons s rest ih =>
    rw [readDirectory,ataReadSector_ok ready]
    exact ih _

/-- The superblock names the format, its version and at most 32 files. -/
def superGood (sector : Sector) : Prop :=
  signed sector = true ∧ word32 sector 8 = diskfsVersion ∧ word32 sector 12 ≤ diskfsMaxFiles

def mountedEntries (sectors : Nat → Sector) : Nat → Entry := fun i => checkEntry i (rawEntry sectors i)

/-- What a mount that succeeds makes of a disk. -/
structure Mounts (sectors : Nat → Sector) (d : DiskFs) : Prop where
  available : d.available = true
  entries : d.entries = mountedEntries sectors
  fileCount : d.fileCount = liveCount (mountedEntries sectors)
  sectors : d.disk.sectors = sectors

theorem diskfsInit_mounts {disk : Disk} {present : Bool} {d : DiskFs} (init : diskfsInit disk present = (d,true)) :
    superGood (disk.sectors diskfsSuperLba) ∧ Mounts disk.sectors d := by
  unfold diskfsInit at init
  split at init
  · cases init
  split at init
  · cases init
  next disk₁ sector got =>
    obtain ⟨rfl,same⟩ := ataReadSector_given got
    split at init
    · cases init
    next format =>
      simp only [Bool.or_eq_true,Bool.not_eq_eq_eq_not,Bool.not_true,decide_eq_true_eq,not_or,Bool.not_eq_false,
        not_not] at format
      split at init
      · cases init
      next few =>
        dsimp only at init
        split at init
        · cases init
        next disk₂ table read =>
          obtain ⟨same',rfl⟩ := readDirectory_disk read
          cases init
          rw [same] at same'
          refine ⟨⟨format.1,format.2,Nat.not_lt.mp few⟩,rfl,?_,?_,same'⟩
          · rw [same]
            rfl
          · rw [same]
            rfl

/-- A disk that reports no error and has a good superblock can be mounted. -/
theorem diskfsInit_ready {disk : Disk} (ready : disk.faults = []) (good : superGood (disk.sectors diskfsSuperLba)) :
    diskfsInit disk true =
      (⟨disk,mountedEntries disk.sectors,liveCount (mountedEntries disk.sectors),true⟩,true) := by
  obtain ⟨format,version,few⟩ := good
  obtain ⟨table,read⟩ := readDirectory_ok ready (fun _ => 0) (List.range diskfsDirSectors)
  obtain ⟨_,rfl⟩ := readDirectory_disk read
  simp only [diskfsInit,ataReadSector_ok ready,format,version,read,Bool.not_true,ne_eq,not_true_eq_false,decide_false,
    Bool.or_false,Bool.false_eq_true,if_false]
  rw [if_neg (Nat.not_lt.mpr few)]
  rfl

/-- An entry that its 72 bytes determine. -/
structure Encoded (e : Entry) : Prop where
  name : ∀ k, 64 ≤ k → e.name k = 0
  size : e.size < 2^32
  startLba : e.startLba < 2^32

theorem word32_byte32 {value : Nat} (bound : value < 2^32) (sector : Sector) (offset : Nat)
    (bytes : ∀ k, k < 4 → sector (offset + k) = byte32 value k) : word32 sector offset = value := by
  have first := bytes 0 (by omega)
  have second := bytes 1 (by omega)
  have third := bytes 2 (by omega)
  have fourth := bytes 3 (by omega)
  rw [Nat.add_zero] at first
  simp only [word32,first,second,third,fourth,byte32,bytes32,List.getD_cons_zero,List.getD_cons_succ,
    BitVec.toNat_ofNat]
  omega

theorem tableByte_entry (entries : Nat → Entry) (i : Nat) {k : Nat} (inside : k < entrySize) :
    tableByte entries (i * entrySize + k) = entryByte (entries i) k := by
  have slot : (i * entrySize + k) / entrySize = i := by
    unfold entrySize at inside ⊢
    omega
  have offset : (i * entrySize + k) % entrySize = k := by
    unfold entrySize at inside ⊢
    omega
  rw [tableByte,slot,offset]

theorem loadEntry_encoded {table : Nat → Byte} {i : Nat} {e : Entry} (encoded : Encoded e)
    (bytes : ∀ k, k < entrySize → table (i * entrySize + k) = entryByte e k) : loadEntry table i = e := by
  have name : (loadEntry table i).name = e.name := by
    ext1 k
    simp only [loadEntry]
    split
    next inside =>
      rw [bytes k (by unfold entrySize; omega),entryByte,if_pos inside]
    next outside => exact (encoded.name k (by omega)).symm
  have size : (loadEntry table i).size = e.size := by
    change word32 (fun k => table (i * entrySize + 64 + k)) 0 = e.size
    apply word32_byte32 encoded.size
    intro k low
    rw [Nat.zero_add,Nat.add_assoc,bytes (64 + k) (by unfold entrySize; omega),entryByte,if_neg (by omega),
      if_pos (by omega),Nat.add_sub_cancel_left]
  have startLba : (loadEntry table i).startLba = e.startLba := by
    change word32 (fun k => table (i * entrySize + 68 + k)) 0 = e.startLba
    apply word32_byte32 encoded.startLba
    intro k low
    rw [Nat.zero_add,Nat.add_assoc,bytes (68 + k) (by unfold entrySize; omega),entryByte,if_neg (by omega),
      if_neg (by omega),Nat.add_sub_cancel_left]
  cases e
  exact Entry.mk.injEq .. ▸ ⟨name,size,startLba⟩

theorem diskTable_byte {entries : Nat → Entry} {sectors : Nat → Sector} {k : Nat}
    (inside : k < diskfsMaxFiles * entrySize)
    (here : sectors (diskfsDirLba + k / ataSectorSize) = directorySector entries (k / ataSectorSize)) :
    diskTable sectors k = tableByte entries k := by
  have offset : k / ataSectorSize * ataSectorSize + k % ataSectorSize = k := by
    unfold ataSectorSize
    omega
  have within : k % ataSectorSize < ataSectorSize := Nat.mod_lt _ (by unfold ataSectorSize; omega)
  rw [diskTable,if_pos inside,here,directorySector,offset,if_pos ⟨within,inside⟩]

theorem entry_inside {i k : Nat} (bound : i < diskfsMaxFiles) (inside : k < entrySize) :
    i * entrySize + k < diskfsMaxFiles * entrySize := by
  unfold diskfsMaxFiles at bound ⊢
  unfold entrySize at inside ⊢
  omega

theorem table_sector {k : Nat} (inside : k < diskfsMaxFiles * entrySize) : k / ataSectorSize < diskfsDirSectors := by
  unfold diskfsMaxFiles entrySize at inside
  unfold ataSectorSize diskfsDirSectors
  omega

/-- The directory sectors hold the table. -/
def Imaged (entries : Nat → Entry) (sectors : Nat → Sector) : Prop :=
  ∀ s, s < diskfsDirSectors → sectors (diskfsDirLba + s) = directorySector entries s

theorem rawEntry_imaged {entries : Nat → Entry} {sectors : Nat → Sector} (imaged : Imaged entries sectors) {i : Nat}
    (bound : i < diskfsMaxFiles) (encoded : Encoded (entries i)) : rawEntry sectors i = entries i := by
  refine loadEntry_encoded encoded ?_
  intro k inside
  have within := entry_inside bound inside
  rw [diskTable_byte within (imaged _ (table_sector within)),tableByte_entry entries i inside]

/-- A sector that has no part of entry `i` does not show a change of it. -/
theorem directorySector_apart {entries entries' : Nat → Entry} {i s : Nat} (same : ∀ j, j ≠ i → entries' j = entries j)
    (apart : s ∉ entrySectors i) : directorySector entries' s = directorySector entries s := by
  ext1 k
  unfold directorySector
  dsimp only
  split
  next inside =>
    have other : (s * ataSectorSize + k) / entrySize ≠ i := by
      rintro rfl
      apply apart
      simp only [entrySectors,List.mem_map,List.mem_range]
      refine ⟨s - (s * ataSectorSize + k) / entrySize * entrySize / ataSectorSize,?_,?_⟩
      · unfold ataSectorSize entrySize at inside ⊢
        omega
      · unfold ataSectorSize entrySize at inside ⊢
        omega
    rw [tableByte,tableByte,same _ other]
  · rfl

end LionOS.Files
