import LionOS.Files.DiskFs
import LionOS.Library.Blocks

/-! The sector writes of `diskfs_write` and `diskfs_remove`, in their order. -/
namespace LionOS.Files
open LionOS.Physical LionOS.Library

abbrev SectorWrite := Nat × Sector

def dataWrites (lba : Nat) (bytes : List Byte) (count : Nat) : List SectorWrite :=
  (List.range count).map fun s => (lba + s,sectorOf ((bytes.drop (ataSectorSize * s)).take ataSectorSize))

def entrySectors (i : Nat) : List Nat :=
  let first := i * entrySize / ataSectorSize
  let last := ((i + 1) * entrySize - 1) / ataSectorSize
  (List.range (last + 1 - first)).map (first + ·)

def tableWrites (entries : Nat → Entry) (fileCount i : Nat) : List SectorWrite :=
  (diskfsSuperLba,superSector fileCount)::
    (entrySectors i).map fun s => (diskfsDirLba + s,directorySector entries s)

/-- Sectors written one after the other until a transfer fails. -/
def performs (disk : Disk) : List SectorWrite → Disk × Bool
  | [] => (disk,true)
  | (lba,sector)::rest => match ataWriteSector disk lba sector with
    | (disk,false) => (disk,false)
    | (disk,true) => performs disk rest

theorem performs_append (disk : Disk) (first second : List SectorWrite) :
    performs disk (first ++ second) = match performs disk first with
      | (disk,false) => (disk,false)
      | (disk,true) => performs disk second := by
  induction first generalizing disk with
  | nil => rfl
  | cons w rest ih =>
    simp only [List.cons_append,performs]
    rcases ataWriteSector disk w.1 w.2 with ⟨next,ok⟩
    cases ok with
    | false => rfl
    | true => exact ih next

/-- The disk holds the writes that were made before a transfer failed. -/
theorem performs_reached (disk : Disk) (writes : List SectorWrite) :
    (performs disk writes).1.sectors = written disk.sectors (writes.take (reached disk.faults writes.length)) ∧
      (performs disk writes).2 = decide (reached disk.faults writes.length = writes.length) := by
  induction writes generalizing disk with
  | nil => exact ⟨by simp [performs],by simp [performs,reached]⟩
  | cons w rest ih =>
    obtain ⟨sectors,faults⟩ := disk
    cases faults with
    | nil =>
      obtain ⟨same,ok⟩ := ih ⟨Function.update sectors w.1 w.2,[]⟩
      simp only [reached_nil,List.take_length] at same ok ⊢
      exact ⟨same,ok⟩
    | cons fault faults =>
      cases fault with
      | true =>
        refine ⟨rfl,?_⟩
        simp [performs,ataWriteSector,nextFault,reached]
      | false =>
        obtain ⟨same,ok⟩ := ih ⟨Function.update sectors w.1 w.2,faults⟩
        refine ⟨same,?_⟩
        rw [show reached (false::faults) (w::rest).length = reached faults rest.length + 1 from rfl,List.length_cons]
        simp only [Nat.add_right_cancel_iff]
        exact ok

theorem writeData_performs (disk : Disk) (lba : Nat) (bytes : List Byte) (count : Nat) :
    writeData disk lba bytes count = performs disk (dataWrites lba bytes count) := by
  induction count generalizing disk lba bytes with
  | zero => rfl
  | succ count ih =>
    have next : dataWrites lba bytes (count + 1) =
        (lba,sectorOf (bytes.take ataSectorSize))::dataWrites (lba + 1) (bytes.drop ataSectorSize) count := by
      unfold dataWrites
      rw [List.range_succ_eq_map,List.map_cons,List.map_map]
      refine congrArg₂ List.cons rfl ?_
      apply List.map_congr_left
      intro s _
      simp only [Function.comp_apply,List.drop_drop,Nat.mul_succ]
      rw [Nat.add_assoc,Nat.add_comm 1 s,Nat.add_comm (ataSectorSize * s)]
    rw [next,writeData,performs]
    rcases ataWriteSector disk lba (sectorOf (bytes.take ataSectorSize)) with ⟨disk',ok⟩
    cases ok with
    | false => rfl
    | true => exact ih disk' (lba + 1) (bytes.drop ataSectorSize)

theorem entrySectors_inside {i : Nat} (bound : i < diskfsMaxFiles) : ∀ s ∈ entrySectors i, s < diskfsDirSectors := by
  intro s member
  simp only [entrySectors,List.mem_map,List.mem_range] at member
  obtain ⟨k,inside,rfl⟩ := member
  unfold diskfsMaxFiles at bound
  unfold diskfsDirSectors
  unfold entrySize ataSectorSize at inside ⊢
  omega

theorem writeSectors_performs (d : DiskFs) (sectors : List Nat) (inside : ∀ s ∈ sectors, s < diskfsDirSectors) :
    writeSectors d sectors =
      ({d with disk := (performs d.disk (sectors.map fun s => (diskfsDirLba + s,directorySector d.entries s))).1},
        (performs d.disk (sectors.map fun s => (diskfsDirLba + s,directorySector d.entries s))).2) := by
  induction sectors generalizing d with
  | nil => rfl
  | cons s rest ih =>
    have low := inside s List.mem_cons_self
    unfold diskfsDirSectors at low
    have table : ¬ s * ataSectorSize ≥ diskfsMaxFiles * entrySize := by
      unfold ataSectorSize diskfsMaxFiles entrySize
      omega
    simp only [writeSectors,writeDirectorySector,if_neg table,List.map_cons,performs]
    rcases ataWriteSector d.disk (diskfsDirLba + s) (directorySector d.entries s) with ⟨disk,ok⟩
    cases ok with
    | false => rfl
    | true => exact ih {d with disk} (fun s' member => inside s' (List.mem_cons_of_mem _ member))

theorem flush_performs (d : DiskFs) {i : Nat} (bound : i < diskfsMaxFiles) :
    (match saveSuper d with
      | (d,false) => (d,false)
      | (d,true) => writeEntrySectors d i) =
      ({d with disk := (performs d.disk (tableWrites d.entries d.fileCount i)).1},
        (performs d.disk (tableWrites d.entries d.fileCount i)).2) := by
  simp only [saveSuper,tableWrites,performs]
  rcases ataWriteSector d.disk diskfsSuperLba (superSector d.fileCount) with ⟨disk,ok⟩
  cases ok with
  | false => rfl
  | true => exact writeSectors_performs {d with disk} (entrySectors i) (entrySectors_inside bound)

theorem performs_ready {disk : Disk} (ready : disk.faults = []) (writes : List SectorWrite) :
    (performs disk writes).1.faults = [] := by
  induction writes generalizing disk with
  | nil => exact ready
  | cons w rest ih =>
    rw [performs,ataWriteSector_ok ready]
    exact ih ready

/-- The table and the entry with which a write that is not refused starts. -/
def admitted (d : DiskFs) (name bytes : List Byte) : Option (DiskFs × Nat) :=
  if !d.available || !validName name || decide (bytes.length > diskfsMaxFileSize) then none else claimEntry d name

def sized (entries : Nat → Entry) (i size : Nat) : Nat → Entry := Function.update entries i {entries i with size}

/-- The transfers of a write to entry `i` of the table `c`. -/
def storeWrites (c : DiskFs) (i : Nat) (bytes : List Byte) : List SectorWrite :=
  dataWrites (c.entries i).startLba bytes diskfsSectorsPerFile ++
    tableWrites (sized c.entries i bytes.length) c.fileCount i

def removed (d : DiskFs) (i : Nat) : DiskFs :=
  {d with entries := Function.update d.entries i ⟨fun _ => 0,0,0⟩,fileCount := d.fileCount - 1}

def dropWrites (d : DiskFs) (i : Nat) : List SectorWrite :=
  tableWrites (removed d i).entries (removed d i).fileCount i

theorem dataWrites_length (lba : Nat) (bytes : List Byte) (count : Nat) : (dataWrites lba bytes count).length = count := by
  simp [dataWrites]

theorem claimEntry_bound {d c : DiskFs} {name : List Byte} {i : Nat} (claimed : claimEntry d name = some (c,i)) :
    i < diskfsMaxFiles ∧ c.disk = d.disk ∧ c.available = d.available := by
  unfold claimEntry at claimed
  split at claimed
  next k found =>
    cases claimed
    exact ⟨(find_range.mp found).1,rfl,rfl⟩
  split at claimed
  · cases claimed
  next k free =>
    cases claimed
    exact ⟨(find_range.mp free).1,rfl,rfl⟩

theorem admitted_claimed {d c : DiskFs} {name bytes : List Byte} {i : Nat} (given : admitted d name bytes = some (c,i)) :
    d.available = true ∧ validName name = true ∧ bytes.length ≤ diskfsMaxFileSize ∧ claimEntry d name = some (c,i) := by
  unfold admitted at given
  split at given
  · cases given
  next valid =>
    simp only [Bool.or_eq_true,Bool.not_eq_eq_eq_not,Bool.not_true,decide_eq_true_eq,not_or,Bool.not_eq_false,
      Nat.not_lt,gt_iff_lt] at valid
    exact ⟨valid.1.1,valid.1.2,valid.2,given⟩

theorem diskfsWrite_refused {d : DiskFs} {name bytes : List Byte} (refused : admitted d name bytes = none) :
    diskfsWrite d name bytes = (d,false) := by
  unfold admitted at refused
  unfold diskfsWrite
  split at refused
  next invalid => rw [if_pos invalid]
  next valid => rw [if_neg valid,refused]

/-- A write is its transfers up to the first that fails; the size changes with the
superblock. -/
theorem diskfsWrite_transfers {d c : DiskFs} {name bytes : List Byte} {i : Nat}
    (given : admitted d name bytes = some (c,i)) :
    ∃ disk, disk = (performs d.disk (storeWrites c i bytes)).1 ∧
      diskfsWrite d name bytes =
        (if reached d.disk.faults (storeWrites c i bytes).length < diskfsSectorsPerFile then {c with disk}
          else {c with disk,entries := sized c.entries i bytes.length},
          decide (reached d.disk.faults (storeWrites c i bytes).length = (storeWrites c i bytes).length)) := by
  obtain ⟨_,_,_,claimed⟩ := admitted_claimed given
  obtain ⟨bound,same,_⟩ := claimEntry_bound claimed
  refine ⟨_,rfl,?_⟩
  generalize total : (storeWrites c i bytes).length = n
  have data : diskfsSectorsPerFile ≤ n := by
    rw [← total,storeWrites,List.length_append,dataWrites_length]
    omega
  have first := performs_reached d.disk (dataWrites (c.entries i).startLba bytes diskfsSectorsPerFile)
  rw [dataWrites_length,reached_min d.disk.faults diskfsSectorsPerFile n data] at first
  have whole := performs_reached d.disk (storeWrites c i bytes)
  rw [total] at whole
  rw [← whole.2]
  have split := performs_append d.disk (dataWrites (c.entries i).startLba bytes diskfsSectorsPerFile)
    (tableWrites (sized c.entries i bytes.length) c.fileCount i)
  rw [← storeWrites] at split
  have opened : ¬ (!d.available || !validName name || decide (bytes.length > diskfsMaxFileSize)) = true := by
    intro invalid
    rw [admitted,if_pos invalid] at given
    cases given
  rw [diskfsWrite,if_neg opened,claimed]
  dsimp only
  rw [writeData_performs,same]
  rcases transferred : performs d.disk (dataWrites (c.entries i).startLba bytes diskfsSectorsPerFile) with ⟨disk,ok⟩
  rw [transferred] at first split
  cases ok with
  | false =>
    have short := of_decide_eq_false first.2.symm
    rw [split,if_pos (by omega)]
  | true =>
    have enough := of_decide_eq_true first.2.symm
    rw [split,if_neg (by omega)]
    exact flush_performs {c with disk,entries := sized c.entries i bytes.length} bound

/-- Without a failing transfer a write is refused before it changes anything. -/
theorem diskfsWrite_failed {d d' : DiskFs} {name bytes : List Byte} (ready : d.disk.faults = [])
    (failed : diskfsWrite d name bytes = (d',false)) : d' = d := by
  cases given : admitted d name bytes with
  | none =>
    rw [diskfsWrite_refused given] at failed
    cases failed
    rfl
  | some claim =>
    obtain ⟨c,i⟩ := claim
    obtain ⟨disk,_,result⟩ := diskfsWrite_transfers given
    rw [failed,ready,reached_nil,decide_eq_true rfl] at result
    cases (Prod.ext_iff.mp result).2

theorem diskfsRemove_refused {d : DiskFs} {name : List Byte}
    (refused : d.available = false ∨ diskfsFind d.entries name = none) : diskfsRemove d name = (d,false) := by
  rcases refused with closed | absent
  · rw [diskfsRemove,closed]
    rfl
  · simp only [diskfsRemove,absent,ite_self]

theorem diskfsRemove_transfers {d : DiskFs} {name : List Byte} {i : Nat} (available : d.available = true)
    (found : diskfsFind d.entries name = some i) :
    diskfsRemove d name = ({removed d i with disk := (performs d.disk (dropWrites d i)).1},
      decide (reached d.disk.faults (dropWrites d i).length = (dropWrites d i).length)) := by
  rw [← (performs_reached d.disk (dropWrites d i)).2]
  have bound := (find_range.mp found).1
  have opened : ¬ (!d.available) = true := by
    rw [available]
    exact Bool.false_ne_true
  rw [diskfsRemove,if_neg opened,found]
  exact flush_performs (removed d i) bound

section Prefixes
variable {sectors : Nat → Sector} {entries : Nat → Entry} {fileCount i k : Nat}

theorem dataWrites_sector (lba : Nat) (bytes : List Byte) (count s : Nat) :
    written sectors ((dataWrites lba bytes count).take k) (lba + s) =
      if s < min k count then sectorOf ((bytes.drop (ataSectorSize * s)).take ataSectorSize) else sectors (lba + s) := by
  rw [dataWrites,← List.map_take,List.take_range,written_map]
  simp only [List.mem_range]

theorem dataWrites_other {lba a : Nat} (bytes : List Byte) (count : Nat) (apart : a < lba ∨ lba + count ≤ a) :
    written sectors ((dataWrites lba bytes count).take k) a = sectors a := by
  apply written_other
  intro w member
  obtain ⟨s,inside,rfl⟩ := List.mem_map.mp (List.mem_of_mem_take member)
  rw [List.mem_range] at inside
  dsimp only
  omega

theorem tableWrites_take : (tableWrites entries fileCount i).take (k+1) =
    (diskfsSuperLba,superSector fileCount)::
      ((entrySectors i).take k).map fun s => (diskfsDirLba + s,directorySector entries s) := by
  rw [tableWrites,List.take_succ_cons,List.map_take]

theorem tableWrites_super : written sectors ((tableWrites entries fileCount i).take k) diskfsSuperLba =
    if k = 0 then sectors diskfsSuperLba else superSector fileCount := by
  cases k with
  | zero => rfl
  | succ k =>
    rw [if_neg (Nat.succ_ne_zero k),tableWrites_take,written_cons,written_other]
    · exact Function.update_self _ _ _
    · intro w member
      obtain ⟨s,_,rfl⟩ := List.mem_map.mp member
      unfold diskfsDirLba diskfsSuperLba
      dsimp only
      omega

theorem tableWrites_directory (s : Nat) :
    written sectors ((tableWrites entries fileCount i).take k) (diskfsDirLba + s) =
      if s ∈ (entrySectors i).take (k - 1) then directorySector entries s else sectors (diskfsDirLba + s) := by
  cases k with
  | zero =>
    rw [Nat.zero_sub,List.take_zero,List.take_zero,if_neg List.not_mem_nil]
    rfl
  | succ k =>
    have other : diskfsDirLba + s ≠ diskfsSuperLba := by
      unfold diskfsDirLba diskfsSuperLba
      omega
    rw [tableWrites_take,written_cons,written_map,Nat.add_sub_cancel,Function.update_of_ne other]

theorem tableWrites_data (bound : i < diskfsMaxFiles) {a : Nat} (high : diskfsDataLba ≤ a) :
    written sectors ((tableWrites entries fileCount i).take k) a = sectors a := by
  apply written_other
  intro w member
  unfold diskfsDataLba at high
  rcases List.mem_cons.mp (List.mem_of_mem_take member) with rfl | member
  · unfold diskfsSuperLba
    dsimp only
    omega
  · obtain ⟨s,inside,rfl⟩ := List.mem_map.mp member
    have low := entrySectors_inside bound s inside
    unfold diskfsDirSectors at low
    unfold diskfsDirLba
    dsimp only
    omega

end Prefixes

theorem storeWrites_take (c : DiskFs) (i : Nat) (bytes : List Byte) (k : Nat) : (storeWrites c i bytes).take k =
    (dataWrites (c.entries i).startLba bytes diskfsSectorsPerFile).take k ++
      (tableWrites (sized c.entries i bytes.length) c.fileCount i).take (k - diskfsSectorsPerFile) := by
  rw [storeWrites,List.take_append,dataWrites_length]

theorem storeWrites_length (c : DiskFs) (i : Nat) (bytes : List Byte) :
    (storeWrites c i bytes).length = diskfsSectorsPerFile + 1 + (entrySectors i).length := by
  rw [storeWrites,List.length_append,dataWrites_length,tableWrites,List.length_cons,List.length_map]
  omega

section Stores
variable {sectors : Nat → Sector} {c : DiskFs} {i : Nat}

theorem stored_super (behind : diskfsDataLba ≤ (c.entries i).startLba) (bytes : List Byte) (k : Nat) :
    written sectors ((storeWrites c i bytes).take k) diskfsSuperLba =
      if k ≤ diskfsSectorsPerFile then sectors diskfsSuperLba else superSector c.fileCount := by
  unfold diskfsDataLba at behind
  have apart : diskfsSuperLba < (c.entries i).startLba := by
    unfold diskfsSuperLba
    omega
  rw [storeWrites_take,written_append,tableWrites_super,dataWrites_other bytes diskfsSectorsPerFile (.inl apart)]
  simp only [Nat.sub_eq_zero_iff_le]

theorem stored_directory (behind : diskfsDataLba ≤ (c.entries i).startLba) (bytes : List Byte) (k : Nat) {s : Nat}
    (low : s < diskfsDirSectors) : written sectors ((storeWrites c i bytes).take k) (diskfsDirLba + s) =
      if s ∈ (entrySectors i).take (k - diskfsSectorsPerFile - 1) then
        directorySector (sized c.entries i bytes.length) s else sectors (diskfsDirLba + s) := by
  unfold diskfsDataLba at behind
  unfold diskfsDirSectors at low
  have apart : diskfsDirLba + s < (c.entries i).startLba := by
    unfold diskfsDirLba
    omega
  rw [storeWrites_take,written_append,tableWrites_directory,dataWrites_other bytes diskfsSectorsPerFile (.inl apart)]

theorem stored_data (bound : i < diskfsMaxFiles) (bytes : List Byte) (k : Nat) {a : Nat} (high : diskfsDataLba ≤ a) :
    written sectors ((storeWrites c i bytes).take k) a =
      written sectors ((dataWrites (c.entries i).startLba bytes diskfsSectorsPerFile).take k) a := by
  rw [storeWrites_take,written_append,tableWrites_data bound high]

end Stores

end LionOS.Files
