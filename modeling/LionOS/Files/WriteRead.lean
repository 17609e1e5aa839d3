import LionOS.Files.Vfs

/-! Whether a file reads back as what was acknowledged to its writer. -/
namespace LionOS.Files
open LionOS.Memory LionOS.Physical LionOS.Processes LionOS.Library

/-- A descriptor for writing, opened under the path `src` without append and not yet
used. -/
structure Writing (f : ProcessFd) (src : List Byte) : Prop where
  used : f.used = true
  write : flagged f.flags vfsFWrite = true
  whole : flagged f.flags vfsFAppend = false
  start : f.offset = 0
  path : pathNormalize src = some f.path

/-- The path stands for exactly these bytes: its size is theirs, and a fresh descriptor
for reading returns them. -/
def ReadsBack (st : Store) (src bytes : List Byte) : Prop :=
  (vfsStatPath st src).map VfsStat.size = some bytes.length ∧
    ∀ fds, (freeFd fds).isSome → ∀ length, bytes.length ≤ length → length ≤ vfsIoMax →
      ∃ fds' fd, vfsOpen st fds src vfsFRead = (st,fds',some fd) ∧
        (vfsRead st fds' fd length).2.2 = some bytes

/-- The memory file system holds exactly these bytes under the path. -/
def RamHolds (r : RamFs) (path bytes : List Byte) : Prop :=
  ∃ data, ramfsData r path = some data ∧ ramfsSize r path = bytes.length ∧
    ∀ i, i < bytes.length → data i = bytes.getD i 0

/-- What a descriptor's back end can give back. The memory file system keeps 256 bytes;
a file of the disk is read through a heap page and must not be hidden by one of the
memory file system. -/
def Readable (st : Store) (f : ProcessFd) (bytes : List Byte) : Prop :=
  if f.backend = backendDiskfs then
    ramfsData st.ram f.path = none ∧ (bytes = [] ∨ (kmalloc st.heap vfsIoMax).isSome) ∨
      RamHolds st.ram f.path bytes
  else bytes.length ≤ ramfsDataMax

section ReadBack
variable {st : Store} {src path bytes : List Byte}

theorem openSlot_read {fds : FdTable} {i : Nat} (found : backendFor st path ≠ backendNone)
    (free : freeFd fds = some i) :
    openSlot st fds path vfsFRead =
      (st,Function.update fds i ⟨true,backendFor st path,vfsFRead,0,path⟩,some i) := by
  have closed : ¬(backendFor st path = backendNone ∧ flagged vfsFRead vfsFWrite = false) := fun both => found both.1
  have start : flagged vfsFRead vfsFAppend = false := rfl
  simp only [openSlot,if_neg closed,if_neg found,free,start,Bool.false_eq_true,if_false]

theorem readsBack_slot (normal : pathNormalize src = some path) (found : backendFor st path ≠ backendNone)
    (size : (vfsStatPath st src).map VfsStat.size = some (fileSize st (backendFor st path) path)) :
    ReadsBack st src bytes ↔ fileSize st (backendFor st path) path = bytes.length ∧
      ∀ length, bytes.length ≤ length → length ≤ vfsIoMax →
        (readSlot st ⟨true,backendFor st path,vfsFRead,0,path⟩ length).2.2 = some bytes := by
  have opened {fds : FdTable} {i : Nat} (free : freeFd fds = some i) :
      vfsOpen st fds src vfsFRead =
        (st,Function.update fds i ⟨true,backendFor st path,vfsFRead,0,path⟩,some i) := by
    simp only [vfsOpen,normal]
    exact openSlot_read found free
  have read (fds : FdTable) {i : Nat} (free : freeFd fds = some i) (length : Nat) :
      (vfsRead st (Function.update fds i ⟨true,backendFor st path,vfsFRead,0,path⟩) i length).2.2 =
        (readSlot st ⟨true,backendFor st path,vfsFRead,0,path⟩ length).2.2 := by
    have bound := (find_range.mp free).1
    have valid : ¬((i : Int) < 0 ∨ (i : Int) ≥ vfsFdMax) := by omega
    simp only [vfsRead,if_neg valid,Int.toNat_natCast,Function.update_self]
  unfold ReadsBack
  rw [size,Option.some.injEq]
  refine and_congr_right fun _ => ⟨?_,?_⟩
  · intro all length enough bound
    have free : freeFd (fun _ => default) = some 0 := rfl
    obtain ⟨fds',fd,isOpen,result⟩ := all (fun _ => default) (by simp [free]) length enough bound
    rw [opened free] at isOpen
    cases isOpen
    rwa [read _ free] at result
  · intro all fds some length enough bound
    obtain ⟨i,free⟩ := Option.isSome_iff_exists.mp some
    exact ⟨_,i,opened free,(read fds free length).trans (all length enough bound)⟩

theorem map_range_eq {n : Nat} {data : Nat → Byte} :
    (List.range n).map data = bytes ↔ n = bytes.length ∧ ∀ i, i < bytes.length → data i = bytes.getD i 0 := by
  constructor
  · rintro rfl
    refine ⟨by simp,?_⟩
    intro i bound
    simp only [List.length_map,List.length_range] at bound
    simp [List.getD_eq_getElem?_getD,bound]
  · rintro ⟨rfl,same⟩
    apply List.ext_getElem (by simp)
    intro i left right
    simp [same i right,List.getD_eq_getElem?_getD,right]

theorem readsBack_ram (normal : pathNormalize src = some path) (short : bytes.length ≤ vfsIoMax)
    {data : Nat → Byte} (held : ramfsData st.ram path = some data) :
    ReadsBack st src bytes ↔ RamHolds st.ram path bytes := by
  have backend : backendFor st path = backendRamfs := by simp [backendFor,held]
  have sized : fileSize st (backendFor st path) path = ramfsSize st.ram path := by
    simp [fileSize,backend,backendRamfs,backendDiskfs]
  rw [readsBack_slot normal (by rw [backend]; decide) (by simp [vfsStatPath,normal,held,sized]),sized]
  unfold RamHolds
  simp only [held,Option.some.injEq,exists_eq_left']
  refine and_congr_right fun size => ?_
  have slot {length : Nat} (enough : bytes.length ≤ length) (bound : length ≤ vfsIoMax) :
      (readSlot st ⟨true,backendFor st path,vfsFRead,0,path⟩ length).2.2 =
        some ((List.range bytes.length).map data) := by
    have usable : ¬(true = false ∨ length > vfsIoMax ∨ flagged vfsFRead vfsFRead = false) := by
      simp [flagged,vfsFRead,Nat.not_lt.mpr bound]
    have ram : backendRamfs ≠ backendDiskfs := by decide
    simp only [readSlot,if_neg usable,backend,fileSize,if_neg ram,size,held,Nat.sub_zero,Nat.min_eq_right enough,
      Nat.zero_add]
    split
    next empty => simp [Nat.le_zero.mp empty]
    · rfl
  constructor
  · intro all
    have whole := all bytes.length (Nat.le_refl _) short
    rw [slot (Nat.le_refl _) short,Option.some.injEq] at whole
    exact (map_range_eq.mp whole).2
  · intro same length enough bound
    rw [slot enough bound,map_range_eq.mpr ⟨rfl,same⟩]

/-- A path of the disk that no file of memory hides reads back its content through a
heap page. -/
theorem readsBack_disk (normal : pathNormalize src = some path) (short : bytes.length ≤ vfsIoMax)
    (hidden : ramfsData st.ram path = none) (present : diskfsExists st.disk path = true)
    (size : diskfsSize st.disk path = bytes.length)
    (content : diskfsRead st.disk path diskfsMaxFileSize = (st.disk,some bytes)) :
    ReadsBack st src bytes ↔ bytes = [] ∨ (kmalloc st.heap vfsIoMax).isSome := by
  have available : diskfsAvailable st.disk = true := by
    simp only [diskfsExists,Bool.and_eq_true] at present
    exact present.1
  have backend : backendFor st path = backendDiskfs := by simp [backendFor,hidden,available,present]
  have sized : fileSize st (backendFor st path) path = bytes.length := by simp [fileSize,backend,size]
  rw [readsBack_slot normal (by rw [backend]; decide)
    (by simp [vfsStatPath,normal,hidden,available,present,sized,size]),sized]
  simp only [true_and]
  have slot {length : Nat} (enough : bytes.length ≤ length) (bound : length ≤ vfsIoMax) :
      (readSlot st ⟨true,backendFor st path,vfsFRead,0,path⟩ length).2.2 = some bytes ↔
        bytes = [] ∨ (kmalloc st.heap vfsIoMax).isSome := by
    have usable : ¬(true = false ∨ length > vfsIoMax ∨ flagged vfsFRead vfsFRead = false) := by
      simp [flagged,vfsFRead,Nat.not_lt.mpr bound]
    rw [backend] at sized ⊢
    simp only [readSlot,if_neg usable,sized,if_pos]
    split
    next empty =>
      have none : bytes = [] := List.length_eq_zero_iff.mp (Nat.le_zero.mp empty)
      simp [none]
    next more =>
      have given : bytes ≠ [] := by
        rintro rfl
        exact more (Nat.le_refl _)
      cases allocated : kmalloc st.heap vfsIoMax with
      | none => simp [given]
      | some result =>
        have page : vfsIoMax = diskfsMaxFileSize := rfl
        simp only [page,content,Nat.sub_zero,Nat.min_eq_right enough,Nat.zero_add,given,Option.isSome_some,
          or_true,iff_true,Option.some.injEq]
        exact map_range_eq.mpr ⟨rfl,fun _ _ => rfl⟩
  constructor
  · exact fun all => (slot (Nat.le_refl _) short).mp (all bytes.length (Nat.le_refl _) short)
  · exact fun ready length enough bound => (slot enough bound).mpr ready

end ReadBack

theorem vfsOpen_writing {st st' : Store} {fds fds' : FdTable} {src : List Byte} {flags fd : Nat}
    (write : flagged flags vfsFWrite = true) (whole : flagged flags vfsFAppend = false)
    (opened : vfsOpen st fds src flags = (st',fds',some fd)) : Writing (fds' fd) src := by
  unfold vfsOpen at opened
  split at opened
  · cases opened
  next path normal =>
    have refused : ¬(backendFor st path = backendNone ∧ flagged flags vfsFWrite = false) := by simp [write]
    simp only [openSlot,if_neg refused] at opened
    generalize (if backendFor st path = backendNone then createFile st path
      else (st,backendFor st path)) = target at opened
    split at opened
    · cases opened
    split at opened
    · cases opened
    · cases opened
      exact ⟨by simp,by simpa using write,by simpa using whole,by simp [whole],by simpa using normal⟩

theorem writeSlot_accepted {st st' : Store} {f f' : ProcessFd} {src bytes : List Byte} {n : Nat}
    (writing : Writing f src) (accepted : writeSlot st f bytes = (st',f',some n)) :
    bytes.length ≤ vfsIoMax ∧ storeWhole st f.backend f.path bytes = (st',true) := by
  unfold writeSlot at accepted
  split at accepted
  · cases accepted
  next valid =>
    simp only [not_or,Nat.not_lt,gt_iff_lt] at valid
    rw [if_neg (by simp [writing.start]),if_neg (by simp [writing.whole])] at accepted
    split at accepted
    · cases accepted
    next stored =>
      cases accepted
      exact ⟨valid.2.1,stored⟩

theorem storeWhole_readable {st st' : Store} {f : ProcessFd} {src bytes : List Byte}
    (mounted : Mounted st.disk) (transfers : st.disk.disk.faults = [])
    (normal : pathNormalize src = some f.path) (short : bytes.length ≤ vfsIoMax)
    (stored : storeWhole st f.backend f.path bytes = (st',true)) :
    ReadsBack st' src bytes ↔ Readable st f bytes := by
  have clean := (pathNormalize_clean normal).1
  unfold storeWhole at stored
  unfold Readable
  split at stored
  next disk =>
    rw [if_pos disk]
    cases written : diskfsWrite st.disk f.path bytes with
    | mk disk' ok =>
      simp only [written,Prod.mk.injEq] at stored
      obtain ⟨rfl,rfl⟩ := stored
      obtain ⟨present,size,content⟩ := diskfsWrite_read mounted transfers clean.text written
      let after : Store := {st with disk := disk'}
      change ReadsBack after src bytes ↔ _
      cases held : ramfsData st.ram f.path with
      | some data =>
        have ram : ramfsData after.ram f.path = some data := held
        rw [readsBack_ram normal short ram]
        simp [after]
      | none =>
        have ram : ramfsData after.ram f.path = none := held
        rw [readsBack_disk normal short ram present size content]
        simp [after,RamHolds,held]
  next memory =>
    rw [if_neg memory]
    split at stored
    · cases stored
    next ram written =>
      cases stored
      obtain ⟨program,i,found,size,data⟩ := ramfsWrite_found clean.short written
      have held : ramfsData ram f.path = some (ram.files i).data := by simp [ramfsData,program,found]
      rw [readsBack_ram normal short held]
      simp only [RamHolds,held,Option.some.injEq,exists_eq_left',ramfsSize,program,found,size,
        List.length_take]
      constructor
      · rintro ⟨kept,_⟩
        omega
      · intro room
        refine ⟨by omega,?_⟩
        intro i bound
        exact data i (by rw [List.length_take]; omega)

/-- An accepted write reads back exactly when its back end can give it back. -/
theorem accepted_write_reads_back {st st' : Store} {src bytes : List Byte} {fd : Int}
    (mounted : Mounted st.disk) (transfers : st.disk.disk.faults = []) :
    (∀ fds fds', Writing (fds fd.toNat) src → vfsWrite st fds fd bytes = (st',fds',some bytes.length) →
      (ReadsBack st' src bytes ↔ Readable st (fds fd.toNat) bytes)) ∧
    (∀ p p', Writing (p.fds fd.toNat) src →
      vfsWriteForProcess st p fd bytes = (st',p',some bytes.length) →
      (ReadsBack st' src bytes ↔ Readable st (p.fds fd.toNat) bytes)) := by
  have table (fds fds' : FdTable) (writing : Writing (fds fd.toNat) src)
      (accepted : vfsWrite st fds fd bytes = (st',fds',some bytes.length)) :
      ReadsBack st' src bytes ↔ Readable st (fds fd.toNat) bytes := by
    unfold vfsWrite at accepted
    split at accepted
    · cases accepted
    · cases result : writeSlot st (fds fd.toNat) bytes with
      | mk st₁ rest =>
        obtain ⟨f,n⟩ := rest
        simp only [result,Prod.mk.injEq] at accepted
        obtain ⟨rfl,_,rfl⟩ := accepted
        obtain ⟨short,stored⟩ := writeSlot_accepted writing result
        exact storeWhole_readable mounted transfers writing.path short stored
  refine ⟨table,?_⟩
  intro p p' writing accepted
  cases result : vfsWrite st p.fds fd bytes with
  | mk st₁ rest =>
    obtain ⟨fds,n⟩ := rest
    simp only [vfsWriteForProcess,result,Prod.mk.injEq] at accepted
    obtain ⟨rfl,_,rfl⟩ := accepted
    exact table p.fds fds writing result

/-- A store without a disk and without files. -/
def bareStore : Store where
  ram := ⟨fun _ => [],fun _ => default,0⟩
  disk := (diskfsInit ⟨fun _ _ => 0,[]⟩ false).1
  heap := ⟨fun _ => default,⟨fun _ => 0,fun _ => 0,maxPages,maxPages - reservedPages⟩⟩

def noFds : FdTable := fun _ => default
def letter : List Byte := ascii ['a']

/-- The store after `open("a",VFS_F_WRITE)` and a write of `n` zero bytes, with the
result of the write. -/
def written (n : Nat) : Store × FdTable × Option Nat :=
  let opened := vfsOpen bareStore noFds letter vfsFWrite
  vfsWrite opened.1 opened.2.1 0 (List.replicate n 0)

theorem short_write_reads_back :
    (written 3).2.2 = some 3 ∧ ReadsBack (written 3).1 letter (List.replicate 3 0) := by
  have result : (written 3).2.2 = some 3 := by decide +kernel
  let opened := vfsOpen bareStore noFds letter vfsFWrite
  have isOpen : opened = (opened.1,opened.2.1,some 0) :=
    Prod.ext rfl (Prod.ext rfl (by decide +kernel : opened.2.2 = some 0))
  have writing : Writing (opened.2.1 (0 : Int).toNat) letter :=
    vfsOpen_writing (by decide) (by decide) isOpen
  have mounted : Mounted opened.1.disk := fun available =>
    absurd available (by decide +kernel : ¬opened.1.disk.available = true)
  have transfers : opened.1.disk.disk.faults = [] := by decide +kernel
  have readable : Readable opened.1 (opened.2.1 (0 : Int).toNat) (List.replicate 3 0) := by
    have backend : (opened.2.1 (0 : Int).toNat).backend = backendRamfs := by decide +kernel
    rw [Readable,if_neg (by rw [backend]; decide)]
    decide
  have accepted : written 3 = ((written 3).1,(written 3).2.1,some 3) := by rw [← result]
  have exactly := (@accepted_write_reads_back opened.1 (written 3).1 letter (List.replicate 3 0) 0
    mounted transfers).1 opened.2.1 (written 3).2.1 writing accepted
  exact ⟨result,exactly.mpr readable⟩

/-- The memory file system acknowledges 257 bytes and keeps 256. -/
theorem long_write_cut :
    (written 257).2.2 = some 257 ∧ ¬ReadsBack (written 257).1 letter (List.replicate 257 0) := by
  refine ⟨by decide +kernel,?_⟩
  rintro ⟨size,_⟩
  have cut : (vfsStatPath (written 257).1 letter).map VfsStat.size = some 256 := by decide +kernel
  rw [cut,List.length_replicate,Option.some.injEq] at size
  omega

end LionOS.Files
