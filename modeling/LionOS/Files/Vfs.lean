import LionOS.Heap
import LionOS.Files.DiskFs
import LionOS.Library.Run
import LionOS.Processes.State

/-! The virtual file system over the two back ends: descriptors, opening, reading,
writing and the queries by path. -/
namespace LionOS.Files
open LionOS.Memory LionOS.Physical LionOS.Processes

def vfsIoMax : Nat := 4096
def vfsFdMax : Nat := 32
def backendNone : Nat := 0
def backendRamfs : Nat := 1
def backendDiskfs : Nat := 2
def vfsFRead : Nat := 1
def vfsFWrite : Nat := 2
def vfsFAppend : Nat := 4

def flagged (flags flag : Nat) : Bool := flags &&& flag != 0

structure Store where
  ram : RamFs
  disk : DiskFs
  heap : Heap

abbrev FdTable := Nat → ProcessFd

def backendFor (st : Store) (path : List Byte) : Nat :=
  if (ramfsData st.ram path).isSome then backendRamfs
  else if diskfsAvailable st.disk && diskfsExists st.disk path then backendDiskfs
  else backendNone

def fileSize (st : Store) (backend : Nat) (path : List Byte) : Nat :=
  if backend = backendDiskfs then diskfsSize st.disk path else ramfsSize st.ram path

/-- The empty file that opening for writing creates, on the disk where that works. -/
def createFile (st : Store) (path : List Byte) : Store × Nat :=
  let (disk,stored) := if diskfsAvailable st.disk then diskfsWrite st.disk path [] else (st.disk,false)
  let st := {st with disk}
  if stored then (st,backendDiskfs)
  else match ramfsWrite st.ram path [] with
    | some ram => ({st with ram},backendRamfs)
    | none => (st,backendNone)

def freeFd (fds : FdTable) : Option Nat := (List.range vfsFdMax).find? fun i => !(fds i).used

/-- `open_slot`; the descriptor is `none` for `VFS_FD_INVALID`. -/
def openSlot (st : Store) (fds : FdTable) (path : List Byte) (flags : Nat) : Store × FdTable × Option Nat :=
  let found := backendFor st path
  if found = backendNone ∧ flagged flags vfsFWrite = false then (st,fds,none)
  else
    let (st,backend) := if found = backendNone then createFile st path else (st,found)
    if backend = backendNone then (st,fds,none)
    else match freeFd fds with
      | none => (st,fds,none)
      | some i =>
        let offset := if flagged flags vfsFAppend then fileSize st backend path else 0
        (st,Function.update fds i ⟨true,backend,flags,offset,path⟩,some i)

/-- `read_slot`: the bytes stored to the buffer, `none` for -1. -/
def readSlot (st : Store) (f : ProcessFd) (length : Nat) : Store × ProcessFd × Option (List Byte) :=
  if f.used = false ∨ length > vfsIoMax ∨ flagged f.flags vfsFRead = false then (st,f,none)
  else
    let size := fileSize st f.backend f.path
    if f.offset ≥ size then (st,f,some [])
    else
      let wanted := min length (size - f.offset)
      let f' := {f with offset := f.offset + wanted}
      if f.backend = backendDiskfs then
        match kmalloc st.heap vfsIoMax with
        | none => (st,f,none)
        | some (heap,temp) => match diskfsRead st.disk f.path vfsIoMax with
          | (disk,none) => ({st with disk,heap := kfree heap temp},f,none)
          | (disk,some bytes) =>
            ({st with disk,heap := kfree heap temp},f',
              some ((List.range wanted).map fun i => bytes.getD (f.offset + i) 0))
      else match ramfsData st.ram f.path with
        | none => (st,f,none)
        | some data => (st,f',some ((List.range wanted).map fun i => data (f.offset + i)))

/-- The write of a whole file in a back end. -/
def storeWhole (st : Store) (backend : Nat) (path bytes : List Byte) : Store × Bool :=
  if backend = backendDiskfs then
    let (disk,stored) := diskfsWrite st.disk path bytes
    ({st with disk},stored)
  else match ramfsWrite st.ram path bytes with
    | none => (st,false)
    | some ram => ({st with ram},true)

/-- The old content that an append copies: `none` where `diskfs_read` fails. -/
def oldContent (st : Store) (f : ProcessFd) (oldSize maxSize : Nat) : Store × Option (List Byte) :=
  if f.backend = backendDiskfs then
    let (disk,bytes) := diskfsRead st.disk f.path maxSize
    ({st with disk},bytes)
  else match ramfsData st.ram f.path with
    | none => (st,some [])
    | some data => (st,some ((List.range oldSize).map data))

def appendSlot (st : Store) (f : ProcessFd) (bytes : List Byte) : Store × ProcessFd × Option Nat :=
  let oldSize := fileSize st f.backend f.path
  let maxSize := if f.backend = backendDiskfs then diskfsMaxFileSize else 256
  if oldSize > maxSize ∨ bytes.length > maxSize - oldSize then (st,f,none)
  else match kmalloc st.heap maxSize with
    | none => (st,f,none)
    | some (heap,temp) => match oldContent {st with heap} f oldSize maxSize with
      | (st,none) => ({st with heap := kfree st.heap temp},f,none)
      | (st,some old) =>
        let (st,stored) := storeWhole st f.backend f.path (old ++ bytes)
        let st := {st with heap := kfree st.heap temp}
        if stored then (st,{f with offset := oldSize + bytes.length},some bytes.length) else (st,f,none)

/-- `write_slot`: the number of bytes accepted, `none` for -1. -/
def writeSlot (st : Store) (f : ProcessFd) (bytes : List Byte) : Store × ProcessFd × Option Nat :=
  if f.used = false ∨ bytes.length > vfsIoMax ∨ flagged f.flags vfsFWrite = false then (st,f,none)
  else if f.offset ≠ 0 ∧ flagged f.flags vfsFAppend = false then (st,f,none)
  else if flagged f.flags vfsFAppend then appendSlot st f bytes
  else match storeWhole st f.backend f.path bytes with
    | (st,false) => (st,f,none)
    | (st,true) => (st,{f with offset := f.offset + bytes.length},some bytes.length)

def vfsOpen (st : Store) (fds : FdTable) (path : List Byte) (flags : Nat) : Store × FdTable × Option Nat :=
  match pathNormalize path with
  | none => (st,fds,none)
  | some clean => openSlot st fds clean flags

def vfsClose (fds : FdTable) (fd : Int) : FdTable × Bool :=
  if fd < 0 ∨ fd ≥ vfsFdMax then (fds,false)
  else (Function.update fds fd.toNat {fds fd.toNat with used := false},(fds fd.toNat).used)

def vfsRead (st : Store) (fds : FdTable) (fd : Int) (length : Nat) : Store × FdTable × Option (List Byte) :=
  if fd < 0 ∨ fd ≥ vfsFdMax then (st,fds,none)
  else
    let (st,f,result) := readSlot st (fds fd.toNat) length
    (st,Function.update fds fd.toNat f,result)

def vfsWrite (st : Store) (fds : FdTable) (fd : Int) (bytes : List Byte) : Store × FdTable × Option Nat :=
  if fd < 0 ∨ fd ≥ vfsFdMax then (st,fds,none)
  else
    let (st,f,result) := writeSlot st (fds fd.toNat) bytes
    (st,Function.update fds fd.toNat f,result)

/-! The calls for a process do the same on the descriptors of its record. -/

def vfsOpenForProcess (st : Store) (p : Process) (path : List Byte) (flags : Nat) :
    Store × Process × Option Nat :=
  let (st,fds,fd) := vfsOpen st p.fds path flags
  (st,{p with fds},fd)

def vfsCloseForProcess (p : Process) (fd : Int) : Process × Bool :=
  let (fds,closed) := vfsClose p.fds fd
  ({p with fds},closed)

def vfsReadForProcess (st : Store) (p : Process) (fd : Int) (length : Nat) :
    Store × Process × Option (List Byte) :=
  let (st,fds,result) := vfsRead st p.fds fd length
  (st,{p with fds},result)

def vfsWriteForProcess (st : Store) (p : Process) (fd : Int) (bytes : List Byte) :
    Store × Process × Option Nat :=
  let (st,fds,result) := vfsWrite st p.fds fd bytes
  (st,{p with fds},result)

def vfsRemove (st : Store) (path : List Byte) : Store × Bool :=
  match pathNormalize path with
  | none => (st,false)
  | some clean =>
    if (ramfsData st.ram clean).isSome then
      match ramfsRemove st.ram clean with
      | none => (st,false)
      | some ram => ({st with ram},true)
    else if diskfsAvailable st.disk && diskfsExists st.disk clean then
      let (disk,removed) := diskfsRemove st.disk clean
      ({st with disk},removed)
    else (st,false)

structure VfsStat where
  size : Nat
  backend : Nat
  flags : Nat
  deriving DecidableEq

def vfsStatPath (st : Store) (path : List Byte) : Option VfsStat :=
  match pathNormalize path with
  | none => none
  | some clean =>
    if (ramfsData st.ram clean).isSome then some ⟨ramfsSize st.ram clean,backendRamfs,0⟩
    else if diskfsAvailable st.disk && diskfsExists st.disk clean then
      some ⟨diskfsSize st.disk clean,backendDiskfs,0⟩
    else none

def vfsName (st : Store) (index : Nat) : Option (List Byte) :=
  if index < ramfsCount st.ram then ramfsName st.ram index
  else diskfsName st.disk (index - ramfsCount st.ram)

inductive FileCall
  | opened (path : List Byte) (flags : Nat)
  | closed (fd : Int)
  | read (fd : Int) (length : Nat)
  | wrote (fd : Int) (bytes : List Byte)
  | removed (path : List Byte)

def fileStep (s : Store × FdTable) : FileCall → Store × FdTable
  | .opened path flags => let (st,fds,_) := vfsOpen s.1 s.2 path flags; (st,fds)
  | .closed fd => (s.1,(vfsClose s.2 fd).1)
  | .read fd length => let (st,fds,_) := vfsRead s.1 s.2 fd length; (st,fds)
  | .wrote fd bytes => let (st,fds,_) := vfsWrite s.1 s.2 fd bytes; (st,fds)
  | .removed path => ((vfsRemove s.1 path).1,s.2)

section Invariant
variable {st : Store}

theorem createFile_mounted (mounted : Mounted st.disk) (path : List Byte) :
    Mounted (createFile st path).1.disk := by
  unfold createFile
  cases available : diskfsAvailable st.disk with
  | false =>
    simp only [Bool.false_eq_true,if_false]
    split <;> exact mounted
  | true =>
    simp only [if_true]
    have disk : Mounted (diskfsWrite st.disk path []).1 := diskfsWrite_mounted mounted rfl
    split
    · exact disk
    · split <;> exact disk

theorem openSlot_mounted (mounted : Mounted st.disk) (fds : FdTable) (path : List Byte) (flags : Nat) :
    Mounted (openSlot st fds path flags).1.disk := by
  unfold openSlot
  dsimp only
  split
  · exact mounted
  · have target : Mounted (if backendFor st path = backendNone then createFile st path
        else (st,backendFor st path)).1.disk := by
      split
      · exact createFile_mounted mounted path
      · exact mounted
    generalize (if backendFor st path = backendNone then createFile st path
      else (st,backendFor st path)) = chosen at target ⊢
    split
    · exact target
    · split <;> exact target

theorem readSlot_mounted (mounted : Mounted st.disk) (f : ProcessFd) (length : Nat) :
    Mounted (readSlot st f length).1.disk := by
  unfold readSlot
  split
  · exact mounted
  dsimp only
  split
  · exact mounted
  split
  · split
    · exact mounted
    · split
      next read => exact diskfsRead_mounted mounted read
      next read => exact diskfsRead_mounted mounted read
  · split <;> exact mounted

theorem storeWhole_mounted (mounted : Mounted st.disk) (backend : Nat) (path bytes : List Byte) :
    Mounted (storeWhole st backend path bytes).1.disk := by
  unfold storeWhole
  split
  · exact diskfsWrite_mounted mounted rfl
  · split <;> exact mounted

theorem appendSlot_mounted (mounted : Mounted st.disk) (f : ProcessFd) (bytes : List Byte) :
    Mounted (appendSlot st f bytes).1.disk := by
  have content (st : Store) (mounted : Mounted st.disk) (oldSize maxSize : Nat) :
      Mounted (oldContent st f oldSize maxSize).1.disk := by
    unfold oldContent
    split
    · exact diskfsRead_mounted mounted rfl
    · split <;> exact mounted
  unfold appendSlot
  dsimp only
  generalize (if f.backend = backendDiskfs then diskfsMaxFileSize else 256) = maxSize
  split
  · exact mounted
  split
  · exact mounted
  next heap temp _ =>
    have copied := content {st with heap} mounted (fileSize st f.backend f.path) maxSize
    split
    next failed =>
      rw [failed] at copied
      exact copied
    next st₁ old read =>
      rw [read] at copied
      have stored := storeWhole_mounted copied f.backend f.path (old ++ bytes)
      split <;> exact stored

theorem writeSlot_mounted (mounted : Mounted st.disk) (f : ProcessFd) (bytes : List Byte) :
    Mounted (writeSlot st f bytes).1.disk := by
  unfold writeSlot
  split
  · exact mounted
  split
  · exact mounted
  split
  · exact appendSlot_mounted mounted f bytes
  · have stored := storeWhole_mounted mounted f.backend f.path bytes
    split
    next written =>
      rw [written] at stored
      exact stored
    next written =>
      rw [written] at stored
      exact stored

theorem fileStep_mounted (s : Store × FdTable) (c : FileCall) (mounted : Mounted s.1.disk) :
    Mounted (fileStep s c).1.disk := by
  cases c with
  | opened path flags =>
    simp only [fileStep,vfsOpen]
    split
    · exact mounted
    · exact openSlot_mounted mounted _ _ _
  | closed fd => exact mounted
  | read fd length =>
    simp only [fileStep,vfsRead]
    split
    · exact mounted
    · exact readSlot_mounted mounted _ _
  | wrote fd bytes =>
    simp only [fileStep,vfsWrite]
    split
    · exact mounted
    · exact writeSlot_mounted mounted _ _
  | removed path =>
    simp only [fileStep,vfsRemove]
    split
    · exact mounted
    split
    · split <;> exact mounted
    split
    · exact diskfsRemove_mounted mounted rfl
    · exact mounted

/-- The table of the disk stays in order in every run, whatever transfers fail. -/
theorem run_mounted (s : Store × FdTable) (calls : List FileCall) (mounted : Mounted s.1.disk) :
    Mounted (Library.run fileStep s calls).1.disk :=
  Library.run_invariant (fun s c => fileStep_mounted s c) mounted

end Invariant

end LionOS.Files
