import LionOS.Calls.Listing
import LionOS.Files.Visible

/-! The system calls on files, as the wrappers of the user library make them. The strings and the
buffers are those of the program, so the checks of the memory ranges pass. -/
namespace LionOS.Programs
open LionOS.Calls LionOS.Files LionOS.Memory LionOS.Physical LionOS.Processes

/-- `LIONOS_SYS_OPEN` with the characters of a string; `none` is a negative result. -/
def lionOpen (st : Store) (p : Process) (path : List Byte) (flags : Nat) : Store × Process × Option Nat :=
  if processHasCapability p capFs = false ∨ path.length ≥ vfsPathMax - 1 then (st,p,none)
  else vfsOpenForProcess st p path flags

def lionClose (p : Process) (fd : Int) : Process :=
  if processHasCapability p capFs = false then p else (vfsCloseForProcess p fd).1

/-- `LIONOS_SYS_FREAD`: the bytes that are stored to the buffer. -/
def lionFread (st : Store) (p : Process) (fd : Int) (length : Nat) : Store × Process × Option (List Byte) :=
  if processHasCapability p capFs = false ∨ length > userCopyMax then (st,p,none)
  else vfsReadForProcess st p fd length

def lionFwrite (st : Store) (p : Process) (fd : Int) (bytes : List Byte) : Store × Process × Option Nat :=
  if processHasCapability p capFs = false ∨ bytes.length > userCopyMax then (st,p,none)
  else vfsWriteForProcess st p fd bytes

def lionRemove (st : Store) (p : Process) (path : List Byte) : Store × Bool :=
  if processHasCapability p capFs = false ∨ path.length ≥ vfsPathMax - 1 then (st,false)
  else vfsRemove st path

/-- The process with a new value in a descriptor. -/
def withFd (p : Process) (fd : Nat) (f : ProcessFd) : Process := {p with fds := Function.update p.fds fd f}

section Slots
variable {st : Store} {p : Process} {path src bytes : List Byte} {fd n : Nat}

@[simp] theorem withFd_own (p : Process) (fd : Nat) (f : ProcessFd) : (withFd p fd f).fds fd = f := Function.update_self ..

theorem withFd_other (p : Process) (f : ProcessFd) {fd other : Nat} (apart : other ≠ fd) :
    (withFd p fd f).fds other = p.fds other := Function.update_of_ne apart ..

@[simp] theorem withFd_capable (p : Process) (fd : Nat) (f : ProcessFd) :
    processHasCapability (withFd p fd f) capFs = processHasCapability p capFs := rfl

theorem lionClose_capable (p : Process) (fd : Int) :
    processHasCapability (lionClose p fd) capFs = processHasCapability p capFs := by
  unfold lionClose
  split
  · rfl
  · rfl

theorem lionFread_slot (capable : processHasCapability p capFs = true) (bound : fd < vfsFdMax) (legal : n ≤ userCopyMax) :
    lionFread st p fd n =
      ((readSlot st (p.fds fd) n).1,withFd p fd (readSlot st (p.fds fd) n).2.1,(readSlot st (p.fds fd) n).2.2) := by
  unfold lionFread vfsReadForProcess
  rw [if_neg (not_or.mpr ⟨by rw [capable]; decide,Nat.not_lt.mpr legal⟩),vfsRead_slot bound]
  rfl

theorem lionFwrite_slot (capable : processHasCapability p capFs = true) (bound : fd < vfsFdMax)
    (legal : bytes.length ≤ userCopyMax) : lionFwrite st p fd bytes =
      ((writeSlot st (p.fds fd) bytes).1,withFd p fd (writeSlot st (p.fds fd) bytes).2.1,
        (writeSlot st (p.fds fd) bytes).2.2) := by
  unfold lionFwrite vfsWriteForProcess
  rw [if_neg (not_or.mpr ⟨by rw [capable]; decide,Nat.not_lt.mpr legal⟩),vfsWrite_slot bound]
  rfl

theorem lionOpen_read (capable : processHasCapability p capFs = true) (short : src.length < vfsPathMax - 1)
    (free : freeFd p.fds = some fd) (normal : pathNormalize src = some path) (found : backendFor st path ≠ backendNone) :
    lionOpen st p src vfsFRead = (st,withFd p fd ⟨true,backendFor st path,vfsFRead,0,path⟩,some fd) := by
  unfold lionOpen vfsOpenForProcess vfsOpen
  rw [if_neg (not_or.mpr ⟨by rw [capable]; decide,Nat.not_le_of_lt short⟩),normal]
  dsimp only
  rw [openSlot_read found free]
  rfl

end Slots

section Dispatch
variable {k : Kernel} {cpu ptr : Nat} {c : Slot} {path : List Byte}

/-- The open of the kernel is the one of the wrapper, for a string in the memory of the caller. -/
theorem sysOpen_lion (text : 0 ∉ path) (held : HoldsPath k.sys.vm cpu ptr path) (current : currentLocal k.sys cpu = some c)
    (capable : processHasCapability (k.sys.processes c) capFs = true) (flags : Nat) : sysOpen k cpu ptr flags =
      some ({k.withStore (lionOpen k.store (k.sys.processes c) path flags).1 with
        sys := setProcess (k.withStore (lionOpen k.store (k.sys.processes c) path flags).1).sys c
          (lionOpen k.store (k.sys.processes c) path flags).2.1},
        fileResult (lionOpen k.store (k.sys.processes c) path flags).2.2) := by
  have copied := @copyUserString_path _ cpu ptr path text held vfsPathMax (by decide)
  unfold sysOpen lionOpen
  rw [copied,current,capable]
  by_cases short : path.length < vfsPathMax - 1
  · rw [if_pos short,if_neg (not_or.mpr ⟨nofun,Nat.not_le_of_lt short⟩)]
  · rw [if_neg short,if_pos (.inr (Nat.le_of_not_lt short))]
    dsimp only
    rw [show (k.withStore k.store).sys = k.sys from rfl,setProcess,Function.update_eq_self]
    rfl

theorem sysRemove_lion (text : 0 ∉ path) (held : HoldsPath k.sys.vm cpu ptr path)
    (capable : processHasCapability (k.sys.processes c) capFs = true) : sysRemove k cpu ptr =
      some (k.withStore (lionRemove k.store (k.sys.processes c) path).1,
        if (lionRemove k.store (k.sys.processes c) path).2 then 0 else syscallErr) := by
  have copied := @copyUserString_path _ cpu ptr path text held vfsPathMax (by decide)
  unfold sysRemove lionRemove
  rw [copied,capable]
  by_cases short : path.length < vfsPathMax - 1
  · rw [if_pos short,if_neg (not_or.mpr ⟨nofun,Nat.not_le_of_lt short⟩)]
  · rw [if_neg short,if_pos (.inr (Nat.le_of_not_lt short))]
    rfl

end Dispatch
end LionOS.Programs
