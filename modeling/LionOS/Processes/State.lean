import LionOS.Paging

/-! The process table and the scheduler state of `process.c`. -/
namespace LionOS.Processes
open LionOS.Memory LionOS.Physical LionOS.Paging

abbrev processMax : Nat := 16
instance : NeZero processMax := ⟨Nat.succ_ne_zero _⟩
def maxUserPages : Nat := 128
def processFdMax : Nat := 32
def maxCpus : Nat := 16
def priorityLevels : Nat := 4
def priorityDefault : Nat := 2
def threadStackBase : Nat := 0xBFFE0000
def threadStackStride : Nat := 0x2000
def userCodeSel : Nat := 0x2B
def userDataSel : Nat := 0x33

def capConsole : BitVec 32 := 0x1
def capFs : BitVec 32 := 0x2
def capProcess : BitVec 32 := 0x4
def capIpc : BitVec 32 := 0x8
def capNet : BitVec 32 := 0x10
def capAdmin : BitVec 32 := 0x80000000
def capUserDefault : BitVec 32 := 0x1F

/-- 32-bit wrapping of counters and of signed results. -/
def wrap (n : Nat) : Nat := n % 2^32

def toU32 (value : Int) : Nat := (value % 2^32).toNat

/-- The 32-bit word `n` as a signed number. -/
def toI32 (n : Nat) : Int := if wrap n < 2^31 then (wrap n : Int) else (wrap n : Int) - 2^32

def waitBlocked : Int := -2
def syscallErr : Nat := 0xFFFFFFFF

abbrev Slot := Fin processMax

inductive State where
  | unused | ready | running | zombie | waiting | stopped
  deriving DecidableEq, Repr, Inhabited

def State.code : State → Nat
  | .unused => 0
  | .ready => 1
  | .running => 2
  | .zombie => 3
  | .waiting => 4
  | .stopped => 5

/-- The nineteen words that `isr_common` leaves on the kernel stack, `frame[0]` to
`frame[18]`. -/
structure Frame where
  gs : Nat
  fs : Nat
  es : Nat
  ds : Nat
  edi : Nat
  esi : Nat
  ebp : Nat
  esp : Nat
  ebx : Nat
  edx : Nat
  ecx : Nat
  eax : Nat
  vector : Nat
  error : Nat
  eip : Nat
  cs : Nat
  eflags : Nat
  userEsp : Nat
  ss : Nat
  deriving DecidableEq, Inhabited

def zeroFrame : Frame := ⟨0,0,0,0,0,0,0,0,0,0,0,0,0,0,0,0,0,0,0⟩

structure ProcessFd where
  used : Bool
  backend : Nat
  flags : Nat
  offset : Nat
  path : List Byte
  deriving Inhabited

abbrev FpuImage := BitVec 4096

structure Process where
  pid : Nat
  state : State
  parentPid : Nat
  exitCode : Nat
  waitPid : Nat
  waitStatusPtr : Nat
  waitChannel : Nat
  reapPending : Bool
  deferredKernelStack : Nat
  pageDirectory : Nat
  entry : Nat
  userStack : Nat
  kernelStackTop : Nat
  savedFrame : Option Frame
  userCodePage : Nat
  userStackPage : Nat
  userPages : Nat → Nat
  userPageVas : Nat → Nat
  userPageCount : Nat
  pendingSignals : BitVec 32
  capabilities : BitVec 32
  cpuOwner : Nat
  priority : Nat
  basePriority : Nat
  timeSlice : Nat
  ticksUsed : Nat
  fpuState : FpuImage
  fpuValid : Bool
  tid : Nat
  threadGroupPid : Nat
  isThread : Bool
  ownsAddressSpace : Bool
  threadStackPage : Nat
  threadStackVa : Nat
  joinTid : Nat
  joinStatusPtr : Nat
  fds : Nat → ProcessFd
  deriving Inhabited

structure SchedulerCpu where
  cursor : Nat
  scheduleCount : Nat
  stealCount : Nat

/-- The state of `process.c` with the memory it manages, the FPU registers and the
ring-0 stack of every CPU. -/
structure System where
  vm : Vm
  processes : Slot → Process
  currentByCpu : Nat → Option Slot
  schedulerCpu : Nat → SchedulerCpu
  nextPid : Nat
  nextTid : Nat
  rescheduleRequested : Bool
  fpuEnabled : Bool
  fpuInitialState : FpuImage
  fpuRegisters : Nat → FpuImage
  esp0 : Nat → Nat

def bootstrap : Slot := 0

def setProcess (s : System) (i : Slot) (p : Process) : System :=
  {s with processes := Function.update s.processes i p}

def currentLocal (s : System) (cpu : Nat) : Option Slot :=
  if cpu < maxCpus then s.currentByCpu cpu else none

def setCurrentLocal (s : System) (cpu : Nat) (i : Option Slot) : System :=
  if cpu < maxCpus then {s with currentByCpu := Function.update s.currentByCpu cpu i} else s

def tssSetKernelStack (s : System) (cpu top : Nat) : System :=
  if cpu < maxCpus ∧ top ≠ 0 then {s with esp0 := Function.update s.esp0 cpu top} else s

def findFreeSlot (s : System) : Option Slot :=
  (List.finRange processMax).find? fun i => decide ((s.processes i).state = .unused)

def findPid (s : System) (pid : Nat) : Option Slot :=
  (List.finRange processMax).find? fun i =>
    decide ((s.processes i).state ≠ .unused) && decide ((s.processes i).pid = pid)

def quantumForPriority (priority : Nat) : Nat :=
  [2,4,8,12].getD (if priority < priorityLevels then priority else priorityLevels - 1) 0

def nextPidAfter (n : Nat) : Nat := if wrap (n+1) = 0 then 2 else wrap (n+1)
def nextTidAfter (n : Nat) : Nat := if wrap (n+1) = 0 then 1 else wrap (n+1)

def emptyFd (fd : ProcessFd) : ProcessFd := {fd with used := false,backend := 0,flags := 0,offset := 0,path := []}

/-- `clear_process` leaves the capabilities and the saved FPU image as they were. -/
def clearProcess (p : Process) : Process :=
  {p with
    pid := 0,state := .unused,parentPid := 0,exitCode := 0,waitPid := 0,waitStatusPtr := 0
    waitChannel := 0,reapPending := false,deferredKernelStack := 0,pageDirectory := 0,entry := 0
    userStack := 0,kernelStackTop := 0,savedFrame := none,userCodePage := 0,userStackPage := 0
    userPageCount := 0,pendingSignals := 0,cpuOwner := 0,priority := priorityDefault
    basePriority := priorityDefault,timeSlice := 0,ticksUsed := 0,fpuValid := false,tid := 0
    threadGroupPid := 0,isThread := false,ownsAddressSpace := false,threadStackPage := 0
    threadStackVa := 0,joinTid := 0,joinStatusPtr := 0,userPages := fun _ => 0
    userPageVas := fun _ => 0,fds := fun i => emptyFd (p.fds i)}

def initInterruptFrame (p : Process) : Process :=
  {p with savedFrame := some {zeroFrame with
    gs := userDataSel,fs := userDataSel,es := userDataSel,ds := userDataSel
    eip := p.entry,cs := userCodeSel,eflags := 0x202,userEsp := p.userStack,ss := userDataSel}}

end LionOS.Processes
