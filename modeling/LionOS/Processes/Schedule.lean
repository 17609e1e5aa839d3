import LionOS.Processes.Lifecycle

/-! Threads, priorities and the scheduler. -/
namespace LionOS.Processes
open LionOS.Memory LionOS.Physical LionOS.Paging

def threadStackVaForSlot (slot : Slot) : Nat := threadStackBase - slot.val * threadStackStride - 0x1000

def processCreateKernelThread (s : System) (cpu entry : Nat) : Option (System × Slot) :=
  if entry = 0 then none
  else match findFreeSlot s with
    | none => none
    | some i => match pageAlloc s.vm.pages with
      | none => none
      | some (pages,ks) =>
        let top := ks + 4096
        let frame := {zeroFrame with eip := entry,cs := 0x08,eflags := 0x202,userEsp := top - 64,ss := 0x10}
        let p := {clearProcess (s.processes i) with
          pid := 0,tid := s.nextTid,threadGroupPid := 0,isThread := true,ownsAddressSpace := false
          state := .ready,cpuOwner := cpu,pageDirectory := pagingKernelDirectory s.vm
          kernelStackTop := top,savedFrame := some frame}
        some (setProcess {s with vm := {s.vm with pages},nextTid := nextTidAfter s.nextTid} i p,i)

/-- `process_create_user_thread`: `none` is a kernel panic, which the store of the
initial stack word through the caller's address space could raise. -/
def processCreateUserThread (s : System) (cpu entry : Nat) : Option (System × Nat) :=
  if entry = 0 then some (s,syscallErr)
  else match currentLocal s cpu with
    | none => some (s,syscallErr)
    | some c =>
      let parent := s.processes c
      if c = bootstrap then some (s,syscallErr)
      else match findFreeSlot s with
        | none => some (s,syscallErr)
        | some i => match pageAlloc s.vm.pages with
          | none => match pageAlloc s.vm.pages with
            | none => some (s,syscallErr)
            | some (pages,ks) => some ({s with vm := {s.vm with pages := pageFree pages ks}},syscallErr)
          | some (pages,kp) => match pageAlloc pages with
            | none => some ({s with vm := {s.vm with pages := pageFree pages kp}},syscallErr)
            | some (pages,ks) =>
              let va := threadStackVaForSlot i
              let vm := {s.vm with pages}
              match pagingMapUserPageIn vm parent.pageDirectory va kp (ptePresent ||| pteWritable) with
              | none =>
                some ({s with vm := {vm with pages := pageFree (pageFree pages kp) ks}},syscallErr)
              | some vm =>
                let vm := {vm with mem := Function.update vm.mem (kp / pageSize) zeroPage}
                let sp := va + 4096 - 4
                match storeUserBytes vm cpu sp (bytes32 0) with
                | none => none
                | some vm =>
                  let frame := {zeroFrame with
                    eip := entry,cs := userCodeSel,eflags := 0x202,userEsp := sp,ss := userDataSel}
                  let p := {clearProcess (s.processes i) with
                    pid := 0,tid := s.nextTid,threadGroupPid := parent.threadGroupPid,isThread := true
                    ownsAddressSpace := false,state := .ready,cpuOwner := cpu
                    pageDirectory := parent.pageDirectory,entry,userStack := sp
                    kernelStackTop := ks + 4096,threadStackPage := kp,threadStackVa := va
                    capabilities := parent.capabilities,priority := parent.priority
                    basePriority := parent.basePriority
                    timeSlice := quantumForPriority parent.priority,fpuValid := false
                    savedFrame := some frame}
                  some (setProcess {s with vm,nextTid := nextTidAfter s.nextTid} i p,s.nextTid)

def processExitThread (s : System) (cpu code : Nat) : System := processExitCurrent s cpu code

/-- The record of thread `tid` in the group of the caller. -/
def joinTarget (s : System) (groupPid tid : Nat) : Option Slot :=
  (List.finRange processMax).find? fun i =>
    let p := s.processes i
    decide (i ≠ bootstrap) && p.isThread && decide (p.threadGroupPid = groupPid) && decide (p.tid = tid)

def processJoinThread (s : System) (cpu tid statusPtr : Nat) : System × Int :=
  match currentLocal s cpu with
  | none => (s,-1)
  | some c =>
    let caller := s.processes c
    if caller.isThread ∨ tid = 0 ∨ statusPtr = 0 then (s,-1)
    else match joinTarget s caller.threadGroupPid tid with
      | none => (s,-1)
      | some i =>
        if (s.processes i).state = .zombie then
          match writeUserU32 s.vm caller.pageDirectory statusPtr (s.processes i).exitCode with
          | (vm,false) => ({s with vm},-1)
          | (vm,true) => (reapProcess {s with vm} i,toI32 tid)
        else
          (setProcess s c {caller with joinTid := tid,joinStatusPtr := statusPtr,state := .waiting},
            waitBlocked)

def processRequestReschedule (s : System) : System := {s with rescheduleRequested := true}

def processSetPriority (s : System) (i : Slot) (priority : Nat) : System × Int :=
  if priority ≥ priorityLevels then (s,-1)
  else (setProcess s i {s.processes i with
    priority,basePriority := priority,timeSlice := quantumForPriority priority,ticksUsed := 0},0)

def fpuSave (s : System) (cpu : Nat) (i : Slot) : System :=
  if s.fpuEnabled then
    setProcess s i {s.processes i with fpuState := s.fpuRegisters cpu,fpuValid := true}
  else s

def fpuRestore (s : System) (cpu : Nat) (i : Slot) : System :=
  if s.fpuEnabled then
    let image := if (s.processes i).fpuValid then (s.processes i).fpuState else s.fpuInitialState
    {s with fpuRegisters := Function.update s.fpuRegisters cpu image}
  else s

/-- The frame pointer that the scheduler hands back: the one it was called with or
the saved frame of a record. -/
inductive Resume where
  | own (frame : Frame)
  | saved (slot : Slot) (frame : Option Frame)
  deriving DecidableEq

/-- The READY task of `cpu` with the smallest priority number, the first one after
`start` in cyclic order. -/
def selectNext (s : System) (cpu start : Nat) : Option Slot :=
  (List.range priorityLevels).findSome? fun priority =>
    ((List.range processMax).map fun step => Fin.ofNat processMax (start + step + 1)).find? fun i =>
      let p := s.processes i
      decide (p.state = .ready) && decide (p.cpuOwner = cpu) && decide (p.priority = priority)

/-- The quantum of the running task: `none` where it keeps the CPU. -/
def chargeTick (s : System) (prev : Slot) : System × Bool :=
  let p := s.processes prev
  if p.state ≠ .running then (s,true)
  else if s.rescheduleRequested then
    (setProcess {s with rescheduleRequested := false} prev {p with ticksUsed := 0},true)
  else if wrap (p.ticksUsed + 1) < p.timeSlice then
    (setProcess s prev {p with ticksUsed := wrap (p.ticksUsed + 1)},false)
  else
    (setProcess s prev {p with
      ticksUsed := 0
      priority := if wrap (p.priority + 1) < priorityLevels then wrap (p.priority + 1) else p.priority},true)

def freeDeferred (s : System) (prev : Slot) : System :=
  let p := s.processes prev
  if p.deferredKernelStack = 0 then s
  else setProcess {s with vm := {s.vm with pages := pageFree s.vm.pages (p.deferredKernelStack - 4096)}}
    prev {p with deferredKernelStack := 0}

def enter (s : System) (cpu : Nat) (next : Slot) : System :=
  let s := setCurrentLocal s cpu (some next)
  let s := setProcess s next {s.processes next with cpuOwner := cpu,state := .running}
  let s := {s with vm := pagingSwitchAddressSpace s.vm cpu (s.processes next).pageDirectory}
  tssSetKernelStack s cpu (s.processes next).kernelStackTop

def reapPrev (s : System) : Option Slot → System
  | none => s
  | some prev => if (s.processes prev).reapPending then reapProcess s prev else s

def preempt (s : System) (cpu : Nat) : Option Slot → System
  | none => s
  | some prev =>
    if (s.processes prev).state = .running then
      fpuSave (setProcess s prev {s.processes prev with state := .ready}) cpu prev
    else s

/-- The part of `process_schedule` that runs once `prev` has to give up the CPU. -/
def switchFrom (s : System) (cpu : Nat) (prev : Option Slot) (frame : Frame) : System × Resume :=
  let start := match prev with
    | some i => i.val
    | none => (s.schedulerCpu cpu).cursor
  match selectNext s cpu start with
  | some next =>
    let sc := {s.schedulerCpu cpu with cursor := next.val}
    let s := {s with schedulerCpu := Function.update s.schedulerCpu cpu sc}
    let s := enter (fpuRestore (preempt s cpu prev) cpu next) cpu next
    let s := reapPrev s prev
    (s,.saved next (s.processes next).savedFrame)
  | none => match prev with
    | some i =>
      let state := (s.processes i).state
      if state = .zombie ∨ state = .stopped ∨ state = .waiting then
        if cpu = 0 then
          let s := reapPrev (enter s cpu bootstrap) prev
          (s,.saved bootstrap (s.processes bootstrap).savedFrame)
        else (reapPrev (setCurrentLocal s cpu none) prev,.own frame)
      else (s,.own frame)
    | none => if cpu = 0 then (enter s cpu bootstrap,.own frame) else (s,.own frame)

def countSchedule (s : System) (cpu : Nat) : System :=
  let sc := {s.schedulerCpu cpu with scheduleCount := wrap ((s.schedulerCpu cpu).scheduleCount + 1)}
  {s with schedulerCpu := Function.update s.schedulerCpu cpu sc}

def saveFrame (s : System) (prev : Slot) (frame : Frame) : System :=
  setProcess s prev {s.processes prev with savedFrame := some frame}

/-- `process_schedule` on a CPU index below `LIONOS_MAX_CPUS`. `acquired` says
whether `spinlock_try_acquire` got `process_lock`. -/
def processSchedule (s : System) (cpu : Nat) (acquired : Bool) (frame : Frame) : System × Resume :=
  if !acquired then (s,.own frame)
  else
    let s := countSchedule s cpu
    match currentLocal s cpu with
    | none => switchFrom s cpu none frame
    | some prev => match chargeTick (saveFrame s prev frame) prev with
      | (s,false) => (s,.own frame)
      | (s,true) => switchFrom (freeDeferred s prev) cpu (some prev) frame

/-- `process_init` over the memory that `paging_init` left; the two addresses are
those of `lionos_kernel_idle` and `process_schedule`. -/
def processInit (s : System) (cpu idle schedule : Nat) : System :=
  let s := {s with
    processes := fun i => clearProcess (s.processes i)
    currentByCpu := fun _ => none
    schedulerCpu := fun _ => ⟨0,0,0⟩
    nextPid := 2,nextTid := 1}
  let b := {s.processes bootstrap with pid := 1,state := .running}
  let s := match pageAlloc s.vm.pages with
    | none => setProcess s bootstrap {b with kernelStackTop := 0,savedFrame := none}
    | some (pages,stack) =>
      let top := stack + 4096
      let frame := {zeroFrame with
        gs := 0x10,fs := 0x10,es := 0x10,ds := 0x10,eip := idle,cs := 0x08,eflags := 0x202
        userEsp := top,ss := 0x10}
      setProcess {s with vm := {s.vm with pages}} bootstrap {b with
        kernelStackTop := top,pageDirectory := pagingKernelDirectory s.vm,entry := schedule
        userStack := top,savedFrame := some frame}
  setCurrentLocal s cpu (some bootstrap)

end LionOS.Processes
