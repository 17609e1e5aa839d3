import LionOS.Calls.Dispatch
import LionOS.Library.Run

/-! Interrupts, and the machine that the boot CPU is between them: programs store to
their memory, interrupts are dispatched, and the kernel of the idle task starts
programs and reaps them. -/
namespace LionOS.Calls
open LionOS.Memory LionOS.Physical LionOS.Paging LionOS.Processes LionOS.Channels LionOS.Files LionOS.Exec

/-- What the hardware and the other CPUs contribute to an interrupt: whether the
scheduler gets `process_lock`, the address of a page fault and the input that the
handlers of keyboard and mouse find. -/
structure Env where
  acquired : Bool
  cr2 : Nat
  keys : List Byte
  events : List MouseEvent

def scheduleTick (s : System) (cpu : Nat) (acquired : Bool) (frame : Frame) : System × Resume :=
  let (s,next) := processSchedule s cpu acquired frame
  let s := match currentLocal s cpu with
    | none => s
    | some c => tssSetKernelStack s cpu (s.processes c).kernelStackTop
  match next with
  | .saved _ none => (s,.own frame)
  | next => (s,next)

abbrev Dispatched := Option (Kernel × Resume)

def Kernel.tick (k : Kernel) (cpu : Nat) (acquired : Bool) (frame : Frame) : Dispatched :=
  let (sys,next) := scheduleTick k.sys cpu acquired frame
  some ({k with sys},next)

def Kernel.reschedule (k : Kernel) (cpu : Nat) (acquired : Bool) (frame : Frame) : Dispatched :=
  Kernel.tick {k with sys := processRequestReschedule k.sys} cpu acquired frame

def poll (k : Kernel) (env : Env) : Kernel :=
  let keyboard := env.keys.foldl pushChar k.keyboard
  env.events.foldl (fun k event =>
    let (sys,mouse) := mouseEventPush k.sys k.mouse event
    {k with sys,mouse}) {k with keyboard}

def sysYieldNumber : Nat := 3
def sysExitNumber : Nat := 4
def sysExecNumber : Nat := 11
def sysForkNumber : Nat := 12
def sysMouseReadNumber : Nat := 33
def sysThreadExitNumber : Nat := 38
def sysPipeReadNumber : Nat := 40
def sysPipeWriteNumber : Nat := 41
def sysIpcRecvBlockingNumber : Nat := 43

/-- The calls for which the blocked trap is executed again. -/
def restartable (number : Nat) : Bool :=
  decide (number ∈ [sysMouseReadNumber,sysIpcRecvBlockingNumber,sysPipeReadNumber,sysPipeWriteNumber])

def userMode (frame : Frame) : Bool := decide (frame.cs % 4 = 3)

def syscallTrap (k : Kernel) (cpu : Nat) (env : Env) (frame : Frame) : Dispatched :=
  let number := frame.eax
  if number = sysForkNumber then
    let (sys,pid) := processForkCurrent k.sys cpu frame
    some ({k with sys},.own {frame with eax := pid})
  else match syscallDispatch k cpu number frame.ebx frame.ecx frame.edx frame.esi frame.edi with
    | none => none
    | some (k,value) =>
      let frame := {frame with eax := value}
      if number = sysExecNumber ∧ value ≠ syscallErr then
        match currentLocal k.sys cpu with
        | none => some (k,.own frame)
        | some c => match (k.sys.processes c).savedFrame with
          | none => some (k,.own frame)
          | some fresh => some (k,.saved c (some fresh))
      else if value = toU32 waitBlocked then
        let frame := if restartable number && decide (frame.eip ≥ 2) then {frame with eip := frame.eip - 2} else frame
        k.reschedule cpu env.acquired frame
      else if number = sysYieldNumber ∨ number = sysExitNumber ∨ number = sysThreadExitNumber then
        k.reschedule cpu env.acquired frame
      else some (k,.own frame)

/-- The end of the current task by an exception. -/
def killedBy (k : Kernel) (cpu : Nat) (env : Env) (code : Nat) (frame : Frame) : Dispatched :=
  Kernel.tick {k with sys := processExitCurrent k.sys cpu code} cpu env.acquired frame

/-- A fault that copy-on-write can resolve: the new memory. -/
def resolvedFault (k : Kernel) (cpu : Nat) (env : Env) (frame : Frame) : Option Vm :=
  match currentLocal k.sys cpu with
  | none => none
  | some c =>
    if frame.error % 8 = 7 then pagingResolveCow k.sys.vm (k.sys.processes c).pageDirectory (pageOf env.cr2)
    else none

def pageFault (k : Kernel) (cpu : Nat) (env : Env) (frame : Frame) : Dispatched :=
  if userMode frame then
    match resolvedFault k cpu env frame with
    | some vm => some (k.withVm vm,.own frame)
    | none => killedBy k cpu env 139 frame
  else none

/-- `interrupt_dispatch`: `none` where the system halts. -/
def interruptDispatch (k : Kernel) (cpu : Nat) (env : Env) (frame : Frame) : Dispatched :=
  let vector := frame.vector
  if vector = 128 then syscallTrap k cpu env frame
  else if vector = 32 then (poll k env).tick cpu env.acquired frame
  else if vector = 48 then if cpu ≠ 0 then k.tick cpu env.acquired frame else some (k,.own frame)
  else if vector = 33 ∨ vector = 44 then some (poll k env,.own frame)
  else if 32 ≤ vector ∧ vector < 48 then some (k,.own frame)
  else if vector = 14 then pageFault k cpu env frame
  else if vector < 32 then if userMode frame then killedBy k cpu env (128 + vector) frame else none
  else some (k,.own frame)

/-- A store of the running program in ring 3, which changes nothing where it faults. -/
def programStore (vm : Vm) (cpu va : Nat) (value : Byte) : Vm :=
  match pagingGetUserPage vm (vm.currentDirectory cpu) va with
  | none => vm
  | some (physical,flags) =>
    if has flags pteWritable then {vm with mem := writeByte vm.mem (physical + va % pageSize) value} else vm

inductive Event where
  | interrupt (env : Env) (frame : Frame)
  | store (va : Nat) (value : Byte)
  | runFile (name : List Byte)
  | reapPid (pid : Nat)

/-- One event on the boot CPU. No event follows one that halts the system. -/
def Kernel.step (k : Kernel) : Event → Kernel
  | .interrupt env frame => ((interruptDispatch k 0 env frame).map Prod.fst).getD k
  | .store va value => k.withVm (programStore k.sys.vm 0 va value)
  | .runFile name => {k with sys := (execRunFile k.sys k.ram 0 name).1}
  | .reapPid pid => {k with sys := (processReapPid k.sys pid).1}

end LionOS.Calls
