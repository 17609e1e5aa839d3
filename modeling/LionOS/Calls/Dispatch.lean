import LionOS.Calls.UserMemory
import LionOS.Channels.Input
import LionOS.Channels.Ipc
import LionOS.Channels.Net
import LionOS.Channels.Pipe
import LionOS.Exec
import LionOS.Files.Vfs

/-! The system calls. A call gives the value that is left in EAX, or `none` where it ends
in a kernel panic. -/
namespace LionOS.Calls
open LionOS.Memory LionOS.Physical LionOS.Paging LionOS.Processes LionOS.Channels LionOS.Files LionOS.Exec

structure Kernel where
  sys : System
  ram : RamFs
  disk : DiskFs
  allocations : Nat → HeapAlloc
  messages : IpcQueue
  pipes : Pipes
  keyboard : Keyboard
  mouse : Mouse
  net : Net

def Kernel.withVm (k : Kernel) (vm : Vm) : Kernel := {k with sys := {k.sys with vm}}

def Kernel.store (k : Kernel) : Store := ⟨k.ram,k.disk,⟨k.allocations,k.sys.vm.pages⟩⟩

def Kernel.withStore (k : Kernel) (st : Store) : Kernel :=
  {k with
    ram := st.ram,disk := st.disk,allocations := st.heap.allocations
    sys := {k.sys with vm := {k.sys.vm with pages := st.heap.pages}}}

inductive Syscall where
  | abiVersion | putc | getpid | yield | exit | getchar | kbdAvail | write | read | clear | meminfo
  | exec | fork | waitpid | fopen | fclose | fread | fwrite | remove | stat | ipcSend | ipcRecv
  | ipcPending | getppid | kill | getstate | sigpending | netSend | netRecv | netPending | netGetip
  | getfile | netPing | mouseRead | mousePending | gettid | threadCreate | threadJoin | threadExit
  | pipeCreate | pipeRead | pipeWrite | pipeClose | ipcRecvBlocking
  deriving DecidableEq, Repr

/-- The calls in the order of their numbers from 0. -/
def Syscall.table : List Syscall :=
  [.abiVersion,.putc,.getpid,.yield,.exit,.getchar,.kbdAvail,.write,.read,.clear,.meminfo,.exec,.fork,
    .waitpid,.fopen,.fclose,.fread,.fwrite,.remove,.stat,.ipcSend,.ipcRecv,.ipcPending,.getppid,.kill,
    .getstate,.sigpending,.netSend,.netRecv,.netPending,.netGetip,.getfile,.netPing,.mouseRead,
    .mousePending,.gettid,.threadCreate,.threadJoin,.threadExit,.pipeCreate,.pipeRead,.pipeWrite,
    .pipeClose,.ipcRecvBlocking]

def syscallOf (number : Nat) : Option Syscall := Syscall.table[number]?

def Syscall.capability : Syscall → Option (BitVec 32)
  | .putc | .getchar | .kbdAvail | .mousePending | .mouseRead | .write | .read | .clear => some capConsole
  | .exec | .fork | .waitpid | .threadCreate | .threadJoin | .threadExit | .kill => some capProcess
  | .fopen | .fclose | .fread | .fwrite | .remove | .stat | .getfile => some capFs
  | .ipcSend | .ipcRecv | .ipcPending | .ipcRecvBlocking | .pipeCreate | .pipeRead | .pipeWrite
  | .pipeClose => some capIpc
  | .netSend | .netRecv | .netPending | .netGetip | .netPing => some capNet
  | .abiVersion | .getpid | .gettid | .yield | .exit | .meminfo | .getppid | .getstate | .sigpending => none

abbrev Outcome := Option (Kernel × Nat)

def refuse (k : Kernel) : Outcome := some (k,syscallErr)

/-- A result of the file systems, where -1 is an error. -/
def fileResult : Option Nat → Nat
  | some n => n
  | none => syscallErr

def currentTid (s : System) (cpu : Nat) : Nat :=
  match currentLocal s cpu with
  | none => 0
  | some c => (s.processes c).tid

def currentParent (s : System) (cpu : Nat) : Nat :=
  match currentLocal s cpu with
  | none => 0
  | some c => (s.processes c).parentPid

/-- The rest of a call that goes on with a buffer it may write to. -/
def withWritable (k : Kernel) (cpu ptr len : Nat) (rest : Kernel → Outcome) : Outcome :=
  match userRangeOkWrite k.sys.vm cpu ptr len with
  | (vm,false) => refuse (k.withVm vm)
  | (vm,true) => rest (k.withVm vm)

/-- Store to the buffer of the caller and end with a value. -/
def storing (k : Kernel) (cpu ptr : Nat) (bytes : List Byte) (rest : Kernel → Outcome) : Outcome :=
  match storeUserBytes k.sys.vm cpu ptr bytes with
  | none => none
  | some vm => rest (k.withVm vm)

def loading (k : Kernel) (cpu ptr len : Nat) (rest : List Byte → Outcome) : Outcome :=
  match loadUserBytes k.sys.vm cpu ptr len with
  | none => none
  | some bytes => rest bytes

def keyboardTake (b : Keyboard) : Nat → Keyboard × List Byte
  | 0 => (b,[])
  | n+1 => match keyboardGetchar b with
    | none => (b,[])
    | some (b,c) =>
      let (b,rest) := keyboardTake b n
      (b,c::rest)

def sysGetchar (k : Kernel) : Outcome :=
  match keyboardGetchar k.keyboard with
  | none => refuse k
  | some (keyboard,c) => some ({k with keyboard},c.toNat)

def sysMouseRead (k : Kernel) (cpu ptr : Nat) : Outcome :=
  withWritable k cpu ptr 12 fun k => match mouseReadEvent k.sys k.mouse cpu with
    | (sys,mouse,.error r) => some ({k with sys,mouse},if r = -2 then toU32 waitBlocked else syscallErr)
    | (sys,mouse,.ok event) =>
      storing {k with sys,mouse} cpu ptr
        (bytes32 event.dx ++ bytes32 event.dy ++ [event.buttons,event.source,0,0]) fun k => some (k,0)

/-- `console_write_n` of the buffer, of which only the loads are of interest here. -/
def sysWrite (k : Kernel) (cpu ptr len : Nat) : Outcome :=
  if len > userCopyMax ∨ userRangeOk k.sys.vm cpu ptr len = false then refuse k
  else loading k cpu ptr len fun _ => some (k,len)

def sysRead (k : Kernel) (cpu ptr len : Nat) : Outcome :=
  if len > userCopyMax then refuse k
  else withWritable k cpu ptr len fun k =>
    let (keyboard,bytes) := keyboardTake k.keyboard len
    storing {k with keyboard} cpu ptr bytes fun k => some (k,bytes.length)

def sysExec (k : Kernel) (cpu ptr : Nat) : Outcome :=
  match copyUserString k.sys.vm cpu 64 ptr with
  | none => refuse k
  | some name => match execReplaceCurrent k.sys k.ram cpu name with
    | (sys,false) => refuse {k with sys}
    | (sys,true) =>
      let pid := currentPid sys cpu
      some ({k with sys},if toI32 pid < 0 then syscallErr else pid)

def sysWaitpid (k : Kernel) (cpu pid ptr : Nat) : Outcome :=
  if userRangeOk k.sys.vm cpu ptr 4 then
    let (sys,result) := processWaitpid k.sys cpu pid ptr
    some ({k with sys},toU32 result)
  else refuse k

def sysOpen (k : Kernel) (cpu ptr flags : Nat) : Outcome :=
  match copyUserString k.sys.vm cpu vfsPathMax ptr, currentLocal k.sys cpu with
  | some path, some c =>
    let (st,p,fd) := vfsOpenForProcess k.store (k.sys.processes c) path flags
    let k := k.withStore st
    some ({k with sys := setProcess k.sys c p},fileResult fd)
  | _, _ => refuse k

def sysClose (k : Kernel) (cpu fd : Nat) : Outcome :=
  match currentLocal k.sys cpu with
  | none => refuse k
  | some c =>
    let (p,closed) := vfsCloseForProcess (k.sys.processes c) (toI32 fd)
    some ({k with sys := setProcess k.sys c p},if closed then 0 else syscallErr)

def sysFread (k : Kernel) (cpu fd ptr len : Nat) : Outcome :=
  if len > userCopyMax then refuse k
  else withWritable k cpu ptr len fun k => match currentLocal k.sys cpu with
    | none => refuse k
    | some c => match vfsReadForProcess k.store (k.sys.processes c) (toI32 fd) len with
      | (st,p,result) =>
        let k := k.withStore st
        let k := {k with sys := setProcess k.sys c p}
        match result with
        | none => refuse k
        | some bytes => storing k cpu ptr bytes fun k => some (k,bytes.length)

def sysFwrite (k : Kernel) (cpu fd ptr len : Nat) : Outcome :=
  if len > userCopyMax ∨ userRangeOk k.sys.vm cpu ptr len = false then refuse k
  else loading k cpu ptr len fun bytes => match currentLocal k.sys cpu with
    | none => refuse k
    | some c =>
      let (st,p,result) := vfsWriteForProcess k.store (k.sys.processes c) (toI32 fd) bytes
      let k := k.withStore st
      some ({k with sys := setProcess k.sys c p},fileResult result)

def sysRemove (k : Kernel) (cpu ptr : Nat) : Outcome :=
  match copyUserString k.sys.vm cpu vfsPathMax ptr with
  | none => refuse k
  | some path =>
    let (st,removed) := vfsRemove k.store path
    some (k.withStore st,if removed then 0 else syscallErr)

def sysStat (k : Kernel) (cpu path ptr : Nat) : Outcome :=
  match copyUserString k.sys.vm cpu vfsPathMax path with
  | none => refuse k
  | some path => withWritable k cpu ptr 12 fun k => match vfsStatPath k.store path with
    | none => refuse k
    | some st => storing k cpu ptr (bytes32 st.size ++ bytes32 st.backend ++ bytes32 st.flags) fun k => some (k,0)

def sysGetfile (k : Kernel) (cpu index ptr len : Nat) : Outcome :=
  if ptr = 0 ∨ len < 2 then refuse k
  else withWritable k cpu ptr len fun k => match vfsName k.store index with
    | none => refuse k
    | some name =>
      let kept := name.take (len - 1)
      storing k cpu ptr (kept ++ [0]) fun k => some (k,kept.length)

def sysIpcSend (k : Kernel) (cpu receiver ptr len : Nat) : Outcome :=
  if processExists k.sys receiver = false ∨ receiver = currentPid k.sys cpu ∨ len = 0 ∨ len > ipcMessageMax ∨
      userRangeOk k.sys.vm cpu ptr len = false then refuse k
  else loading k cpu ptr len fun bytes =>
    let (sys,messages,result) := ipcSend k.sys k.messages receiver (currentPid k.sys cpu) bytes
    some ({k with sys,messages},toU32 result)

/-- The common rest of both receiving calls; `none` is the empty pointer of the sender. -/
def withReceiveBuffers (k : Kernel) (cpu ptr capacity sender : Nat) (rest : Kernel → Outcome) : Outcome :=
  if capacity = 0 ∨ capacity > ipcMessageMax then refuse k
  else withWritable k cpu ptr capacity fun k =>
    if sender = 0 then rest k else withWritable k cpu sender 4 rest

def deliver (k : Kernel) (cpu ptr sender : Nat) (received : List Byte × Nat) : Outcome :=
  storing k cpu ptr received.1 fun k =>
    if sender = 0 then some (k,received.1.length)
    else storing k cpu sender (bytes32 received.2) fun k => some (k,received.1.length)

def sysIpcRecv (k : Kernel) (cpu ptr capacity sender : Nat) : Outcome :=
  withReceiveBuffers k cpu ptr capacity sender fun k =>
    match ipcRecv k.messages (currentPid k.sys cpu) capacity with
    | (messages,.error r) => some ({k with messages},if r = ipcRecvEmpty then toU32 ipcRecvEmpty else syscallErr)
    | (messages,.ok received) => deliver {k with messages} cpu ptr sender received

def sysIpcRecvBlocking (k : Kernel) (cpu ptr capacity sender : Nat) : Outcome :=
  withReceiveBuffers k cpu ptr capacity sender fun k =>
    match ipcRecvBlocking k.sys k.messages cpu (currentPid k.sys cpu) capacity with
    | (sys,messages,.error r) =>
      some ({k with sys,messages},if r = waitBlocked then toU32 waitBlocked else syscallErr)
    | (sys,messages,.ok received) => deliver {k with sys,messages} cpu ptr sender received

def sysThreadCreate (k : Kernel) (cpu entry : Nat) : Outcome :=
  if entry < userMin ∨ entry ≥ userMax then refuse k
  else (processCreateUserThread k.sys cpu entry).map fun r => ({k with sys := r.1},r.2)

def sysThreadJoin (k : Kernel) (cpu tid ptr : Nat) : Outcome :=
  if userRangeOk k.sys.vm cpu ptr 4 then
    let (sys,result) := processJoinThread k.sys cpu tid ptr
    some ({k with sys},toU32 result)
  else refuse k

def sysPipeCreate (k : Kernel) (cpu readEnd writeEnd : Nat) : Outcome :=
  withWritable k cpu readEnd 4 fun k => withWritable k cpu writeEnd 4 fun k =>
    match pipeCreate k.pipes (currentPid k.sys cpu) with
    | none => refuse k
    | some (pipes,reader,writer) =>
      storing {k with pipes} cpu readEnd (bytes32 reader) fun k =>
        storing k cpu writeEnd (bytes32 writer) fun k => some (k,0)

def sysPipeRead (k : Kernel) (cpu handle ptr capacity : Nat) : Outcome :=
  if capacity = 0 ∨ capacity > ipcMessageMax ∨ userRangeOk k.sys.vm cpu ptr capacity = false then refuse k
  else match pipeRead k.sys k.pipes cpu handle capacity with
    | (sys,pipes,.error r) => some ({k with sys,pipes},toU32 r)
    | (sys,pipes,.ok bytes) => storing {k with sys,pipes} cpu ptr bytes fun k => some (k,bytes.length)

def sysPipeWrite (k : Kernel) (cpu handle ptr len : Nat) : Outcome :=
  if len = 0 ∨ len > ipcMessageMax ∨ userRangeOk k.sys.vm cpu ptr len = false then refuse k
  else loading k cpu ptr len fun bytes =>
    let (sys,pipes,result) := pipeWrite k.sys k.pipes cpu handle bytes
    some ({k with sys,pipes},toU32 result)

def sysNetSend (k : Kernel) (cpu dstIp ports ptr len : Nat) : Outcome :=
  if ptr = 0 ∨ len = 0 ∨ len > netPacketMax ∨ userRangeOk k.sys.vm cpu ptr len = false then refuse k
  else loading k cpu ptr len fun bytes =>
    let (net,result) := netSend k.net dstIp (ports / 2^16 % 2^16) (ports % 2^16) bytes
    some ({k with net},toU32 result)

/-- A word of the caller that `LIONOS_SYS_NET_RECV` fills where it can. -/
def fillIfWritable (k : Kernel) (cpu ptr : Nat) (bytes : List Byte) (rest : Kernel → Outcome) : Outcome :=
  if ptr = 0 then rest k
  else match userRangeOkWrite k.sys.vm cpu ptr bytes.length with
    | (vm,false) => rest (k.withVm vm)
    | (vm,true) => storing (k.withVm vm) cpu ptr bytes rest

def sysNetRecv (k : Kernel) (cpu port ptr capacity ipPtr portPtr : Nat) : Outcome :=
  if capacity = 0 ∨ capacity > netPacketMax then refuse k
  else withWritable k cpu ptr capacity fun k => match netRecv k.net (port % 2^16) capacity with
    | (net,.error r) => some ({k with net},if r = netRecvEmpty then toU32 netRecvEmpty else syscallErr)
    | (net,.ok (bytes,srcIp,srcPort)) =>
      storing {k with net} cpu ptr bytes fun k =>
        fillIfWritable k cpu ipPtr (bytes32 srcIp) fun k =>
          fillIfWritable k cpu portPtr ((bytes32 srcPort).take 2) fun k => some (k,bytes.length)

def serve (k : Kernel) (cpu a0 a1 a2 a3 a4 : Nat) : Syscall → Outcome
  | .abiVersion => some (k,4)
  | .putc => some (k,if a0 > 0xFF then syscallErr else 0)
  | .getpid => some (k,currentPid k.sys cpu)
  | .gettid => some (k,currentTid k.sys cpu)
  | .yield => some (k,0)
  | .exit => some ({k with sys := processExitCurrent k.sys cpu a0},0)
  | .getchar => sysGetchar k
  | .kbdAvail => some (k,keyboardAvailable k.keyboard)
  | .mousePending => some (k,mouseEventAvailable k.mouse)
  | .mouseRead => sysMouseRead k cpu a0
  | .write => sysWrite k cpu a0 a1
  | .read => sysRead k cpu a0 a1
  | .clear => some (k,0)
  | .meminfo => some (k,k.sys.vm.pages.freePages)
  | .exec => sysExec k cpu a0
  | .fork => refuse k
  | .waitpid => sysWaitpid k cpu a0 a1
  | .fopen => sysOpen k cpu a0 a1
  | .fclose => sysClose k cpu a0
  | .fread => sysFread k cpu a0 a1 a2
  | .fwrite => sysFwrite k cpu a0 a1 a2
  | .remove => sysRemove k cpu a0
  | .stat => sysStat k cpu a0 a1
  | .getfile => sysGetfile k cpu a0 a1 a2
  | .ipcSend => sysIpcSend k cpu a0 a1 a2
  | .ipcRecv => sysIpcRecv k cpu a0 a1 a2
  | .ipcPending => some (k,ipcPending k.messages (currentPid k.sys cpu))
  | .ipcRecvBlocking => sysIpcRecvBlocking k cpu a0 a1 a2
  | .threadCreate => sysThreadCreate k cpu a0
  | .threadJoin => sysThreadJoin k cpu a0 a1
  | .threadExit => some ({k with sys := processExitThread k.sys cpu a0},0)
  | .pipeCreate => sysPipeCreate k cpu a0 a1
  | .pipeRead => sysPipeRead k cpu a0 a1 a2
  | .pipeWrite => sysPipeWrite k cpu a0 a1 a2
  | .pipeClose =>
    let (sys,pipes,result) := pipeClose k.sys k.pipes cpu a0
    some ({k with sys,pipes},toU32 result)
  | .getppid => some (k,currentParent k.sys cpu)
  | .kill =>
    let (sys,result) := sysKill k.sys cpu a0 a1
    some ({k with sys},result)
  | .getstate => some (k,toU32 (processGetState k.sys a0))
  | .sigpending => some (k,processSignalPending k.sys a0)
  | .netSend => sysNetSend k cpu a0 a1 a2 a3
  | .netRecv => sysNetRecv k cpu a0 a1 a2 a3 a4
  | .netPending => some (k,netPending k.net (a0 % 2^16))
  | .netGetip => some (k,netLocalIp k.net)
  | .netPing => some (k,toU32 (netPing k.net a0))

def permitted (k : Kernel) (cpu : Nat) (call : Syscall) : Bool :=
  match call.capability with
  | none => true
  | some capability => hasCap k.sys cpu capability

/-- `syscall_dispatch`. The branch for fork is never taken, since `interrupt_dispatch`
handles that number itself. -/
def syscallDispatch (k : Kernel) (cpu number a0 a1 a2 a3 a4 : Nat) : Outcome :=
  match syscallOf number with
  | none => refuse k
  | some call => if permitted k cpu call then serve k cpu a0 a1 a2 a3 a4 call else refuse k

end LionOS.Calls
