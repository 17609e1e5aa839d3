import LionOS.Processes.Schedule

/-! The queue of 64 messages between processes. -/
namespace LionOS.Channels
open LionOS.Physical LionOS.Processes

def ipcMessageMax : Nat := 128
def ipcQueueMax : Nat := 64
def ipcWaitChannelBase : Nat := 0x49504300
def ipcRecvEmpty : Int := -2

structure IpcMessage where
  used : Bool
  senderPid : Nat
  receiverPid : Nat
  length : Nat
  data : Nat → Byte
  deriving Inhabited

abbrev IpcQueue := Nat → IpcMessage

def ipcInit (q : IpcQueue) : IpcQueue := fun i => if i < ipcQueueMax then {q i with used := false} else q i

def freeMessage (q : IpcQueue) : Option Nat := (List.range ipcQueueMax).find? fun i => !(q i).used

def findMessage (q : IpcQueue) (receiverPid : Nat) : Option Nat :=
  (List.range ipcQueueMax).find? fun i => (q i).used && decide ((q i).receiverPid = receiverPid)

/-- `ipc_send` of the bytes at a pointer that is not null. -/
def ipcSend (s : System) (q : IpcQueue) (receiverPid senderPid : Nat) (data : List Byte) :
    System × IpcQueue × Int :=
  if receiverPid = 0 ∨ data = [] ∨ data.length > ipcMessageMax then (s,q,-1)
  else match freeMessage q with
    | none => (s,q,-1)
    | some i =>
      let m : IpcMessage := ⟨true,senderPid,receiverPid,data.length,
        fun j => if j < data.length then data.getD j 0 else (q i).data j⟩
      (processWakeup s (ipcWaitChannelBase + receiverPid),Function.update q i m,data.length)

/-- The bytes and the sender of message `i`, which is given back. -/
def takeMessage (q : IpcQueue) (i capacity : Nat) : IpcQueue × List Byte × Nat :=
  let m := q i
  (Function.update q i {m with used := false},(List.range (min m.length capacity)).map m.data,m.senderPid)

/-- What a receiving call gives back: the bytes for the buffer and the sender, or the
negative result. -/
abbrev Received := Except Int (List Byte × Nat)

def ipcRecv (q : IpcQueue) (receiverPid capacity : Nat) : IpcQueue × Received :=
  if receiverPid = 0 ∨ capacity = 0 then (q,.error (-1))
  else match findMessage q receiverPid with
    | none => (q,.error ipcRecvEmpty)
    | some i =>
      let (q,bytes,sender) := takeMessage q i capacity
      (q,.ok (bytes,sender))

def ipcPending (q : IpcQueue) (receiverPid : Nat) : Nat :=
  if receiverPid = 0 then 0
  else ((List.range ipcQueueMax).filter fun i =>
    (q i).used && decide ((q i).receiverPid = receiverPid)).length

/-- `ipc_recv_blocking`. Its loop ends in the first round, since `process_sleep_on`
returns a negative number. -/
def ipcRecvBlocking (s : System) (q : IpcQueue) (cpu receiverPid capacity : Nat) :
    System × IpcQueue × Received :=
  if receiverPid = 0 ∨ capacity = 0 then (s,q,.error (-1))
  else match findMessage q receiverPid with
    | some i =>
      let (q,bytes,sender) := takeMessage q i capacity
      (processWakeup s (ipcWaitChannelBase + receiverPid),q,.ok (bytes,sender))
    | none =>
      let (s,blocked) := processSleepOn s cpu (ipcWaitChannelBase + receiverPid)
      (s,q,.error blocked)

end LionOS.Channels
