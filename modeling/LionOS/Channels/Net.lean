import LionOS.Physical

/-! The queue of loopback packets. -/
namespace LionOS.Channels
open LionOS.Physical

def netPacketMax : Nat := 256
def netQueueMax : Nat := 16
def netRecvEmpty : Int := -2
def netIpLoopback : Nat := 0x7F000001
def netPhysIp : Nat := 0x0A00020F

structure NetPacket where
  used : Bool
  srcIp : Nat
  dstIp : Nat
  srcPort : Nat
  dstPort : Nat
  length : Nat
  data : Nat → Byte
  deriving Inhabited

/-- `echoes` tells how many of the four requests of `net_ping` to an address are
answered, as far as the network card is concerned. -/
structure Net where
  queue : Nat → NetPacket
  rtlReady : Bool
  echoes : Nat → Nat

def netLocalIp (n : Net) : Nat := if n.rtlReady then netPhysIp else netIpLoopback

def netPing (n : Net) (targetIp : Nat) : Int :=
  if n.rtlReady = false ∨ n.echoes targetIp = 0 then -1 else min (n.echoes targetIp) 4

/-- `net_send` of the bytes at a pointer that is not null. -/
def netSend (n : Net) (dstIp srcPort dstPort : Nat) (data : List Byte) : Net × Int :=
  if data = [] ∨ data.length > netPacketMax ∨ dstPort = 0 ∨ dstIp ≠ netIpLoopback then (n,-1)
  else match (List.range netQueueMax).find? fun i => !(n.queue i).used with
    | none => (n,-1)
    | some i =>
      let p : NetPacket := ⟨true,netIpLoopback,dstIp,srcPort,dstPort,data.length,
        fun j => if j < data.length then data.getD j 0 else (n.queue i).data j⟩
      ({n with queue := Function.update n.queue i p},data.length)

/-- `net_recv` into a buffer that is not null: the bytes, the address and the port of
the sender. -/
def netRecv (n : Net) (port capacity : Nat) : Net × Except Int (List Byte × Nat × Nat) :=
  if port = 0 ∨ capacity = 0 then (n,.error (-1))
  else match (List.range netQueueMax).find? fun i =>
      (n.queue i).used && decide ((n.queue i).dstPort = port) with
    | none => (n,.error netRecvEmpty)
    | some i =>
      let p := n.queue i
      ({n with queue := Function.update n.queue i {p with used := false}},
        .ok ((List.range (min p.length capacity)).map p.data,p.srcIp,p.srcPort))

def netPending (n : Net) (port : Nat) : Nat :=
  ((List.range netQueueMax).filter fun i =>
    (n.queue i).used && decide ((n.queue i).dstPort = port)).length

end LionOS.Channels
