import LionOS.Channels.Delivery
import LionOS.Channels.Net
import LionOS.Processes.Termination

/-! The order in which the messages of one receiver and the datagrams of one port leave
their queues. -/
namespace LionOS.Channels
open LionOS.Physical LionOS.Processes LionOS.Library

structure Datagram where
  srcIp : Nat
  dstIp : Nat
  srcPort : Nat
  dstPort : Nat
  bytes : List Byte

inductive NetCall
  | send (dstIp srcPort dstPort : Nat) (data : List Byte)
  | recv (port capacity : Nat)

def freePacket (n : Net) : Option Nat := (List.range netQueueMax).find? fun i => !(n.queue i).used

def findPacket (n : Net) (port : Nat) : Option Nat :=
  (List.range netQueueMax).find? fun i => (n.queue i).used && decide ((n.queue i).dstPort = port)

/-- The packets together with the datagrams whose `net_send` returned their length. -/
structure Traffic where
  net : Net
  post : Pool Datagram

def trafficStep (t : Traffic) : NetCall → Traffic
  | .send dstIp srcPort dstPort data =>
    let (net,result) := netSend t.net dstIp srcPort dstPort data
    if result = data.length then
      ⟨net,t.post.put ((freePacket t.net).getD 0) ⟨netIpLoopback,dstIp,srcPort,dstPort,data⟩⟩
    else {t with net}
  | .recv port capacity =>
    let (net,result) := netRecv t.net port capacity
    match result with
    | .ok _ => ⟨net,t.post.take ((findPacket t.net port).getD 0)⟩
    | .error _ => {t with net}

def netInit (n : Net) : Net :=
  {n with queue := fun i => if i < netQueueMax then {n.queue i with used := false} else n.queue i}

def bootTraffic (n : Net) : Traffic := ⟨netInit n,.empty⟩

def NetPacket.datagram (p : NetPacket) : Option Datagram :=
  if p.used then some ⟨p.srcIp,p.dstIp,p.srcPort,p.dstPort,(List.range p.length).map p.data⟩ else none

def datagramAt (n : Net) (i : Nat) : Option Datagram := (n.queue i).datagram

theorem datagramAt_any (n : Net) (port i : Nat) :
    (datagramAt n i).any (fun d => decide (d.dstPort = port)) =
      ((n.queue i).used && decide ((n.queue i).dstPort = port)) := by
  unfold datagramAt NetPacket.datagram
  cases (n.queue i).used <;> rfl

theorem datagramAt_update (n : Net) (i : Nat) (p : NetPacket) (j : Nat) :
    datagramAt {n with queue := Function.update n.queue i p} j = if j = i then p.datagram else datagramAt n j := by
  unfold datagramAt
  dsimp only
  by_cases own : j = i
  · subst own
    rw [Function.update_self,if_pos rfl]
  · rw [Function.update_of_ne own,if_neg own]

theorem netSend_cases (n : Net) (dstIp srcPort dstPort : Nat) (data : List Byte) :
    (∃ i, ¬ (data = [] ∨ data.length > netPacketMax ∨ dstPort = 0 ∨ dstIp ≠ netIpLoopback) ∧ freePacket n = some i ∧
        (netSend n dstIp srcPort dstPort data).2 = data.length ∧
        ∀ j, datagramAt (netSend n dstIp srcPort dstPort data).1 j =
          if j = i then some ⟨netIpLoopback,dstIp,srcPort,dstPort,data⟩ else datagramAt n j) ∨
      netSend n dstIp srcPort dstPort data = (n,-1) := by
  unfold netSend
  split
  · exact .inr rfl
  next valid =>
    split
    · exact .inr rfl
    next i free =>
      refine .inl ⟨i,valid,free,rfl,?_⟩
      intro j
      rw [datagramAt_update]
      simp only [NetPacket.datagram,if_true]
      rw [range_map_getD]

theorem netRecv_cases (n : Net) (port capacity : Nat) :
    (∃ i, findPacket n port = some i ∧ (netRecv n port capacity).2 = .ok
          ((List.range (min (n.queue i).length capacity)).map (n.queue i).data,(n.queue i).srcIp,(n.queue i).srcPort) ∧
        ∀ j, datagramAt (netRecv n port capacity).1 j = if j = i then none else datagramAt n j) ∨
      ∃ e, netRecv n port capacity = (n,.error e) := by
  unfold netRecv
  split
  · exact .inr ⟨_,rfl⟩
  split
  · exact .inr ⟨_,rfl⟩
  next i found =>
    refine .inl ⟨i,found,rfl,?_⟩
    intro j
    exact datagramAt_update n i _ j

theorem freePacket_some {n : Net} {i : Nat} (free : freePacket n = some i) :
    i < netQueueMax ∧ datagramAt n i = none := by
  obtain ⟨bound,unused,_⟩ := find_range.mp free
  refine ⟨bound,?_⟩
  rw [Bool.not_eq_true'] at unused
  simp [datagramAt,NetPacket.datagram,unused]

theorem findPacket_some {n : Net} {port i : Nat} (found : findPacket n port = some i) :
    i < netQueueMax ∧ (∃ d, datagramAt n i = some d ∧ d.dstPort = port) ∧
      ∀ j, j < i → ∀ d, datagramAt n j = some d → d.dstPort ≠ port := by
  obtain ⟨bound,matched,lower⟩ := find_range.mp found
  refine ⟨bound,?_,?_⟩
  · rw [← datagramAt_any,Option.any_eq_true] at matched
    obtain ⟨d,here,own⟩ := matched
    exact ⟨d,here,of_decide_eq_true own⟩
  · intro j less d here own
    have other := lower j less
    rw [← datagramAt_any,here,Option.any_some] at other
    exact of_decide_eq_false other own

/-- `net_recv` gives the beginning of the datagram that it takes, and its sender. -/
theorem netRecv_delivers {t : Traffic} (tracks : t.post.Tracks netQueueMax (datagramAt t.net)) {port capacity : Nat}
    {bytes : List Byte} {srcIp srcPort : Nat} (result : (netRecv t.net port capacity).2 = .ok (bytes,srcIp,srcPort)) :
    ∃ n d, n ∉ t.post.taken ∧ t.post.items[n]? = some d ∧ d.dstPort = port ∧ bytes = d.bytes.take capacity ∧
      srcIp = d.srcIp ∧ srcPort = d.srcPort ∧ (trafficStep t (.recv port capacity)).post.taken = t.post.taken ++ [n] := by
  rcases netRecv_cases t.net port capacity with ⟨i,found,received,_⟩ | ⟨e,refused⟩
  · obtain ⟨bound,⟨d,here,own⟩,_⟩ := findPacket_some found
    obtain ⟨n,present,item⟩ := tracks.slot bound here
    refine ⟨n,d,(tracks.exact.inside present).2.2,item,own,?_⟩
    rw [received] at result
    simp only [Except.ok.injEq,Prod.mk.injEq] at result
    obtain ⟨rfl,rfl,rfl⟩ := result
    unfold datagramAt NetPacket.datagram at here
    split at here
    · cases here
      refine ⟨?_,rfl,rfl,?_⟩
      · simp [← List.map_take,List.take_range,Nat.min_comm]
      · simp only [trafficStep,received,found,Option.getD_some]
        rw [Pool.take_present present]
    · cases here
  · rw [refused] at result
    cases result

/-- A message that is not refused finds its free slot above every queued message of the
receiver. -/
def SentBehind (m : Mail) : MailCall → Prop
  | .send _ receiverPid _ data => ¬ (receiverPid = 0 ∨ data = [] ∨ data.length > ipcMessageMax) →
    ∀ i, freeMessage m.queue = some i →
    ∀ j, j < ipcQueueMax → (m.queue j).used = true → (m.queue j).receiverPid = receiverPid → j < i
  | _ => True

/-- A datagram that is not refused finds its free slot above every queued datagram for
the port. -/
def PostedBehind (t : Traffic) : NetCall → Prop
  | .send dstIp _ dstPort data =>
    ¬ (data = [] ∨ data.length > netPacketMax ∨ dstPort = 0 ∨ dstIp ≠ netIpLoopback) →
    ∀ i, freePacket t.net = some i →
    ∀ j, j < netQueueMax → (t.net.queue j).used = true → (t.net.queue j).dstPort = dstPort → j < i
  | _ => True

def MailOrdered (m : Mail) : Prop := m.post.Ordered Letter.receiver ipcQueueMax (letterAt m.queue)

def TrafficOrdered (t : Traffic) : Prop := t.post.Ordered Datagram.dstPort netQueueMax (datagramAt t.net)

theorem mail_ordered (m : Mail) (call : MailCall) (ordered : MailOrdered m) (behind : SentBehind m call) :
    MailOrdered (mailStep m call) := by
  unfold MailOrdered at ordered ⊢
  cases call with
  | send s receiverPid senderPid data =>
    rcases ipcSend_cases s m.queue receiverPid senderPid data with ⟨i,valid,free,result⟩ | refused
    · obtain ⟨bound,vacant⟩ := freeMessage_some free
      simp only [mailStep,result,free,if_true,Option.getD_some]
      refine ordered.put bound vacant ?_ (letterAt_sent m.queue i receiverPid senderPid data)
      intro j letter inside here same
      have matched := letterAt_any m.queue receiverPid j
      rw [here,Option.any_some,decide_eq_true same,eq_comm,Bool.and_eq_true,decide_eq_true_eq] at matched
      exact behind valid i free j inside matched.1 matched.2
    · have other : (-1 : Int) ≠ data.length := by omega
      simp only [mailStep,refused,if_neg other]
      exact ordered
  | receive r =>
    rcases receive_cases r m.queue with ⟨i,found,result⟩ | ⟨e,result,_⟩
    · obtain ⟨bound,⟨letter,here,own⟩,lowest⟩ := findMessage_some found
      simp only [mailStep,result,found,Option.getD_some]
      refine ordered.take bound here ?_ (takeMessage_queue m.queue i r.capacity)
      intro j lower other occupied
      rw [own]
      exact lowest j lower other occupied
    · simp only [mailStep,result]
      exact ordered
  | pending => exact ordered

theorem traffic_ordered (t : Traffic) (call : NetCall) (ordered : TrafficOrdered t) (behind : PostedBehind t call) :
    TrafficOrdered (trafficStep t call) := by
  unfold TrafficOrdered at ordered ⊢
  cases call with
  | send dstIp srcPort dstPort data =>
    rcases netSend_cases t.net dstIp srcPort dstPort data with ⟨i,valid,free,result,stored⟩ | refused
    · obtain ⟨bound,vacant⟩ := freePacket_some free
      simp only [trafficStep,result,free,if_true,Option.getD_some]
      refine ordered.put bound vacant ?_ stored
      intro j d inside here same
      have matched := datagramAt_any t.net dstPort j
      rw [here,Option.any_some,decide_eq_true same,eq_comm,Bool.and_eq_true,decide_eq_true_eq] at matched
      exact behind valid i free j inside matched.1 matched.2
    · have other : (-1 : Int) ≠ data.length := by omega
      simp only [trafficStep,refused,if_neg other]
      exact ordered
  | recv port capacity =>
    rcases netRecv_cases t.net port capacity with ⟨i,found,received,left⟩ | ⟨e,refused⟩
    · obtain ⟨bound,⟨d,here,own⟩,lowest⟩ := findPacket_some found
      simp only [trafficStep,received,found,Option.getD_some]
      refine ordered.take bound here ?_ left
      intro j lower other occupied
      rw [own]
      exact lowest j lower other occupied
    · simp only [trafficStep,refused]
      exact ordered

theorem datagramAt_init (n : Net) (i : Nat) (bound : i < netQueueMax) : datagramAt (netInit n) i = none := by
  simp only [netInit,datagramAt,NetPacket.datagram,if_pos bound]
  rfl

/-- Messages of one receiver and datagrams of one port leave in the order in which they
were sent as long as each of them lands above those that wait. -/
theorem queues_in_order (raw : IpcQueue) (calls : List MailCall) (n : Net) (calls' : List NetCall) :
    (Meets mailStep SentBehind (bootMail raw) calls →
      (run mailStep (bootMail raw) calls).post.InOrder Letter.receiver) ∧
    (Meets trafficStep PostedBehind (bootTraffic n) calls' →
      (run trafficStep (bootTraffic n) calls').post.InOrder Datagram.dstPort) := by
  refine ⟨?_,?_⟩
  · intro met
    have start : MailOrdered (bootMail raw) := Pool.ordered_empty (letterAt_init raw)
    have ordered := met.invariant mail_ordered start
    exact ordered.inOrder
  · intro met
    have start : TrafficOrdered (bootTraffic n) := Pool.ordered_empty (datagramAt_init n)
    have ordered := met.invariant traffic_ordered start
    exact ordered.inOrder

/-- Two letters wait for process 5 when the first one is received, and a third letter
takes its slot: the third is received before the second. -/
def overtakingMail : List MailCall :=
  [.send blank 5 2 [1],.send blank 5 2 [2],.receive ⟨5,8,none⟩,.send blank 5 2 [3],.receive ⟨5,8,none⟩,
    .receive ⟨5,8,none⟩]

def overtakingTraffic : List NetCall :=
  [.send netIpLoopback 9 7 [1],.send netIpLoopback 9 7 [2],.recv 7 8,.send netIpLoopback 9 7 [3],.recv 7 8,.recv 7 8]

theorem later_overtakes :
    ¬ (run mailStep (bootMail fun _ => default) overtakingMail).post.InOrder Letter.receiver ∧
      ¬ (run trafficStep (bootTraffic ⟨fun _ => default,false,fun _ => 0⟩) overtakingTraffic).post.InOrder
        Datagram.dstPort := by
  refine ⟨?_,?_⟩
  · intro inOrder
    have early := inOrder [0] [1] 1 2 ⟨2,5,[2]⟩ ⟨2,5,[3]⟩ (by decide +kernel) (by decide) rfl rfl rfl
    exact absurd early (by decide)
  · intro inOrder
    have early := inOrder [0] [1] 1 2 ⟨netIpLoopback,netIpLoopback,9,7,[2]⟩ ⟨netIpLoopback,netIpLoopback,9,7,[3]⟩
      (by decide +kernel) (by decide) rfl rfl rfl
    exact absurd early (by decide)

end LionOS.Channels
