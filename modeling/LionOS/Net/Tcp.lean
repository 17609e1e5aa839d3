import LionOS.Library.Attempts
import LionOS.Net.Frames

/-! The TCP of the network driver: the test for a frame of a connection, the wait for its
next segment and the fetch of a page. -/
namespace LionOS.Net
open LionOS.Library
open LionOS.Physical (Byte)

def netGatewayIp : BitVec 32 := 0x0A000202
def netNetmask : BitVec 32 := 0xFFFFFF00
def netEphemeralPort : BitVec 32 := 40000

def tcpFin : Byte := 0x01
def tcpSyn : Byte := 0x02
def tcpRst : Byte := 0x04
def tcpPsh : Byte := 0x08
def tcpAck : Byte := 0x10

def sets (flags bit : Byte) : Bool := flags &&& bit != 0

/-- The fields of a TCP header that the driver uses, and the data. -/
structure Segment where
  seq : BitVec 32
  ack : BitVec 32
  flags : Byte
  payload : List Byte
  deriving DecidableEq

/-- How the processor reads a field of 16 bits. -/
def load16 (frame : List Byte) (i : Nat) : BitVec 16 := frame.getD (i + 1) 0 ++ frame.getD i 0

def load32 (frame : List Byte) (i : Nat) : BitVec 32 :=
  frame.getD (i + 3) 0 ++ frame.getD (i + 2) 0 ++ frame.getD (i + 1) 0 ++ frame.getD i 0

/-- `tcp_packet`: the segment of the connection that a frame carries. -/
def tcpPacket (targetIp : BitVec 32) (localPort remotePort : BitVec 16) (frame : List Byte) : Option Segment :=
  let n := frame.length
  if n < ethHdrLen + 20 + 20 then none
  else if be16 (load16 frame 12) ≠ 0x0800 then none
  else
    let versionIhl := frame.getD ethHdrLen 0
    let ihl := (versionIhl &&& 0x0F).toNat * 4
    if versionIhl >>> 4 ≠ 4 ∨ ihl < 20 ∨ frame.getD (ethHdrLen + 9) 0 ≠ 6 then none
    else if be32 (load32 frame (ethHdrLen + 12)) ≠ targetIp ∨ be32 (load32 frame (ethHdrLen + 16)) ≠ netPhysIp then none
    else if n < ethHdrLen + ihl + 20 then none
    else
      let tcp := ethHdrLen + ihl
      if be16 (load16 frame tcp) ≠ remotePort ∨ be16 (load16 frame (tcp + 2)) ≠ localPort then none
      else
        let thl := (frame.getD (tcp + 12) 0 >>> 4).toNat * 4
        if thl < 20 ∨ n < ethHdrLen + ihl + thl then none
        else
          let ipLen := (be16 (load16 frame (ethHdrLen + 2))).toNat
          let headerLen := ihl + thl
          let payloadLen := if ipLen > headerLen ∧ ipLen ≤ n - ethHdrLen then ipLen - headerLen else 0
          some ⟨be32 (load32 frame (tcp + 4)),be32 (load32 frame (tcp + 8)),frame.getD (tcp + 13) 0,
            (frame.drop (tcp + thl)).take payloadLen⟩

/-- The device and the network during a call: what each `rtl_poll` returns, given the
segments sent before it, and which frames the device reports as sent. -/
structure Line where
  ready : Bool
  rtlMac : Mac
  polls : Nat → List Segment → List Byte
  accepts : Nat → Bool

/-- How far a call has come: its polls, `ip_id`, the frames that it handed to the device and
the segments in them. -/
structure Link where
  polled : Nat
  ipId : BitVec 16
  frames : List (List Byte)
  sent : List Segment

structure Connection where
  targetIp : BitVec 32
  mac : Mac
  localPort : BitVec 16
  remotePort : BitVec 16

def Line.rtlPoll (e : Line) (l : Link) : Link × List Byte := ({l with polled := l.polled + 1},e.polls l.polled l.sent)

def Line.rtlTxFrame (e : Line) (l : Link) (frame : List Byte) : Link × Bool :=
  if e.ready = false ∨ frame.length < ethHdrLen ∨ frame.length > rtlTxSize then (l,false)
  else ({l with frames := l.frames ++ [frame]},e.accepts l.frames.length)

/-- `send_tcp` on the connection. -/
def Line.transmit (e : Line) (c : Connection) (l : Link) (s : Segment) : Link × Bool :=
  match sendTcp e.rtlMac l.ipId c.targetIp c.mac ⟨c.localPort,c.remotePort⟩ s.seq s.ack s.flags s.payload with
  | none => (l,false)
  | some frame => e.rtlTxFrame {l with ipId := l.ipId + 1,sent := l.sent ++ [s]} frame

def arpRequest (rtlMac : Mac) (targetIp : BitVec 32) : List Byte :=
  List.replicate 6 0xFF ++ rtlMac.toList ++ store16 (be16 0x0806) ++ store16 (be16 1) ++ store16 (be16 0x0800) ++ [6,4] ++
    store16 (be16 1) ++ rtlMac.toList ++ store32 (be32 netPhysIp) ++ List.replicate 6 0 ++ store32 (be32 targetIp)

/-- The address in a frame that `arp_resolve` takes as its answer. -/
def arpAnswer (ip : BitVec 32) (frame : List Byte) : Option Mac :=
  if frame.length < ethHdrLen + 28 then none
  else if be16 (load16 frame 12) ≠ 0x0806 then none
  else if be16 (load16 frame (ethHdrLen + 6)) ≠ 2 ∨ be32 (load32 frame (ethHdrLen + 14)) ≠ ip then none
  else some (Vector.ofFn fun i => frame.getD (ethHdrLen + 8 + i) 0)

def arpTurn (e : Line) (ip : BitVec 32) (l : Link) : Link × Option (Option Mac) :=
  let (l,frame) := e.rtlPoll l
  (l,(arpAnswer ip frame).map some)

def arpAttempt (e : Line) (ip : BitVec 32) (l : Link) : Link × Option (Option Mac) :=
  match e.rtlTxFrame l (arpRequest e.rtlMac ip) with
  | (l,false) => (l,some none)
  | (l,true) => match attempts (arpTurn e ip) none 200000 l with
    | (l,none) => (l,none)
    | (l,some mac) => (l,some (some mac))

def arpResolve (e : Line) (ip : BitVec 32) (l : Link) : Link × Option Mac := attempts (arpAttempt e ip) none 3 l

/-- The state that `tcp_wait` works on; the sequence numbers are `next_seq` and `next_ack`. -/
structure TcpState where
  link : Link
  nextSeq : BitVec 32
  nextAck : BitVec 32

/-- The results -1, 1, 2 and 3 of `tcp_wait`. -/
inductive Waited
  | failed
  | opened
  | data (bytes : List Byte)
  | finished

/-- A poll of `tcp_wait` and what it makes of the frame. -/
def tcpTurn (e : Line) (c : Connection) (wantSeq : BitVec 32) (capacity : Nat) (t : TcpState) : TcpState × Option Waited :=
  let (link,frame) := e.rtlPoll t.link
  let t := {t with link}
  match tcpPacket c.targetIp c.localPort c.remotePort frame with
  | none => (t,none)
  | some s =>
    if sets s.flags tcpRst then (t,some .failed)
    else if sets s.flags tcpAck ∧ s.ack ≠ t.nextSeq ∧ s.ack ≠ wantSeq + 1 then (t,none)
    else if sets s.flags tcpSyn then ({t with nextAck := s.seq + 1,nextSeq := wantSeq + 1},some .opened)
    else if s.payload.length ≠ 0 then
      if s.seq ≠ t.nextAck then (t,none)
      else
        let copy := if s.payload.length < capacity then s.payload.length else capacity
        let nextAck := s.seq + BitVec.ofNat 32 s.payload.length
        let (link,_) := e.transmit c t.link ⟨t.nextSeq,nextAck,tcpAck,[]⟩
        ({t with link,nextAck},some (.data (s.payload.take copy)))
    else if sets s.flags tcpFin then
      let nextAck := s.seq + 1
      let (link,_) := e.transmit c t.link ⟨t.nextSeq,nextAck,tcpAck,[]⟩
      ({t with link,nextAck},some .finished)
    else (t,none)

def tcpWait (e : Line) (c : Connection) (wantSeq : BitVec 32) (capacity : Nat) (t : TcpState) : TcpState × Waited :=
  attempts (tcpTurn e c wantSeq capacity) .failed 500000 t

/-- A poll of the wait for the answer to the SYN; `flags` are those of the last segment, and
`none` is the result -1. -/
def synTurn (e : Line) (c : Connection) (s : Link × Byte) : (Link × Byte) × Option (Option (BitVec 32)) :=
  let (link,frame) := e.rtlPoll s.1
  match tcpPacket c.targetIp c.localPort c.remotePort frame with
  | none => ((link,s.2),none)
  | some segment =>
    if segment.flags &&& (tcpSyn ||| tcpAck) = tcpSyn ||| tcpAck then ((link,segment.flags),some (some (segment.seq + 1)))
    else if sets segment.flags tcpRst then ((link,segment.flags),some none)
    else ((link,segment.flags),none)

def ascii (text : List Char) : List Byte := text.map fun c => BitVec.ofNat 8 c.toNat

def addText (request text : List Byte) : List Byte := request ++ text.take (383 - request.length)

/-- The bytes of `request`, cut where the buffer is full. -/
def httpRequest (path : List Byte) : List Byte :=
  [ascii ['G','E','T',' '],path.takeWhile (· ≠ 0),
    ascii [' ','H','T','T','P','/','1','.','0'] ++ [13,10] ++ ascii ['H','o','s','t',':',' '],
    ascii ['1','0','.','0','.','2','.','1','5'],
    [13,10] ++ ascii ['C','o','n','n','e','c','t','i','o','n',':',' ','c','l','o','s','e'] ++ [13,10,13,10]].foldl addText []

def httpPort (pid : BitVec 32) : BitVec 16 := (netEphemeralPort + (pid &&& 0x3FF)).setWidth 16
def httpSeq (pid : BitVec 32) : BitVec 32 := 0x12000000 + (pid &&& 0x00FFFFFF)

/-- The part of `net_http_get` up to the request; `none` is the result -1. -/
def httpConnect (e : Line) (pid targetIp : BitVec 32) (path : List Byte) (l : Link) : Link × Option (Connection × TcpState) :=
  let nextHop := if targetIp &&& netNetmask = netPhysIp &&& netNetmask then targetIp else netGatewayIp
  match arpResolve e nextHop l with
  | (l,none) => (l,none)
  | (l,some mac) =>
    let c : Connection := ⟨targetIp,mac,httpPort pid,80⟩
    let seq := httpSeq pid
    match e.transmit c l ⟨seq,0,tcpSyn,[]⟩ with
    | (l,false) => (l,none)
    | (l,true) => match attempts (synTurn e c) (some 0) 500000 (l,0) with
      | ((l,_),none) => (l,none)
      | ((l,flags),some ack) =>
        if flags &&& (tcpSyn ||| tcpAck) = 0 then (l,none)
        else
          let seq := seq + 1
          match e.transmit c l ⟨seq,ack,tcpAck,[]⟩ with
          | (l,false) => (l,none)
          | (l,true) =>
            let request := httpRequest path
            match e.transmit c l ⟨seq,ack,tcpPsh ||| tcpAck,request⟩ with
            | (l,false) => (l,none)
            | (l,true) => (l,some (c,⟨l,seq + BitVec.ofNat 32 request.length,ack⟩))

/-- The state of the loop of `net_http_get`. -/
structure Page where
  tcp : TcpState
  total : Nat
  out : Nat → Byte

/-- How the loop ends: by a wait that failed, by the FIN, with a full buffer or after the
last round. -/
inductive Ended
  | failed
  | finished
  | full
  | spent
  deriving DecidableEq

def storeBytes (capacity : Nat) : List Byte → Nat × (Nat → Byte) → Nat × (Nat → Byte)
  | [], place => place
  | b::rest, (total,out) =>
    if total < capacity then storeBytes capacity rest (total + 1,Function.update out total b) else (total,out)

def httpRound (e : Line) (c : Connection) (capacity : Nat) (p : Page) : Page × Option Ended :=
  if p.total < capacity then
    match tcpWait e c p.tcp.nextSeq 1500 p.tcp with
    | (tcp,.failed) => ({p with tcp},some .failed)
    | (tcp,.opened) => ({p with tcp},none)
    | (tcp,.finished) => ({p with tcp},some .finished)
    | (tcp,.data bytes) =>
      let (total,out) := storeBytes capacity bytes (p.total,p.out)
      if bytes.length = 0 then (⟨tcp,total,out⟩,none)
      else if total ≥ capacity then (⟨tcp,total,out⟩,some .full)
      else (⟨tcp,total,out⟩,none)
  else (p,some .full)

/-- The result of a call, where `none` is -1, the buffer and the way the loop ended. -/
structure Fetched where
  result : Option Nat
  out : Nat → Byte
  ended : Option Ended
  link : Link

/-- The part of `net_http_get` after its loop. -/
def httpFinish (e : Line) (c : Connection) (capacity : Nat) : Page × Ended → Fetched
  | (p,.failed) => ⟨if p.total ≠ 0 then some p.total else none,p.out,some .failed,p.tcp.link⟩
  | (p,ended) =>
    let (link,_) := e.transmit c p.tcp.link ⟨p.tcp.nextSeq,p.tcp.nextAck,tcpFin ||| tcpAck,[]⟩
    let total := if p.total ≥ capacity then capacity - 1 else p.total
    ⟨some total,Function.update p.out total 0,some ended,link⟩

def netHttpGet (e : Line) (pid targetIp : BitVec 32) (path : List Byte) (out : Nat → Byte) (capacity : Nat)
    (ipId : BitVec 16) : Fetched :=
  let start : Link := ⟨0,ipId,[],[]⟩
  if e.ready = false ∨ capacity < 2 then ⟨none,out,none,start⟩
  else match httpConnect e pid targetIp path start with
    | (l,none) => ⟨none,out,none,l⟩
    | (_,some (c,tcp)) => httpFinish e c capacity (attempts (httpRound e c capacity) .spent 64 ⟨tcp,0,out⟩)

end LionOS.Net
