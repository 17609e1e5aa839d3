import LionOS.Library.Scan
import LionOS.Net.Receive
import LionOS.Net.Wire

/-! The parsers of the network driver over the buffer of a poll, with the bytes that they
read. The buffer keeps the bytes of earlier polls behind the frame. -/
namespace LionOS.Net
open LionOS.Library
open LionOS.Physical (Byte)

def scanByte (i : Nat) : Scan Byte Byte := Scan.item i

def scan16 (i : Nat) : Scan Byte (BitVec 16) := do
  let low ← scanByte i
  let high ← scanByte (i + 1)
  pure (high ++ low)

def scan32 (i : Nat) : Scan Byte (BitVec 32) := do
  let a ← scanByte i
  let b ← scanByte (i + 1)
  let c ← scanByte (i + 2)
  let d ← scanByte (i + 3)
  pure (d ++ c ++ b ++ a)

/-- The copy of `arp->sha`. -/
def scanMac (i : Nat) : Scan Byte Mac := do
  let a ← scanByte i
  let b ← scanByte (i + 1)
  let c ← scanByte (i + 2)
  let d ← scanByte (i + 3)
  let e ← scanByte (i + 4)
  let f ← scanByte (i + 5)
  pure #v[a,b,c,d,e,f]

/-- What `arp_resolve` does with a frame of `n` bytes. -/
def scanArp (ip : BitVec 32) (n : Nat) : Scan Byte (Option Mac) :=
  if n < ethHdrLen + 28 then pure none
  else do
    let type ← scan16 12
    if be16 type ≠ 0x0806 then pure none
    else do
      let oper ← scan16 (ethHdrLen + 6)
      if be16 oper ≠ 2 then pure none
      else do
        let spa ← scan32 (ethHdrLen + 14)
        if be32 spa ≠ ip then pure none
        else do
          let mac ← scanMac (ethHdrLen + 8)
          pure (some mac)

/-- What `wait_icmp_reply` does with a frame of `n` bytes; `none` is that it goes on. -/
def scanIcmp (targetIp : BitVec 32) (id seq : BitVec 16) (n : Nat) : Scan Byte (Option Int) :=
  if n < ethHdrLen + 20 + 8 then pure none
  else do
    let type ← scan16 12
    if be16 type ≠ 0x0800 then pure none
    else do
      let versionIhl ← scanByte ethHdrLen
      let ihl := (versionIhl &&& 0x0F).toNat * 4
      if versionIhl >>> 4 ≠ 4 ∨ ihl < 20 ∨ n < ethHdrLen + ihl + 8 then pure none
      else do
        let protocol ← scanByte (ethHdrLen + 9)
        if protocol ≠ 1 then pure none
        else do
          let src ← scan32 (ethHdrLen + 12)
          if be32 src ≠ targetIp then pure none
          else do
            let dst ← scan32 (ethHdrLen + 16)
            if be32 dst ≠ netPhysIp then pure none
            else do
              let icmp := ethHdrLen + ihl
              let type ← scanByte icmp
              if type ≠ 0 then pure none
              else do
                let code ← scanByte (icmp + 1)
                if code ≠ 0 then pure none
                else do
                  let echo ← scan16 (icmp + 4)
                  if be16 echo ≠ id then pure none
                  else do
                    let sequence ← scan16 (icmp + 6)
                    if be16 sequence ≠ seq then pure none else pure (some 0)

/-- What `tcp_packet` stores through its pointers; `payload` is a place in the frame. -/
structure Slice where
  seq : BitVec 32
  ack : BitVec 32
  flags : Byte
  payload : Nat
  payloadLen : Nat
  deriving DecidableEq

/-- `tcp_packet`; `none` is the result 0. -/
def scanTcp (targetIp : BitVec 32) (localPort remotePort : BitVec 16) (n : Nat) : Scan Byte (Option Slice) :=
  if n < ethHdrLen + 20 + 20 then pure none
  else do
    let type ← scan16 12
    if be16 type ≠ 0x0800 then pure none
    else do
      let versionIhl ← scanByte ethHdrLen
      let ihl := (versionIhl &&& 0x0F).toNat * 4
      if versionIhl >>> 4 ≠ 4 ∨ ihl < 20 then pure none
      else do
        let protocol ← scanByte (ethHdrLen + 9)
        if protocol ≠ 6 then pure none
        else do
          let src ← scan32 (ethHdrLen + 12)
          if be32 src ≠ targetIp then pure none
          else do
            let dst ← scan32 (ethHdrLen + 16)
            if be32 dst ≠ netPhysIp then pure none
            else if n < ethHdrLen + ihl + 20 then pure none
            else do
              let tcp := ethHdrLen + ihl
              let srcPort ← scan16 tcp
              if be16 srcPort ≠ remotePort then pure none
              else do
                let dstPort ← scan16 (tcp + 2)
                if be16 dstPort ≠ localPort then pure none
                else do
                  let offset ← scanByte (tcp + 12)
                  let thl := (offset >>> 4).toNat * 4
                  if thl < 20 ∨ n < ethHdrLen + ihl + thl then pure none
                  else do
                    let seq ← scan32 (tcp + 4)
                    let ack ← scan32 (tcp + 8)
                    let flags ← scanByte (tcp + 13)
                    let total ← scan16 (ethHdrLen + 2)
                    let ipLen := (be16 total).toNat
                    let headerLen := ihl + thl
                    let payloadLen := if ipLen > headerLen ∧ ipLen ≤ n - ethHdrLen then ipLen - headerLen else 0
                    pure (some ⟨be32 seq,be32 ack,flags,ethHdrLen + ihl + thl,payloadLen⟩)

section Within
open Scan
variable {n : Nat} {buffer : Nat → Byte}

theorem scan16_within {i : Nat} (inside : i + 1 < n) : Within n buffer (scan16 i) := by
  refine Within.bind (Within.item (by omega)) ?_
  exact Within.bind (Within.item inside) (Within.pure _)

theorem scan32_within {i : Nat} (inside : i + 3 < n) : Within n buffer (scan32 i) := by
  refine Within.bind (Within.item (by omega)) ?_
  refine Within.bind (Within.item (by omega)) ?_
  refine Within.bind (Within.item (by omega)) ?_
  exact Within.bind (Within.item inside) (Within.pure _)

theorem scanMac_within {i : Nat} (inside : i + 5 < n) : Within n buffer (scanMac i) := by
  refine Within.bind (Within.item (by omega)) ?_
  refine Within.bind (Within.item (by omega)) ?_
  refine Within.bind (Within.item (by omega)) ?_
  refine Within.bind (Within.item (by omega)) ?_
  refine Within.bind (Within.item (by omega)) ?_
  exact Within.bind (Within.item inside) (Within.pure _)

/-- A test that gives the frame up goes on with what it found. -/
theorem test_within {α : Type} {c : Prop} [Decidable c] {a : α} {p : Scan Byte α} (goes : ¬c → Within n buffer p) :
    Within n buffer (if c then pure a else p) := Within.ite (fun _ => Within.pure a) goes

theorem scanArp_within (ip : BitVec 32) : Within n buffer (scanArp ip n) := by
  refine test_within fun long => ?_
  unfold ethHdrLen at *
  refine Within.bind (scan16_within (by omega)) (test_within fun _ => ?_)
  refine Within.bind (scan16_within (by omega)) (test_within fun _ => ?_)
  refine Within.bind (scan32_within (by omega)) (test_within fun _ => ?_)
  exact Within.bind (scanMac_within (by omega)) (Within.pure _)

theorem scanIcmp_within (targetIp : BitVec 32) (id seq : BitVec 16) : Within n buffer (scanIcmp targetIp id seq n) := by
  refine test_within fun long => ?_
  unfold ethHdrLen at *
  refine Within.bind (scan16_within (by omega)) (test_within fun _ => ?_)
  refine Within.bind (Within.item (by omega)) (test_within fun header => ?_)
  refine Within.bind (Within.item (by omega)) (test_within fun _ => ?_)
  refine Within.bind (scan32_within (by omega)) (test_within fun _ => ?_)
  refine Within.bind (scan32_within (by omega)) (test_within fun _ => ?_)
  refine Within.bind (Within.item (by omega)) (test_within fun _ => ?_)
  refine Within.bind (Within.item (by omega)) (test_within fun _ => ?_)
  refine Within.bind (scan16_within (by omega)) (test_within fun _ => ?_)
  exact Within.bind (scan16_within (by omega)) (test_within fun _ => Within.pure _)

theorem scanTcp_within (targetIp : BitVec 32) (localPort remotePort : BitVec 16) :
    Within n buffer (scanTcp targetIp localPort remotePort n) := by
  refine test_within fun long => ?_
  unfold ethHdrLen at *
  refine Within.bind (scan16_within (by omega)) (test_within fun _ => ?_)
  refine Within.bind (Within.item (by omega)) (test_within fun _ => ?_)
  refine Within.bind (Within.item (by omega)) (test_within fun _ => ?_)
  refine Within.bind (scan32_within (by omega)) (test_within fun _ => ?_)
  refine Within.bind (scan32_within (by omega)) (test_within fun _ => ?_)
  refine test_within fun ports => ?_
  refine Within.bind (scan16_within (by omega)) (test_within fun _ => ?_)
  refine Within.bind (scan16_within (by omega)) (test_within fun _ => ?_)
  refine Within.bind (Within.item (by omega)) (test_within fun _ => ?_)
  refine Within.bind (scan32_within (by omega)) ?_
  refine Within.bind (scan32_within (by omega)) ?_
  refine Within.bind (Within.item (by omega)) ?_
  exact Within.bind (scan16_within (by omega)) (Within.pure _)

end Within

section Values
variable (frame : List Byte)

def bytesOf (frame : List Byte) : Nat → Byte := fun i => frame.getD i 0

theorem scanArp_frame (ip : BitVec 32) : (scanArp ip frame.length).value (bytesOf frame) = arpAnswer ip frame := by
  unfold scanArp arpAnswer
  have word (i : Nat) : (scan16 i).value (bytesOf frame) = load16 frame i := rfl
  have long (i : Nat) : (scan32 i).value (bytesOf frame) = load32 frame i := rfl
  simp only [Scan.value_ite,Scan.value_pure,Scan.value_bind,word,long,ite_or]
  rfl

/-- The segment that `tcp_packet` hands over. -/
def Slice.segment (s : Slice) (frame : List Byte) : Segment :=
  ⟨s.seq,s.ack,s.flags,(frame.drop s.payload).take s.payloadLen⟩

theorem scanTcp_frame (targetIp : BitVec 32) (localPort remotePort : BitVec 16) :
    ((scanTcp targetIp localPort remotePort frame.length).value (bytesOf frame)).map (Slice.segment · frame) =
      tcpPacket targetIp localPort remotePort frame := by
  unfold scanTcp tcpPacket
  have byte (i : Nat) : (scanByte i).value (bytesOf frame) = frame.getD i 0 := rfl
  have word (i : Nat) : (scan16 i).value (bytesOf frame) = load16 frame i := rfl
  have long (i : Nat) : (scan32 i).value (bytesOf frame) = load32 frame i := rfl
  simp only [Scan.value_ite,Scan.value_pure,Scan.value_bind,byte,word,long,ite_or,apply_ite (Option.map (Slice.segment · frame))]
  rfl

end Values

section Slices
variable (buffer : Nat → Byte)

/-- The length fields of a frame. -/
def ipHeaderLen : Nat := (buffer ethHdrLen &&& 0x0F).toNat * 4
def tcpHeaderLen : Nat := (buffer (ethHdrLen + ipHeaderLen buffer + 12) >>> 4).toNat * 4
def ipTotalLen : Nat := (be16 ((scan16 (ethHdrLen + 2)).value buffer)).toNat

/-- The data of a segment: what the lengths say where they agree, and nothing else. -/
def Slice.Fits (s : Slice) (n : Nat) : Prop :=
  s.payload = ethHdrLen + ipHeaderLen buffer + tcpHeaderLen buffer ∧ s.payload + s.payloadLen ≤ n ∧
    if ipHeaderLen buffer + tcpHeaderLen buffer ≤ ipTotalLen buffer ∧ ethHdrLen + ipTotalLen buffer ≤ n then
      s.payload + s.payloadLen = ethHdrLen + ipTotalLen buffer
    else s.payloadLen = 0

variable {buffer}

theorem kept_on {α : Type} {c : Prop} [Decidable c] {p : Option α} {a : α} (found : (if c then none else p) = some a) :
    ¬c ∧ p = some a := by
  split at found
  · cases found
  · exact ⟨‹¬c›,found⟩

theorem scanTcp_slice {targetIp : BitVec 32} {localPort remotePort : BitVec 16} {n : Nat} {s : Slice}
    (found : (scanTcp targetIp localPort remotePort n).value buffer = some s) : s.Fits buffer n := by
  unfold scanTcp at found
  simp only [Scan.value_ite,Scan.value_pure,Scan.value_bind] at found
  obtain ⟨long,found⟩ := kept_on found
  obtain ⟨_,found⟩ := kept_on found
  obtain ⟨_,found⟩ := kept_on found
  obtain ⟨_,found⟩ := kept_on found
  obtain ⟨_,found⟩ := kept_on found
  obtain ⟨_,found⟩ := kept_on found
  obtain ⟨_,found⟩ := kept_on found
  obtain ⟨_,found⟩ := kept_on found
  obtain ⟨_,found⟩ := kept_on found
  obtain ⟨offset,found⟩ := kept_on found
  cases found
  change ¬(tcpHeaderLen buffer < 20 ∨ n < ethHdrLen + ipHeaderLen buffer + tcpHeaderLen buffer) at offset
  change ethHdrLen + ipHeaderLen buffer + tcpHeaderLen buffer = _ ∧
    ethHdrLen + ipHeaderLen buffer + tcpHeaderLen buffer + (if ipTotalLen buffer > ipHeaderLen buffer + tcpHeaderLen buffer ∧
      ipTotalLen buffer ≤ n - ethHdrLen then ipTotalLen buffer - (ipHeaderLen buffer + tcpHeaderLen buffer) else 0) ≤ n ∧
    if ipHeaderLen buffer + tcpHeaderLen buffer ≤ ipTotalLen buffer ∧ ethHdrLen + ipTotalLen buffer ≤ n then
      ethHdrLen + ipHeaderLen buffer + tcpHeaderLen buffer + (if ipTotalLen buffer > ipHeaderLen buffer + tcpHeaderLen buffer ∧
        ipTotalLen buffer ≤ n - ethHdrLen then ipTotalLen buffer - (ipHeaderLen buffer + tcpHeaderLen buffer) else 0) = _
    else (if ipTotalLen buffer > ipHeaderLen buffer + tcpHeaderLen buffer ∧
      ipTotalLen buffer ≤ n - ethHdrLen then ipTotalLen buffer - (ipHeaderLen buffer + tcpHeaderLen buffer) else 0) = 0
  refine ⟨rfl,?_,?_⟩
  · split
    · omega
    · omega
  · split
    · split
      · omega
      · omega
    · rw [if_neg (by omega)]

end Slices

/-- A call that polls: how far it has come, the buffer, and for each poll the length of the frame
and the places read. -/
structure Inbox where
  link : Link
  buffer : Nat → Byte
  reads : List (Nat × List Nat)

section Polls
variable (e : Line)

def scanTurn {α ρ : Type} (scan : Nat → Scan Byte (Option α)) (result : α → ρ) (s : Inbox) : Inbox × Option ρ :=
  let (link,frame) := e.rtlPoll s.link
  let buffer := writeAt s.buffer 0 frame
  (⟨link,buffer,s.reads ++ [(frame.length,(scan frame.length).reads buffer)]⟩,
    ((scan frame.length).value buffer).map result)

def scanAttempt (ip : BitVec 32) (s : Inbox) : Inbox × Option (Option Mac) :=
  match e.rtlTxFrame s.link (arpRequest e.rtlMac ip) with
  | (link,false) => ({s with link},some none)
  | (link,true) => match attempts (scanTurn e (scanArp ip) some) none 200000 {s with link} with
    | (s,none) => (s,none)
    | (s,some mac) => (s,some (some mac))

/-- `arp_resolve`, with the bytes that it reads. -/
def scanResolve (ip : BitVec 32) (s : Inbox) : Inbox × Option Mac := attempts (scanAttempt e ip) none 3 s

def waitIcmpReply (targetIp : BitVec 32) (id seq : BitVec 16) (s : Inbox) : Inbox × Int :=
  attempts (scanTurn e (scanIcmp targetIp id seq) fun done => done) (-1) 300000 s

theorem writeAt_front (buffer : Nat → Byte) (frame : List Byte) (i : Nat) (inside : i < frame.length) :
    writeAt buffer 0 frame i = bytesOf frame i := by
  unfold writeAt bytesOf
  rw [if_pos (Nat.zero_le i),Nat.sub_zero,List.getD_eq_getElem?_getD,List.getElem?_eq_getElem inside]
  rfl

theorem scanTurn_link (ip : BitVec 32) (s : Inbox) :
    arpTurn e ip s.link = ((scanTurn e (scanArp ip) some s).1.link,(scanTurn e (scanArp ip) some s).2) := by
  unfold arpTurn scanTurn
  rcases e.rtlPoll s.link with ⟨link,frame⟩
  have within : Scan.Within frame.length (bytesOf frame) (scanArp ip frame.length) := scanArp_within ip
  dsimp only
  rw [within.value_eq (writeAt_front s.buffer frame),scanArp_frame]

theorem scanAttempt_link (ip : BitVec 32) (s : Inbox) :
    arpAttempt e ip s.link = ((scanAttempt e ip s).1.link,(scanAttempt e ip s).2) := by
  unfold arpAttempt scanAttempt
  rcases e.rtlTxFrame s.link (arpRequest e.rtlMac ip) with ⟨link,_ | _⟩
  · rfl
  have loop : attempts (arpTurn e ip) none 200000 link = ((attempts (scanTurn e (scanArp ip) some) none 200000 {s with link}).1.link,
      (attempts (scanTurn e (scanArp ip) some) none 200000 {s with link}).2) :=
    attempts_map Inbox.link (scanTurn_link e ip) 200000 {s with link}
  dsimp only
  rw [loop]
  rcases attempts (scanTurn e (scanArp ip) some) none 200000 {s with link} with ⟨s',_ | mac⟩
  · rfl
  · rfl

/-- The reading of the bytes changes nothing. -/
theorem scanResolve_link (ip : BitVec 32) (s : Inbox) :
    arpResolve e ip s.link = ((scanResolve e ip s).1.link,(scanResolve e ip s).2) :=
  attempts_map Inbox.link (scanAttempt_link e ip) 3 s

/-- Every poll so far read inside its frame only. -/
def Inbox.Inside (s : Inbox) : Prop := ∀ poll ∈ s.reads, ∀ i ∈ poll.2, i < poll.1

variable {e}

theorem scanTurn_inside {α ρ : Type} {scan : Nat → Scan Byte (Option α)} {result : α → ρ}
    (within : ∀ n buffer, (scan n).Within n buffer) (s : Inbox) (inside : s.Inside) : (scanTurn e scan result s).1.Inside := by
  unfold scanTurn
  rcases e.rtlPoll s.link with ⟨link,frame⟩
  intro poll member
  rcases List.mem_append.mp member with earlier | now
  · exact inside poll earlier
  · rw [List.mem_singleton.mp now]
    exact within frame.length _

theorem scanAttempt_inside (ip : BitVec 32) (s : Inbox) (inside : s.Inside) : (scanAttempt e ip s).1.Inside := by
  unfold scanAttempt
  rcases e.rtlTxFrame s.link (arpRequest e.rtlMac ip) with ⟨link,_ | _⟩
  · exact inside
  have loop : (attempts (scanTurn e (scanArp ip) some) none 200000 {s with link}).1.Inside :=
    attempts_invariant (scanTurn_inside fun _ _ => scanArp_within ip) inside
  revert loop
  dsimp only
  rcases attempts (scanTurn e (scanArp ip) some) none 200000 {s with link} with ⟨s',_ | mac⟩
  · exact id
  · exact id

/-- The parsers read inside the frame only, whatever it holds, and the data of a segment is
inside it. -/
theorem parsers_inside :
    (∀ e ip link buffer, (scanResolve e ip ⟨link,buffer,[]⟩).1.Inside) ∧
      (∀ e targetIp id seq link buffer, (waitIcmpReply e targetIp id seq ⟨link,buffer,[]⟩).1.Inside) ∧
        ∀ targetIp localPort remotePort n buffer, (scanTcp targetIp localPort remotePort n).Within n buffer ∧
          ∀ s, (scanTcp targetIp localPort remotePort n).value buffer = some s → s.Fits buffer n := by
  have start (link : Link) (buffer : Nat → Byte) : Inbox.Inside ⟨link,buffer,[]⟩ := by
    intro poll member
    cases member
  refine ⟨fun e ip link buffer => ?_,fun e targetIp id seq link buffer => ?_,fun targetIp localPort remotePort n buffer => ?_⟩
  · exact attempts_invariant (scanAttempt_inside ip) (start link buffer)
  · exact attempts_invariant (scanTurn_inside fun _ _ => scanIcmp_within targetIp id seq) (start link buffer)
  · exact ⟨scanTcp_within targetIp localPort remotePort,fun s found => scanTcp_slice found⟩

end Polls

/-- A frame of a connection whose IP header gives the total length 0. -/
def lengthless : List Byte :=
  List.replicate 12 0 ++ [0x08,0x00] ++ [0x45,0,0,0,0,0,0,0,64,6,0,0] ++ [10,0,2,2] ++ [10,0,2,15] ++
    [0,80,0x9C,0x40] ++ List.replicate 8 0 ++ [0x50,0x10] ++ List.replicate 12 0

theorem lengthless_slice :
    lengthless.length = 60 ∧ ipTotalLen (bytesOf lengthless) = 0 ∧ ∃ s,
      (scanTcp 0x0A000202 40000 80 lengthless.length).value (bytesOf lengthless) = some s ∧
        s.payload + s.payloadLen ≠ ethHdrLen + ipTotalLen (bytesOf lengthless) :=
  ⟨by decide +kernel,by decide +kernel,⟨0,0,0x10,54,0⟩,by decide +kernel,by decide +kernel⟩

end LionOS.Net
