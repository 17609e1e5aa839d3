import LionOS.Net.Checksums
import LionOS.Net.Receive
import LionOS.Net.Tcp

/-! Segments in frames: the fields of the headers with their options, and what the driver
finds in a frame that carries a segment. -/
namespace LionOS.Net
open LionOS.Library
open LionOS.Physical (Byte)

/-- What a frame holds besides the addresses and the segment: options in whole words, the
fields that nobody reads, and the padding behind the data. -/
structure Envelope where
  dst : Mac
  src : Mac
  tos : Byte
  ident : BitVec 16
  frag : BitVec 16
  ttl : Byte
  ipChecksum : BitVec 16
  ipOptions : List Byte
  ihl : BitVec 4
  ipSize : ihl.toNat * 4 = 20 + ipOptions.length
  tcpOptions : List Byte
  thl : BitVec 4
  tcpSize : thl.toNat * 4 = 20 + tcpOptions.length
  reserved : BitVec 4
  window : BitVec 16
  checksum : BitVec 16
  urgent : BitVec 16
  padding : List Byte

def Envelope.ip (v : Envelope) (length : BitVec 16) (src dst : BitVec 32) : List Byte :=
  [(4 : BitVec 4) ++ v.ihl,v.tos] ++ store16 (be16 length) ++ store16 (be16 v.ident) ++ store16 (be16 v.frag) ++ [v.ttl,6] ++
    store16 v.ipChecksum ++ store32 (be32 src) ++ store32 (be32 dst) ++ v.ipOptions

def Envelope.tcp (v : Envelope) (ports : Ports) (s : Segment) : List Byte :=
  store16 (be16 ports.src) ++ store16 (be16 ports.dst) ++ store32 (be32 s.seq) ++ store32 (be32 s.ack) ++
    [v.thl ++ v.reserved,s.flags] ++ store16 (be16 v.window) ++ store16 v.checksum ++ store16 v.urgent ++ v.tcpOptions

def Envelope.length (v : Envelope) (s : Segment) : Nat := v.ihl.toNat * 4 + v.thl.toNat * 4 + s.payload.length

/-- A frame with a segment from one port to another. -/
def wire (v : Envelope) (src dst : BitVec 32) (ports : Ports) (s : Segment) : List Byte :=
  ethHeader v.dst v.src ++ (v.ip (BitVec.ofNat 16 (v.length s)) src dst ++ (v.tcp ports s ++ (s.payload ++ v.padding)))

theorem bytes16 (x : BitVec 16) : ((x >>> 8).setWidth 8 ++ x.setWidth 8 : BitVec (8 + 8)) = x := by
  apply BitVec.eq_of_getLsbD_eq
  intro i inside
  simp only [BitVec.getLsbD_append,BitVec.getLsbD_setWidth,BitVec.getLsbD_ushiftRight]
  grind

theorem bytes32 (x : BitVec 32) :
    ((x >>> 24).setWidth 8 ++ (x >>> 16).setWidth 8 ++ (x >>> 8).setWidth 8 ++ x.setWidth 8 : BitVec (8 + 8 + 8 + 8)) = x := by
  apply BitVec.eq_of_getLsbD_eq
  intro i inside
  simp only [BitVec.getLsbD_append,BitVec.getLsbD_setWidth,BitVec.getLsbD_ushiftRight]
  grind

theorem be16_be16 (x : BitVec 16) : be16 (be16 x) = x := by
  apply BitVec.eq_of_getLsbD_eq
  intro i inside
  simp only [be16,bswap16,BitVec.getLsbD_or,BitVec.getLsbD_shiftLeft,BitVec.getLsbD_ushiftRight]
  grind

theorem be32_be32 (x : BitVec 32) : be32 (be32 x) = x := by
  apply BitVec.eq_of_getLsbD_eq
  intro i inside
  obtain ⟨j,k,low,byte,rfl⟩ : ∃ j k, k < 8 ∧ j < 4 ∧ i = 8 * j + k := ⟨i / 8,i % 8,by omega,by omega,by omega⟩
  unfold be32
  rw [bswap32_bit _ low byte,bswap32_bit _ low (by omega)]
  congr 1
  omega

section Fields
variable {front rest : List Byte} {i : Nat}

theorem getD_after (length : front.length = i) (j : Nat) : (front ++ rest).getD (i + j) 0 = rest.getD j 0 := by
  rw [List.getD_eq_getElem?_getD,List.getD_eq_getElem?_getD,List.getElem?_append_right (by omega),← length,
    Nat.add_sub_cancel_left]

theorem load16_after (length : front.length = i) (j : Nat) : load16 (front ++ rest) (i + j) = load16 rest j := by
  unfold load16
  rw [getD_after length j,← getD_after length (j + 1)]
  rfl

theorem load32_after (length : front.length = i) (j : Nat) : load32 (front ++ rest) (i + j) = load32 rest j := by
  unfold load32
  rw [← getD_after length j,← getD_after length (j + 1),← getD_after length (j + 2),← getD_after length (j + 3)]
  rfl

end Fields

section Carried
variable (v : Envelope) (s : Segment) (rest : List Byte)

theorem ip_length (length : BitVec 16) (src dst : BitVec 32) : (v.ip length src dst).length = v.ihl.toNat * 4 := by
  rw [v.ipSize]
  simp only [Envelope.ip,List.length_append,store16_length,store32_length,List.length_cons,List.length_nil]

theorem tcp_length (ports : Ports) : (v.tcp ports s).length = v.thl.toNat * 4 := by
  rw [v.tcpSize]
  simp only [Envelope.tcp,List.length_append,store16_length,store32_length,List.length_cons,List.length_nil]

/-- The fields of the IP header that the driver reads. -/
theorem ip_fields (length : BitVec 16) (src dst : BitVec 32) :
    (v.ip length src dst ++ rest).getD 0 0 = (4 : BitVec 4) ++ v.ihl ∧ (v.ip length src dst ++ rest).getD 9 0 = 6 ∧
      be16 (load16 (v.ip length src dst ++ rest) 2) = length ∧ be32 (load32 (v.ip length src dst ++ rest) 12) = src ∧
        be32 (load32 (v.ip length src dst ++ rest) 16) = dst := by
  have size : load16 (v.ip length src dst ++ rest) 2 = be16 length := bytes16 (be16 length)
  have source : load32 (v.ip length src dst ++ rest) 12 = be32 src := bytes32 (be32 src)
  have target : load32 (v.ip length src dst ++ rest) 16 = be32 dst := bytes32 (be32 dst)
  rw [size,source,target,be16_be16,be32_be32,be32_be32]
  exact ⟨rfl,rfl,rfl,rfl,rfl⟩

theorem tcp_fields (ports : Ports) :
    be16 (load16 (v.tcp ports s ++ rest) 0) = ports.src ∧ be16 (load16 (v.tcp ports s ++ rest) 2) = ports.dst ∧
      be32 (load32 (v.tcp ports s ++ rest) 4) = s.seq ∧ be32 (load32 (v.tcp ports s ++ rest) 8) = s.ack ∧
        (v.tcp ports s ++ rest).getD 12 0 = v.thl ++ v.reserved ∧ (v.tcp ports s ++ rest).getD 13 0 = s.flags := by
  have source : load16 (v.tcp ports s ++ rest) 0 = be16 ports.src := bytes16 (be16 ports.src)
  have target : load16 (v.tcp ports s ++ rest) 2 = be16 ports.dst := bytes16 (be16 ports.dst)
  have seq : load32 (v.tcp ports s ++ rest) 4 = be32 s.seq := bytes32 (be32 s.seq)
  have ack : load32 (v.tcp ports s ++ rest) 8 = be32 s.ack := bytes32 (be32 s.ack)
  rw [source,target,seq,ack,be16_be16,be16_be16,be32_be32,be32_be32]
  exact ⟨rfl,rfl,rfl,rfl,rfl,rfl⟩

theorem high_nibble : ∀ a b : BitVec 4, ((a ++ b : BitVec (4 + 4)) >>> 4 : BitVec 8).toNat = a.toNat := by
  decide +kernel

theorem low_nibble : ∀ a b : BitVec 4, ((a ++ b : BitVec (4 + 4)) &&& 0x0F : BitVec 8).toNat = b.toNat := by
  decide +kernel

end Carried

/-- The driver finds in a whole frame of the connection the segment that it carries. -/
theorem tcpPacket_wire {v : Envelope} {targetIp : BitVec 32} {localPort remotePort : BitVec 16} {s : Segment}
    (whole : (wire v targetIp netPhysIp ⟨remotePort,localPort⟩ s).length ≤ ethMtu + ethHdrLen) :
    tcpPacket targetIp localPort remotePort (wire v targetIp netPhysIp ⟨remotePort,localPort⟩ s) = some s := by
  have eth := ethHeader_length v.dst v.src
  have ip := ip_length v (BitVec.ofNat 16 (v.length s)) targetIp netPhysIp
  have tcp := tcp_length v s ⟨remotePort,localPort⟩
  obtain ⟨version,protocol,size,source,target⟩ := ip_fields v
    (v.tcp ⟨remotePort,localPort⟩ s ++ (s.payload ++ v.padding)) (BitVec.ofNat 16 (v.length s)) targetIp netPhysIp
  obtain ⟨srcPort,dstPort,seq,ack,offset,flags⟩ := tcp_fields v s (s.payload ++ v.padding) ⟨remotePort,localPort⟩
  have ethertype : be16 (load16 (wire v targetIp netPhysIp ⟨remotePort,localPort⟩ s) 12) = 0x0800 := by
    unfold wire ethHeader
    rw [List.append_assoc]
    have macs : (v.dst.toList ++ v.src.toList).length = 12 := by
      rw [List.length_append,Vector.length_toList,Vector.length_toList]
    rw [load16_after macs 0]
    exact (congrArg be16 (bytes16 (be16 0x0800))).trans (be16_be16 0x0800)
  have ipSize := v.ipSize
  have tcpSize := v.tcpSize
  unfold wire at whole ethertype ⊢
  generalize v.ip (BitVec.ofNat 16 (v.length s)) targetIp netPhysIp = header at *
  generalize v.tcp ⟨remotePort,localPort⟩ s = segment at *
  generalize ethHeader v.dst v.src = front at *
  have lengths : (front ++ (header ++ (segment ++ (s.payload ++ v.padding)))).length =
      ethHdrLen + v.ihl.toNat * 4 + v.thl.toNat * 4 + s.payload.length + v.padding.length := by
    rw [List.length_append,List.length_append,List.length_append,List.length_append,eth,ip,tcp]
    omega
  rw [lengths] at whole
  have total : (BitVec.ofNat 16 (v.length s)).toNat = v.length s := by
    rw [BitVec.toNat_ofNat]
    refine Nat.mod_eq_of_lt ?_
    unfold Envelope.length
    unfold ethMtu at whole
    omega
  -- the fields of the TCP header, behind the options of the IP header
  have both : (front ++ header).length = ethHdrLen + v.ihl.toNat * 4 := by rw [List.length_append,eth,ip]
  have assoc := List.append_assoc front header (segment ++ (s.payload ++ v.padding))
  have half (j : Nat) : load16 (front ++ (header ++ (segment ++ (s.payload ++ v.padding)))) (ethHdrLen + v.ihl.toNat * 4 + j) =
      load16 (segment ++ (s.payload ++ v.padding)) j := by
    rw [← assoc]
    exact load16_after both j
  have word (j : Nat) : load32 (front ++ (header ++ (segment ++ (s.payload ++ v.padding)))) (ethHdrLen + v.ihl.toNat * 4 + j) =
      load32 (segment ++ (s.payload ++ v.padding)) j := by
    rw [← assoc]
    exact load32_after both j
  have byte (j : Nat) : (front ++ (header ++ (segment ++ (s.payload ++ v.padding)))).getD (ethHdrLen + v.ihl.toNat * 4 + j) 0 =
      (segment ++ (s.payload ++ v.padding)).getD j 0 := by
    rw [← assoc]
    exact getD_after both j
  have data : (front ++ (header ++ (segment ++ (s.payload ++ v.padding)))).drop (ethHdrLen + v.ihl.toNat * 4 + v.thl.toNat * 4) =
      s.payload ++ v.padding := by
    rw [← assoc,← List.append_assoc (front ++ header)]
    apply List.drop_left'
    rw [List.length_append,both,tcp]
  have four : ((4 : BitVec 4) ++ v.ihl : BitVec 8) >>> 4 = 4 := BitVec.eq_of_toNat_eq (high_nibble 4 v.ihl)
  have nibble : (((4 : BitVec 4) ++ v.ihl : BitVec 8) &&& 0x0F).toNat = v.ihl.toNat := low_nibble 4 v.ihl
  have nibble' : ((v.thl ++ v.reserved : BitVec 8) >>> 4).toNat = v.thl.toNat := high_nibble v.thl v.reserved
  have first := (@getD_after front (header ++ (segment ++ (s.payload ++ v.padding))) _ eth 0).trans version
  have place := half 0
  rw [Nat.add_zero] at first place
  unfold tcpPacket
  dsimp only
  rw [lengths,ethertype,first,getD_after eth 9,load32_after eth 12,load32_after eth 16,load16_after eth 2,protocol,size,
    source,target,nibble,place,srcPort,half 2,dstPort,byte 12,offset,nibble',word 4,seq,word 8,ack,byte 13,flags,data,total]
  have length : (if v.length s > v.ihl.toNat * 4 + v.thl.toNat * 4 ∧ v.length s ≤
      ethHdrLen + v.ihl.toNat * 4 + v.thl.toNat * 4 + s.payload.length + v.padding.length - ethHdrLen then
        v.length s - (v.ihl.toNat * 4 + v.thl.toNat * 4) else 0) = s.payload.length := by
    unfold Envelope.length
    split
    · omega
    · omega
  have versioned : ¬(((4 : BitVec 4) ++ v.ihl : BitVec 8) >>> 4 ≠ 4 ∨ v.ihl.toNat * 4 < 20 ∨ (6 : Byte) ≠ 6) := by
    rintro (other | short | other)
    · exact other four
    · omega
    · exact other rfl
  have same {α : Type} (x y : α) : ¬(x ≠ x ∨ y ≠ y) := fun other => other.elim (absurd rfl) (absurd rfl)
  rw [length,List.take_left,if_neg (by omega),if_neg (not_not.mpr rfl),if_neg versioned,if_neg (same _ _),if_neg (by omega),
    if_neg (same _ _),if_neg (by omega)]

/-- The data of a segment is inside the frame. -/
theorem tcpPacket_short {targetIp : BitVec 32} {localPort remotePort : BitVec 16} {frame : List Byte} {s : Segment}
    (found : tcpPacket targetIp localPort remotePort frame = some s) : s.payload.length + 40 + ethHdrLen ≤ frame.length := by
  unfold tcpPacket at found
  dsimp only at found
  split at found
  · cases found
  split at found
  · cases found
  split at found
  · cases found
  next versioned =>
    split at found
    · cases found
    split at found
    · cases found
    split at found
    · cases found
    split at found
    · cases found
    next sized =>
      cases found
      rw [List.length_take,List.length_drop]
      omega

/-- The frames that the driver sends carry the segments that it means. -/
theorem sendTcp_wire {rtlMac dstMac : Mac} {ipId : BitVec 16} {dstIp seq ack : BitVec 32} {ports : Ports} {flags : Byte}
    {payload frame : List Byte} (made : sendTcp rtlMac ipId dstIp dstMac ports seq ack flags payload = some frame) :
    ∃ v, frame = wire v netPhysIp dstIp ports ⟨seq,ack,flags,payload⟩ := by
  unfold sendTcp at made
  dsimp only at made
  split at made
  · cases made
  cases made
  refine ⟨⟨dstMac,rtlMac,0,ipId,0,64,checksum16 (ipv4Header (BitVec.ofNat 16 (20 + (20 + payload.length) % 2^32)) ipId 6 dstIp 0),
    [],5,rfl,[],5,rfl,0,8192,tcpChecksum netPhysIp dstIp (tcpHeader ports seq ack flags 0 ++ payload),0,[]⟩,?_⟩
  have length : BitVec.ofNat 16 (20 + (20 + payload.length) % 2^32) = BitVec.ofNat 16 (5 * 4 + 5 * 4 + payload.length) := by
    apply BitVec.eq_of_toNat_eq
    rw [BitVec.toNat_ofNat,BitVec.toNat_ofNat]
    omega
  unfold ipv4
  rw [length]
  generalize checksum16 (ipv4Header (BitVec.ofNat 16 (5 * 4 + 5 * 4 + payload.length)) ipId 6 dstIp 0) = sum
  simp only [wire,Envelope.ip,Envelope.tcp,ipv4Header,tcpHeader,Envelope.length,List.append_nil,List.append_assoc]
  rfl

end LionOS.Net
