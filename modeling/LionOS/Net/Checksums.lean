import LionOS.Net.Frames

/-! When the checksums of the frames that are sent come out right. -/
namespace LionOS.Net
open LionOS.Library
open LionOS.Physical (Byte)

/-- A 16-bit number with its bytes exchanged. -/
def swapped (x : Nat) : Nat := x % 2^8 * 2^8 + x / 2^8

/-- The two 16-bit halves of a number, added. -/
def halves (x : BitVec 32) : Nat := x.toNat / 2^16 + x.toNat % 2^16

theorem foldCarry_around (sum : Nat) : foldCarry sum = endAround sum := by
  induction sum using endAround.induct with
  | case1 sum small =>
    have top : sum >>> 16 = 0 := by
      rw [Nat.shiftRight_eq_div_pow]
      omega
    rw [endAround,if_pos small,foldCarry,if_pos top]
  | case2 sum large ih =>
    have top : ¬sum >>> 16 = 0 := by
      rw [Nat.shiftRight_eq_div_pow]
      omega
    have low : sum &&& 0xFFFF = sum % 2^16 := Nat.and_two_pow_sub_one_eq_mod sum 16
    have round : foldCarry sum = foldCarry ((sum &&& 0xFFFF) + sum >>> 16) := by rw [foldCarry,if_neg top]
    rw [endAround,if_neg large,round,low,Nat.shiftRight_eq_div_pow,ih]

theorem sumWords_total {sum : Nat} {data : List Byte} (small : sum + wordTotal data < 2^32) :
    sumWords sum data = sum + wordTotal data := by
  induction data using wordTotal.induct generalizing sum with
  | case1 a b rest ih =>
    have word : a.toNat <<< 8 ||| b.toNat = a.toNat * 2^8 + b.toNat := by
      rw [← Nat.shiftLeft_add_eq_or_of_lt b.isLt,Nat.shiftLeft_eq]
    rw [wordTotal,← Nat.add_assoc] at small ⊢
    have fits := Nat.lt_of_le_of_lt (Nat.le_add_right _ _) small
    rw [sumWords,word,Nat.mod_eq_of_lt fits,ih small]
  | case2 a =>
    rw [wordTotal] at small ⊢
    rw [sumWords,Nat.shiftLeft_eq,Nat.mod_eq_of_lt small]
  | case3 => rfl

theorem checksum_value (sum : Nat) : (~~~BitVec.ofNat 16 (foldCarry sum)).toNat = 65535 - endAround sum := by
  have below := endAround_lt sum
  rw [foldCarry_around,BitVec.toNat_not,BitVec.toNat_ofNat,Nat.mod_eq_of_lt below]

theorem wordTotal_store16 (x : BitVec 16) (rest : List Byte) :
    wordTotal (store16 x ++ rest) = swapped x.toNat + wordTotal rest := by
  have below := x.isLt
  unfold store16 swapped
  rw [List.cons_append,List.singleton_append,wordTotal_pair,BitVec.toNat_setWidth,BitVec.toNat_setWidth,
    BitVec.toNat_ushiftRight,Nat.shiftRight_eq_div_pow]
  omega

theorem bswap16_value (x : BitVec 16) : (bswap16 x).toNat = swapped x.toNat := by
  have below := x.isLt
  unfold bswap16 swapped
  rw [BitVec.toNat_or,BitVec.toNat_shiftLeft,BitVec.toNat_ushiftRight,Nat.shiftRight_eq_div_pow]
  have parts : x.toNat <<< 8 % 2^16 = (x.toNat % 2^8) <<< 8 := by
    rw [Nat.shiftLeft_eq,Nat.shiftLeft_eq]
    omega
  rw [parts,← Nat.shiftLeft_add_eq_or_of_lt (by omega),Nat.shiftLeft_eq]

theorem wordTotal_be16 (x : BitVec 16) (rest : List Byte) :
    wordTotal (store16 (be16 x) ++ rest) = x.toNat + wordTotal rest := by
  have below := x.isLt
  rw [wordTotal_store16,be16,bswap16_value]
  unfold swapped
  omega

/-- The bits of a number that lie inside one of its bytes. -/
theorem masked_bit (x mask : BitVec 32) (low high : Nat)
    (range : ∀ i, i < 32 → mask.getLsbD i = decide (low ≤ i ∧ i < high)) (i : Nat) :
    (x &&& mask).getLsbD i = (decide (low ≤ i ∧ i < high) && x.getLsbD i) := by
  rw [BitVec.getLsbD_and]
  by_cases inside : i < 32
  · rw [range i inside,Bool.and_comm]
  · rw [BitVec.getLsbD_of_ge x i (Nat.not_lt.mp inside),Bool.false_and,Bool.and_false]

theorem bswap32_bit (x : BitVec 32) {i j : Nat} (low : i < 8) (byte : j < 4) :
    (bswap32 x).getLsbD (8 * j + i) = x.getLsbD (8 * (3 - j) + i) := by
  have first := masked_bit x 0xFF 0 8 (by decide)
  have second := masked_bit x 0xFF00 8 16 (by decide)
  have third := masked_bit x 0xFF0000 16 24 (by decide)
  have fourth := masked_bit x 0xFF000000 24 32 (by decide)
  unfold bswap32
  simp only [BitVec.getLsbD_or,BitVec.getLsbD_shiftLeft,BitVec.getLsbD_ushiftRight,first,second,third,fourth]
  have cases : j = 0 ∨ j = 1 ∨ j = 2 ∨ j = 3 := by omega
  rcases cases with rfl | rfl | rfl | rfl
  · grind
  · grind
  · grind
  · grind

/-- A big-endian field of 32 bits is stored high byte first. -/
theorem store32_be32 (x : BitVec 32) :
    store32 (be32 x) = [(x >>> 24).setWidth 8,(x >>> 16).setWidth 8,(x >>> 8).setWidth 8,x.setWidth 8] := by
  have byte : ∀ j, j < 4 → (bswap32 x >>> (8 * j)).setWidth 8 = (x >>> (8 * (3 - j))).setWidth 8 := by
    intro j inside
    apply BitVec.eq_of_getLsbD_eq
    intro i low
    rw [BitVec.getLsbD_setWidth,BitVec.getLsbD_setWidth,BitVec.getLsbD_ushiftRight,BitVec.getLsbD_ushiftRight,
      bswap32_bit x low inside]
  have first := byte 0 (by decide)
  have last := byte 3 (by decide)
  rw [Nat.mul_zero,BitVec.ushiftRight_zero] at first
  rw [Nat.sub_self,Nat.mul_zero,BitVec.ushiftRight_zero] at last
  unfold store32 be32
  rw [first,byte 1 (by decide),byte 2 (by decide),last]

theorem byte_value (x : BitVec 32) (n : Nat) : ((x >>> n).setWidth 8).toNat = x.toNat / 2^n % 2^8 := by
  rw [BitVec.toNat_setWidth,BitVec.toNat_ushiftRight,Nat.shiftRight_eq_div_pow]

theorem wordTotal_big (x : BitVec 32) (rest : List Byte) :
    wordTotal ([(x >>> 24).setWidth 8,(x >>> 16).setWidth 8,(x >>> 8).setWidth 8,x.setWidth 8] ++ rest) =
      halves x + wordTotal rest := by
  have below := x.isLt
  simp only [List.cons_append,List.nil_append]
  rw [wordTotal_pair,wordTotal_pair,byte_value,byte_value,byte_value,BitVec.toNat_setWidth]
  unfold halves
  omega

theorem wordTotal_be32 (x : BitVec 32) (rest : List Byte) :
    wordTotal (store32 (be32 x) ++ rest) = halves x + wordTotal rest := by
  rw [store32_be32]
  exact wordTotal_big x rest

/-- The plain sum of an IPv4 header without its checksum. -/
def ipSum (length id : BitVec 16) (protocol : Byte) (target : BitVec 32) : Nat :=
  0x4500 + length.toNat + id.toNat + (0x4000 + protocol.toNat) + halves netPhysIp + halves target

/-- The plain sum of an ICMP message without its checksum. -/
def icmpSum (id seq : BitVec 16) : Nat := 0x0800 + id.toNat + seq.toNat + wordTotal icmpData

/-- The plain sum of a TCP segment and its pseudo-header without the checksum. -/
def tcpSum (dstIp : BitVec 32) (ports : Ports) (seq ack : BitVec 32) (flags : Byte) (payload : List Byte) : Nat :=
  halves netPhysIp + halves dstIp + 6 + (20 + payload.length) + ports.src.toNat + ports.dst.toNat + halves seq + halves ack +
    (0x5000 + flags.toNat) + 8192 + wordTotal payload

theorem swapped_zero : swapped (0 : BitVec 16).toNat = 0 := by decide

theorem first_word : (0x45 : Byte).toNat * 2^8 + (0 : Byte).toNat = 0x4500 := by decide

theorem echo_word : (8 : Byte).toNat * 2^8 + (0 : Byte).toNat = 0x0800 := by decide

theorem ipv4Header_total (length id : BitVec 16) (protocol : Byte) (target : BitVec 32) (checksum : BitVec 16) :
    wordTotal (ipv4Header length id protocol target checksum) =
      ipSum length id protocol target + swapped checksum.toNat := by
  unfold ipv4Header
  simp only [List.append_assoc]
  rw [List.cons_append,List.singleton_append,wordTotal_pair,wordTotal_be16,wordTotal_be16,wordTotal_store16,List.cons_append,
    List.singleton_append,wordTotal_pair,wordTotal_store16,wordTotal_be32,← List.append_nil (store32 (be32 target)),
    wordTotal_be32]
  unfold ipSum
  rw [swapped_zero,first_word,wordTotal,(by decide : (64 : Byte).toNat = 64)]
  omega

theorem icmpHeader_total (checksum id seq : BitVec 16) (rest : List Byte) :
    wordTotal (icmpHeader checksum id seq ++ rest) =
      0x0800 + id.toNat + seq.toNat + wordTotal rest + swapped checksum.toNat := by
  unfold icmpHeader
  simp only [List.append_assoc]
  rw [List.cons_append,List.singleton_append,wordTotal_pair,wordTotal_store16,wordTotal_be16,wordTotal_be16]
  rw [echo_word]
  omega

theorem tcpHeader_total (ports : Ports) (seq ack : BitVec 32) (flags : Byte) (checksum : BitVec 16) (rest : List Byte) :
    wordTotal (tcpHeader ports seq ack flags checksum ++ rest) =
      ports.src.toNat + ports.dst.toNat + halves seq + halves ack + (0x5000 + flags.toNat) + 8192 + wordTotal rest +
        swapped checksum.toNat := by
  unfold tcpHeader
  simp only [List.append_assoc]
  rw [wordTotal_be16,wordTotal_be16,wordTotal_be32,wordTotal_be32,List.cons_append,List.singleton_append,wordTotal_pair,
    wordTotal_be16,wordTotal_store16,wordTotal_store16]
  rw [swapped_zero,(by decide : (0x50 : Byte).toNat = 0x50),(by decide : (8192 : BitVec 16).toNat = 8192)]
  omega

/-- What a checksum is worth that is stored with its bytes the wrong way round. -/
theorem exchanged_valid {total : Nat} (positive : 0 < total) :
    endAround (total + swapped (65535 - endAround total)) = 0xFFFF ↔ 257 ∣ total := by
  have below := endAround_lt total
  have same := endAround_mod total
  rw [endAround_ones (Nat.add_pos_left positive _)]
  unfold swapped
  omega

theorem store16_length (x : BitVec 16) : (store16 x).length = 2 := rfl

theorem store32_length (x : BitVec 32) : (store32 x).length = 4 := rfl

theorem ethHeader_length (dst src : Mac) : (ethHeader dst src).length = ethHdrLen := by
  unfold ethHeader
  rw [List.length_append,List.length_append,Vector.length_toList,Vector.length_toList,store16_length]
  rfl

theorem ipv4Header_length (length id : BitVec 16) (protocol : Byte) (target : BitVec 32) (checksum : BitVec 16) :
    (ipv4Header length id protocol target checksum).length = 20 := rfl

theorem icmpHeader_length (checksum id seq : BitVec 16) : (icmpHeader checksum id seq).length = 8 := rfl

theorem tcpHeader_length (ports : Ports) (seq ack : BitVec 32) (flags : Byte) (checksum : BitVec 16) :
    (tcpHeader ports seq ack flags checksum).length = 20 := rfl

/-- The ones' complement sum of the IPv4 header in a frame. -/
def Ipv4Valid (frame : List Byte) : Prop := onesSum ((frame.drop ethHdrLen).take 20) = 0xFFFF

def IcmpValid (frame : List Byte) : Prop := onesSum (frame.drop (ethHdrLen + 20)) = 0xFFFF

/-- The pseudo-header of the TCP segment in a frame: the addresses of the IPv4 header, the
protocol and the length of the segment. -/
def framePseudo (frame : List Byte) : List Byte :=
  (frame.drop (ethHdrLen + 12)).take 8 ++ [0,6] ++
    [BitVec.ofNat 8 ((frame.length - (ethHdrLen + 20)) / 2^8),BitVec.ofNat 8 (frame.length - (ethHdrLen + 20))]

def TcpValid (frame : List Byte) : Prop := onesSum (framePseudo frame ++ frame.drop (ethHdrLen + 20)) = 0xFFFF

theorem checksum16_value {data : List Byte} (short : data.length ≤ rtlTxSize) :
    (checksum16 data).toNat = 65535 - endAround (wordTotal data) := by
  have bound := wordTotal_le data
  have small : 0 + wordTotal data < 2^32 := by
    unfold rtlTxSize at short
    omega
  unfold checksum16
  rw [checksum_value,sumWords_total small,Nat.zero_add]

section Frame
variable {dst src : Mac} {length id : BitVec 16} {protocol : Byte} {target : BitVec 32} {rest : List Byte}

theorem frame_header : ((ethHeader dst src ++ ipv4 length id protocol target ++ rest).drop ethHdrLen).take 20 =
    ipv4 length id protocol target := by
  rw [List.append_assoc,← ethHeader_length dst src,List.drop_left]
  exact List.take_left' rfl

theorem frame_rest : (ethHeader dst src ++ ipv4 length id protocol target ++ rest).drop (ethHdrLen + 20) = rest := by
  have head : (ethHeader dst src ++ ipv4 length id protocol target).length = ethHdrLen + 20 := by
    rw [List.length_append,ethHeader_length]
    rfl
  rw [← head,List.drop_left]

theorem frame_addresses : ((ethHeader dst src ++ ipv4 length id protocol target ++ rest).drop (ethHdrLen + 12)).take 8 =
    store32 (be32 netPhysIp) ++ store32 (be32 target) := by
  rw [← List.drop_drop,List.append_assoc,← ethHeader_length dst src,List.drop_left]
  rfl

/-- The checksum of the IPv4 header is stored with its bytes the wrong way round. -/
theorem ipv4_valid : Ipv4Valid (ethHeader dst src ++ ipv4 length id protocol target ++ rest) ↔
    257 ∣ ipSum length id protocol target := by
  have positive : 0 < ipSum length id protocol target := by
    unfold ipSum
    omega
  have short : (ipv4Header length id protocol target 0).length ≤ rtlTxSize := by
    rw [ipv4Header_length]
    decide
  unfold Ipv4Valid onesSum
  rw [frame_header,ipv4,ipv4Header_total,checksum16_value short,ipv4Header_total,swapped_zero,Nat.add_zero]
  exact exchanged_valid positive

end Frame

theorem icmp_valid (dst src : Mac) (ipId : BitVec 16) (target : BitVec 32) (id seq : BitVec 16) :
    IcmpValid (sendIcmp src ipId target dst id seq) ↔ 257 ∣ icmpSum id seq := by
  have positive : 0 < icmpSum id seq := by
    unfold icmpSum
    omega
  have length : (icmpHeader 0 id seq ++ icmpData).length ≤ rtlTxSize := by
    rw [List.length_append,icmpHeader_length]
    decide
  unfold IcmpValid onesSum sendIcmp
  rw [frame_rest,icmpHeader_total,checksum16_value length,icmpHeader_total,swapped_zero,Nat.add_zero]
  exact exchanged_valid positive

theorem pseudoHeader_total {length : Nat} (small : length < 2^16) (src dst : BitVec 32) :
    wordTotal (pseudoHeader src dst length) = halves src + halves dst + 6 + length := by
  have first := wordTotal_big src ([(dst >>> 24).setWidth 8,(dst >>> 16).setWidth 8,(dst >>> 8).setWidth 8,dst.setWidth 8] ++
    [0,6,BitVec.ofNat 8 (length >>> 8),BitVec.ofNat 8 length])
  have last : wordTotal [0,6,BitVec.ofNat 8 (length >>> 8),BitVec.ofNat 8 length] = 6 + length := by
    rw [wordTotal_pair,wordTotal_pair,wordTotal,BitVec.toNat_ofNat,BitVec.toNat_ofNat,Nat.shiftRight_eq_div_pow]
    rw [(by decide : (0 : Byte).toNat * 2^8 + (6 : Byte).toNat = 6)]
    omega
  rw [wordTotal_big dst,last] at first
  exact first.trans (by omega)

theorem framePseudo_total (dst src : Mac) (length id : BitVec 16) (protocol : Byte) (target : BitVec 32)
    (segment : List Byte) (small : segment.length < 2^16) :
    wordTotal (framePseudo (ethHeader dst src ++ ipv4 length id protocol target ++ segment) ++ segment) =
      halves netPhysIp + halves target + 6 + segment.length + wordTotal segment := by
  have size : (ethHeader dst src ++ ipv4 length id protocol target ++ segment).length - (ethHdrLen + 20) = segment.length := by
    have total := congrArg List.length (@frame_rest dst src length id protocol target segment)
    rw [List.length_drop] at total
    exact total
  unfold framePseudo
  rw [frame_addresses,size]
  simp only [List.append_assoc]
  rw [wordTotal_be32,wordTotal_be32]
  simp only [List.cons_append,List.nil_append]
  rw [wordTotal_pair,wordTotal_pair,BitVec.toNat_ofNat,BitVec.toNat_ofNat]
  rw [(by decide : (0 : Byte).toNat * 2^8 + (6 : Byte).toNat = 6)]
  omega

theorem tcp_checksum_value (src dst : BitVec 32) {data : List Byte} (short : data.length ≤ rtlTxSize) :
    (tcpChecksum src dst data).toNat =
      65535 - endAround (halves src + halves dst + 6 + data.length + wordTotal data) := by
  have bound := wordTotal_le data
  have below := src.isLt
  have below' := dst.isLt
  have pseudo := pseudoHeader_total (show data.length < 2^16 by unfold rtlTxSize at short; omega) src dst
  unfold rtlTxSize at short
  have small : 0 + wordTotal (pseudoHeader src dst data.length) < 2^32 := by
    rw [pseudo]
    unfold halves
    omega
  have small' : wordTotal (pseudoHeader src dst data.length) + wordTotal data < 2^32 := by
    rw [pseudo]
    unfold halves
    omega
  unfold tcpChecksum
  rw [checksum_value,sumWords_total small,Nat.zero_add,sumWords_total small',pseudo]

theorem tcp_valid (dst src : Mac) (ipId : BitVec 16) (dstIp : BitVec 32) (ports : Ports) (seq ack : BitVec 32)
    (flags : Byte) {payload : List Byte} (admitted : ethHdrLen + 40 + payload.length ≤ rtlTxSize) :
    ∃ frame, sendTcp src ipId dstIp dst ports seq ack flags payload = some frame ∧
      (Ipv4Valid frame ↔ 257 ∣ ipSum (BitVec.ofNat 16 (40 + payload.length)) ipId 6 dstIp) ∧
      (TcpValid frame ↔ 257 ∣ tcpSum dstIp ports seq ack flags payload) := by
  unfold rtlTxSize ethHdrLen at admitted
  have length : (20 + payload.length) % 2^32 = 20 + payload.length := Nat.mod_eq_of_lt (by omega)
  have fits : ¬(ethHdrLen + 20 + (20 + payload.length) % 2^32) % 2^32 > rtlTxSize := by
    rw [length]
    unfold ethHdrLen rtlTxSize
    omega
  refine ⟨_,if_neg fits,?_,?_⟩
  · rw [length,← Nat.add_assoc]
    exact ipv4_valid
  · have lengths : ∀ checksum, (tcpHeader ports seq ack flags checksum ++ payload).length = 20 + payload.length := by
      intro checksum
      rw [List.length_append,tcpHeader_length]
    have small : ∀ checksum, (tcpHeader ports seq ack flags checksum ++ payload).length < 2^16 := by
      intro checksum
      rw [lengths]
      omega
    have short : (tcpHeader ports seq ack flags 0 ++ payload).length ≤ rtlTxSize := by
      rw [lengths]
      unfold rtlTxSize
      omega
    have positive : 0 < tcpSum dstIp ports seq ack flags payload := by
      unfold tcpSum
      omega
    unfold TcpValid onesSum
    rw [frame_rest,framePseudo_total _ _ _ _ _ _ _ (small _),lengths,tcpHeader_total,tcp_checksum_value netPhysIp dstIp short,
      lengths,tcpHeader_total,swapped_zero,Nat.add_zero (_ + wordTotal payload)]
    have parts : halves netPhysIp + halves dstIp + 6 + (20 + payload.length) +
        (ports.src.toNat + ports.dst.toNat + halves seq + halves ack + (0x5000 + flags.toNat) + 8192 + wordTotal payload) =
          tcpSum dstIp ports seq ack flags payload := by
      unfold tcpSum
      omega
    rw [← Nat.add_assoc,parts]
    exact exchanged_valid positive

/-- The checksums that are sent verify exactly when the plain sums are divisible by 257. -/
theorem checksums_verify (rtlMac dstMac : Mac) (ipId : BitVec 16) (target : BitVec 32) (id seq : BitVec 16) (ports : Ports)
    (number ack : BitVec 32) (flags : Byte) (payload : List Byte) (admitted : ethHdrLen + 40 + payload.length ≤ rtlTxSize) :
    (Ipv4Valid (sendIcmp rtlMac ipId target dstMac id seq) ∧ IcmpValid (sendIcmp rtlMac ipId target dstMac id seq) ↔
      257 ∣ ipSum 60 ipId 1 target ∧ 257 ∣ icmpSum id seq) ∧
    ∃ frame, sendTcp rtlMac ipId target dstMac ports number ack flags payload = some frame ∧
      (Ipv4Valid frame ∧ TcpValid frame ↔
        257 ∣ ipSum (BitVec.ofNat 16 (40 + payload.length)) ipId 6 target ∧
        257 ∣ tcpSum target ports number ack flags payload) := by
  refine ⟨and_congr ipv4_valid (icmp_valid dstMac rtlMac ipId target id seq),?_⟩
  obtain ⟨frame,sent,header,segment⟩ := tcp_valid dstMac rtlMac ipId target ports number ack flags admitted
  exact ⟨frame,sent,and_congr header segment⟩

def gateway : BitVec 32 := 0x0A000202
def someMac : Mac := ⟨#[0x52,0x54,0,0x12,0x34,0x56],rfl⟩

theorem checksums_verify_ping : (Ipv4Valid (sendIcmp someMac 1 gateway someMac 1 1) ∧
      IcmpValid (sendIcmp someMac 1 gateway someMac 1 1) ↔ 257 ∣ ipSum 60 1 1 gateway ∧ 257 ∣ icmpSum 1 1) ∧
    ∃ frame, sendTcp someMac 1 gateway someMac ⟨40000,80⟩ 1 0 2 [] = some frame ∧
      (Ipv4Valid frame ∧ TcpValid frame ↔
        257 ∣ ipSum (BitVec.ofNat 16 40) 1 6 gateway ∧ 257 ∣ tcpSum gateway ⟨40000,80⟩ 1 0 2 []) :=
  checksums_verify someMac someMac 1 gateway 1 1 ⟨40000,80⟩ 1 0 2 [] (by decide)

/-- The first ping to the gateway carries a header that does not verify. -/
theorem ping_invalid : ¬Ipv4Valid (sendIcmp someMac 1 gateway someMac 1 1) := by
  unfold sendIcmp
  rw [ipv4_valid]
  decide

end LionOS.Net
