import LionOS.Library.OnesSum
import LionOS.Physical

/-! The frames that the network driver sends, with their checksums. -/
namespace LionOS.Net
open LionOS.Library
open LionOS.Physical (Byte)

abbrev Mac := Vector Byte 6

def netPhysIp : BitVec 32 := 0x0A00020F
def rtlTxSize : Nat := 1536
def ethHdrLen : Nat := 14

def bswap16 (x : BitVec 16) : BitVec 16 := (x <<< 8) ||| (x >>> 8)

def bswap32 (x : BitVec 32) : BitVec 32 :=
  ((x &&& 0xFF) <<< 24) ||| ((x &&& 0xFF00) <<< 8) ||| ((x &&& 0xFF0000) >>> 8) ||| ((x &&& 0xFF000000) >>> 24)

def be16 (x : BitVec 16) : BitVec 16 := bswap16 x
def be32 (x : BitVec 32) : BitVec 32 := bswap32 x

/-- How the processor stores a field of 16 bits. -/
def store16 (x : BitVec 16) : List Byte := [x.setWidth 8,(x >>> 8).setWidth 8]

def store32 (x : BitVec 32) : List Byte :=
  [x.setWidth 8,(x >>> 8).setWidth 8,(x >>> 16).setWidth 8,(x >>> 24).setWidth 8]

/-- The loop of `checksum16` over the bytes, from the sum so far. -/
def sumWords (sum : Nat) : List Byte → Nat
  | a::b::rest => sumWords ((sum + (a.toNat <<< 8 ||| b.toNat)) % 2^32) rest
  | [a] => (sum + a.toNat <<< 8) % 2^32
  | [] => sum

def foldCarry (sum : Nat) : Nat :=
  if sum >>> 16 = 0 then sum else foldCarry ((sum &&& 0xFFFF) + sum >>> 16)
termination_by sum
decreasing_by
  have low : sum &&& 0xFFFF = sum % 2^16 := Nat.and_two_pow_sub_one_eq_mod sum 16
  rw [Nat.shiftRight_eq_div_pow] at *
  omega

def checksum16 (data : List Byte) : BitVec 16 := ~~~BitVec.ofNat 16 (foldCarry (sumWords 0 data))

def ethHeader (dst src : Mac) : List Byte := dst.toList ++ src.toList ++ store16 (be16 0x0800)

/-- The fields of `struct ipv4_hdr` as the senders fill them. -/
def ipv4Header (length id : BitVec 16) (protocol : Byte) (target : BitVec 32) (checksum : BitVec 16) : List Byte :=
  [0x45,0] ++ store16 (be16 length) ++ store16 (be16 id) ++ store16 0 ++ [64,protocol] ++ store16 checksum ++
    store32 (be32 netPhysIp) ++ store32 (be32 target)

def ipv4 (length id : BitVec 16) (protocol : Byte) (target : BitVec 32) : List Byte :=
  ipv4Header length id protocol target (checksum16 (ipv4Header length id protocol target 0))

def icmpHeader (checksum id seq : BitVec 16) : List Byte :=
  [8,0] ++ store16 checksum ++ store16 (be16 id) ++ store16 (be16 seq)

def icmpData : List Byte := (List.range 32).map fun i => BitVec.ofNat 8 ('A'.toNat + i % 26)

/-- The frame that `send_icmp` hands over; `ipId` is `ip_id`. -/
def sendIcmp (rtlMac : Mac) (ipId : BitVec 16) (target : BitVec 32) (dstMac : Mac) (id seq : BitVec 16) : List Byte :=
  ethHeader dstMac rtlMac ++ ipv4 60 ipId 1 target ++
    (icmpHeader (checksum16 (icmpHeader 0 id seq ++ icmpData)) id seq ++ icmpData)

def pseudoHeader (src dst : BitVec 32) (length : Nat) : List Byte :=
  [(src >>> 24).setWidth 8,(src >>> 16).setWidth 8,(src >>> 8).setWidth 8,src.setWidth 8,
    (dst >>> 24).setWidth 8,(dst >>> 16).setWidth 8,(dst >>> 8).setWidth 8,dst.setWidth 8,
    0,6,BitVec.ofNat 8 (length >>> 8),BitVec.ofNat 8 length]

def tcpChecksum (src dst : BitVec 32) (data : List Byte) : BitVec 16 :=
  ~~~BitVec.ofNat 16 (foldCarry (sumWords (sumWords 0 (pseudoHeader src dst data.length)) data))

structure Ports where
  src : BitVec 16
  dst : BitVec 16

def tcpHeader (ports : Ports) (seq ack : BitVec 32) (flags : Byte) (checksum : BitVec 16) : List Byte :=
  store16 (be16 ports.src) ++ store16 (be16 ports.dst) ++ store32 (be32 seq) ++ store32 (be32 ack) ++ [0x50,flags] ++
    store16 (be16 8192) ++ store16 checksum ++ store16 0

/-- The frame that `send_tcp` hands over; `none` is the result -1. -/
def sendTcp (rtlMac : Mac) (ipId : BitVec 16) (dstIp : BitVec 32) (dstMac : Mac) (ports : Ports) (seq ack : BitVec 32)
    (flags : Byte) (payload : List Byte) : Option (List Byte) :=
  let tcpLen := (20 + payload.length) % 2^32
  let total := (ethHdrLen + 20 + tcpLen) % 2^32
  if total > rtlTxSize then none
  else
    let checksum := tcpChecksum netPhysIp dstIp (tcpHeader ports seq ack flags 0 ++ payload)
    some (ethHeader dstMac rtlMac ++ ipv4 (BitVec.ofNat 16 (20 + tcpLen)) ipId 6 dstIp ++
      (tcpHeader ports seq ack flags checksum ++ payload))

end LionOS.Net
