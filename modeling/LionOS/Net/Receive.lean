import LionOS.Library.Laps
import LionOS.Library.Run
import LionOS.Net.Frames

/-! The receive ring of the network driver and the device that fills it. -/
namespace LionOS.Net
open LionOS.Library
open LionOS.Physical (Byte)

def rtlRxSize : Nat := 8192
def ethMtu : Nat := 1500
def rtlRxAlloc : Nat := rtlRxSize + 16 + 1500

/-- What the device receives: the status with the bit for a good frame set, a frame of legal
size and its CRC. -/
structure Received where
  status : BitVec 16
  good : status.toNat % 2 = 1
  frame : List Byte
  least : 60 ≤ frame.length
  most : frame.length ≤ ethMtu + ethHdrLen
  crc : Vector Byte 4

/-- The length field of the header, which counts the CRC. -/
def Received.length (r : Received) : Nat := r.frame.length + 4

def Received.packet (r : Received) : List Byte :=
  store16 r.status ++ store16 (BitVec.ofNat 16 r.length) ++ r.frame ++ r.crc.toList

def alignWord (n : Nat) : Nat := (n + 3) / 4 * 4

def writeAt (ring : Nat → Byte) (start : Nat) (bytes : List Byte) : Nat → Byte :=
  fun i => if start ≤ i then (bytes[i - start]?).getD (ring i) else ring i

/-- The ring in memory, `rtl_rx_offset`, the register CAPR and the place of the next packet.
`received` are the frames received and `returned` what was copied out, with the capacity. -/
structure Rtl where
  ring : Nat → Byte
  offset : Nat
  capr : Nat
  write : Nat
  received : List (List Byte)
  returned : List (Nat × List Byte)

/-- Where the device takes the driver to be. -/
def Rtl.readPoint (s : Rtl) : Nat := (s.capr + 16) % rtlRxSize

/-- The bit of the command register that says that the ring is empty. -/
def Rtl.bufferEmpty (s : Rtl) : Bool := s.readPoint == s.write

def Rtl.room (s : Rtl) : Nat :=
  if s.readPoint = s.write then rtlRxSize else (s.readPoint + rtlRxSize - s.write) % rtlRxSize

/-- The device drops a packet that does not fit. -/
def Rtl.receive (s : Rtl) (r : Received) : Rtl :=
  if alignWord r.packet.length < s.room then
    {s with
      ring := writeAt s.ring s.write r.packet
      write := (s.write + alignWord r.packet.length) % rtlRxSize
      received := s.received ++ [r.frame]}
  else s

def field (ring : Nat → Byte) (i : Nat) : Nat := (ring i).toNat ||| (ring (i + 1)).toNat <<< 8

/-- The test of `rtl_poll` for a header that it skips. -/
def refused (ring : Nat → Byte) (offset : Nat) : Bool :=
  field ring offset % 2 == 0 || field ring (offset + 2) < 4 || field ring (offset + 2) > ethMtu + ethHdrLen + 4

def copyLength (ring : Nat → Byte) (offset capacity : Nat) : Nat :=
  let frameLen := field ring (offset + 2) - 4
  if frameLen < capacity then frameLen else capacity

/-- The value that the driver writes to CAPR for an offset. -/
def caprOf (offset : Nat) : Nat := (offset + 2^32 - 16) % 2^16

/-- A turn of the loop of `rtl_poll`, or its return where the ring is empty. -/
def Rtl.turn (s : Rtl) (capacity : Nat) : Rtl :=
  if s.bufferEmpty then s
  else if refused s.ring s.offset then
    let offset := (s.offset + 4) % rtlRxSize
    {s with offset := if offset ≥ rtlRxSize then 0 else offset,capr := caprOf offset}
  else
    let copy := copyLength s.ring s.offset capacity
    let offset := (s.offset + field s.ring (s.offset + 2) + 3) % rtlRxSize
    {s with
      offset,capr := caprOf offset
      returned := s.returned ++ [(capacity,(List.range copy).map fun i => s.ring (s.offset + 4 + i))]}

/-- The places of the ring that such a turn reads. -/
def turnReads (ring : Nat → Byte) (offset capacity : Nat) : List Nat :=
  [offset,offset + 1,offset + 2,offset + 3] ++
    if refused ring offset then [] else (List.range (copyLength ring offset capacity)).map fun i => offset + 4 + i

inductive RtlAct
  | receive (r : Received)
  | turn (capacity : Nat)

def Rtl.step (s : Rtl) : RtlAct → Rtl
  | .receive r => s.receive r
  | .turn capacity => s.turn capacity

/-- The state that `rtl_init` leaves, with CAPR set to 0. -/
def rtlInit : Rtl := ⟨fun _ => 0,0,0,0,[],[]⟩

/-- What the driver is to deliver: what was returned are the first frames received, in order
and cut to the capacity, nothing is left when the ring is empty, turns enough empty it, and
the next turn reads inside the ring. -/
structure Delivered (s : Rtl) : Prop where
  order : ∀ (k capacity : Nat) (bytes : List Byte), s.returned[k]? = some (capacity,bytes) →
    ∃ frame : List Byte, s.received[k]? = some frame ∧ bytes = frame.take capacity
  nonzero : ∀ entry ∈ s.returned, entry.2 ≠ []
  few : s.returned.length ≤ s.received.length
  empty : s.bufferEmpty → s.returned.length = s.received.length
  drains : ∀ capacity, 0 < capacity → ∃ turns, (run Rtl.turn s (List.replicate turns capacity)).bufferEmpty
  inside : ∀ capacity, ∀ i ∈ turnReads s.ring s.offset capacity, i < rtlRxAlloc

/-- A part of the ring that the driver has not passed: a word that it will skip, or a
packet, whose last word it will skip. -/
inductive Item
  | word
  | packet (r : Received)

def Item.size : Item → Nat
  | .word => 4
  | .packet r => alignWord r.packet.length

theorem Item.size_word : Item.word.size = 4 := rfl

theorem Item.size_packet (r : Received) : (Item.packet r).size = alignWord r.packet.length := rfl

def extent (items : List Item) : Nat := (items.map Item.size).sum

/-- The frames among some items. -/
def waitingFrames : List Item → List (List Byte)
  | [] => []
  | .word::rest => waitingFrames rest
  | .packet r::rest => r.frame::waitingFrames rest

def lastWord (r : Received) (position : Nat) : Nat := (position + alignWord r.packet.length - 4) % rtlRxSize

/-- The ring holds the items from a position on, counted over all laps. -/
def Holds (ring : Nat → Byte) : Nat → List Item → Prop
  | _, [] => True
  | position, .word::rest => refused ring (position % rtlRxSize) ∧ Holds ring (position + 4) rest
  | position, .packet r::rest =>
    (∀ i, i < r.packet.length → r.packet[i]? = some (ring (position % rtlRxSize + i))) ∧ r.length % 4 = 1 ∧
      refused ring (lastWord r position) ∧ Holds ring (position + alignWord r.packet.length) rest

theorem field_congr {ring ring' : Nat → Byte} {i : Nat} (first : ring' i = ring i) (second : ring' (i + 1) = ring (i + 1)) :
    field ring' i = field ring i := by
  unfold field
  rw [first,second]

theorem refused_congr {ring ring' : Nat → Byte} {i : Nat} (same : ∀ j, j < 4 → ring' (i + j) = ring (i + j)) :
    refused ring' i = refused ring i := by
  have low : field ring' i = field ring i := field_congr (same 0 (by decide)) (same 1 (by decide))
  have high : field ring' (i + 2) = field ring (i + 2) := field_congr (same 2 (by decide)) (same 3 (by decide))
  unfold refused
  rw [low,high]

theorem writeAt_outside (ring : Nat → Byte) (start : Nat) {bytes : List Byte} {i : Nat}
    (outside : i < start ∨ start + bytes.length ≤ i) : writeAt ring start bytes i = ring i := by
  unfold writeAt
  split
  next after =>
    have beyond : bytes.length ≤ i - start := by omega
    rw [List.getElem?_eq_none beyond]
    rfl
  next => rfl

theorem writeAt_own (ring : Nat → Byte) (start : Nat) {bytes : List Byte} {i : Nat} (inside : i < bytes.length) :
    bytes[i]? = some (writeAt ring start bytes (start + i)) := by
  unfold writeAt
  rw [if_pos (Nat.le_add_right start i),Nat.add_sub_cancel_left,List.getElem?_eq_getElem inside]
  rfl

/-- Two stretches of less than a lap together do not meet in the ring. -/
theorem stretches_apart {position length start size i j : Nat} (before : position + length ≤ start)
    (lap : start + size ≤ position + rtlRxSize) (inside : i < length) (inside' : j < size) :
    position % rtlRxSize + i ≠ start % rtlRxSize + j := by
  unfold rtlRxSize at *
  omega

theorem alignWord_le (n : Nat) : n ≤ alignWord n := by
  unfold alignWord
  omega

theorem packet_length (r : Received) : r.packet.length = r.length + 4 := by
  unfold Received.packet Received.length
  rw [List.length_append,List.length_append,List.length_append,Vector.length_toList]
  simp [store16]
  omega

theorem received_size (r : Received) : 68 ≤ r.packet.length ∧ r.packet.length ≤ 1522 := by
  have least := r.least
  have most := r.most
  rw [packet_length]
  unfold Received.length ethMtu ethHdrLen at *
  omega

theorem extent_cons (item : Item) (rest : List Item) : extent (item::rest) = item.size + extent rest := by
  simp [extent]

theorem extent_append (items : List Item) (r : Received) :
    extent (items ++ [.packet r]) = extent items + alignWord r.packet.length := by
  simp [extent,Item.size]

/-- What is written ahead leaves a stretch alone that the driver has not passed. -/
theorem writeAt_ahead {position length start : Nat} {bytes : List Byte} (ring : Nat → Byte)
    (before : position + length ≤ start) (lap : start + bytes.length ≤ position + rtlRxSize) {i : Nat}
    (inside : i < length) :
    writeAt ring (start % rtlRxSize) bytes (position % rtlRxSize + i) = ring (position % rtlRxSize + i) := by
  apply writeAt_outside
  by_contra meets
  have apart := stretches_apart before lap inside
    (by omega : position % rtlRxSize + i - start % rtlRxSize < bytes.length)
  omega

/-- A packet that fits leaves alone what the driver has not passed. -/
theorem Holds.write {ring : Nat → Byte} {position start : Nat} {items : List Item} {bytes : List Byte}
    (holds : Holds ring position items) (before : position + extent items ≤ start)
    (lap : start + bytes.length ≤ position + rtlRxSize) :
    Holds (writeAt ring (start % rtlRxSize) bytes) position items := by
  induction items generalizing position with
  | nil => trivial
  | cons item rest ih =>
    rw [extent_cons] at before
    cases item with
    | word =>
      rw [Item.size_word] at before
      obtain ⟨skipped,later⟩ := holds
      have same := refused_congr fun j inside => writeAt_ahead ring (show position + 4 ≤ start by omega) lap inside
      exact ⟨same.trans skipped,ih later (by omega) (by omega)⟩
    | packet r =>
      rw [Item.size_packet] at before
      obtain ⟨bytes',length,skipped,later⟩ := holds
      have size := received_size r
      have aligned := alignWord_le r.packet.length
      refine ⟨?_,length,?_,ih later (by omega) (by omega)⟩
      · intro i inside
        rw [writeAt_ahead ring (show position + r.packet.length ≤ start by omega) lap inside]
        exact bytes' i inside
      · have ends : position + alignWord r.packet.length - 4 + 4 ≤ start := by omega
        have lap' : start + bytes.length ≤ position + alignWord r.packet.length - 4 + rtlRxSize := by omega
        have same := refused_congr fun j inside => writeAt_ahead ring ends lap' inside
        exact same.trans skipped

theorem Holds.snoc {ring : Nat → Byte} {position : Nat} {items : List Item} {r : Received} (holds : Holds ring position items)
    (bytes : ∀ i, i < r.packet.length → r.packet[i]? = some (ring ((position + extent items) % rtlRxSize + i)))
    (length : r.length % 4 = 1) (skipped : refused ring (lastWord r (position + extent items))) :
    Holds ring position (items ++ [.packet r]) := by
  induction items generalizing position with
  | nil => exact ⟨bytes,length,skipped,trivial⟩
  | cons item rest ih =>
    rw [extent_cons,← Nat.add_assoc] at bytes skipped
    cases item with
    | word => exact ⟨holds.1,ih holds.2 bytes skipped⟩
    | packet r' => exact ⟨holds.1,holds.2.1,holds.2.2.1,ih holds.2.2.2 bytes skipped⟩

theorem waitingFrames_append (items : List Item) (r : Received) :
    waitingFrames (items ++ [.packet r]) = waitingFrames items ++ [r.frame] := by
  induction items with
  | nil => rfl
  | cons item rest ih =>
    cases item with
    | word => exact ih
    | packet r' => exact congrArg (r'.frame::·) ih

/-- The condition on what is received: with its CRC it is one byte longer than some words,
and the last word of its place will be skipped. -/
def Rtl.Allowed (s : Rtl) : RtlAct → Prop
  | .receive r => r.length % 4 = 1 ∧ refused (writeAt s.ring s.write r.packet) (lastWord r s.write)
  | .turn capacity => 0 < capacity

/-- The driver is where the device takes it to be, or nothing has been received or polled. -/
def Rtl.Together (s : Rtl) (left : Nat) : Prop :=
  s.readPoint = s.offset ∧ left < rtlRxSize ∨ s.readPoint = 16 ∧ s.offset = 0 ∧ left = rtlRxSize

structure Tracks (s : Rtl) (position : Nat) (items : List Item) : Prop where
  offset : s.offset = position % rtlRxSize
  aligned : position % 4 = 0
  holds : Holds s.ring position items
  write : s.write = (position + extent items) % rtlRxSize
  together : s.Together (extent items)
  received : s.received = s.received.take s.returned.length ++ waitingFrames items
  few : s.returned.length ≤ s.received.length
  nonzero : ∀ entry ∈ s.returned, entry.2 ≠ []
  order : ∀ (k capacity : Nat) (bytes : List Byte), s.returned[k]? = some (capacity,bytes) →
    ∃ frame : List Byte, s.received[k]? = some frame ∧ bytes = frame.take capacity

instance (s : Rtl) (act : RtlAct) : Decidable (s.Allowed act) := by
  cases act <;> delta Rtl.Allowed <;> infer_instance

theorem blank_refused (offset : Nat) : refused (fun _ => 0) offset := by
  simp [refused,field]

theorem blank_words (position n : Nat) : Holds (fun _ => 0) position (List.replicate n .word) := by
  induction n generalizing position with
  | zero => trivial
  | succ n ih => exact ⟨blank_refused _,ih _⟩

theorem extent_words (n : Nat) : extent (List.replicate n .word) = 4 * n := by
  induction n with
  | zero => rfl
  | succ n ih =>
    rw [List.replicate_succ,extent_cons,ih,Item.size_word]
    omega

theorem waitingFrames_words (n : Nat) : waitingFrames (List.replicate n .word) = [] := by
  induction n with
  | zero => rfl
  | succ n ih => exact ih

theorem rtlInit_tracks : Tracks rtlInit 0 (List.replicate 2048 .word) := by
  have whole : extent (List.replicate 2048 .word) = rtlRxSize := extent_words 2048
  refine ⟨rfl,rfl,blank_words 0 2048,?_,.inr ⟨rfl,rfl,whole⟩,?_,Nat.le_refl 0,nofun,nofun⟩
  · rw [whole]
    rfl
  · rw [waitingFrames_words]
    rfl

theorem capr_point (offset : Nat) (inside : offset < rtlRxSize) : (caprOf offset + 16) % rtlRxSize = offset := by
  unfold caprOf rtlRxSize at *
  omega

theorem store16_field (x : BitVec 16) : (x.setWidth 8).toNat ||| ((x >>> 8).setWidth 8).toNat <<< 8 = x.toNat := by
  have below := x.isLt
  rw [BitVec.toNat_setWidth,BitVec.toNat_setWidth,BitVec.toNat_ushiftRight,Nat.shiftRight_eq_div_pow,Nat.or_comm,
    ← Nat.shiftLeft_add_eq_or_of_lt (Nat.mod_lt _ (by decide)),Nat.shiftLeft_eq]
  omega

section Packet
variable {ring : Nat → Byte} {offset : Nat} {r : Received}
variable (bytes : ∀ i, i < r.packet.length → r.packet[i]? = some (ring (offset + i)))
include bytes

theorem packet_byte {i : Nat} {b : Byte} (found : r.packet[i]? = some b) : ring (offset + i) = b := by
  have there := bytes i (List.getElem?_eq_some_iff.mp found).1
  rw [found] at there
  exact (Option.some.inj there).symm

theorem packet_status : field ring offset = r.status.toNat := by
  have low : ring offset = r.status.setWidth 8 := packet_byte bytes (i := 0) rfl
  have high : ring (offset + 1) = (r.status >>> 8).setWidth 8 := packet_byte bytes (i := 1) rfl
  unfold field
  rw [low,high]
  exact store16_field r.status

theorem packet_field : field ring (offset + 2) = r.length := by
  have low : ring (offset + 2) = (BitVec.ofNat 16 r.length).setWidth 8 := packet_byte bytes (i := 2) rfl
  have high : ring (offset + 3) = (BitVec.ofNat 16 r.length >>> 8).setWidth 8 := packet_byte bytes (i := 3) rfl
  have most := r.most
  unfold field
  rw [low,high]
  refine (store16_field _).trans ?_
  rw [BitVec.toNat_ofNat]
  unfold Received.length ethMtu ethHdrLen at *
  omega

theorem packet_accepted : refused ring offset = false := by
  have least := r.least
  have most := r.most
  have good := r.good
  unfold refused
  rw [packet_status bytes,packet_field bytes,good]
  unfold Received.length ethMtu ethHdrLen at *
  simp
  omega

theorem packet_copied (capacity : Nat) :
    ((List.range (copyLength ring offset capacity)).map fun i => ring (offset + 4 + i)) = r.frame.take capacity := by
  have count : copyLength ring offset capacity = min r.frame.length capacity := by
    unfold copyLength
    rw [packet_field bytes,Received.length,Nat.add_sub_cancel]
    dsimp only
    split
    next short => exact (Nat.min_eq_left (Nat.le_of_lt short)).symm
    next long => exact (Nat.min_eq_right (Nat.not_lt.mp long)).symm
  apply List.ext_getElem?
  intro i
  rw [count,List.getElem?_map,List.getElem?_take]
  by_cases inside : i < min r.frame.length capacity
  · have found : r.packet[4 + i]? = some r.frame[i] := by
      have frame : r.packet[4 + i]? = (r.frame ++ r.crc.toList)[i]? := by
        unfold Received.packet
        rw [List.append_assoc,List.getElem?_append_right]
        · congr 1
          exact Nat.add_sub_cancel_left 4 i
        · exact Nat.le_add_right 4 i
      rw [frame,List.getElem?_append_left (by omega),List.getElem?_eq_getElem]
    rw [List.getElem?_range inside,if_pos (by omega),List.getElem?_eq_getElem (by omega),Option.map_some,Nat.add_assoc]
    exact congrArg some (packet_byte bytes found)
  · rw [List.getElem?_eq_none (by rw [List.length_range]; omega)]
    split
    next => exact (List.getElem?_eq_none (by omega)).symm
    next => rfl

end Packet

section Tracks
variable {s : Rtl} {position : Nat} {items : List Item} (tracks : Tracks s position items)
include tracks

theorem Tracks.room {r : Received} (fits : alignWord r.packet.length < s.room) :
    s.readPoint = s.offset ∧ extent items + alignWord r.packet.length < rtlRxSize := by
  have write := tracks.write
  have offset := tracks.offset
  have size := received_size r
  have aligned := alignWord_le r.packet.length
  unfold Rtl.room at fits
  rcases tracks.together with ⟨point,less⟩ | ⟨point,start,whole⟩
  · refine ⟨point,?_⟩
    rw [point,offset,write] at fits
    split at fits
    next same =>
      unfold rtlRxSize at *
      omega
    next =>
      unfold rtlRxSize at *
      omega
  · rw [start] at offset
    rw [point,write,whole] at fits
    split at fits
    next same =>
      unfold rtlRxSize at *
      omega
    next =>
      unfold rtlRxSize at *
      omega

theorem Tracks.receive {r : Received} (length : r.length % 4 = 1)
    (skipped : refused (writeAt s.ring s.write r.packet) (lastWord r s.write)) :
    ∃ items', Tracks (s.receive r) position items' := by
  unfold Rtl.receive
  split
  next fits =>
    obtain ⟨point,less⟩ := tracks.room fits
    have aligned := alignWord_le r.packet.length
    have write := tracks.write
    refine ⟨items ++ [.packet r],tracks.offset,tracks.aligned,?_,?_,?_,?_,?_,tracks.nonzero,?_⟩
    · have kept := tracks.holds.write (Nat.le_refl (position + extent items))
        (by omega : position + extent items + r.packet.length ≤ position + rtlRxSize)
      rw [← write] at kept
      refine kept.snoc ?_ length ?_
      · intro i inside
        rw [← write]
        exact writeAt_own _ _ inside
      · have same : lastWord r (position + extent items) = lastWord r s.write := by
          have size := received_size r
          unfold lastWord
          rw [write]
          unfold rtlRxSize
          omega
        rw [same]
        exact skipped
    · dsimp only
      rw [extent_append,write]
      unfold rtlRxSize
      omega
    · refine .inl ⟨point,?_⟩
      rw [extent_append]
      exact less
    · dsimp only
      rw [waitingFrames_append,List.take_append_of_le_length tracks.few,← List.append_assoc,← tracks.received]
    · dsimp only
      rw [List.length_append]
      exact Nat.le_add_right_of_le tracks.few
    · intro k capacity bytes found
      obtain ⟨frame,there,same⟩ := tracks.order k capacity bytes found
      refine ⟨frame,?_,same⟩
      dsimp only
      rw [List.getElem?_append_left (List.getElem?_eq_some_iff.mp there).1]
      exact there
  next => exact ⟨items,tracks⟩

/-- The ring is empty exactly when the driver has passed everything. -/
theorem Tracks.empty : s.bufferEmpty ↔ extent items = 0 := by
  have write := tracks.write
  have offset := tracks.offset
  unfold Rtl.bufferEmpty
  rw [beq_iff_eq]
  rcases tracks.together with ⟨point,less⟩ | ⟨point,start,whole⟩
  · rw [point,offset,write]
    unfold rtlRxSize at *
    omega
  · rw [start] at offset
    rw [point,write,whole]
    unfold rtlRxSize at *
    omega

theorem Tracks.passed {position' : Nat} {items' : List Item}
    (same : position' + extent items' = position + extent items) (aligned : position' % 4 = 0)
    (holds : Holds s.ring position' items') (smaller : extent items' < extent items) {offset : Nat}
    (place : offset = position' % rtlRxSize) (returned : List (Nat × List Byte))
    (received : s.received = s.received.take returned.length ++ waitingFrames items')
    (few : returned.length ≤ s.received.length) (nonzero : ∀ entry ∈ returned, entry.2 ≠ [])
    (order : ∀ (k capacity : Nat) (bytes : List Byte), returned[k]? = some (capacity,bytes) →
      ∃ frame : List Byte, s.received[k]? = some frame ∧ bytes = frame.take capacity) :
    Tracks {s with offset,capr := caprOf offset,returned} position' items' := by
  have inside : offset < rtlRxSize := by
    rw [place]
    exact Nat.mod_lt _ (by decide)
  refine ⟨place,aligned,holds,?_,.inl ⟨capr_point offset inside,?_⟩,received,few,nonzero,order⟩
  · rw [same]
    exact tracks.write
  · rcases tracks.together with ⟨_,less⟩ | ⟨_,_,whole⟩
    · exact Nat.lt_trans smaller less
    · exact Nat.lt_of_lt_of_eq smaller whole

end Tracks

/-- What a turn leaves of the items. -/
def afterTurn : List Item → List Item
  | [] => []
  | .word::rest => rest
  | .packet _::rest => .word::rest

theorem Tracks.turn {s : Rtl} {position : Nat} {items : List Item} (tracks : Tracks s position items) {capacity : Nat}
    (positive : 0 < capacity) : ∃ position', Tracks (s.turn capacity) position' (afterTurn items) := by
  unfold Rtl.turn
  cases items with
  | nil =>
    rw [if_pos (tracks.empty.mpr rfl)]
    exact ⟨position,tracks⟩
  | cons item rest =>
    have more : ¬s.bufferEmpty := by
      rw [tracks.empty,extent_cons]
      cases item with
      | word =>
        rw [Item.size_word]
        omega
      | packet r =>
        have size := received_size r
        have aligned := alignWord_le r.packet.length
        rw [Item.size_packet]
        omega
    rw [if_neg more]
    have aligned := tracks.aligned
    cases item with
    | word =>
      obtain ⟨skipped,later⟩ := tracks.holds
      rw [← tracks.offset] at skipped
      have below : ¬(s.offset + 4) % rtlRxSize ≥ rtlRxSize := Nat.not_le.mpr (Nat.mod_lt _ (by decide))
      rw [if_pos skipped]
      dsimp only
      rw [if_neg below]
      refine ⟨position + 4,tracks.passed ?_ (by omega) later ?_ ?_ s.returned tracks.received tracks.few tracks.nonzero
        tracks.order⟩
      · rw [extent_cons,Item.size_word,Nat.add_assoc]
      · rw [extent_cons,Item.size_word]
        exact Nat.lt_add_of_pos_left (by decide)
      · rw [tracks.offset,Nat.mod_add_mod]
    | packet r =>
      obtain ⟨bytes,length,skipped,later⟩ := tracks.holds
      rw [← tracks.offset] at bytes
      have size := received_size r
      have total := packet_length r
      have padded : alignWord r.packet.length = r.length + 7 := by
        unfold alignWord
        omega
      have received := tracks.received
      have next : s.received[s.returned.length]? = some r.frame := by
        rw [received,List.getElem?_append_right (List.length_take_le ..),List.length_take,Nat.min_eq_left tracks.few,Nat.sub_self]
        rfl
      have left := (List.getElem?_eq_some_iff.mp next).1
      have count : (s.returned ++ [(capacity,r.frame.take capacity)]).length = s.returned.length + 1 := by simp
      rw [if_neg (by rw [packet_accepted bytes]; exact Bool.false_ne_true)]
      dsimp only
      rw [packet_field bytes,packet_copied bytes]
      have word : Holds s.ring (position + alignWord r.packet.length - 4) (.word::rest) := by
        refine ⟨skipped,?_⟩
        rw [show position + alignWord r.packet.length - 4 + 4 = position + alignWord r.packet.length by omega]
        exact later
      refine ⟨position + alignWord r.packet.length - 4,tracks.passed ?_ (by omega) word ?_ ?_ _ ?_ ?_ ?_ ?_⟩
      · rw [extent_cons,extent_cons,Item.size_word,Item.size_packet]
        omega
      · rw [extent_cons,extent_cons,Item.size_word,Item.size_packet]
        omega
      · rw [tracks.offset]
        unfold rtlRxSize
        omega
      · rw [count,List.take_add_one,next,List.append_assoc]
        exact received
      · rw [count]
        exact left
      · intro entry member
        rcases List.mem_append.mp member with old | new
        · exact tracks.nonzero entry old
        · have least := r.least
          rw [List.mem_singleton.mp new]
          apply List.ne_nil_of_length_pos
          rw [List.length_take]
          omega
      · intro k c out found
        rcases snoc_found found with old | ⟨rfl,same⟩
        · exact tracks.order k c out old
        · cases same
          exact ⟨r.frame,next,rfl⟩

/-- Exactly one offset, with the longest packet and room for all of it, makes a turn read
past the ring. -/
theorem turnReads_inside (ring : Nat → Byte) {offset : Nat} (inside : offset < rtlRxSize) (capacity : Nat) :
    (∀ i ∈ turnReads ring offset capacity, i < rtlRxAlloc) ↔
      ¬(offset = 8191 ∧ refused ring offset = false ∧ field ring (offset + 2) = 1518 ∧ 1514 ≤ capacity) := by
  unfold rtlRxSize at inside
  have short : refused ring offset = false → field ring (offset + 2) ≤ 1518 := by
    intro accepted
    unfold refused at accepted
    simp only [Bool.or_eq_false_iff,decide_eq_false_iff_not] at accepted
    unfold ethMtu ethHdrLen at accepted
    omega
  constructor
  · intro all outside
    obtain ⟨last,accepted,longest,roomy⟩ := outside
    have copied : copyLength ring offset capacity = 1514 := by
      unfold copyLength
      rw [longest]
      dsimp only
      split <;> omega
    have read : offset + 4 + 1513 ∈ turnReads ring offset capacity := by
      unfold turnReads
      rw [accepted,if_neg Bool.false_ne_true,copied]
      exact List.mem_append_right _ (List.mem_map.mpr ⟨1513,List.mem_range.mpr (by decide),rfl⟩)
    have below := all _ read
    rw [last] at below
    unfold rtlRxAlloc rtlRxSize at below
    omega
  · intro fits i read
    unfold rtlRxAlloc rtlRxSize
    rcases List.mem_append.mp read with header | copied
    · simp only [List.mem_cons,List.not_mem_nil,or_false] at header
      omega
    · split at copied
      next => cases copied
      next accepted =>
        obtain ⟨j,below,rfl⟩ := List.mem_map.mp copied
        have accepted' := Bool.eq_false_iff.mpr accepted
        have bound := List.mem_range.mp below
        have most := short accepted'
        unfold copyLength at bound
        dsimp only at bound
        by_contra outside
        refine fits ⟨?_,accepted',?_,?_⟩
        · split at bound <;> omega
        · split at bound <;> omega
        · split at bound <;> omega

/-- How many turns some items take. -/
def turnsLeft : List Item → Nat
  | [] => 0
  | .word::rest => turnsLeft rest + 1
  | .packet _::rest => turnsLeft rest + 2

theorem extent_zero {items : List Item} (none : extent items = 0) : items = [] := by
  cases items with
  | nil => rfl
  | cons item rest =>
    rw [extent_cons] at none
    cases item with
    | word =>
      rw [Item.size_word] at none
      omega
    | packet r =>
      have size := received_size r
      have aligned := alignWord_le r.packet.length
      rw [Item.size_packet] at none
      omega

theorem Tracks.drains {s : Rtl} {position : Nat} {items : List Item} (tracks : Tracks s position items) {capacity : Nat}
    (positive : 0 < capacity) : (run Rtl.turn s (List.replicate (turnsLeft items) capacity)).bufferEmpty := by
  induction left : turnsLeft items generalizing s position items with
  | zero =>
    cases items with
    | nil => exact tracks.empty.mpr rfl
    | cons item rest => cases item <;> cases left
  | succ n ih =>
    obtain ⟨position',after⟩ := tracks.turn positive
    refine ih after ?_
    cases items with
    | nil => cases left
    | cons item rest =>
      cases item with
      | word => exact Nat.succ.inj left
      | packet r => exact Nat.succ.inj left

theorem Tracks.delivered {s : Rtl} {position : Nat} {items : List Item} (tracks : Tracks s position items) : Delivered s := by
  refine ⟨tracks.order,tracks.nonzero,tracks.few,?_,fun _ positive => ⟨_,tracks.drains positive⟩,?_⟩
  · intro empty
    have none := extent_zero (tracks.empty.mp empty)
    have received := tracks.received
    rw [none,waitingFrames,List.append_nil] at received
    have length := congrArg List.length received
    rw [List.length_take] at length
    exact Nat.le_antisymm tracks.few (by omega)
  · intro capacity
    have aligned := tracks.aligned
    have inside : s.offset < rtlRxSize := by
      rw [tracks.offset]
      exact Nat.mod_lt _ (by decide)
    refine (turnReads_inside s.ring inside capacity).mpr ?_
    intro outside
    have place := tracks.offset
    unfold rtlRxSize at place
    omega

/-- The receive ring over all runs whose packets meet the condition, and what a turn reads
whatever the ring holds. -/
theorem frames_delivered (acts : List RtlAct) (allowed : Meets Rtl.step Rtl.Allowed rtlInit acts) (ring : Nat → Byte)
    (offset : Nat) (inside : offset < rtlRxSize) (capacity : Nat) :
    Delivered (run Rtl.step rtlInit acts) ∧
    ((∀ i ∈ turnReads ring offset capacity, i < rtlRxAlloc) ↔
      ¬(offset = 8191 ∧ refused ring offset = false ∧ field ring (offset + 2) = 1518 ∧ 1514 ≤ capacity)) := by
  have start : ∃ position items, Tracks rtlInit position items := ⟨_,_,rtlInit_tracks⟩
  have kept : ∀ s act, (∃ position items, Tracks s position items) → s.Allowed act →
      ∃ position items, Tracks (s.step act) position items := by
    intro s act before permitted
    obtain ⟨position,items,tracks⟩ := before
    cases act with
    | receive r =>
      obtain ⟨items',after⟩ := tracks.receive permitted.1 permitted.2
      exact ⟨position,items',after⟩
    | turn capacity =>
      obtain ⟨position',after⟩ := tracks.turn permitted
      exact ⟨position',_,after⟩
  obtain ⟨position,items,tracks⟩ := Meets.invariant kept start allowed
  exact ⟨tracks.delivered,turnReads_inside ring inside capacity⟩

/-- The first polls pass over the ring before the device has room in it. -/
def sweep : List RtlAct := List.replicate 2048 (.turn 1600)

/-- What the sweep leaves. -/
def swept : Rtl := ⟨fun _ => 0,0,caprOf 0,0,[],[]⟩

theorem blank_turn (offset : Nat) {capr : Nat} (more : (capr + 16) % rtlRxSize ≠ 0) (capacity : Nat) :
    Rtl.turn ⟨fun _ => 0,offset,capr,0,[],[]⟩ capacity =
      ⟨fun _ => 0,(offset + 4) % rtlRxSize,caprOf ((offset + 4) % rtlRxSize),0,[],[]⟩ := by
  have below : ¬(offset + 4) % rtlRxSize ≥ rtlRxSize := Nat.not_le.mpr (Nat.mod_lt _ (by decide))
  have left : ¬Rtl.bufferEmpty ⟨fun _ => 0,offset,capr,0,[],[]⟩ := by
    unfold Rtl.bufferEmpty Rtl.readPoint
    rw [beq_iff_eq]
    exact more
  unfold Rtl.turn
  rw [if_neg left]
  dsimp only
  rw [if_pos (blank_refused offset),if_neg below]

theorem blank_turns {n offset : Nat} (place : 4 * n + offset = rtlRxSize) (started : 0 < offset) :
    run Rtl.step ⟨fun _ => 0,offset % rtlRxSize,caprOf (offset % rtlRxSize),0,[],[]⟩ (List.replicate n (.turn 1600)) = swept := by
  induction n generalizing offset with
  | zero =>
    rw [Nat.mul_zero,Nat.zero_add] at place
    rw [place]
    rfl
  | succ n ih =>
    have below : offset < rtlRxSize := by omega
    have point := capr_point (offset % rtlRxSize) (Nat.mod_lt _ (by decide))
    have turned := blank_turn (offset % rtlRxSize)
      (by rw [point,Nat.mod_eq_of_lt below]; omega : (caprOf (offset % rtlRxSize) + 16) % rtlRxSize ≠ 0) 1600
    rw [List.replicate_succ,run_cons,Rtl.step,turned,Nat.mod_add_mod]
    exact ih (by omega) (by omega)

theorem sweep_run : run Rtl.step rtlInit sweep = swept := by
  have first : rtlInit.step (.turn 1600) = ⟨fun _ => 0,4 % rtlRxSize,caprOf (4 % rtlRxSize),0,[],[]⟩ :=
    blank_turn 0 (by decide) 1600
  rw [sweep,List.replicate_succ,run_cons,first]
  exact blank_turns (by decide) (by decide)

theorem turns_allowed (s : Rtl) (n : Nat) : Meets Rtl.step Rtl.Allowed s (List.replicate n (.turn 1600)) := by
  induction n generalizing s with
  | zero => trivial
  | succ n ih => exact ⟨Nat.succ_pos 1599,ih _⟩

def onesFrame : Received :=
  ⟨1,rfl,List.replicate 60 1,by decide,by decide,#v[0x97,0x6A,0x02,0x6E]⟩

def longerFrame : Received :=
  ⟨1,rfl,List.replicate 61 1,by decide,by decide,#v[0x96,0xDB,0x00,0xCB]⟩

def oneFrame : List RtlAct := [.receive longerFrame,.turn 1600,.turn 1600]

theorem oneFrame_allowed : Meets Rtl.step Rtl.Allowed swept oneFrame := by decide +kernel

theorem sweep_allowed : Meets Rtl.step Rtl.Allowed rtlInit (sweep ++ oneFrame) := by
  refine (meets_append ..).mpr ⟨turns_allowed rtlInit 2048,?_⟩
  rw [sweep_run]
  exact oneFrame_allowed

theorem frames_delivered_one : Delivered (run Rtl.step rtlInit (sweep ++ oneFrame)) ∧
    ((∀ i ∈ turnReads (fun _ => 0) 0 1600, i < rtlRxAlloc) ↔
      ¬(0 = 8191 ∧ refused (fun _ => 0) 0 = false ∧ field (fun _ => 0) (0 + 2) = 1518 ∧ 1514 ≤ 1600)) :=
  frames_delivered (sweep ++ oneFrame) sweep_allowed (fun _ => 0) 0 (by decide) 1600

def twoFrames : List RtlAct :=
  [.receive onesFrame,.receive onesFrame,.turn 1600,.turn 1600,.turn 1600,.turn 1600]

theorem twoFrames_lengths : ((run Rtl.step swept twoFrames).returned[1]?.map fun entry => entry.2.length) = some 253 ∧
    (run Rtl.step swept twoFrames).received[1]?.map List.length = some 60 := by decide +kernel

theorem second_shifted : ¬Delivered (run Rtl.step rtlInit (sweep ++ twoFrames)) := by
  intro delivered
  rw [run_append,sweep_run] at delivered
  obtain ⟨copied,sent⟩ := twoFrames_lengths
  obtain ⟨⟨capacity,bytes⟩,found,long⟩ := Option.map_eq_some_iff.mp copied
  obtain ⟨frame,there,same⟩ := delivered.order 1 capacity bytes found
  obtain ⟨frame',there',short⟩ := Option.map_eq_some_iff.mp sent
  cases there.symm.trans there'
  rw [same] at long
  have cut := List.length_take_le' capacity frame
  dsimp only at long
  omega

end LionOS.Net
