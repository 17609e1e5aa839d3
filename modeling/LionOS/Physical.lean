import Mathlib.Data.BitVec
import Mathlib.Logic.Function.Basic

/-! Physical memory as frames of 512 words of 64 bits, with the byte and 32-bit
views that user data is read and written through. -/
namespace LionOS.Physical

abbrev Byte := BitVec 8
abbrev Word := BitVec 64
abbrev Page := Nat → Word
abbrev Mem := Nat → Page

def read (m : Mem) (address : Nat) : Word := m (address / 4096) (address % 4096 / 8)

def setWord (page : Page) (i : Nat) (value : Word) : Page := Function.update page i value

def write (m : Mem) (address : Nat) (value : Word) : Mem :=
  Function.update m (address / 4096) (setWord (m (address / 4096)) (address % 4096 / 8) value)

def byteOf (page : Page) (offset : Nat) : Byte := (page (offset / 8)).extractLsb' (8 * (offset % 8)) 8

def setByte (page : Page) (offset : Nat) (value : Byte) : Page :=
  let shift := 8 * (offset % 8)
  setWord page (offset / 8)
    ((page (offset / 8) &&& ~~~(0xFF#64 <<< shift)) ||| (value.setWidth 64 <<< shift))

def writeByte (m : Mem) (address : Nat) (value : Byte) : Mem :=
  Function.update m (address / 4096) (setByte (m (address / 4096)) (address % 4096) value)

def readByte (m : Mem) (address : Nat) : Byte := byteOf (m (address / 4096)) (address % 4096)

/-- The four bytes of a 32-bit value in memory order. -/
def bytes32 (value : Nat) : List Byte :=
  [BitVec.ofNat 8 value,BitVec.ofNat 8 (value / 2^8),BitVec.ofNat 8 (value / 2^16),
    BitVec.ofNat 8 (value / 2^24)]

def writeBytes (m : Mem) (address : Nat) : List Byte → Mem
  | [] => m
  | value::rest => writeBytes (writeByte m address value) (address+1) rest

def zeroPage : Page := fun _ => 0

theorem lowByte_bit {i : Nat} (inside : i < 64) : (0xFF#64)[i] = decide (i < 8) :=
  (by decide : ∀ i (inside : i < 64), (0xFF#64)[i] = decide (i < 8)) i inside

/-- A stored byte is the byte that is read back, and no other byte of the page changes. -/
theorem byteOf_setByte (page : Page) (offset place : Nat) (value : Byte) :
    byteOf (setByte page offset value) place = if place = offset then value else byteOf page place := by
  unfold byteOf setByte setWord
  by_cases word : place / 8 = offset / 8
  · rw [word,Function.update_self]
    by_cases own : place = offset
    · subst own
      rw [if_pos rfl]
      ext i inside
      have bound : 8 * (place % 8) + i < 64 := by omega
      have above : ¬ 8 * (place % 8) + i < 8 * (place % 8) := by omega
      simp [lowByte_bit (show i < 64 by omega),bound,above,inside]
    · rw [if_neg own]
      ext i inside
      have bound : 8 * (place % 8) + i < 64 := by omega
      have apart : place % 8 ≠ offset % 8 := by omega
      by_cases before : 8 * (place % 8) + i < 8 * (offset % 8)
      · simp [bound,before]
      · have high : 8 ≤ 8 * (place % 8) + i - 8 * (offset % 8) := by omega
        simp [bound,before,lowByte_bit (show 8 * (place % 8) + i - 8 * (offset % 8) < 64 by omega),
          Nat.not_lt.mpr high,BitVec.getLsbD_of_ge value _ high]
  · rw [Function.update_of_ne word,if_neg]
    intro own
    exact word (by rw [own])

theorem readByte_writeByte (m : Mem) (address place : Nat) (value : Byte) :
    readByte (writeByte m address value) place = if place = address then value else readByte m place := by
  unfold readByte writeByte
  by_cases page : place / 4096 = address / 4096
  · rw [page,Function.update_self,byteOf_setByte]
    have same : place % 4096 = address % 4096 ↔ place = address := by omega
    simp only [same]
  · rw [Function.update_of_ne page,if_neg]
    intro own
    exact page (by rw [own])

/-- Bytes that stay inside a page change no other page. -/
theorem writeBytes_frame {bytes : List Byte} (m : Mem) {address f : Nat} (inside : address % 4096 + bytes.length ≤ 4096)
    (other : f ≠ address / 4096) : writeBytes m address bytes f = m f := by
  induction bytes generalizing m address with
  | nil => rfl
  | cons value rest ih =>
    rw [List.length_cons] at inside
    have first : writeByte m address value f = m f := Function.update_of_ne other _ _
    cases rest with
    | nil => exact first
    | cons next rest =>
      rw [List.length_cons] at inside
      rw [writeBytes,ih (writeByte m address value) (by rw [List.length_cons]; omega) (by omega)]
      exact first

/-- What lies below the stored bytes stays. -/
theorem readByte_below {bytes : List Byte} (m : Mem) {address place : Nat} (below : place < address) :
    readByte (writeBytes m address bytes) place = readByte m place := by
  induction bytes generalizing m address with
  | nil => rfl
  | cons value rest ih =>
    rw [writeBytes,ih _ (by omega),readByte_writeByte,if_neg (by omega)]

theorem readByte_writeBytes (m : Mem) (address place : Nat) (bytes : List Byte) :
    readByte (writeBytes m address bytes) place =
      if address ≤ place ∧ place < address + bytes.length then bytes.getD (place - address) 0 else readByte m place := by
  induction bytes generalizing m address with
  | nil =>
    rw [if_neg (by rw [List.length_nil]; omega)]
    rfl
  | cons value rest ih =>
    rw [writeBytes,ih,readByte_writeByte,List.length_cons]
    by_cases own : place = address
    · subst own
      rw [if_neg (by omega),if_pos rfl,if_pos (by omega),Nat.sub_self]
      rfl
    · rw [if_neg own]
      by_cases later : address + 1 ≤ place ∧ place < address + 1 + rest.length
      · rw [if_pos later,if_pos (by omega),show place - address = (place - (address + 1)) + 1 by omega]
        rfl
      · rw [if_neg later,if_neg (by omega)]

theorem readBytes_writeBytes (m : Mem) (address : Nat) (bytes : List Byte) :
    (List.range bytes.length).map (fun i => readByte (writeBytes m address bytes) (address + i)) = bytes := by
  induction bytes generalizing m address with
  | nil => rfl
  | cons value rest ih =>
    rw [List.length_cons,List.range_succ_eq_map,List.map_cons,List.map_map]
    congr 1
    · rw [writeBytes,readByte_below _ (by omega),readByte_writeByte,if_pos (by omega)]
    · refine Eq.trans ?_ (ih (writeByte m address value) (address + 1))
      apply List.map_congr_left
      intro i _
      rw [writeBytes,Function.comp_apply,Nat.succ_eq_add_one]
      congr 1
      omega

end LionOS.Physical
