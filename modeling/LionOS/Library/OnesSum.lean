import Mathlib.Data.List.Basic
import Mathlib.Data.BitVec

/-! Sums of 16-bit words with the carry added back at the low end. -/
namespace LionOS.Library

/-- The plain sum of the words of a string, high byte first. A last odd byte is a high byte. -/
def wordTotal : List (BitVec 8) → Nat
  | a::b::rest => a.toNat * 2^8 + b.toNat + wordTotal rest
  | [a] => a.toNat * 2^8
  | [] => 0

def endAround (sum : Nat) : Nat :=
  if sum < 2^16 then sum else endAround (sum % 2^16 + sum / 2^16)
termination_by sum
decreasing_by omega

/-- The ones' complement sum of the words of a string. -/
def onesSum (bytes : List (BitVec 8)) : Nat := endAround (wordTotal bytes)

theorem endAround_lt (sum : Nat) : endAround sum < 2^16 := by
  induction sum using endAround.induct with
  | case1 sum small =>
    rw [endAround,if_pos small]
    exact small
  | case2 sum large ih =>
    rw [endAround,if_neg large]
    exact ih

theorem endAround_mod (sum : Nat) : endAround sum % 65535 = sum % 65535 := by
  induction sum using endAround.induct with
  | case1 sum small => rw [endAround,if_pos small]
  | case2 sum large ih =>
    rw [endAround,if_neg large,ih]
    omega

theorem endAround_pos {sum : Nat} (positive : 0 < sum) : 0 < endAround sum := by
  induction sum using endAround.induct with
  | case1 sum small =>
    rw [endAround,if_pos small]
    exact positive
  | case2 sum large ih =>
    rw [endAround,if_neg large]
    exact ih (by omega)

/-- A sum is all ones when the plain sum is divisible by 2^16 - 1. -/
theorem endAround_ones {sum : Nat} (positive : 0 < sum) : endAround sum = 0xFFFF ↔ 65535 ∣ sum := by
  have below := endAround_lt sum
  have same := endAround_mod sum
  have above := endAround_pos positive
  omega

theorem wordTotal_pair (a b : BitVec 8) (rest : List (BitVec 8)) :
    wordTotal (a::b::rest) = a.toNat * 2^8 + b.toNat + wordTotal rest := rfl

theorem wordTotal_le (a : List (BitVec 8)) : wordTotal a ≤ a.length * 2^16 := by
  induction a using wordTotal.induct with
  | case1 x y rest ih =>
    rw [wordTotal,List.length_cons,List.length_cons]
    have first := x.isLt
    have second := y.isLt
    omega
  | case2 x =>
    have first := x.isLt
    rw [wordTotal,List.length_singleton]
    omega
  | case3 => exact Nat.zero_le _

end LionOS.Library
