import Mathlib.Data.List.Basic
import Mathlib.Logic.Function.Basic

/-! A ring whose slots carry one bit that says on which lap they were written. The bit is
`first` on the first lap and changes on every later one. A reader that is not more than a
lap behind tells from the bit alone whether the slot it has come to has been written. -/
namespace LionOS.Library

variable {α : Type} {size : Nat} {bit : α → Bool} {first : Bool} {slots : Nat → α} {written : List α}

/-- The bit of write `k`, the first being write 0. -/
def lapBit (size : Nat) (first : Bool) (k : Nat) : Bool := if k / size % 2 = 0 then first else !first

/-- The slot and the bit after those of some write. -/
def lapNext (size : Nat) : Nat × Bool → Nat × Bool
  | (index,current) => if index + 1 ≥ size then (0,!current) else (index + 1,current)

theorem lapBit_first {k : Nat} (early : k < size) : lapBit size first k = first := by
  simp [lapBit,Nat.div_eq_of_lt early]

theorem lapBit_odd {k j : Nat} (turned : j / size = k / size + 1) : lapBit size first j = !lapBit size first k := by
  unfold lapBit
  rw [turned]
  by_cases even : k / size % 2 = 0
  · rw [if_pos even,if_neg (by omega)]
  · rw [if_neg even,if_pos (by omega),Bool.not_not]

theorem lapBit_lap (positive : 0 < size) (k : Nat) : lapBit size first (k + size) = !lapBit size first k :=
  lapBit_odd (Nat.add_div_right k positive)

theorem lapNext_write (positive : 0 < size) (k : Nat) :
    lapNext size (k % size,lapBit size first k) = ((k + 1) % size,lapBit size first (k + 1)) := by
  have below := Nat.mod_lt k positive
  have total := Nat.div_add_mod k size
  by_cases last : k % size + 1 ≥ size
  · have whole : k + 1 = size * (k / size + 1) := by
      rw [Nat.mul_add,Nat.mul_one]
      omega
    have quotient : (k + 1) / size = k / size + 1 := by rw [whole,Nat.mul_div_cancel_left _ positive]
    have rest : (k + 1) % size = 0 := by rw [whole,Nat.mul_mod_right]
    rw [lapNext,if_pos last,rest,lapBit_odd quotient]
  · have next : k + 1 = size * (k / size) + (k % size + 1) := by omega
    have quotient : (k + 1) / size = k / size := by
      rw [next,Nat.mul_add_div positive,Nat.div_eq_of_lt (Nat.not_le.mp last),Nat.add_zero]
    have rest : (k + 1) % size = k % size + 1 := by
      rw [next,Nat.mul_add_mod,Nat.mod_eq_of_lt (Nat.not_le.mp last)]
    rw [lapNext,if_neg last,rest]
    unfold lapBit
    rw [quotient]

/-- The ring after all that has been written: each slot holds the last write to it, and the
next slot does not have the bit of its next write. -/
structure Laps (size : Nat) (bit : α → Bool) (first : Bool) (slots : Nat → α) (written : List α) : Prop where
  recent : ∀ k a, written[k]? = some a → written.length ≤ k + size → slots (k % size) = a
  marked : ∀ k a, written[k]? = some a → bit a = lapBit size first k
  clear : bit (slots (written.length % size)) ≠ lapBit size first written.length

theorem Laps.empty (clear : bit (slots 0) ≠ first) : Laps size bit first slots [] := by
  refine ⟨nofun,nofun,?_⟩
  have start : lapBit size first 0 = first := by simp [lapBit]
  rw [List.length_nil,Nat.zero_mod,start]
  exact clear

theorem laps_apart {k length : Nat} (before : k < length) (near : length < k + size) : k % size ≠ length % size := by
  intro same
  have whole := Nat.dvd_of_mod_eq_zero (Nat.sub_mod_eq_zero_of_mod_eq same.symm)
  have small := Nat.le_of_dvd (Nat.sub_pos_of_lt before) whole
  omega

theorem snoc_found {a b : α} {k : Nat} (found : (written ++ [a])[k]? = some b) :
    written[k]? = some b ∨ k = written.length ∧ b = a := by
  by_cases last : k < written.length
  · rw [List.getElem?_append_left last] at found
    exact .inl found
  · rw [List.getElem?_append_right (Nat.not_lt.mp last),List.getElem?_singleton] at found
    split at found
    next zero =>
      cases found
      exact .inr ⟨by omega,rfl⟩
    next => cases found

/-- The next write goes into the next slot with the bit of its lap, and the slot after it
must not look written yet. -/
theorem Laps.put (laps : Laps size bit first slots written) (several : 1 < size) {a : α}
    (marked : bit a = lapBit size first written.length)
    (clear : bit (slots ((written.length + 1) % size)) ≠ lapBit size first (written.length + 1)) :
    Laps size bit first (Function.update slots (written.length % size) a) (written ++ [a]) := by
  obtain ⟨recent,bits,_⟩ := laps
  refine ⟨?_,?_,?_⟩
  · intro k b found near
    rw [List.length_append,List.length_singleton] at near
    rcases snoc_found found with old | ⟨rfl,rfl⟩
    · have before := (List.getElem?_eq_some_iff.mp old).1
      rw [Function.update_of_ne (laps_apart before near)]
      exact recent k b old (by omega)
    · rw [Function.update_self]
  · intro k b found
    rcases snoc_found found with old | ⟨rfl,rfl⟩
    · exact bits k b old
    · exact marked
  · have other := (laps_apart (Nat.lt_succ_self written.length) (by omega : _ < written.length + size)).symm
    rw [List.length_append,List.length_singleton,Function.update_of_ne other]
    exact clear

theorem Laps.congr (laps : Laps size bit first slots written) (positive : 0 < size) {slots' : Nat → α}
    (same : ∀ i, i < size → slots i = slots' i) : Laps size bit first slots' written := by
  have inside := fun k => Nat.mod_lt k positive
  refine ⟨?_,laps.marked,?_⟩
  · intro k a found near
    rw [← same _ (inside k)]
    exact laps.recent k a found near
  · rw [← same _ (inside written.length)]
    exact laps.clear

/-- The slots that no write has come to are blank, which no first write is. -/
def Fresh (size : Nat) (bit : α → Bool) (first : Bool) (slots : Nat → α) (length : Nat) : Prop :=
  ∀ i, i < size → length ≤ i → bit (slots i) ≠ first

theorem Fresh.put {length : Nat} (fresh : Fresh size bit first slots length) (a : α) :
    Fresh size bit first (Function.update slots (length % size) a) (length + 1) := by
  intro i inside later
  have other : i ≠ length % size := by
    rw [Nat.mod_eq_of_lt (by omega)]
    omega
  rw [Function.update_of_ne other]
  exact fresh i inside (by omega)

/-- On a ring that was blank at the start no slot ahead looks written. -/
theorem Fresh.ahead (fresh : Fresh size bit first slots written.length) (laps : Laps size bit first slots written)
    (positive : 0 < size) {j : Nat} (after : written.length < j) (near : j < written.length + size) :
    bit (slots (j % size)) ≠ lapBit size first j := by
  by_cases early : j < size
  · rw [Nat.mod_eq_of_lt early,lapBit_first early]
    exact fresh j early (by omega)
  · have inside : j - size < written.length := by omega
    have found := List.getElem?_eq_getElem inside
    have slot : (j - size) % size = j % size := (Nat.mod_eq_sub_mod (by omega)).symm
    have lap : lapBit size first j = !lapBit size first (j - size) := by
      rw [← lapBit_lap positive,Nat.sub_add_cancel (by omega)]
    rw [← slot,laps.recent (j - size) _ found (by omega),laps.marked (j - size) _ found,lap]
    exact Bool.not_eq_not.mpr rfl

/-- A reader that is at most a lap behind finds the bit that it expects exactly where
something is left to read. -/
theorem Laps.owned (laps : Laps size bit first slots written) {k : Nat} (behind : k ≤ written.length)
    (near : written.length ≤ k + size) : bit (slots (k % size)) = lapBit size first k ↔ k < written.length := by
  constructor
  · intro expected
    by_contra stop
    have all : k = written.length := by omega
    subst all
    exact laps.clear expected
  · intro left
    have found := List.getElem?_eq_getElem left
    rw [laps.recent k _ found near]
    exact laps.marked k _ found

/-- What it finds there is what was written. -/
theorem Laps.read (laps : Laps size bit first slots written) {k : Nat} (left : k < written.length)
    (near : written.length ≤ k + size) : written[k]? = some (slots (k % size)) := by
  have found := List.getElem?_eq_getElem left
  rw [laps.recent k _ found near]
  exact found

end LionOS.Library
