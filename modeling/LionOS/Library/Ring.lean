import Mathlib.Data.List.Basic
import Mathlib.Data.Nat.ModEq
import Mathlib.Logic.Function.Basic

/-! A ring of cells: the `count` entries from the cell `tail` on, in the order in which
they were put there. -/
namespace LionOS.Library

variable {α : Type} {size : Nat} {data : Nat → α} {tail count : Nat}

def window (size : Nat) (data : Nat → α) (tail count : Nat) : List α :=
  (List.range count).map fun k => data ((tail + k) % size)

@[simp] theorem window_length : (window size data tail count).length = count := by simp [window]

theorem window_mod : window size data (tail % size) count = window size data tail count := by
  simp only [window,Nat.mod_add_mod]

theorem window_pop :
    window size data tail (count+1) = data (tail % size) :: window size data ((tail+1) % size) count := by
  rw [window_mod,window,List.range_succ_eq_map,List.map_cons,List.map_map]
  refine congrArg₂ List.cons rfl ?_
  apply List.map_congr_left
  intro k _
  simp only [Function.comp_apply]
  rw [Nat.add_assoc,Nat.add_comm 1 k]

theorem window_append (first rest : Nat) :
    window size data tail (first + rest) = window size data tail first ++ window size data (tail + first) rest := by
  rw [window,List.range_add,List.map_append,List.map_map]
  refine congrArg₂ (· ++ ·) rfl ?_
  apply List.map_congr_left
  intro k _
  rw [Function.comp_apply,Nat.add_assoc]

theorem wrap_apart {k : Nat} (inside : k < count) (room : count < size) :
    (tail + k) % size ≠ (tail + count) % size := by
  intro same
  have shifted := Nat.ModEq.add_left_cancel' tail (show Nat.ModEq size (tail + k) (tail + count) from same)
  rw [Nat.ModEq,Nat.mod_eq_of_lt (by omega),Nat.mod_eq_of_lt room] at shifted
  omega

theorem window_push (x : α) (room : count < size) :
    window size (Function.update data ((tail + count) % size) x) tail (count+1) =
      window size data tail count ++ [x] := by
  rw [window,List.range_succ,List.map_append,List.map_singleton,Function.update_self]
  refine congrArg (· ++ [x]) ?_
  apply List.map_congr_left
  intro k member
  rw [Function.update_of_ne (wrap_apart (List.mem_range.mp member) room)]

end LionOS.Library
