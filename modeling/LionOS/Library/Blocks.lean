import Mathlib.Data.List.TakeDrop
import Mathlib.Logic.Function.Basic

/-! Block devices: what a list of writes leaves in the blocks, and how far it gets when
some of the transfers fail. -/
namespace LionOS.Library

variable {β : Type} {blocks : Nat → β} {a : Nat}

/-- The blocks after writes that are made one after the other. -/
def written (blocks : Nat → β) (writes : List (Nat × β)) : Nat → β :=
  writes.foldl (fun blocks w => Function.update blocks w.1 w.2) blocks

@[simp] theorem written_nil : written blocks [] = blocks := rfl

@[simp] theorem written_cons (w : Nat × β) (rest : List (Nat × β)) :
    written blocks (w::rest) = written (Function.update blocks w.1 w.2) rest := rfl

theorem written_append (first second : List (Nat × β)) :
    written blocks (first ++ second) = written (written blocks first) second :=
  List.foldl_append

theorem written_other {writes : List (Nat × β)} (apart : ∀ w ∈ writes, w.1 ≠ a) : written blocks writes a = blocks a := by
  induction writes generalizing blocks with
  | nil => rfl
  | cons w rest ih =>
    rw [written_cons,ih (fun w' member => apart w' (List.mem_cons_of_mem _ member))]
    exact Function.update_of_ne (Ne.symm (apart w List.mem_cons_self)) _ _

/-- Writes to numbered blocks behind `base` whose contents depend on the number. -/
theorem written_map (base : Nat) (numbers : List Nat) (contents : Nat → β) (s : Nat) :
    written blocks (numbers.map fun s => (base + s,contents s)) (base + s) =
      if s ∈ numbers then contents s else blocks (base + s) := by
  induction numbers generalizing blocks with
  | nil => rw [if_neg List.not_mem_nil]; rfl
  | cons n rest ih =>
    rw [List.map_cons,written_cons,ih]
    by_cases later : s ∈ rest
    · rw [if_pos later,if_pos (List.mem_cons_of_mem _ later)]
    · rw [if_neg later]
      by_cases first : s = n
      · subst first
        rw [if_pos List.mem_cons_self]
        exact Function.update_self _ _ _
      · rw [if_neg (fun member => (List.mem_cons.mp member).elim first later)]
        exact Function.update_of_ne (fun same => first (Nat.add_left_cancel same)) _ _

/-- How many of `n` transfers are made before the first one that fails. -/
def reached : List Bool → Nat → Nat
  | _, 0 => 0
  | [], n+1 => n+1
  | true::_, _+1 => 0
  | false::rest, n+1 => reached rest n + 1

@[simp] theorem reached_nil (n : Nat) : reached [] n = n := by
  cases n <;> rfl

theorem reached_min (faults : List Bool) (m n : Nat) (less : m ≤ n) : reached faults m = min m (reached faults n) := by
  induction m generalizing faults n with
  | zero => rw [reached,Nat.zero_min]
  | succ m ih =>
    obtain ⟨n,rfl⟩ : ∃ k, n = k + 1 := ⟨n - 1,by omega⟩
    match faults with
    | [] =>
      rw [reached,reached]
      omega
    | true::_ => rfl
    | false::rest =>
      rw [reached,reached,ih rest n (by omega)]
      omega

end LionOS.Library
