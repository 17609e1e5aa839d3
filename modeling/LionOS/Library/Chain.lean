import Mathlib.Data.Fintype.Pigeonhole
import Mathlib.Logic.Relation

/-! Chains of a partial successor function. On a finite type a chain that leads from one
element to another need not be longer than the type has elements. -/
namespace LionOS.Library

variable {α : Type} (next : α → Option α)

/-- The element `k` links behind `x`. -/
def linked : Nat → α → Option α
  | 0, x => some x
  | k+1, x => (next x).bind (linked k)

def Leads (x y : α) : Prop := next x = some y

theorem linked_add (j k : Nat) (x : α) : linked next (j + k) x = (linked next j x).bind (linked next k) := by
  induction j generalizing x with
  | zero => simp [linked]
  | succ j ih =>
    rw [Nat.succ_add]
    cases successor : next x with
    | none => simp [linked,successor]
    | some y => simp [linked,successor,ih]

theorem transGen_linked {x y : α} :
    Relation.TransGen (Leads next) x y ↔ ∃ k, linked next (k + 1) x = some y := by
  constructor
  · intro chain
    induction chain with
    | single link => exact ⟨0,by simpa [linked,Leads] using link⟩
    | tail _ link ih =>
      obtain ⟨k,reached⟩ := ih
      refine ⟨k + 1,?_⟩
      rw [linked_add,reached]
      simpa [linked,Leads] using link
  · rintro ⟨k,reached⟩
    induction k generalizing x with
    | zero => exact .single (by simpa [linked,Leads] using reached)
    | succ k ih =>
      obtain ⟨z,link,rest⟩ := Option.bind_eq_some_iff.mp reached
      exact .head link (ih rest)

/-- A chain that meets an element twice can be cut short. -/
theorem linked_shortcut {x y z : α} {i j k : Nat} (before : i < j) (within : j ≤ k)
    (first : linked next i x = some z) (again : linked next j x = some z) (reached : linked next k x = some y) :
    linked next (k - (j - i)) x = some y := by
  have tail : linked next (k - j) z = some y := by
    have whole := linked_add next j (k - j) x
    rw [Nat.add_sub_cancel' within,reached,again] at whole
    exact whole.symm
  have index : k - (j - i) = i + (k - j) := by omega
  rw [index,linked_add,first]
  exact tail

theorem linked_prefix {x y : α} {i k : Nat} (within : i ≤ k) (reached : linked next k x = some y) :
    ∃ z, linked next i x = some z := by
  have whole := linked_add next i (k - i) x
  rw [Nat.add_sub_cancel' within,reached] at whole
  cases start : linked next i x with
  | none => simp [start] at whole
  | some z => exact ⟨z,rfl⟩

/-- The links of a chain from `x` to `y` that a walk of `Fintype.card α` links finds. -/
theorem transGen_bounded [Fintype α] {x y : α} (chain : Relation.TransGen (Leads next) x y) :
    ∃ k, k < Fintype.card α ∧ linked next (k + 1) x = some y := by
  classical
  have reachable := (transGen_linked next).mp chain
  let k := Nat.find reachable
  have reached : linked next (k + 1) x = some y := Nat.find_spec reachable
  refine ⟨k,?_,reached⟩
  by_contra long
  have node (i : Fin (k + 1)) : ∃ z, linked next (i.val + 1) x = some z :=
    linked_prefix next (by omega) reached
  choose visited passes using node
  have crowded : Fintype.card α < Fintype.card (Fin (k + 1)) := by
    rw [Fintype.card_fin]
    omega
  obtain ⟨i,j,distinct,same⟩ := Fintype.exists_ne_map_eq_of_card_lt visited crowded
  have cut {i j : Fin (k + 1)} (before : i < j) (same : visited i = visited j) : False := by
    have first := passes i
    rw [same] at first
    have short := linked_shortcut next (Nat.succ_lt_succ before) (by omega) first (passes j) reached
    have position : k + 1 - (j.val + 1 - (i.val + 1)) = (k - (j.val - i.val)) + 1 := by omega
    rw [position] at short
    have least := Nat.find_min' reachable short
    have lower : i.val < j.val := before
    omega
  rcases lt_or_gt_of_ne distinct with before | after
  · exact cut before same
  · exact cut after same.symm

end LionOS.Library
