import Mathlib.Algebra.BigOperators.Group.Finset.Basic
import Mathlib.Data.List.Count

/-! Things with several holders, of which some want one of their own: how many copies that takes,
when the last holder keeps the original. -/
namespace LionOS.Library
open scoped BigOperators

variable {α : Type*} [DecidableEq α]

/-- The copies for holders of `wanted`, one after the other, with `holders` holders in all. -/
def copies (holders : α → Nat) (wanted : List α) : Nat :=
  ∑ a ∈ wanted.toFinset, min (wanted.count a) (holders a - 1)

variable {holders holders' : α → Nat} {wanted : List α} {a : α}

/-- Things that nobody wants may be left in or out of the sum. -/
theorem copies_within {s : Finset α} (covers : wanted.toFinset ⊆ s) :
    copies holders wanted = ∑ a ∈ s, min (wanted.count a) (holders a - 1) := by
  refine Finset.sum_subset covers fun a _ absent => ?_
  rw [List.mem_toFinset] at absent
  rw [List.count_eq_zero_of_not_mem absent,Nat.zero_min]

theorem copies_congr (same : ∀ a ∈ wanted, holders a = holders' a) : copies holders wanted = copies holders' wanted := by
  refine Finset.sum_congr rfl fun a member => ?_
  rw [same a (List.mem_toFinset.mp member)]

/-- The sum over the first holder's thing and over the rest. -/
theorem copies_split (holders : α → Nat) (a : α) (rest : List α) :
    copies holders (a::rest) = min (rest.count a + 1) (holders a - 1) +
      ∑ b ∈ rest.toFinset.erase a, min (rest.count b) (holders b - 1) ∧
    copies holders rest = min (rest.count a) (holders a - 1) +
      ∑ b ∈ rest.toFinset.erase a, min (rest.count b) (holders b - 1) := by
  have member : a ∈ (a::rest).toFinset := by simp
  have others : (a::rest).toFinset.erase a = rest.toFinset.erase a := by
    rw [List.toFinset_cons,Finset.erase_insert_eq_erase]
  refine ⟨?_,?_⟩
  · unfold copies
    rw [← Finset.add_sum_erase _ _ member,others,List.count_cons_self]
    congr 1
    refine Finset.sum_congr rfl fun b inside => ?_
    rw [List.count_cons_of_ne (Finset.ne_of_mem_erase inside).symm]
  · have covers : rest.toFinset ⊆ (a::rest).toFinset := by
      rw [List.toFinset_cons]
      exact Finset.subset_insert a _
    rw [copies_within covers,← Finset.add_sum_erase _ _ member,others]

/-- The only holder needs no copy. -/
theorem copies_last (last : holders a ≤ 1) (rest : List α) : copies holders (a::rest) = copies holders rest := by
  obtain ⟨whole,later⟩ := copies_split holders a rest
  rw [whole,later]
  omega

/-- One of several holders takes a copy, and one holder less is left. -/
theorem copies_shared (shared : 1 < holders a) (rest : List α) :
    copies holders (a::rest) = copies (Function.update holders a (holders a - 1)) rest + 1 := by
  obtain ⟨whole,_⟩ := copies_split holders a rest
  obtain ⟨_,later⟩ := copies_split (Function.update holders a (holders a - 1)) a rest
  rw [whole,later,Function.update_self]
  have same : ∑ b ∈ rest.toFinset.erase a, min (rest.count b) (Function.update holders a (holders a - 1) b - 1) =
      ∑ b ∈ rest.toFinset.erase a, min (rest.count b) (holders b - 1) := by
    refine Finset.sum_congr rfl fun b inside => ?_
    rw [Function.update_of_ne (Finset.ne_of_mem_erase inside)]
  rw [same]
  omega

end LionOS.Library
