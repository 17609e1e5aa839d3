import LionOS.Library.Pool

/-! A search for the least key, and within it one for the first place. -/
namespace LionOS.Library

variable {α : Type} {m n i : Nat}

theorem findSome_range {f : Nat → Option α} {a : α} (found : (List.range m).findSome? f = some a) :
    ∃ k, k < m ∧ f k = some a ∧ ∀ j, j < k → f j = none := by
  induction m with
  | zero => cases found
  | succ m ih =>
    rw [List.range_succ,List.findSome?_append] at found
    cases early : (List.range m).findSome? f with
    | some b =>
      rw [early,Option.some_or] at found
      obtain ⟨k,bound,here,before⟩ := ih (early.trans found)
      exact ⟨k,by omega,here,before⟩
    | none =>
      rw [early,Option.none_or] at found
      have last : f m = some a := by simpa using found
      exact ⟨m,by omega,last,fun j less => List.findSome?_eq_none_iff.mp early j (List.mem_range.mpr less)⟩

/-- Of the places below `n` that pass the test, `i` has the least key, and it is the first with
that key. -/
structure Least (m n : Nat) (test : Nat → Bool) (key : Nat → Nat) (i : Nat) : Prop where
  bound : i < n
  passes : test i = true
  level : key i < m
  least : ∀ j, j < n → test j = true → key i < key j ∨ key i = key j ∧ i ≤ j

theorem least_found {test : Nat → Bool} {key : Nat → Nat}
    (found : ((List.range m).findSome? fun k => (List.range n).find? fun j => test j && decide (key j = k)) = some i) :
    Least m n test key i := by
  obtain ⟨k,level,here,before⟩ := findSome_range found
  obtain ⟨bound,both,first⟩ := find_range.mp here
  rw [Bool.and_eq_true,decide_eq_true_iff] at both
  obtain ⟨passes,rfl⟩ := both
  refine ⟨bound,passes,level,fun j inside tested => ?_⟩
  have missed (k : Nat) (less : k < key i) : key j ≠ k := by
    intro same
    have none := find_range_none.mp (before k less) j inside
    simp [tested,same] at none
  have early (less : j < i) : key j ≠ key i := by
    intro same
    have none := first j less
    simp [tested,same] at none
  rcases Nat.lt_trichotomy (key i) (key j) with less | same | more
  · exact .inl less
  · refine .inr ⟨same,?_⟩
    by_contra before
    exact early (by omega) same.symm
  · exact absurd rfl (missed (key j) more)

end LionOS.Library
