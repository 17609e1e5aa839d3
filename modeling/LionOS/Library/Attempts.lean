/-! Loops with a bound on their turns: a turn goes on or leaves the loop with a result, and
when the turns run out the loop ends with a result of its own. -/
namespace LionOS.Library

variable {σ ρ : Type}

def attempts (turn : σ → σ × Option ρ) (spent : ρ) : Nat → σ → σ × ρ
  | 0, s => (s,spent)
  | n+1, s => match turn s with
    | (s',none) => attempts turn spent n s'
    | (s',some result) => (s',result)

/-- Every turn is taken in an allowed state, and the turns run out only in a last one. -/
def Along (turn : σ → σ × Option ρ) (allowed last : σ → Prop) : Nat → σ → Prop
  | 0, s => last s
  | n+1, s => allowed s ∧ match turn s with
    | (s',none) => Along turn allowed last n s'
    | (_,some _) => True

instance Along.decidable (turn : σ → σ × Option ρ) (allowed last : σ → Prop) [∀ s, Decidable (allowed s)]
    [∀ s, Decidable (last s)] : ∀ (n : Nat) (s : σ), Decidable (Along turn allowed last n s)
  | 0, s => inferInstanceAs (Decidable (last s))
  | n+1, s =>
    have : Decidable (match turn s with
        | (s',none) => Along turn allowed last n s'
        | (_,some _) => True) :=
      match turn s with
      | (s',none) => Along.decidable turn allowed last n s'
      | (_,some _) => isTrue trivial
    inferInstanceAs (Decidable (_ ∧ _))

section Rules
variable {turn : σ → σ × Option ρ} {spent : ρ} {keeps : Nat → σ → Prop} {post : σ × ρ → Prop}
variable {allowed last : σ → Prop}

/-- The invariant may count the turns that are left. -/
theorem attempts_keeps (goes : ∀ n s s', keeps (n + 1) s → turn s = (s',none) → keeps n s')
    (ends : ∀ n s s' result, keeps (n + 1) s → turn s = (s',some result) → post (s',result))
    (stops : ∀ s, keeps 0 s → post (s,spent)) {n : Nat} {s : σ} (start : keeps n s) : post (attempts turn spent n s) := by
  induction n generalizing s with
  | zero => exact stops s start
  | succ n ih =>
    rw [attempts]
    rcases made : turn s with ⟨s',_ | result⟩
    · exact ih (goes n s s' start made)
    · exact ends n s s' result start made

/-- What every turn keeps holds where the loop ends. -/
theorem attempts_invariant {holds : σ → Prop} (kept : ∀ s, holds s → holds (turn s).1) {n : Nat} {s : σ} (start : holds s) :
    holds (attempts turn spent n s).1 := by
  induction n generalizing s with
  | zero => exact start
  | succ n ih =>
    have after := kept s start
    rw [attempts]
    rcases made : turn s with ⟨s',_ | result⟩
    · rw [made] at after
      exact ih after
    · rw [made] at after
      exact after

/-- A loop that carries more than another, but does the same otherwise. -/
theorem attempts_map {τ : Type} {other : τ → τ × Option ρ} (f : σ → τ) (same : ∀ s, other (f s) = (f (turn s).1,(turn s).2))
    (n : Nat) (s : σ) : attempts other spent n (f s) = (f (attempts turn spent n s).1,(attempts turn spent n s).2) := by
  induction n generalizing s with
  | zero => rfl
  | succ n ih =>
    rw [attempts,attempts,same s]
    rcases turn s with ⟨s',_ | result⟩
    · exact ih s'
    · rfl

/-- A loop ends well exactly if the turns that could go wrong are allowed. -/
theorem attempts_iff (goes : ∀ n s s', keeps (n + 1) s → turn s = (s',none) → keeps n s' ∧ allowed s)
    (ends : ∀ n s s' result, keeps (n + 1) s → turn s = (s',some result) → (post (s',result) ↔ allowed s))
    (stops : ∀ s, keeps 0 s → (post (s,spent) ↔ last s)) {n : Nat} {s : σ} (start : keeps n s) :
    post (attempts turn spent n s) ↔ Along turn allowed last n s := by
  induction n generalizing s with
  | zero => exact stops s start
  | succ n ih =>
    rw [attempts,Along]
    rcases made : turn s with ⟨s',_ | result⟩
    · obtain ⟨kept,fine⟩ := goes n s s' start made
      rw [and_iff_right fine]
      exact ih kept
    · rw [and_true]
      exact ends n s s' result start made

end Rules
end LionOS.Library
