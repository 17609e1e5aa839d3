/-! Parsers of a buffer, with the places that they read. -/
namespace LionOS.Library

variable {β α γ : Type}

/-- A parser asks for one place of the buffer after the other, and each question may depend on
the answers so far. -/
inductive Scan (β α : Type)
  | done (a : α)
  | read (i : Nat) (next : β → Scan β α)

namespace Scan

def value (buffer : Nat → β) : Scan β α → α
  | .done a => a
  | .read i next => (next (buffer i)).value buffer

def reads (buffer : Nat → β) : Scan β α → List Nat
  | .done _ => []
  | .read i next => i::(next (buffer i)).reads buffer

def item (i : Nat) : Scan β β := .read i .done

def andThen : Scan β α → (α → Scan β γ) → Scan β γ
  | .done a, later => later a
  | .read i next, later => .read i fun b => (next b).andThen later

instance monad : Monad (Scan β) where
  pure := .done
  bind := andThen

section Values
variable (buffer : Nat → β)

@[simp] theorem value_pure (a : α) : (pure a : Scan β α).value buffer = a := rfl

@[simp] theorem value_item (i : Nat) : (item i).value buffer = buffer i := rfl

@[simp] theorem value_bind (p : Scan β α) (later : α → Scan β γ) :
    (p >>= later).value buffer = (later (p.value buffer)).value buffer := by
  change (p.andThen later).value buffer = _
  induction p with
  | done a => rfl
  | read i next ih => exact ih (buffer i)

theorem reads_bind (p : Scan β α) (later : α → Scan β γ) :
    (p >>= later).reads buffer = p.reads buffer ++ (later (p.value buffer)).reads buffer := by
  change (p.andThen later).reads buffer = _
  induction p with
  | done a => rfl
  | read i next ih => exact congrArg (i::·) (ih (buffer i))

@[simp] theorem value_ite (c : Prop) [Decidable c] (p q : Scan β α) :
    (if c then p else q).value buffer = if c then p.value buffer else q.value buffer := by
  split
  · rfl
  · rfl

end Values

/-- No place is read outside the first `n`. -/
def Within (n : Nat) (buffer : Nat → β) (p : Scan β α) : Prop := ∀ i ∈ p.reads buffer, i < n

section Rules
variable {n : Nat} {buffer : Nat → β}

theorem Within.pure (a : α) : Within n buffer (pure a : Scan β α) := by
  intro i read
  cases read

theorem Within.item {i : Nat} (inside : i < n) : Within n buffer (item i) := by
  intro j read
  rw [List.mem_singleton.mp read]
  exact inside

theorem Within.bind {p : Scan β α} {later : α → Scan β γ} (now : Within n buffer p)
    (then' : Within n buffer (later (p.value buffer))) : Within n buffer (p >>= later) := by
  intro i read
  rw [reads_bind] at read
  rcases List.mem_append.mp read with early | late
  · exact now i early
  · exact then' i late

theorem Within.ite {c : Prop} [Decidable c] {p q : Scan β α} (yes : c → Within n buffer p) (no : ¬c → Within n buffer q) :
    Within n buffer (if c then p else q) := by
  split
  · exact yes ‹c›
  · exact no ‹¬c›

/-- What a parser reads is all that its result depends on. -/
theorem Within.value_eq {other : Nat → β} {p : Scan β α} (within : Within n buffer p)
    (same : ∀ i < n, other i = buffer i) : p.value other = p.value buffer := by
  induction p with
  | done a => rfl
  | read i next ih =>
    have here : other i = buffer i := same i (within i List.mem_cons_self)
    have rest : Within n buffer (next (buffer i)) := fun j read => within j (List.mem_cons_of_mem _ read)
    change (next (other i)).value other = (next (buffer i)).value buffer
    rw [here]
    exact ih (buffer i) rest

end Rules
end Scan
end LionOS.Library
