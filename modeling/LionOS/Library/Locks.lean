import Mathlib.Data.List.Basic
import Mathlib.Logic.Function.Basic

/-! Locks without owners: whoever takes one that is held waits, and if the holder is itself, or
code that it has interrupted, it waits for ever. -/
namespace LionOS.Library

variable {α : Type}

inductive LockStep (α : Type) where
  | acquire (lock : α)
  | release (lock : α)
  deriving DecidableEq

/-- The steps of a critical section. -/
def locked (lock : α) (inner : List (LockStep α)) : List (LockStep α) := .acquire lock::(inner ++ [.release lock])

def Acquires (steps : List (LockStep α)) (lock : α) : Prop := .acquire lock ∈ steps

/-- Critical sections one after the other and within one another, none within itself. -/
inductive Sections : List (LockStep α) → Prop
  | nil : Sections []
  | append {first second : List (LockStep α)} : Sections first → Sections second → Sections (first ++ second)
  | around {lock : α} {inner : List (LockStep α)} : Sections inner → ¬Acquires inner lock → Sections (locked lock inner)

@[simp] theorem acquires_nil (lock : α) : ¬Acquires [] lock := List.not_mem_nil

@[simp] theorem acquires_append (first second : List (LockStep α)) (lock : α) :
    Acquires (first ++ second) lock ↔ Acquires first lock ∨ Acquires second lock := List.mem_append

@[simp] theorem acquires_locked (lock other : α) (inner : List (LockStep α)) :
    Acquires (locked lock inner) other ↔ other = lock ∨ Acquires inner other := by
  simp [Acquires,locked]

variable [DecidableEq α]

def lockStep (held : α → Bool) : LockStep α → α → Bool
  | .acquire lock => Function.update held lock true
  | .release lock => Function.update held lock false

/-- The locks that are held behind some steps. -/
def heldAfter (held : α → Bool) (steps : List (LockStep α)) : α → Bool := steps.foldl lockStep held

/-- The lock that the steps wait for, where they come to one that is held. -/
def waitsFor (held : α → Bool) : List (LockStep α) → Option α
  | [] => none
  | .acquire lock::rest => if held lock then some lock else waitsFor (lockStep held (.acquire lock)) rest
  | .release lock::rest => waitsFor (lockStep held (.release lock)) rest

/-- Behind critical sections everything is as it was. -/
theorem Sections.passes {steps : List (LockStep α)} (sections : Sections steps) {held : α → Bool} (rest : List (LockStep α))
    (free : ∀ lock, Acquires steps lock → held lock = false) : waitsFor held (steps ++ rest) = waitsFor held rest := by
  induction sections generalizing held rest with
  | nil => rfl
  | append _ _ first second =>
    rw [List.append_assoc,first _ fun lock taken => free lock ((acquires_append _ _ _).mpr (.inl taken))]
    exact second rest fun lock taken => free lock ((acquires_append _ _ _).mpr (.inr taken))
  | @around lock inner _ fresh ih =>
    have untaken : held lock = false := free lock ((acquires_locked _ _ _).mpr (.inl rfl))
    rw [locked,List.cons_append,waitsFor,if_neg (by rw [untaken]; exact Bool.false_ne_true),List.append_assoc,ih]
    · rw [List.singleton_append,waitsFor,lockStep,lockStep,Function.update_idem,← untaken,Function.update_eq_self]
    · intro other taken
      have apart : other ≠ lock := by
        rintro rfl
        exact fresh taken
      rw [lockStep,Function.update_of_ne apart]
      exact free other ((acquires_locked _ _ _).mpr (.inr taken))

/-- Critical sections that take a held lock wait for one. -/
theorem Sections.waits {steps : List (LockStep α)} (sections : Sections steps) {held : α → Bool} (rest : List (LockStep α))
    {lock : α} (taken : Acquires steps lock) (busy : held lock = true) : waitsFor held (steps ++ rest) ≠ none := by
  induction sections generalizing held rest lock with
  | nil => exact absurd taken (acquires_nil lock)
  | @append first second one two ihOne ihTwo =>
    rw [List.append_assoc]
    by_cases early : ∃ other, Acquires first other ∧ held other = true
    · obtain ⟨other,here,busy'⟩ := early
      exact ihOne _ here busy'
    · have free : ∀ other, Acquires first other → held other = false := by
        intro other here
        rw [← Bool.not_eq_true]
        exact fun busy' => early ⟨other,here,busy'⟩
      rw [one.passes _ free]
      rcases (acquires_append _ _ _).mp taken with here | there
      · exact absurd ⟨lock,here,busy⟩ early
      · exact ihTwo rest there busy
  | @around outer inner _ fresh ih =>
    rw [locked,List.cons_append,waitsFor]
    split_ifs with now
    · nofun
    · rcases (acquires_locked _ _ _).mp taken with rfl | inside
      · exact absurd busy now
      · rw [List.append_assoc]
        apply ih _ inside
        have apart : lock ≠ outer := by
          rintro rfl
          exact fresh inside
        rw [lockStep,Function.update_of_ne apart]
        exact busy

theorem Sections.waitsFor_none {steps : List (LockStep α)} (sections : Sections steps) (held : α → Bool) :
    waitsFor held steps = none ↔ ∀ lock, Acquires steps lock → held lock = false := by
  constructor
  · intro passes lock taken
    rw [← Bool.not_eq_true]
    intro busy
    have waits := sections.waits [] taken busy
    rw [List.append_nil] at waits
    exact waits passes
  · intro free
    have passes := sections.passes [] free
    rwa [List.append_nil] at passes

end LionOS.Library
