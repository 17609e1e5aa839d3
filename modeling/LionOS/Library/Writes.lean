import Mathlib.Data.List.Infix
import Mathlib.Logic.Function.Basic

/-! Rows of writes to a memory: what they cover, and writes that only repeat what another memory
holds. -/
namespace LionOS.Library
variable {α β : Type} [DecidableEq α]

def writeAll (memory : α → β) (writes : List (α × β)) : α → β := writes.foldl (fun m w => Function.update m w.1 w.2) memory

/-- The places that are written. -/
def Covered (writes : List (α × β)) (place : α) : Prop := ∃ value,(place,value) ∈ writes

theorem writeAll_cons (memory : α → β) (w : α × β) (rest : List (α × β)) :
    writeAll memory (w::rest) = writeAll (Function.update memory w.1 w.2) rest := rfl

theorem writeAll_outside {writes : List (α × β)} {place : α} (outside : ¬Covered writes place) (memory : α → β) :
    writeAll memory writes place = memory place := by
  induction writes generalizing memory with
  | nil => rfl
  | cons w rest ih =>
    have later : ¬Covered rest place := fun ⟨value,member⟩ => outside ⟨value,List.mem_cons_of_mem w member⟩
    have other : place ≠ w.1 := by
      rintro rfl
      exact outside ⟨w.2,List.mem_cons_self ..⟩
    rw [writeAll_cons,ih later,Function.update_of_ne other]

/-- Where all writes are what `original` holds, what is covered is as in `original`. -/
theorem writeAll_covered {writes : List (α × β)} {original : α → β} (repeats : ∀ w ∈ writes,w.2 = original w.1) {place : α}
    (covered : Covered writes place) (memory : α → β) : writeAll memory writes place = original place := by
  induction writes generalizing memory with
  | nil =>
    obtain ⟨_,no⟩ := covered
    cases no
  | cons w rest ih =>
    have later : ∀ w ∈ rest,w.2 = original w.1 := fun v member => repeats v (List.mem_cons_of_mem w member)
    rw [writeAll_cons]
    by_cases again : Covered rest place
    · exact ih later again _
    · have first : place = w.1 := by
        obtain ⟨value,member⟩ := covered
        rcases List.mem_cons.mp member with same | member
        · rw [← same]
        · exact absurd ⟨value,member⟩ again
      rw [writeAll_outside again,first,Function.update_self]
      exact repeats w (List.mem_cons_self ..)

/-- A place whose writes all store one value has it afterwards. -/
theorem writeAll_agrees {writes : List (α × β)} {place : α} {value : β} (agree : ∀ w ∈ writes,w.1 = place → w.2 = value)
    (covered : Covered writes place) (memory : α → β) : writeAll memory writes place = value := by
  induction writes generalizing memory with
  | nil =>
    obtain ⟨_,no⟩ := covered
    cases no
  | cons w rest ih =>
    rw [writeAll_cons]
    by_cases again : Covered rest place
    · exact ih (fun v member => agree v (List.mem_cons_of_mem w member)) again _
    · have first : w.1 = place := by
        obtain ⟨other,member⟩ := covered
        rcases List.mem_cons.mp member with same | member
        · rw [← same]
        · exact absurd ⟨other,member⟩ again
      rw [writeAll_outside again,← first,Function.update_self]
      exact agree w (List.mem_cons_self ..) first

/-- Writes that repeat `original` and cover every place where the memory differs restore it. -/
theorem writeAll_restores {writes : List (α × β)} {original memory : α → β} (repeats : ∀ w ∈ writes,w.2 = original w.1)
    (differs : ∀ place,memory place ≠ original place → Covered writes place) : writeAll memory writes = original := by
  funext place
  by_cases covered : Covered writes place
  · exact writeAll_covered repeats covered memory
  · rw [writeAll_outside covered]
    by_contra other
    exact covered (differs place other)

omit [DecidableEq α] in
/-- Some of a row of writes cover no more than the row. -/
theorem Covered.mono {first writes : List (α × β)} (first_of : first <+: writes) {place : α} (covered : Covered first place) :
    Covered writes place := by
  obtain ⟨value,member⟩ := covered
  exact ⟨value,first_of.subset member⟩

end LionOS.Library
