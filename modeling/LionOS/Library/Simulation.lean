import LionOS.Library.Raster
import LionOS.Library.Run

/-! Machines that answer their inputs and the simulation of one machine by another; runs of a machine
that may fail; and what is shown up to date outside of its dirty places. -/
namespace LionOS.Library
variable {σ τ ι ο : Type}

/-- What an input leaves of the state, and the answer to it. -/
abbrev Machine (σ ι ο : Type) := σ → ι → σ × ο

def Machine.step (m : Machine σ ι ο) (s : σ) (input : ι) : σ := (m s input).1

def answers (m : Machine σ ι ο) : σ → List ι → List ο
  | _, [] => []
  | s, input::rest => (m s input).2::answers m (m.step s input) rest

/-- From related states an allowed input gets the same answer of both machines and leads to
related states. -/
structure Simulates (m : Machine σ ι ο) (spec : Machine τ ι ο) (allowed : τ → ι → Prop) (related : σ → τ → Prop) :
    Prop where
  answer : ∀ s t input, related s t → allowed t input → (m s input).2 = (spec t input).2
  next : ∀ s t input, related s t → allowed t input → related (m.step s input) (spec.step t input)

/-- An allowed run gets the same answers and ends in related states. -/
theorem Simulates.run {m : Machine σ ι ο} {spec : Machine τ ι ο} {allowed : τ → ι → Prop} {related : σ → τ → Prop}
    (simulates : Simulates m spec allowed related) {s : σ} {t : τ} (start : related s t) {inputs : List ι}
    (met : Meets spec.step allowed t inputs) :
    answers m s inputs = answers spec t inputs ∧ related (run m.step s inputs) (run spec.step t inputs) := by
  induction inputs generalizing s t with
  | nil => exact ⟨rfl,start⟩
  | cons input rest ih =>
    obtain ⟨now,later⟩ := met
    obtain ⟨same,ends⟩ := ih (simulates.next s t input start now) later
    refine ⟨?_,ends⟩
    rw [answers,answers,simulates.answer s t input start now,same]

/-- A condition on the inputs alone. -/
theorem meets_of_forall {step : σ → ι → σ} {allowed : ι → Prop} {inputs : List ι} (all : ∀ input ∈ inputs, allowed input) (s : σ) :
    Meets step (fun _ input => allowed input) s inputs := by
  induction inputs generalizing s with
  | nil => trivial
  | cons input rest ih =>
    obtain ⟨now,later⟩ := List.forall_mem_cons.mp all
    exact ⟨now,ih later _⟩

/-- A machine whose allowed steps do not fail, `view` what the inputs alone decide of its states. -/
theorem forEach_meets {step : ι → σ → Option σ} {view : σ → τ} {next : τ → ι → τ} {allowed : τ → ι → Prop} {keeps : σ → Prop}
    (each : ∀ s input, keeps s → allowed (view s) input → ∃ s', step input s = some s' ∧ keeps s' ∧ view s' = next (view s) input)
    {s : σ} (initial : keeps s) {inputs : List ι} (met : Meets next allowed (view s) inputs) :
    ∃ s', forEach inputs step s = some s' ∧ keeps s' ∧ view s' = run next (view s) inputs := by
  induction inputs generalizing s with
  | nil => exact ⟨s,rfl,initial,rfl⟩
  | cons input rest ih =>
    obtain ⟨now,later⟩ := met
    obtain ⟨s',done,kept,seen⟩ := each s input initial now
    rw [← seen] at later
    obtain ⟨last,ends,keeps_last,sees⟩ := ih kept later
    refine ⟨last,?_,keeps_last,?_⟩
    · rw [forEach_cons,done]
      exact ends
    · rw [sees,seen]
      rfl

section Shown
variable {κ α : Type} {places dirty more dirty' : Set κ} {shown shown' target target' : κ → α}

/-- Outside of the dirty places there is shown what should be. -/
def UpToDate (places dirty : Set κ) (shown target : κ → α) : Prop := ∀ i ∈ places, i ∉ dirty → shown i = target i

theorem UpToDate.change (fresh : UpToDate places dirty shown target) (outside : ∀ i ∈ places, i ∉ more → target' i = target i)
    (covers : ∀ i ∈ places, i ∈ dirty ∨ i ∈ more → i ∈ dirty') : UpToDate places dirty' shown target' := by
  intro i place clean
  have before : i ∉ dirty := fun member => clean (covers i place (.inl member))
  have still : i ∉ more := fun member => clean (covers i place (.inr member))
  rw [outside i place still,fresh i place before]

theorem UpToDate.refresh (fresh : UpToDate places dirty shown target) (drawn : ∀ i ∈ places, i ∈ dirty → shown' i = target i)
    (kept : ∀ i ∈ places, i ∉ dirty → shown' i = shown i) : UpToDate places ∅ shown' target := by
  intro i place _
  by_cases member : i ∈ dirty
  · exact drawn i place member
  · rw [kept i place member,fresh i place member]

end Shown

end LionOS.Library
