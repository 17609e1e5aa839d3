/-! Runs of a deterministic machine and the induction that carries an invariant
through every one of them. `Meets` says that each input of a run satisfies a
condition in the state in which it is taken. -/
namespace LionOS.Library

variable {σ ι : Type}

def run (step : σ → ι → σ) (start : σ) (inputs : List ι) : σ := inputs.foldl step start

@[simp] theorem run_nil (step : σ → ι → σ) (start : σ) : run step start [] = start := rfl

@[simp] theorem run_cons (step : σ → ι → σ) (start : σ) (input : ι) (rest : List ι) :
    run step start (input::rest) = run step (step start input) rest := rfl

theorem run_append (step : σ → ι → σ) (start : σ) (first second : List ι) :
    run step start (first ++ second) = run step (run step start first) second :=
  List.foldl_append

def Meets (step : σ → ι → σ) (allowed : σ → ι → Prop) : σ → List ι → Prop
  | _, [] => True
  | s, input::rest => allowed s input ∧ Meets step allowed (step s input) rest

@[simp] theorem meets_nil (step : σ → ι → σ) (allowed : σ → ι → Prop) (s : σ) :
    Meets step allowed s [] := trivial

@[simp] theorem meets_cons (step : σ → ι → σ) (allowed : σ → ι → Prop) (s : σ)
    (input : ι) (rest : List ι) :
    Meets step allowed s (input::rest) ↔
      allowed s input ∧ Meets step allowed (step s input) rest := Iff.rfl

theorem meets_append (step : σ → ι → σ) (allowed : σ → ι → Prop) (s : σ)
    (first second : List ι) :
    Meets step allowed s (first ++ second) ↔
      Meets step allowed s first ∧ Meets step allowed (run step s first) second := by
  induction first generalizing s with
  | nil => simp
  | cons input rest ih => simp [ih,and_assoc]

/-- A property of the start that every allowed step keeps holds wherever an
allowed run ends. -/
theorem Meets.invariant {step : σ → ι → σ} {allowed : σ → ι → Prop} {keeps : σ → Prop}
    (preserved : ∀ s input, keeps s → allowed s input → keeps (step s input))
    {start : σ} {inputs : List ι} (initial : keeps start)
    (met : Meets step allowed start inputs) : keeps (run step start inputs) := by
  induction inputs generalizing start with
  | nil => exact initial
  | cons input rest ih => exact ih (preserved start input initial met.1) met.2

theorem meets_always {step : σ → ι → σ} {allowed : σ → ι → Prop} (always : ∀ s input, allowed s input) (start : σ)
    (inputs : List ι) : Meets step allowed start inputs := by
  induction inputs generalizing start with
  | nil => trivial
  | cons input rest ih => exact ⟨always start input,ih _⟩

theorem Meets.mono {step : σ → ι → σ} {allowed wider : σ → ι → Prop} (wide : ∀ s input, allowed s input → wider s input)
    {start : σ} {inputs : List ι} (met : Meets step allowed start inputs) : Meets step wider start inputs := by
  induction inputs generalizing start with
  | nil => trivial
  | cons input rest ih => exact ⟨wide start input met.1,ih met.2⟩

/-- Two conditions that agree where every run leads. -/
theorem meets_congr {step : σ → ι → σ} {allowed other : σ → ι → Prop} {keeps : σ → Prop}
    (preserved : ∀ s input, keeps s → keeps (step s input)) (same : ∀ s input, keeps s → (allowed s input ↔ other s input))
    {start : σ} (initial : keeps start) (inputs : List ι) :
    Meets step allowed start inputs ↔ Meets step other start inputs := by
  induction inputs generalizing start with
  | nil => exact Iff.rfl
  | cons input rest ih => exact and_congr (same start input initial) (ih (preserved start input initial))

/-- Each input of a run comes after a part of it. -/
theorem meets_prefix_iff {step : σ → ι → σ} {allowed : σ → ι → Prop} {start : σ} {inputs : List ι} :
    Meets step allowed start inputs ↔
      ∀ past input, past ++ [input] <+: inputs → allowed (run step start past) input := by
  induction inputs generalizing start with
  | nil =>
    refine iff_of_true trivial fun past input early => ?_
    have none := List.prefix_nil.mp early
    exact absurd none (by simp)
  | cons first rest ih =>
    rw [meets_cons,ih]
    constructor
    · intro ⟨now,later⟩ past input early
      cases past with
      | nil =>
        rw [List.nil_append,List.cons_prefix_cons] at early
        exact early.1 ▸ now
      | cons other past =>
        rw [List.cons_append,List.cons_prefix_cons] at early
        rw [early.1]
        exact later past input early.2
    · intro all
      refine ⟨all [] first (by simp),fun past input early => ?_⟩
      exact all (first::past) input (List.cons_prefix_cons.mpr ⟨rfl,early⟩)

/-- A property of the start that every step keeps holds wherever a run ends. -/
theorem run_invariant {step : σ → ι → σ} {keeps : σ → Prop}
    (preserved : ∀ s input, keeps s → keeps (step s input))
    {start : σ} {inputs : List ι} (initial : keeps start) : keeps (run step start inputs) := by
  induction inputs generalizing start with
  | nil => exact initial
  | cons input rest ih => exact ih (preserved start input initial)

/-- Where the allowed steps are exactly those that lead to a good state, a run is good throughout
exactly if each of its steps is allowed. -/
theorem throughout_iff {step : σ → ι → σ} {legal allowed : σ → ι → Prop} {keeps good : σ → Prop} (sound : ∀ s, keeps s → good s)
    (preserved : ∀ s input, keeps s → legal s input → allowed s input → keeps (step s input))
    (exact : ∀ s input, keeps s → legal s input → good (step s input) → allowed s input)
    {start : σ} {inputs : List ι} (initial : keeps start) (lawful : Meets step legal start inputs) :
    (∀ past, past <+: inputs → good (run step start past)) ↔ Meets step allowed start inputs := by
  induction inputs generalizing start with
  | nil =>
    refine iff_of_true (fun past short => ?_) trivial
    rw [List.prefix_nil.mp short]
    exact sound start initial
  | cons input rest ih =>
    rw [meets_cons]
    constructor
    · intro all
      have fine : allowed start input := exact start input initial lawful.1 (all [input] ⟨rest,rfl⟩)
      refine ⟨fine,(ih (preserved start input initial lawful.1 fine) lawful.2).mp fun past early => ?_⟩
      exact all (input::past) ((List.prefix_cons_inj input).mpr early)
    · intro ⟨fine,later⟩ past early
      rcases List.prefix_cons_iff.mp early with rfl | ⟨past',rfl,early'⟩
      · exact sound start initial
      · exact (ih (preserved start input initial lawful.1 fine) lawful.2).mpr later past' early'

instance Meets.decidable (step : σ → ι → σ) (allowed : σ → ι → Prop)
    [decide : ∀ s input, Decidable (allowed s input)] :
    ∀ (s : σ) (inputs : List ι), Decidable (Meets step allowed s inputs)
  | _, [] => isTrue trivial
  | s, input::rest =>
    have : Decidable (Meets step allowed (step s input) rest) :=
      Meets.decidable step allowed (step s input) rest
    inferInstanceAs (Decidable (_ ∧ _))

end LionOS.Library
