import Mathlib.Data.List.ReduceOption
import LionOS.Library.Simulation

/-! The spinlock, instruction by instruction, on any number of processors with interrupts: a section of
code that `spinlock_irqsave_acquire` and `spinlock_irqrestore_release` enclose acts as one step. -/
namespace LionOS.Processes
open LionOS.Library

section Model
variable (ι κ σ ρ : Type)

/-- A section of code: the variables that it starts with, and what its instructions do to the data and to them. -/
structure Guarded where
  own : ρ
  body : List (σ × ρ → σ × ρ)

/-- Where a piece of code is with its call of a section, `flags` what `pushfl; popl` saved. -/
inductive Point
  | outside
  | saved (call : κ) (flags : Bool)
  | spinning (call : κ) (flags : Bool)
  | inside (call : κ) (flags : Bool) (own : ρ) (left : List (σ × ρ → σ × ρ))
  | released (flags : Bool)

/-- `enabled` is the interrupt flag, `interrupted` the pieces of code below the one that runs. -/
structure Processor where
  enabled : Bool
  point : Point κ σ ρ
  interrupted : List (Point κ σ ρ)

/-- The processors, the `value` of the lock and the data that it guards. -/
structure Processors where
  value : Nat
  data : σ
  cpu : ι → Processor κ σ ρ

/-- What a processor does next: outside of a section its code calls one, sets or clears the interrupt flag
or returns from an interrupt. -/
inductive Move
  | call (call : κ)
  | enable (on : Bool)
  | next
  | interrupt
  | iret

end Model

variable {ι κ σ ρ : Type}

/-- The code done in one go. -/
def Guarded.whole (code : Guarded σ ρ) (data : σ) : σ × ρ := code.body.foldl (fun now step => step now) (data,code.own)

/-- With what the compare and swap leaves in the lock. -/
def spinlockTryAcquire (value : Nat) : Bool × Nat := if value = 0 then (true,1) else (false,value)

def spinlockRelease : Nat := 0

variable [DecidableEq ι]

def Processors.put (s : Processors ι κ σ ρ) (i : ι) (p : Processor κ σ ρ) : Processors ι κ σ ρ :=
  {s with cpu := Function.update s.cpu i p}

/-- The next instruction of `spinlock_irqsave_acquire`, of the section or of `spinlock_irqrestore_release`.
The store that frees the lock answers with the call and its variables. -/
def nextInstruction (code : κ → Guarded σ ρ) (s : Processors ι κ σ ρ) (i : ι) : Processors ι κ σ ρ × Option (κ × ρ) :=
  let p := s.cpu i
  match p.point with
  | .outside => (s,none)
  | .saved call flags => (s.put i {p with enabled := false,point := .spinning call flags},none)
  | .spinning call flags =>
    let (taken,value) := spinlockTryAcquire s.value
    if taken then ({s with value := value}.put i {p with point := .inside call flags (code call).own (code call).body},none)
    else (s,none)
  | .inside call flags own (step::left) =>
    let (data,own) := step (s.data,own)
    ({s with data := data}.put i {p with point := .inside call flags own left},none)
  | .inside call flags own [] => ({s with value := spinlockRelease}.put i {p with point := .released flags},some (call,own))
  | .released flags => (s.put i {p with enabled := flags,point := .outside},none)

/-- A move that cannot be made does nothing. An interrupt gate clears the interrupt flag, and the return sets it again. -/
def processors (code : κ → Guarded σ ρ) : Machine (Processors ι κ σ ρ) (ι × Move κ) (Option (κ × ρ)) := fun s move =>
  let i := move.1
  let p := s.cpu i
  match move.2 with
  | .next => nextInstruction code s i
  | .interrupt => if p.enabled then (s.put i ⟨false,.outside,p.point::p.interrupted⟩,none) else (s,none)
  | .call call => match p.point with
    | .outside => (s.put i {p with point := .saved call p.enabled},none)
    | _ => (s,none)
  | .enable on => match p.point with
    | .outside => (s.put i {p with enabled := on},none)
    | _ => (s,none)
  | .iret => match p.point,p.interrupted with
    | .outside,point::rest => (s.put i ⟨true,point,rest⟩,none)
    | _,_ => (s,none)

/-- The sections that have been left, in that order. -/
def finished (code : κ → Guarded σ ρ) (s : Processors ι κ σ ρ) (moves : List (ι × Move κ)) : List (κ × ρ) :=
  (answers (processors code) s moves).reduceOption

/-- The same sections, each in one go. -/
def atomically (code : κ → Guarded σ ρ) : Machine σ κ ρ := fun data call => (code call).whole data

section Invariant

/-- Code that has the lock. -/
inductive Point.Holds : Point κ σ ρ → Prop
  | inside (call : κ) (flags : Bool) (own : ρ) (left : List (σ × ρ → σ × ρ)) : Holds (.inside call flags own left)

/-- Code that the interrupt flag keeps from being interrupted. -/
inductive Point.Masked : Point κ σ ρ → Prop
  | spinning (call : κ) (flags : Bool) : Masked (.spinning call flags)
  | inside (call : κ) (flags : Bool) (own : ρ) (left : List (σ × ρ → σ × ρ)) : Masked (.inside call flags own left)
  | released (flags : Bool) : Masked (.released flags)

theorem Point.Holds.masked {point : Point κ σ ρ} (holds : point.Holds) : point.Masked := by
  cases holds with
  | inside call flags own left => exact .inside call flags own left

/-- A processor whose masked code runs with interrupts off, and none of it is interrupted. -/
structure Processor.Orderly (p : Processor κ σ ρ) : Prop where
  off : p.point.Masked → p.enabled = false
  below : ∀ point ∈ p.interrupted, ¬point.Masked

/-- The lock is free and the data is as given, or one processor holds it and will make the data so. -/
inductive Guards (code : κ → Guarded σ ρ) (s : Processors ι κ σ ρ) (data : σ) : Prop
  | free (value : s.value = 0) (none : ∀ i, ¬(s.cpu i).point.Holds) (same : s.data = data)
  | held (i : ι) (call : κ) (flags : Bool) (own : ρ) (left : List (σ × ρ → σ × ρ)) (value : s.value = 1)
      (here : (s.cpu i).point = .inside call flags own left) (alone : ∀ j, j ≠ i → ¬(s.cpu j).point.Holds)
      (ends : left.foldl (fun now step => step now) (s.data,own) = (code call).whole data)

/-- What a step makes of the data, going by its answer. -/
inductive Concludes (code : κ → Guarded σ ρ) (data : σ) : Option (κ × ρ) → σ → Prop
  | working : Concludes code data none data
  | finished (call : κ) : Concludes code data (some (call,((code call).whole data).2)) ((code call).whole data).1

variable {code : κ → Guarded σ ρ} {s : Processors ι κ σ ρ} {data : σ} {i j : ι} {p : Processor κ σ ρ}

@[simp] theorem put_value : (s.put i p).value = s.value := rfl
@[simp] theorem put_data : (s.put i p).data = s.data := rfl
@[simp] theorem put_here : (s.put i p).cpu i = p := Function.update_self ..

theorem put_there (apart : j ≠ i) : (s.put i p).cpu j = s.cpu j := Function.update_of_ne apart ..

theorem Processor.Orderly.put (orderly : ∀ j, (s.cpu j).Orderly) (here : p.Orderly) (j : ι) : ((s.put i p).cpu j).Orderly := by
  by_cases same : j = i
  · rw [same,put_here]
    exact here
  · rw [put_there same]
    exact orderly j

/-- A step that neither takes nor frees the lock nor touches the data. -/
theorem Guards.quiet (guards : Guards code s data)
    (quiet : p.point = (s.cpu i).point ∨ ¬p.point.Holds ∧ ¬(s.cpu i).point.Holds) : Guards code (s.put i p) data := by
  have holds_iff (j : ι) : ((s.put i p).cpu j).point.Holds ↔ (s.cpu j).point.Holds := by
    by_cases same : j = i
    · rw [same,put_here]
      rcases quiet with kept | apart
      · rw [kept]
      · exact iff_of_false apart.1 apart.2
    · rw [put_there same]
  cases guards with
  | free value none same => exact .free value (fun j => (holds_iff j).not.mpr (none j)) same
  | held h call flags own left value here alone ends =>
    refine .held h call flags own left value ?_ (fun j apart => (holds_iff j).not.mpr (alone j apart)) ends
    by_cases same : h = i
    · subst same
      rw [put_here]
      rcases quiet with kept | apart
      · rw [kept,here]
      · exact absurd (here ▸ .inside call flags own left) apart.2
    · rw [put_there same]
      exact here

/-- Who is inside is the one that holds the lock. -/
theorem Guards.inside (guards : Guards code s data) {call : κ} {flags : Bool} {own : ρ} {left : List (σ × ρ → σ × ρ)}
    (here : (s.cpu i).point = .inside call flags own left) :
    s.value = 1 ∧ (∀ j, j ≠ i → ¬(s.cpu j).point.Holds) ∧ left.foldl (fun now step => step now) (s.data,own) = (code call).whole data := by
  have holds : (s.cpu i).point.Holds := here ▸ .inside call flags own left
  cases guards with
  | free value none same => exact absurd holds (none i)
  | held h call' flags' own' left' value here' alone ends =>
    by_cases same : i = h
    · subst same
      rw [here] at here'
      cases here'
      exact ⟨value,alone,ends⟩
    · exact absurd holds (alone i same)

omit [DecidableEq ι] in
/-- With the lock free no one is inside. -/
theorem Guards.unheld (guards : Guards code s data) (free : s.value = 0) : (∀ j, ¬(s.cpu j).point.Holds) ∧ s.data = data := by
  cases guards with
  | free _ none same => exact ⟨none,same⟩
  | held _ _ _ _ _ value => omega

theorem next_concludes (orderly : ∀ j, (s.cpu j).Orderly) (guards : Guards code s data) (i : ι) :
    (∀ j, ((nextInstruction code s i).1.cpu j).Orderly) ∧
      ∃ data', Concludes code data (nextInstruction code s i).2 data' ∧ Guards code (nextInstruction code s i).1 data' := by
  have below := (orderly i).below
  have off := (orderly i).off
  unfold nextInstruction
  dsimp only
  split
  next => exact ⟨orderly,data,.working,guards⟩
  next call flags here =>
    refine ⟨Processor.Orderly.put orderly ⟨fun _ => rfl,below⟩,data,.working,guards.quiet (.inr ⟨?_,?_⟩)⟩
    · rintro ⟨⟩
    · rw [here]
      rintro ⟨⟩
  next call flags here =>
    unfold spinlockTryAcquire
    split
    next free =>
      rw [if_pos rfl]
      obtain ⟨none,same⟩ := guards.unheld free
      have masked := off (here ▸ .spinning call flags)
      refine ⟨Processor.Orderly.put orderly ⟨fun _ => masked,below⟩,data,.working,?_⟩
      refine .held i call flags (code call).own (code call).body rfl ?_ (fun j apart => ?_) ?_
      · rw [put_here]
      · rw [put_there apart]
        exact none j
      · rw [put_data]
        exact congrArg (fun start => (code call).body.foldl (fun now step => step now) (start,(code call).own)) same
    next => exact ⟨orderly,data,.working,guards⟩
  next call flags own step left here =>
    obtain ⟨value,alone,ends⟩ := guards.inside here
    have masked := off (here ▸ .inside call flags own (step::left))
    refine ⟨Processor.Orderly.put orderly ⟨fun _ => masked,below⟩,data,.working,?_⟩
    refine .held i call flags (step (s.data,own)).2 left value ?_ (fun j apart => ?_) ends
    · rw [put_here]
    · rw [put_there apart]
      exact alone j apart
  next call flags own here =>
    obtain ⟨value,alone,ends⟩ := guards.inside here
    have masked := off (here ▸ .inside call flags own [])
    have result : (s.data,own) = (code call).whole data := ends
    refine ⟨Processor.Orderly.put orderly ⟨fun _ => masked,below⟩,((code call).whole data).1,?_,?_⟩
    · rw [show own = ((code call).whole data).2 from congrArg Prod.snd result]
      exact .finished call
    · refine .free rfl (fun j => ?_) (congrArg Prod.fst result)
      by_cases same : j = i
      · rw [same,put_here]
        rintro ⟨⟩
      · rw [put_there same]
        exact alone j same
  next flags here =>
    refine ⟨Processor.Orderly.put orderly ⟨fun masked => (by cases masked),below⟩,data,.working,guards.quiet (.inr ⟨?_,?_⟩)⟩
    · rintro ⟨⟩
    · rw [here]
      rintro ⟨⟩

/-- An interrupt comes to code that is not masked, and a return goes back to such code. -/
theorem move_concludes (orderly : ∀ j, (s.cpu j).Orderly) (guards : Guards code s data) (move : ι × Move κ) :
    (∀ j, (((processors code).step s move).cpu j).Orderly) ∧
      ∃ data', Concludes code data (processors code s move).2 data' ∧ Guards code ((processors code).step s move) data' := by
  obtain ⟨i,move⟩ := move
  have stays : (∀ j, (s.cpu j).Orderly) ∧ ∃ data', Concludes code data none data' ∧ Guards code s data' := ⟨orderly,data,.working,guards⟩
  have below := (orderly i).below
  have off := (orderly i).off
  cases move with
  | next => exact next_concludes orderly guards i
  | interrupt =>
    unfold Machine.step processors
    dsimp only
    split
    next on =>
      have open' : ¬(s.cpu i).point.Masked := fun masked => Bool.noConfusion ((off masked).symm.trans on)
      refine ⟨Processor.Orderly.put orderly ⟨fun _ => rfl,fun point member => ?_⟩,data,.working,guards.quiet (.inr ⟨?_,?_⟩)⟩
      · rcases List.mem_cons.mp member with rfl | deeper
        · exact open'
        · exact below point deeper
      · rintro ⟨⟩
      · exact fun holds => open' holds.masked
    next => exact stays
  | call call =>
    unfold Machine.step processors
    dsimp only
    split
    next here =>
      refine ⟨Processor.Orderly.put orderly ⟨fun masked => (by cases masked),below⟩,data,.working,guards.quiet (.inr ⟨?_,?_⟩)⟩
      · rintro ⟨⟩
      · rw [here]
        rintro ⟨⟩
    next => exact stays
  | enable on =>
    unfold Machine.step processors
    dsimp only
    split
    next here =>
      have unmasked : ¬(s.cpu i).point.Masked := by
        rw [here]
        rintro ⟨⟩
      exact ⟨Processor.Orderly.put orderly ⟨fun masked => absurd masked unmasked,below⟩,data,.working,guards.quiet (.inl rfl)⟩
    next => exact stays
  | iret =>
    unfold Machine.step processors
    dsimp only
    split
    next point rest here under =>
      rw [under] at below
      obtain ⟨unmasked,deeper⟩ := List.forall_mem_cons.mp below
      refine ⟨Processor.Orderly.put orderly ⟨fun masked => absurd masked unmasked,deeper⟩,data,.working,guards.quiet (.inr ⟨?_,?_⟩)⟩
      · exact fun holds => unmasked holds.masked
      · rw [here]
        rintro ⟨⟩
    next => exact stays

theorem finished_cons (move : ι × Move κ) (rest : List (ι × Move κ)) :
    finished code s (move::rest) = (processors code s move).2.toList ++ finished code ((processors code).step s move) rest := by
  unfold finished
  rw [answers]
  cases (processors code s move).2 with
  | none => rw [List.reduceOption_cons_of_none]; rfl
  | some done => rw [List.reduceOption_cons_of_some]; rfl

theorem run_concludes (orderly : ∀ j, (s.cpu j).Orderly) (guards : Guards code s data) (moves : List (ι × Move κ)) :
    (∀ j, ((run (processors code).step s moves).cpu j).Orderly) ∧
      Guards code (run (processors code).step s moves) (run (atomically code).step data ((finished code s moves).map Prod.fst)) ∧
      (finished code s moves).map Prod.snd = answers (atomically code) data ((finished code s moves).map Prod.fst) := by
  induction moves generalizing s data with
  | nil => exact ⟨orderly,guards,rfl⟩
  | cons move rest ih =>
    obtain ⟨orderly',data',concludes,guards'⟩ := move_concludes orderly guards move
    obtain ⟨ends,keeps,same⟩ := ih orderly' guards'
    rw [run_cons,finished_cons]
    refine ⟨ends,?_⟩
    generalize (processors code s move).2 = answer at concludes ⊢
    cases concludes with
    | working => exact ⟨keeps,same⟩
    | finished call => exact ⟨keeps,congrArg (((code call).whole data).2 :: ·) same⟩

end Invariant

section Progress
variable {code : κ → Guarded σ ρ} {s : Processors ι κ σ ρ} {data : σ} {i : ι}

def Move.isNext : Move κ → Bool
  | .next => true
  | _ => false

/-- How many instructions a processor gets to do. -/
def turns (i : ι) (moves : List (ι × Move κ)) : Nat := moves.countP fun move => decide (move.1 = i) && move.2.isNext

/-- The others neither free the lock nor stop the one that holds it. -/
theorem other_waits {j : ι} (apart : j ≠ i) (outside : ¬(s.cpu j).point.Holds) (move : Move κ) :
    (processors code s (j,move)).2 = none ∧ ((processors code).step s (j,move)).cpu i = s.cpu i := by
  unfold Machine.step processors
  cases move with
  | next =>
    unfold nextInstruction
    dsimp only
    split
    next => exact ⟨rfl,rfl⟩
    next => exact ⟨rfl,put_there apart.symm⟩
    next =>
      split
      · exact ⟨rfl,put_there apart.symm⟩
      · exact ⟨rfl,rfl⟩
    next => exact ⟨rfl,put_there apart.symm⟩
    next call flags own here => exact absurd (here ▸ .inside call flags own []) outside
    next => exact ⟨rfl,put_there apart.symm⟩
  | interrupt =>
    dsimp only
    split
    · exact ⟨rfl,put_there apart.symm⟩
    · exact ⟨rfl,rfl⟩
  | call call =>
    dsimp only
    split
    · exact ⟨rfl,put_there apart.symm⟩
    · exact ⟨rfl,rfl⟩
  | enable on =>
    dsimp only
    split
    · exact ⟨rfl,put_there apart.symm⟩
    · exact ⟨rfl,rfl⟩
  | iret =>
    dsimp only
    split
    · exact ⟨rfl,put_there apart.symm⟩
    · exact ⟨rfl,rfl⟩

theorem next_works {call : κ} {flags : Bool} {own : ρ} {step : σ × ρ → σ × ρ} {left : List (σ × ρ → σ × ρ)}
    (here : (s.cpu i).point = .inside call flags own (step::left)) : nextInstruction code s i =
      ({s with data := (step (s.data,own)).1}.put i {s.cpu i with point := .inside call flags (step (s.data,own)).2 left},none) := by
  unfold nextInstruction
  dsimp only
  rw [here]

theorem next_frees {call : κ} {flags : Bool} {own : ρ} (here : (s.cpu i).point = .inside call flags own []) :
    nextInstruction code s i =
      ({s with value := spinlockRelease}.put i {s.cpu i with point := .released flags},some (call,own)) := by
  unfold nextInstruction
  dsimp only
  rw [here]

/-- Inside of a section there is nothing to do but the next instruction. -/
theorem inside_stays {call : κ} {flags : Bool} {own : ρ} {left : List (σ × ρ → σ × ρ)}
    (here : (s.cpu i).point = .inside call flags own left) (off : (s.cpu i).enabled = false) {move : Move κ}
    (other : move.isNext = false) : processors code s (i,move) = (s,none) := by
  unfold processors
  dsimp only
  cases move with
  | next => cases other
  | interrupt =>
    dsimp only
    rw [off]
    rfl
  | call call =>
    dsimp only
    rw [here]
  | enable on =>
    dsimp only
    rw [here]
  | iret =>
    dsimp only
    rw [here]

/-- Whatever else is done, the one that holds the lock is the next to leave its section, as soon as it has had its turns. -/
theorem holder_leaves (orderly : ∀ j, (s.cpu j).Orderly) (guards : Guards code s data) {call : κ} {flags : Bool} {own : ρ}
    {left : List (σ × ρ → σ × ρ)} (here : (s.cpu i).point = .inside call flags own left) {moves : List (ι × Move κ)}
    (enough : left.length < turns i moves) : ∃ own', (finished code s moves).head? = some (call,own') := by
  induction moves generalizing s data own left with
  | nil => exact absurd enough (Nat.not_lt_zero _)
  | cons move rest ih =>
    obtain ⟨orderly',data',_,guards'⟩ := move_concludes orderly guards move
    obtain ⟨j,move⟩ := move
    have counted : turns i ((j,move)::rest) = turns i rest + if decide (j = i) && move.isNext then 1 else 0 := List.countP_cons
    rw [finished_cons]
    by_cases same : j = i
    · subst same
      cases next : move.isNext with
      | true =>
        cases move with
        | next =>
          rw [counted,if_pos (by simp [Move.isNext])] at enough
          cases left with
          | nil =>
            rw [show (processors code s (j,.next)).2 = some (call,own) from congrArg Prod.snd (next_frees here)]
            exact ⟨own,rfl⟩
          | cons step left =>
            rw [show (processors code s (j,.next)).2 = none from congrArg Prod.snd (next_works here)]
            rw [List.length_cons] at enough
            have after : (((processors code).step s (j,.next)).cpu j).point = .inside call flags (step (s.data,own)).2 left := by
              show ((nextInstruction code s j).1.cpu j).point = _
              rw [next_works here,put_here]
            exact ih orderly' guards' after (by omega)
        | _ => cases next
      | false =>
        have still := @inside_stays _ _ _ _ _ code s j _ _ _ _ here ((orderly j).off (here ▸ .inside call flags own left)) move next
        rw [counted,if_neg (by simp [next])] at enough
        rw [Machine.step,still]
        exact ih orderly guards here enough
    · obtain ⟨answer,kept⟩ := other_waits same ((guards.inside here).2.1 j same) move
      have still : (((processors code).step s (j,move)).cpu i).point = .inside call flags own left := by rw [kept,here]
      rw [counted,if_neg (by simp [same])] at enough
      rw [answer]
      exact ih orderly' guards' still enough

/-- The lock as `spinlock_init` leaves it, no processor in a section. -/
def spinlockInit (data : σ) (enabled : ι → Bool) : Processors ι κ σ ρ := ⟨0,data,fun i => ⟨enabled i,.outside,[]⟩⟩

/-- However the processors take turns and wherever interrupts come: at most one processor is in a section,
no interrupt comes to it, and its section is the next to be left once it has had its turns; the sections
answer, and leave the data, as if each had been done in one go; and who waits for the lock waits
for another processor. -/
theorem sections_atomic (code : κ → Guarded σ ρ) (data : σ) (enabled : ι → Bool) (moves : List (ι × Move κ)) :
    let s := run (processors code).step (spinlockInit data enabled) moves
    let done := finished code (spinlockInit data enabled) moves
    (∀ i j, (s.cpu i).point.Holds → (s.cpu j).point.Holds → i = j) ∧
      (∀ i, ((s.cpu i).point.Holds → (s.cpu i).enabled = false) ∧ ∀ point ∈ (s.cpu i).interrupted, ¬point.Holds) ∧
      (∀ i call flags own left more, (s.cpu i).point = .inside call flags own left → left.length < turns i more →
        ∃ own', (finished code s more).head? = some (call,own')) ∧
      done.map Prod.snd = answers (atomically code) data (done.map Prod.fst) ∧
      (s.value = 0 → s.data = run (atomically code).step data (done.map Prod.fst)) ∧
      ∀ i call flags, (s.cpu i).point = .spinning call flags → s.value ≠ 0 → ∃ j, j ≠ i ∧ (s.cpu j).point.Holds := by
  intro s done
  have start : ∀ i, ((spinlockInit data enabled : Processors ι κ σ ρ).cpu i).Orderly := by
    intro i
    exact ⟨fun masked => (by cases masked),fun point member => absurd member List.not_mem_nil⟩
  have free : Guards code (spinlockInit data enabled : Processors ι κ σ ρ) data := .free rfl (fun i holds => by cases holds) rfl
  obtain ⟨orderly,guards,same⟩ := run_concludes start free moves
  refine ⟨fun i j one two => ?_,fun i => ⟨fun holds => ?_,fun point member holds => ?_⟩,?_,same,?_,?_⟩
  · cases guards with
    | free _ none _ => exact absurd one (none i)
    | held h _ _ _ _ _ _ alone _ =>
      have first : i = h := not_ne_iff.mp fun apart => alone i apart one
      have second : j = h := not_ne_iff.mp fun apart => alone j apart two
      rw [first,second]
  · exact (orderly i).off holds.masked
  · exact (orderly i).below point member holds.masked
  · intro i call flags own left more here enough
    exact holder_leaves orderly guards here enough
  · exact fun value => (guards.unheld value).2
  · intro i call flags here busy
    cases guards with
    | free value _ _ => exact absurd value busy
    | held j call' flags' own left _ there _ _ =>
      refine ⟨j,?_,there ▸ .inside call' flags' own left⟩
      rintro rfl
      rw [here] at there
      cases there

end Progress

end LionOS.Processes
