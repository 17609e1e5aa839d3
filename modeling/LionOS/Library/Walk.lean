import Mathlib.Data.Finset.Card
import Mathlib.Logic.Relation

/-! Walks from a position to the next one until a position leads nowhere: a measure that falls
on the way bounds them, and on a finite range a walk ends exactly if it does not come round.
Loops that log what they touch follow a walk. -/
namespace LionOS.Library

section Walk
variable {α : Type} {next : α → Option α}

/-- The positions of a finite walk, the one where it stops included. -/
inductive Walk (next : α → Option α) : α → List α → Prop
  | last {x : α} (stops : next x = none) : Walk next x [x]
  | step {x y : α} {rest : List α} (leads : next x = some y) (later : Walk next y rest) : Walk next x (x::rest)

def OnWay (next : α → Option α) : α → α → Prop := Relation.ReflTransGen fun x y => next x = some y

theorem Walk.mem_iff {x y : α} {way : List α} (found : Walk next x way) : y ∈ way ↔ OnWay next x y := by
  induction found with
  | last stops =>
    rw [List.mem_singleton]
    constructor
    · rintro rfl
      exact .refl
    · intro reached
      rcases Relation.ReflTransGen.cases_head reached with same | ⟨z,leads,_⟩
      · exact same.symm
      · rw [stops] at leads
        cases leads
  | step leads later ih =>
    rw [List.mem_cons,ih]
    constructor
    · rintro (rfl | reached)
      · exact .refl
      · exact .head leads reached
    · intro reached
      rcases Relation.ReflTransGen.cases_head reached with same | ⟨z,leads',reached⟩
      · exact .inl same.symm
      · cases leads.symm.trans leads'
        exact .inr reached

/-- A walk on whose way a measure falls is finite, and its length is bounded. -/
theorem walk_exists (measure : α → Nat) {x : α}
    (falls : ∀ y z, OnWay next x y → next y = some z → measure z < measure y) :
    ∃ way, Walk next x way ∧ way.length ≤ measure x + 1 := by
  induction bound : measure x using Nat.strongRecOn generalizing x with
  | ind size ih =>
    cases leads : next x with
    | none => exact ⟨[x],.last leads,Nat.le_add_left 1 size⟩
    | some y =>
      have less := falls x y .refl leads
      obtain ⟨way,found,short⟩ := ih (measure y) (by omega) (fun z w reached => falls z w (.head leads reached)) rfl
      exact ⟨x::way,.step leads found,by rw [List.length_cons]; omega⟩

theorem Walk.unique {x : α} {way way' : List α} (found : Walk next x way) (found' : Walk next x way') : way' = way := by
  induction found generalizing way' with
  | last stops =>
    cases found' with
    | last _ => rfl
    | step leads _ =>
      rw [stops] at leads
      cases leads
  | step leads later ih =>
    cases found' with
    | last stops =>
      rw [stops] at leads
      cases leads
    | step leads' later' =>
      cases leads.symm.trans leads'
      rw [ih later']

/-- From every position on its way a walk goes on. -/
theorem Walk.rest {x y : α} {way : List α} (found : Walk next x way) (reached : OnWay next x y) :
    ∃ rest, Walk next y rest ∧ rest.length ≤ way.length := by
  induction found with
  | @last x stops =>
    have same := (Walk.last stops).mem_iff.mpr reached
    rw [List.mem_singleton] at same
    rw [same]
    exact ⟨[x],.last stops,Nat.le_refl _⟩
  | @step x z later leads found ih =>
    rcases Relation.ReflTransGen.cases_head reached with rfl | ⟨z',leads',reached⟩
    · exact ⟨x::later,.step leads found,Nat.le_refl _⟩
    · cases leads.symm.trans leads'
      obtain ⟨rest,goes,short⟩ := ih reached
      exact ⟨rest,goes,Nat.le_trans short (Nat.le_succ _)⟩

/-- Some steps lead back. -/
def ComesRound (next : α → Option α) (x : α) : Prop := ∃ y, next x = some y ∧ OnWay next y x

theorem Walk.straight {x : α} {way : List α} (found : Walk next x way) : ¬ComesRound next x := by
  intro ⟨y,leads,back⟩
  cases found with
  | last stops =>
    rw [stops] at leads
    cases leads
  | @step _ y' later leads' found =>
    cases leads.symm.trans leads'
    obtain ⟨rest,again,short⟩ := found.rest back
    rw [(Walk.step leads found).unique again,List.length_cons] at short
    omega

/-- On a finite range a walk that never comes round ends. -/
theorem walk_iff_straight {x : α} (range : Finset α) (inside : ∀ y, OnWay next x y → y ∈ range) :
    (∃ way, Walk next x way) ↔ ∀ y, OnWay next x y → ¬ComesRound next y := by
  classical
  constructor
  · intro ⟨way,found⟩ y reached
    obtain ⟨rest,goes,_⟩ := found.rest reached
    exact goes.straight
  · intro straight
    -- the positions that are still ahead
    let ahead (y : α) : Finset α := range.filter fun z => OnWay next y z
    have falls (y z : α) (reached : OnWay next x y) (leads : next y = some z) : (ahead z).card < (ahead y).card := by
      apply Finset.card_lt_card
      rw [Finset.ssubset_iff_of_subset]
      · refine ⟨y,Finset.mem_filter.mpr ⟨inside y reached,.refl⟩,fun back => ?_⟩
        exact straight y reached ⟨z,leads,(Finset.mem_filter.mp back).2⟩
      · intro w member
        have there := Finset.mem_filter.mp member
        exact Finset.mem_filter.mpr ⟨there.1,.head leads there.2⟩
    obtain ⟨way,found,_⟩ := walk_exists (fun y => (ahead y).card) falls
    exact ⟨way,found⟩

theorem Walk.congr {next' : α → Option α} {x : α} {way : List α} (found : Walk next x way)
    (same : ∀ y ∈ way, next' y = next y) : Walk next' x way := by
  induction found with
  | last stops => exact .last ((same _ (List.mem_singleton_self _)).trans stops)
  | step leads later ih =>
    exact .step ((same _ (List.mem_cons_self ..)).trans leads) (ih fun y member => same y (List.mem_cons_of_mem _ member))

end Walk

section Loop
variable {α ι ρ : Type}

/-- A turn of a loop: it does not return, it leaves the loop, or it goes on at the next
position. The log is what it touches. -/
inductive Turn (α ι ρ : Type)
  | hangs
  | ends (log : List ι) (value : ρ)
  | goes (log : List ι) (place : α)

def Turn.next : Turn α ι ρ → Option α
  | .goes _ place => some place
  | _ => none

def Turn.Fine (good : ι → Prop) : Turn α ι ρ → Prop
  | .hangs => False
  | .ends log _ => ∀ i ∈ log, good i
  | .goes log _ => ∀ i ∈ log, good i

def loop (turn : α → Turn α ι ρ) : Nat → α → Option (List ι × ρ)
  | 0, _ => none
  | fuel+1, x =>
    match turn x with
    | .hangs => none
    | .ends log value => some (log,value)
    | .goes log y => (loop turn fuel y).map fun later => (log ++ later.1,later.2)

theorem loop_more {turn : α → Turn α ι ρ} {fuel more : Nat} {x : α} {result : List ι × ρ} (enough : fuel ≤ more)
    (done : loop turn fuel x = some result) : loop turn more x = some result := by
  induction fuel generalizing more x result with
  | zero => cases done
  | succ fuel ih =>
    obtain ⟨more,rfl⟩ := Nat.exists_eq_add_of_lt enough
    unfold loop at done ⊢
    cases kind : turn x with
    | hangs =>
      rw [kind] at done
      cases done
    | ends log value =>
      rw [kind] at done
      exact done
    | goes log y =>
      rw [kind] at done
      obtain ⟨later,ended,rfl⟩ := Option.map_eq_some_iff.mp done
      dsimp only
      rw [ih (by omega) ended]
      rfl

/-- The loop ends within some turns and touches only what is good. -/
theorem loop_iff {turn : α → Turn α ι ρ} {good : ι → Prop} {fuel : Nat} {x : α} :
    (∃ result, loop turn fuel x = some result ∧ ∀ i ∈ result.1, good i) ↔
      ∃ way, Walk (fun y => (turn y).next) x way ∧ way.length ≤ fuel ∧ ∀ y ∈ way, (turn y).Fine good := by
  constructor
  · intro ⟨result,done,inside⟩
    induction fuel generalizing x result with
    | zero => cases done
    | succ fuel ih =>
      unfold loop at done
      split at done
      next => cases done
      next log value left =>
        cases done
        refine ⟨[x],.last (by rw [left]; rfl),Nat.le_add_left 1 fuel,?_⟩
        intro y member
        rw [List.mem_singleton.mp member,left]
        exact inside
      next log y on =>
        obtain ⟨later,ended,rfl⟩ := Option.map_eq_some_iff.mp done
        obtain ⟨way,found,short,fine⟩ := ih later ended fun i member => inside i (List.mem_append_right _ member)
        refine ⟨x::way,.step (by rw [on]; rfl) found,Nat.succ_le_succ short,?_⟩
        intro z member
        rcases List.mem_cons.mp member with rfl | later
        · rw [on]
          exact fun i member => inside i (List.mem_append_left _ member)
        · exact fine z later
  · intro ⟨way,found,short,fine⟩
    induction found generalizing fuel with
    | @last x stops =>
      obtain ⟨fuel,rfl⟩ := Nat.exists_eq_add_of_le' short
      have own := fine x (List.mem_singleton_self x)
      rw [List.length_singleton,loop]
      cases kind : turn x with
      | hangs =>
        rw [kind] at own
        exact own.elim
      | ends log value =>
        rw [kind] at own
        exact ⟨_,rfl,own⟩
      | goes log y =>
        rw [kind] at stops
        cases stops
    | @step x y rest leads later ih =>
      obtain ⟨fuel,rfl⟩ := Nat.exists_eq_add_of_le' short
      have own := fine x (List.mem_cons_self ..)
      obtain ⟨result,done,inside⟩ := ih (Nat.le_add_left _ fuel) fun z member => fine z (List.mem_cons_of_mem _ member)
      rw [List.length_cons,← Nat.add_assoc,loop]
      cases kind : turn x with
      | hangs =>
        rw [kind] at own
        exact own.elim
      | ends log value =>
        rw [kind] at leads
        cases leads
      | goes log z =>
        rw [kind] at own leads
        cases leads
        dsimp only
        rw [done]
        refine ⟨_,rfl,?_⟩
        intro i member
        rcases List.mem_append.mp member with first | second
        · exact own i first
        · exact inside i second

/-- What holds of every position of a way with some bound holds of them all with one bound. -/
theorem common_bound (holds : Nat → α → Prop) (wide : ∀ n m y, n ≤ m → holds n y → holds m y) {way : List α}
    (each : ∀ y ∈ way, ∃ n, holds n y) : ∃ n, ∀ m, n ≤ m → ∀ y ∈ way, holds m y := by
  induction way with
  | nil => exact ⟨0,nofun⟩
  | cons x rest ih =>
    obtain ⟨n,own⟩ := each x (List.mem_cons_self ..)
    obtain ⟨m,later⟩ := ih fun y member => each y (List.mem_cons_of_mem _ member)
    refine ⟨max n m,fun k above y member => ?_⟩
    rcases List.mem_cons.mp member with rfl | member
    · exact wide n k y (Nat.le_trans (Nat.le_max_left ..) above) own
    · exact later k (Nat.le_trans (Nat.le_max_right ..) above) y member

section Fueled
variable {turn : Nat → α → Turn α ι ρ} {next : α → Option α} {good : ι → Prop}
variable (stable : ∀ fuel y, (turn fuel y).Fine good → (turn fuel y).next = next y)
include stable

/-- A loop that ends well never comes round, and none of its turns goes wrong. -/
theorem loop_sound {fuel : Nat} {x : α} {result : List ι × ρ} (done : loop (turn fuel) fuel x = some result)
    (inside : ∀ i ∈ result.1, good i) {y : α} (reached : OnWay next x y) :
    (∃ fuel, (turn fuel y).Fine good) ∧ ¬ComesRound next y := by
  obtain ⟨way,found,_,fine⟩ := loop_iff.mp ⟨result,done,inside⟩
  have found' : Walk next x way := found.congr fun y member => (stable fuel y (fine y member)).symm
  obtain ⟨rest,goes,_⟩ := found'.rest reached
  exact ⟨⟨fuel,fine y (found'.mem_iff.mpr reached)⟩,goes.straight⟩

/-- On a finite range the converse holds. -/
theorem loop_returns (wide : ∀ n m y, n ≤ m → (turn n y).Fine good → (turn m y).Fine good) {x : α} (range : Finset α)
    (within : ∀ y, OnWay next x y → y ∈ range)
    (sound : ∀ y, OnWay next x y → (∃ fuel, (turn fuel y).Fine good) ∧ ¬ComesRound next y) :
    ∃ least, ∀ fuel, least ≤ fuel → ∃ result, loop (turn fuel) fuel x = some result ∧ ∀ i ∈ result.1, good i := by
  obtain ⟨way,found⟩ := (walk_iff_straight range within).mpr fun y reached => (sound y reached).2
  obtain ⟨n,fine⟩ := common_bound (fun n y => (turn n y).Fine good) wide fun y member =>
    (sound y (found.mem_iff.mp member)).1
  refine ⟨max n way.length,fun fuel above => loop_iff.mpr ⟨way,?_,?_,?_⟩⟩
  · exact found.congr fun y member => stable fuel y (fine fuel (Nat.le_trans (Nat.le_max_left ..) above) y member)
  · exact Nat.le_trans (Nat.le_max_right ..) above
  · exact fine fuel (Nat.le_trans (Nat.le_max_left ..) above)

end Fueled

section Relog
variable {κ : Type}

/-- The same turn with another log. -/
def Turn.relog (log : List κ) : Turn α ι ρ → Turn α κ ρ
  | .hangs => .hangs
  | .ends _ value => .ends log value
  | .goes _ y => .goes log y

theorem loop_relog (turn : α → Turn α ι ρ) (logs : α → List κ) (fuel : Nat) (x : α) :
    (loop (fun y => (turn y).relog (logs y)) fuel x).map Prod.snd = (loop turn fuel x).map Prod.snd := by
  induction fuel generalizing x with
  | zero => rfl
  | succ fuel ih =>
    unfold loop
    cases turn x with
    | hangs => rfl
    | ends log value => rfl
    | goes log y =>
      change Option.map Prod.snd (Option.map _ _) = Option.map Prod.snd (Option.map _ _)
      rw [Option.map_map,Option.map_map]
      exact ih y

theorem relog_ends {log log' : List κ} {one : Turn α ι ρ} {value : ρ} (left : one.relog log = .ends log' value) :
    log' = log ∧ ∃ own, one = .ends own value := by
  cases one with
  | ends own value' =>
    cases left
    exact ⟨rfl,own,rfl⟩
  | _ => cases left

theorem relog_goes {log log' : List κ} {one : Turn α ι ρ} {y : α} (on : one.relog log = .goes log' y) :
    log' = log ∧ one.next = some y := by
  cases one with
  | goes own place =>
    cases on
    exact ⟨rfl,rfl⟩
  | _ => cases on

end Relog

/-- What every turn keeps, and what every turn adds to the log. -/
theorem loop_keeps {turn : α → Turn α ι ρ} {good : List ι → Prop} (keeps : α → Prop) (leaves : ρ → Prop)
    (joins : ∀ a b, good a → good b → good (a ++ b))
    (ends : ∀ x log value, keeps x → turn x = .ends log value → good log ∧ leaves value)
    (goes : ∀ x log y, keeps x → turn x = .goes log y → good log ∧ keeps y)
    {fuel : Nat} {x : α} {result : List ι × ρ} (start : keeps x) (done : loop turn fuel x = some result) :
    good result.1 ∧ leaves result.2 := by
  induction fuel generalizing x result with
  | zero => cases done
  | succ fuel ih =>
    unfold loop at done
    split at done
    next => cases done
    next log value kind =>
      cases done
      exact ends x log value start kind
    next log y kind =>
      obtain ⟨own,later⟩ := goes x log y start kind
      obtain ⟨rest,ended,rfl⟩ := Option.map_eq_some_iff.mp done
      obtain ⟨fine,left⟩ := ih later ended
      exact ⟨joins log rest.1 own fine,left⟩

/-- A loop leaves where its walk stops. -/
theorem loop_last {turn : α → Turn α ι ρ} {fuel : Nat} {x : α} {result : List ι × ρ} (done : loop turn fuel x = some result) :
    ∃ y log, OnWay (fun z => (turn z).next) x y ∧ turn y = .ends log result.2 ∧ log ⊆ result.1 := by
  induction fuel generalizing x result with
  | zero => cases done
  | succ fuel ih =>
    unfold loop at done
    split at done
    next => cases done
    next log value kind =>
      cases done
      exact ⟨x,log,.refl,kind,List.Subset.refl log⟩
    next log y kind =>
      have leads : (turn x).next = some y := by
        rw [kind]
        rfl
      obtain ⟨rest,ended,rfl⟩ := Option.map_eq_some_iff.mp done
      obtain ⟨z,last,reached,left,later⟩ := ih ended
      exact ⟨z,last,.head leads reached,left,List.subset_append_of_subset_right log later⟩

/-- A way has one end. -/
theorem OnWay.stop_unique {next : α → Option α} {x y z : α} (reached : OnWay next x y) (stops : next y = none)
    (reached' : OnWay next x z) (stops' : next z = none) : z = y := by
  induction reached using Relation.ReflTransGen.head_induction_on with
  | refl =>
    rcases Relation.ReflTransGen.cases_head reached' with same | ⟨w,leads,_⟩
    · exact same.symm
    · exact nomatch stops.symm.trans leads
  | head leads _ ih =>
    rcases Relation.ReflTransGen.cases_head reached' with rfl | ⟨w,leads',later⟩
    · exact nomatch stops'.symm.trans leads
    · cases leads.symm.trans leads'
      exact ih later

end Loop
end LionOS.Library
