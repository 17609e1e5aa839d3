import Mathlib.Data.List.Pairwise

/-! Things that are drawn over each other in two layers, and the search for the one on top. -/
namespace LionOS.Library

variable {α : Type}

/-- The last of a list that passes a test. -/
def lastOf (test : α → Bool) (l : List α) : Option α := l.reverse.find? test

/-- The order of drawing: what is shown and not raised, then what is raised. -/
def layers (shown raised : α → Bool) (l : List α) : List α :=
  l.filter (fun a => shown a && !raised a) ++ l.filter (fun a => shown a && raised a)

section Last
variable {test : α → Bool} {a : α} {l : List α}

theorem lastOf_append (test : α → Bool) (l m : List α) : lastOf test (l ++ m) = (lastOf test m).or (lastOf test l) := by
  unfold lastOf
  rw [List.reverse_append,List.find?_append]

theorem lastOf_filter (test kept : α → Bool) (l : List α) :
    lastOf test (l.filter kept) = lastOf (fun a => kept a && test a) l := by
  unfold lastOf
  rw [← List.filter_reverse,List.find?_filter]
  simp only [Bool.decide_and,Bool.decide_eq_true]

theorem lastOf_none : lastOf test l = none ↔ ∀ a ∈ l, test a = false := by
  unfold lastOf
  simp [List.find?_eq_none]

theorem lastOf_some (found : lastOf test l = some a) : a ∈ l ∧ test a = true :=
  ⟨List.mem_reverse.mp (List.mem_of_find?_eq_some found),List.find?_some found⟩

theorem lastOf_congr {other : α → Bool} (same : ∀ a ∈ l, test a = other a) : lastOf test l = lastOf other l := by
  induction l with
  | nil => rfl
  | cons b rest ih =>
    have head := same b List.mem_cons_self
    rw [← List.singleton_append,lastOf_append,lastOf_append,ih fun a among => same a (List.mem_cons_of_mem b among)]
    unfold lastOf
    rw [List.reverse_singleton,List.find?_singleton,List.find?_singleton,head]

theorem lastOf_unique (among : a ∈ l) (passes : test a = true) (one : ∀ b ∈ l, test b = true → b = a) :
    lastOf test l = some a := by
  cases found : lastOf test l with
  | none =>
    rw [lastOf_none.mp found a among] at passes
    cases passes
  | some b =>
    obtain ⟨here,test⟩ := lastOf_some found
    rw [one b here test]

/-- The last one that passes is behind all the others. -/
theorem lastOf_rank {rank : α → Nat} (sorted : l.Pairwise fun a b => rank a < rank b) (among : a ∈ l)
    (passes : test a = true) : lastOf test l = some a ↔ ∀ b ∈ l, rank a < rank b → test b = false := by
  obtain ⟨before,after,rfl⟩ := List.append_of_mem among
  obtain ⟨-,tail,across⟩ := List.pairwise_append.mp sorted
  have later := (List.pairwise_cons.mp tail).1
  rw [lastOf_append,← List.singleton_append,lastOf_append]
  have single : lastOf test [a] = some a := lastOf_unique (List.mem_singleton_self a) passes fun b here _ =>
    List.mem_singleton.mp here
  rw [single]
  constructor
  · intro found b here higher
    cases last : lastOf test after with
    | none =>
      rcases List.mem_append.mp here with front | back
      · have := across b front a List.mem_cons_self
        omega
      · rcases List.mem_cons.mp back with rfl | back
        · exact absurd higher (Nat.lt_irrefl _)
        · exact lastOf_none.mp last b back
    | some c =>
      rw [last] at found
      have same : c = a := by simpa using found
      subst same
      exact absurd (later c (lastOf_some last).1) (Nat.lt_irrefl _)
  · intro none
    have last : lastOf test after = Option.none := lastOf_none.mpr fun b back =>
      none b (by simp [back]) (later b back)
    rw [last]
    rfl

end Last

section Layers
variable {shown raised covers : α → Bool} {rank : α → Nat} {l : List α}

/-- The one that is drawn last over a point is the last of the list there unless a raised one that
covers the point comes before another one. -/
theorem layers_last_iff (sorted : l.Pairwise fun a b => rank a < rank b)
    (one : ∀ a ∈ l, ∀ b ∈ l, raised a = true → raised b = true → a = b) :
    lastOf (fun a => shown a && covers a) l = lastOf covers (layers shown raised l) ↔
      ¬∃ a ∈ l, ∃ b ∈ l, rank a < rank b ∧ raised a = true ∧ (shown a && covers a) = true ∧
        (shown b && covers b) = true := by
  unfold layers
  rw [lastOf_append,lastOf_filter,lastOf_filter]
  by_cases up : ∃ a ∈ l, raised a = true ∧ (shown a && covers a) = true
  · obtain ⟨a,among,raises,visible⟩ := up
    have top : lastOf (fun a => shown a && raised a && covers a) l = some a := by
      apply lastOf_unique among
      · rw [Bool.and_right_comm,visible,raises]
        rfl
      · intro b here test
        simp only [Bool.and_eq_true] at test
        exact one b here a among test.1.2 raises
    rw [top,Option.some_or,lastOf_rank sorted among visible]
    constructor
    · intro behind ⟨c,there,b,here,higher,raises',_,both⟩
      rw [one c there a among raises' raises] at higher
      rw [behind b here higher] at both
      cases both
    · intro none b here higher
      by_contra both
      exact none ⟨a,among,b,here,higher,raises,visible,by simpa using both⟩
  · have top : lastOf (fun a => shown a && raised a && covers a) l = none := by
      refine lastOf_none.mpr fun a among => ?_
      by_contra all
      simp only [Bool.not_eq_false,Bool.and_eq_true] at all
      exact up ⟨a,among,all.1.2,by simp [all.1.1,all.2]⟩
    have plain : lastOf (fun a => shown a && !raised a && covers a) l = lastOf (fun a => shown a && covers a) l := by
      refine lastOf_congr fun a among => ?_
      cases raises : raised a with
      | false => simp
      | true =>
        have hidden : (shown a && covers a) = false := by
          by_contra visible
          exact up ⟨a,among,raises,by simpa using visible⟩
        simp [hidden]
    rw [top,plain,Option.none_or]
    exact iff_of_true rfl fun ⟨a,among,_,_,_,raises,visible,_⟩ => up ⟨a,among,raises,visible⟩

end Layers

end LionOS.Library
