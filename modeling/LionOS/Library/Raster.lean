import Mathlib.Data.Set.Lattice
import Mathlib.Logic.Function.Basic
import Mathlib.Order.CompletePartialOrder
import Mathlib.Tactic.Choose

/-! Loops that change some entries of an array, each on its own: their effect entry by entry,
and loops over the rows and columns of a table that is stored row after row. -/
namespace LionOS.Library
variable {α ι σ : Type}

/-- A loop over the items of a list; none where a turn gives no result. -/
def forEach (items : List ι) (body : ι → σ → Option σ) (s : σ) : Option σ := items.foldlM (fun s i => body i s) s

/-- `for (i = a; i < b; ++i)` -/
def forRange (a b : Nat) (body : Nat → σ → Option σ) : σ → Option σ := forEach (List.range' a (b - a)) body

theorem forEach_cons (i : ι) (rest : List ι) (body : ι → σ → Option σ) (s : σ) :
    forEach (i::rest) body s = (body i s).bind (forEach rest body) := rfl

theorem forEach_append (first second : List ι) (body : ι → σ → Option σ) (s : σ) :
    forEach (first ++ second) body s = (forEach first body s).bind (forEach second body) := List.foldlM_append

theorem forEach_map {κ : Type} (g : κ → ι) (items : List κ) (body : ι → σ → Option σ) (s : σ) :
    forEach (items.map g) body s = forEach items (fun i => body (g i)) s := List.foldlM_map

/-- A loop counted from another start. -/
theorem forRange_shift (n a b : Nat) (body : Nat → σ → Option σ) (s : σ) :
    forRange a b body s = forRange (n + a) (n + b) (fun i => body (i - n)) s := by
  have length : n + b - (n + a) = b - a := by omega
  rw [forRange,forRange,length,← List.map_add_range',forEach_map]
  simp only [Nat.add_sub_cancel_left]

/-- A loop whose turns all have a result has one. -/
theorem forEach_returns {items : List ι} {body : ι → σ → Option σ} (each : ∀ i ∈ items,∀ s,∃ t,body i s = some t) (s : σ) :
    ∃ t,forEach items body s = some t := by
  induction items generalizing s with
  | nil => exact ⟨s,rfl⟩
  | cons i rest ih =>
    obtain ⟨t,made⟩ := each i (List.mem_cons_self ..) s
    rw [forEach_cons,made,Option.bind_some]
    exact ih (fun j member => each j (List.mem_cons_of_mem i member)) t

/-- What an operation leaves of an array: at the places of a set each entry is what `f` makes of
it, and the others stay. There is no result where `f` has none. -/
def Touches (S : Set Nat) (f : Nat → α → Option α) (op : (Nat → α) → Option (Nat → α)) : Prop :=
  ∀ buffer result, op buffer = some result ↔
    ∀ k, (k ∈ S → f k (buffer k) = some (result k)) ∧ (k ∉ S → result k = buffer k)

section Touches
variable {S T : Set Nat} {f : Nat → α → Option α} {op : (Nat → α) → Option (Nat → α)}

theorem touches_nothing (f : Nat → α → Option α) : Touches ∅ f some := by
  intro buffer result
  rw [Option.some_inj]
  constructor
  · rintro rfl k
    exact ⟨fun no => no.elim,fun _ => rfl⟩
  · intro each
    funext k
    exact ((each k).2 (Set.notMem_empty k)).symm

theorem touches_one (f : Nat → α → Option α) (k : Nat) :
    Touches {k} f fun buffer => (f k (buffer k)).map (Function.update buffer k) := by
  intro buffer result
  rw [Option.map_eq_some_iff]
  constructor
  · rintro ⟨value,made,rfl⟩ j
    constructor
    · rintro rfl
      rw [Function.update_self,made]
    · intro other
      exact Function.update_of_ne other value buffer
  · intro each
    refine ⟨result k,(each k).1 rfl,?_⟩
    funext j
    by_cases same : j = k
    · rw [same,Function.update_self]
    · rw [Function.update_of_ne same,(each j).2 same]

/-- One operation after the other, at other places. -/
theorem Touches.bind {op' : (Nat → α) → Option (Nat → α)} (first : Touches S f op) (second : Touches T f op')
    (apart : Disjoint S T) : Touches (S ∪ T) f fun buffer => (op buffer).bind op' := by
  have outside {k : Nat} (member : k ∈ T) : k ∉ S := fun both => Set.disjoint_left.mp apart both member
  intro buffer result
  rw [Option.bind_eq_some_iff]
  constructor
  · rintro ⟨middle,done,done'⟩ k
    have one := (first buffer middle).mp done k
    have two := (second middle result).mp done' k
    constructor
    · rintro (member | member)
      · rw [one.1 member,two.2 fun both => outside both member]
      · rw [← one.2 (outside member),two.1 member]
    · intro none
      rw [two.2 fun member => none (.inr member),one.2 fun member => none (.inl member)]
  · intro each
    classical
    refine ⟨fun k => if k ∈ S then result k else buffer k,(first buffer _).mpr fun k => ?_,(second _ result).mpr fun k => ?_⟩
    · constructor
      · intro member
        rw [if_pos member]
        exact (each k).1 (.inl member)
      · intro none
        rw [if_neg none]
    · constructor
      · intro member
        rw [if_neg (outside member)]
        exact (each k).1 (.inr member)
      · intro none
        by_cases member : k ∈ S
        · rw [if_pos member]
        · rw [if_neg member]
          exact (each k).2 fun either => either.elim member none

theorem Touches.forEach {S : ι → Set Nat} {body : ι → (Nat → α) → Option (Nat → α)} {items : List ι}
    (each : ∀ i ∈ items,Touches (S i) f (body i)) (apart : items.Pairwise fun i j => Disjoint (S i) (S j)) :
    Touches {k | ∃ i ∈ items,k ∈ S i} f (Library.forEach items body) := by
  induction items with
  | nil =>
    have none : {k | ∃ i ∈ ([] : List ι),k ∈ S i} = ∅ := by
      ext k
      simp
    rw [none]
    exact touches_nothing f
  | cons i rest ih =>
    have parts := List.pairwise_cons.mp apart
    have later := ih (fun j member => each j (List.mem_cons_of_mem i member)) parts.2
    have split : {k | ∃ j ∈ i::rest,k ∈ S j} = S i ∪ {k | ∃ j ∈ rest,k ∈ S j} := by
      ext k
      simp
    rw [split]
    refine (each i (List.mem_cons_self ..)).bind later ?_
    rw [Set.disjoint_left]
    rintro k own ⟨j,member,other⟩
    exact Set.disjoint_left.mp (parts.1 j member) own other

theorem Touches.congr {g : Nat → α → Option α} (touches : Touches S f op) (same : ∀ k ∈ S,∀ a,g k a = f k a) :
    Touches S g op := by
  intro buffer result
  rw [touches buffer result]
  refine forall_congr' fun k => and_congr_left fun _ => forall_congr' fun member => ?_
  rw [same k member]

/-- An operation on fewer places, from a buffer that agrees there: the same entries at these
places, and nothing changes at the others. -/
theorem Touches.restrict {C : Set Nat} {op' : (Nat → α) → Option (Nat → α)} (whole : Touches S f op)
    (part : Touches (S ∩ C) f op') {buffer buffer' result : Nat → α} (agree : ∀ k ∈ C,buffer' k = buffer k)
    (done : op buffer = some result) :
    ∃ result',op' buffer' = some result' ∧ (∀ k ∈ C,result' k = result k) ∧ ∀ k ∉ C,result' k = buffer' k := by
  classical
  have each := (whole buffer result).mp done
  refine ⟨fun k => if k ∈ C then result k else buffer' k,(part buffer' _).mpr fun k => ?_,fun k inside => if_pos inside,
    fun k outside => if_neg outside⟩
  constructor
  · rintro ⟨member,inside⟩
    rw [if_pos inside,agree k inside]
    exact (each k).1 member
  · intro none
    by_cases inside : k ∈ C
    · rw [if_pos inside,agree k inside]
      exact (each k).2 fun member => none ⟨member,inside⟩
    · rw [if_neg inside]

/-- Where `f` has a result at every place the operation has one. -/
theorem Touches.returns (touches : Touches S f op) (total : ∀ k ∈ S,∀ a,∃ b,f k a = some b) (buffer : Nat → α) :
    ∃ result,op buffer = some result := by
  classical
  have chosen : ∀ k,∃ b,(k ∈ S → f k (buffer k) = some b) ∧ (k ∉ S → b = buffer k) := by
    intro k
    by_cases member : k ∈ S
    · obtain ⟨b,made⟩ := total k member (buffer k)
      exact ⟨b,fun _ => made,fun none => absurd member none⟩
    · exact ⟨buffer k,fun member' => absurd member' member,fun _ => rfl⟩
  choose result each using chosen
  exact ⟨result,(touches buffer result).mpr each⟩

end Touches

section Rows
variable {f : Nat → α → Option α}

/-- The places of the columns from `a` to `b` of a row. -/
def Span (width row a b : Nat) : Set Nat := {k | k / width = row ∧ a ≤ k % width ∧ k % width < b}

theorem place_div {width x : Nat} (inside : x < width) (y : Nat) : (y * width + x) / width = y := by
  rw [Nat.mul_comm,Nat.mul_add_div (by omega),Nat.div_eq_of_lt inside,Nat.add_zero]

theorem place_mod {width x : Nat} (inside : x < width) (y : Nat) : (y * width + x) % width = x := by
  rw [Nat.mul_comm,Nat.mul_add_mod,Nat.mod_eq_of_lt inside]

theorem place_eq (width k : Nat) : k / width * width + k % width = k := Nat.div_add_mod' k width

/-- A loop over the columns of a row, whose turns each change one entry. -/
theorem touches_line {width row a b c d : Nat} {body : Nat → (Nat → α) → Option (Nat → α)} {place : Nat → Nat}
    (each : ∀ i,c ≤ i → i < d → Touches {place i} f (body i)) (inside : b ≤ width) (shift : d - c = b - a)
    (places : ∀ i,c ≤ i → i < d → place i = row * width + (a + (i - c))) :
    Touches (Span width row a b) f (forRange c d body) := by
  have loop : Touches {k | ∃ i ∈ List.range' c (d - c),k ∈ ({place i} : Set Nat)} f (forRange c d body) := by
    refine Touches.forEach ?_ ?_
    · intro i member
      have range := List.mem_range'_1.mp member
      exact each i range.1 (by omega)
    · refine List.Pairwise.imp_of_mem ?_ (List.pairwise_lt_range')
      intro i j first second less
      have range := List.mem_range'_1.mp first
      have range' := List.mem_range'_1.mp second
      rw [Set.disjoint_singleton,places i range.1 (by omega),places j range'.1 (by omega)]
      omega
  have same : {k | ∃ i ∈ List.range' c (d - c),k ∈ ({place i} : Set Nat)} = Span width row a b := by
    ext k
    constructor
    · rintro ⟨i,member,rfl⟩
      have range := List.mem_range'_1.mp member
      have column : a + (i - c) < width := by omega
      rw [places i range.1 (by omega)]
      refine ⟨place_div column row,?_⟩
      rw [place_mod column row]
      omega
    · rintro ⟨in_row,from_a,to_b⟩
      refine ⟨c + (k % width - a),List.mem_range'_1.mpr (by omega),?_⟩
      rw [Set.mem_singleton_iff,places _ (by omega) (by omega),← in_row,show a + (c + (k % width - a) - c) = k % width by omega]
      exact (place_eq width k).symm
  rw [← same]
  exact loop

/-- A loop over rows, each turn on some columns of its row. -/
theorem touches_rows {width y₀ y₁ : Nat} {body : Nat → (Nat → α) → Option (Nat → α)} {sx ex : Nat → Nat}
    (each : ∀ yy,y₀ ≤ yy → yy < y₁ → Touches (Span width yy (sx yy) (ex yy)) f (body yy)) :
    Touches {k | y₀ ≤ k / width ∧ k / width < y₁ ∧ sx (k / width) ≤ k % width ∧ k % width < ex (k / width)} f (forRange y₀ y₁ body) := by
  have loop : Touches {k | ∃ yy ∈ List.range' y₀ (y₁ - y₀),k ∈ Span width yy (sx yy) (ex yy)} f (forRange y₀ y₁ body) := by
    refine Touches.forEach ?_ ?_
    · intro yy member
      have range := List.mem_range'_1.mp member
      exact each yy range.1 (by omega)
    · refine List.Pairwise.imp ?_ List.pairwise_lt_range'
      intro i j less
      rw [Set.disjoint_left]
      rintro k ⟨row,_⟩ ⟨row',_⟩
      omega
  have same : {k | ∃ yy ∈ List.range' y₀ (y₁ - y₀),k ∈ Span width yy (sx yy) (ex yy)} =
      {k | y₀ ≤ k / width ∧ k / width < y₁ ∧ sx (k / width) ≤ k % width ∧ k % width < ex (k / width)} := by
    ext k
    constructor
    · rintro ⟨yy,member,rfl,columns⟩
      have range := List.mem_range'_1.mp member
      exact ⟨range.1,by omega,columns⟩
    · rintro ⟨from_y,to_y,columns⟩
      exact ⟨k / width,List.mem_range'_1.mpr (by omega),rfl,columns⟩
  rw [← same]
  exact loop

end Rows
end LionOS.Library
