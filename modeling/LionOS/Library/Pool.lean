import Mathlib.Data.List.Nodup
import Mathlib.Data.List.Perm.Basic
import Mathlib.Data.List.Range
import Mathlib.Logic.Function.Basic
import Mathlib.Tactic.Tauto

/-! Numbered slots that are searched from the lowest one on, and the items that pass
through them. Items are numbered in the order in which they are put into a slot. -/
namespace LionOS.Library

theorem find_range {n i : Nat} {test : Nat → Bool} :
    (List.range n).find? test = some i ↔ i < n ∧ test i = true ∧ ∀ j, j < i → test j = false := by
  rw [List.find?_range_eq_some]
  simp only [List.mem_range,Bool.not_eq_eq_eq_not,Bool.not_true]
  tauto

theorem find_range_none {n : Nat} {test : Nat → Bool} :
    (List.range n).find? test = none ↔ ∀ i, i < n → test i = false := by
  simp [List.find?_eq_none]

/-- A number that passes one test and not the other makes a difference of one. -/
theorem count_range_gain {n i : Nat} {test test' : Nat → Bool} (bound : i < n) (lost : test i = false)
    (gained : test' i = true) (same : ∀ j, j ≠ i → test' j = test j) :
    ((List.range n).filter test').length = ((List.range n).filter test).length + 1 := by
  induction n with
  | zero => omega
  | succ n ih =>
    rw [List.range_succ,List.filter_append,List.filter_append,List.length_append,List.length_append]
    by_cases last : i = n
    · subst last
      have before : (List.range i).filter test' = (List.range i).filter test := by
        apply List.filter_congr
        intro j member
        exact same j (Nat.ne_of_lt (List.mem_range.mp member))
      rw [before]
      simp [lost,gained]
    · rw [ih (by omega),List.filter_singleton,List.filter_singleton,same n (Ne.symm last)]
      omega

/-- `items` have been put so far, `slots` holds the numbers of those that still wait
and `taken` the numbers of the others in the order in which they left. -/
structure Pool (α : Type) where
  items : List α
  slots : Nat → Option Nat
  taken : List Nat

namespace Pool
variable {α κ : Type} {p : Pool α} {size i : Nat} {x : α}

def empty : Pool α := ⟨[],fun _ => none,[]⟩

def put (p : Pool α) (i : Nat) (x : α) : Pool α :=
  {p with items := p.items ++ [x],slots := Function.update p.slots i (some p.items.length)}

def take (p : Pool α) (i : Nat) : Pool α :=
  match p.slots i with
  | none => p
  | some n => {p with slots := Function.update p.slots i none,taken := p.taken ++ [n]}

def held (p : Pool α) (i : Nat) : Option α := (p.slots i).bind (p.items[·]?)

/-- Every item that was put waits in one slot or has left once. -/
structure Exact (size : Nat) (p : Pool α) : Prop where
  inside : ∀ {i n}, p.slots i = some n → i < size ∧ n < p.items.length ∧ n ∉ p.taken
  single : ∀ {i j n}, p.slots i = some n → p.slots j = some n → i = j
  issued : ∀ {n}, n ∈ p.taken → n < p.items.length
  once : p.taken.Nodup
  somewhere : ∀ {n}, n < p.items.length → n ∉ p.taken → ∃ i, p.slots i = some n

theorem exact_empty : Exact size (empty : Pool α) := by
  refine ⟨?_,?_,?_,List.nodup_nil,?_⟩
  · intro i n present
    cases present
  · intro i j n present
    cases present
  · intro n gone
    cases gone
  · intro n bound
    cases bound

theorem update_slot {slots : Nat → Option Nat} {value : Option Nat} {j n : Nat}
    (present : Function.update slots i value j = some n) :
    j = i ∧ value = some n ∨ j ≠ i ∧ slots j = some n := by
  by_cases own : j = i
  · subst own
    rw [Function.update_self] at present
    exact .inl ⟨rfl,present⟩
  · rw [Function.update_of_ne own] at present
    exact .inr ⟨own,present⟩

theorem Exact.put (exact : Exact size p) (bound : i < size) (free : p.slots i = none) (x : α) :
    Exact size (p.put i x) := by
  obtain ⟨inside,single,issued,once,somewhere⟩ := exact
  have length : (p.put i x).items.length = p.items.length + 1 := by
    simp [Pool.put]
  refine ⟨?_,?_,?_,once,?_⟩
  · intro j n present
    rw [length]
    rcases update_slot present with ⟨rfl,new⟩ | ⟨_,old⟩
    · cases new
      exact ⟨bound,Nat.lt_succ_self _,fun gone => Nat.lt_irrefl _ (issued gone)⟩
    · obtain ⟨room,known,kept⟩ := inside old
      exact ⟨room,Nat.lt_succ_of_lt known,kept⟩
  · intro j k n first second
    rcases update_slot first with ⟨rfl,new⟩ | ⟨_,old⟩
    · rcases update_slot second with ⟨rfl,_⟩ | ⟨_,old⟩
      · rfl
      · cases new
        exact absurd (inside old).2.1 (Nat.lt_irrefl _)
    · rcases update_slot second with ⟨rfl,new⟩ | ⟨_,old'⟩
      · cases new
        exact absurd (inside old).2.1 (Nat.lt_irrefl _)
      · exact single old old'
  · intro n gone
    rw [length]
    exact Nat.lt_succ_of_lt (issued gone)
  · intro n known waiting
    rw [length] at known
    by_cases last : n = p.items.length
    · subst last
      exact ⟨i,Function.update_self _ _ _⟩
    · obtain ⟨j,present⟩ := somewhere (n := n) (by omega) waiting
      have other : j ≠ i := by
        rintro rfl
        rw [free] at present
        cases present
      refine ⟨j,?_⟩
      change Function.update p.slots i _ j = _
      rw [Function.update_of_ne other,present]

theorem take_present {n : Nat} (present : p.slots i = some n) :
    p.take i = {p with slots := Function.update p.slots i none,taken := p.taken ++ [n]} := by
  simp only [Pool.take,present]

theorem Exact.take {n : Nat} (exact : Exact size p) (present : p.slots i = some n) : Exact size (p.take i) := by
  obtain ⟨inside,single,issued,once,somewhere⟩ := exact
  obtain ⟨room,known,kept⟩ := inside present
  rw [take_present present]
  refine ⟨?_,?_,?_,?_,?_⟩
  · intro j m occupied
    rcases update_slot occupied with ⟨_,new⟩ | ⟨other,old⟩
    · cases new
    · obtain ⟨room,known,kept⟩ := inside old
      refine ⟨room,known,?_⟩
      intro gone
      rcases List.mem_append.mp gone with before | now
      · exact kept before
      · rw [List.mem_singleton.mp now] at old
        exact other (single old present)
  · intro j k m first second
    rcases update_slot first with ⟨_,new⟩ | ⟨_,old⟩
    · cases new
    rcases update_slot second with ⟨_,new⟩ | ⟨_,old'⟩
    · cases new
    · exact single old old'
  · intro m gone
    rcases List.mem_append.mp gone with before | now
    · exact issued before
    · rwa [List.mem_singleton.mp now]
  · rw [List.nodup_append]
    refine ⟨once,List.nodup_singleton n,?_⟩
    rintro m before _ now rfl
    rw [List.mem_singleton] at now
    subst now
    exact kept before
  · intro m known' waiting
    rw [List.mem_append,not_or,List.mem_singleton] at waiting
    obtain ⟨j,occupied⟩ := somewhere known' waiting.1
    have other : j ≠ i := by
      rintro rfl
      rw [present] at occupied
      cases occupied
      exact waiting.2 rfl
    refine ⟨j,?_⟩
    dsimp only
    rw [Function.update_of_ne other,occupied]

theorem Exact.held_put (exact : Exact size p) (x : α) (j : Nat) :
    (p.put i x).held j = if j = i then some x else p.held j := by
  unfold Pool.held Pool.put
  dsimp only
  by_cases own : j = i
  · subst own
    simp
  · rw [Function.update_of_ne own,if_neg own]
    cases present : p.slots j with
    | none => rfl
    | some n =>
      dsimp only [Option.bind_some]
      rw [List.getElem?_append_left (exact.inside present).2.1]

theorem held_take (i j : Nat) : (p.take i).held j = if j = i then none else p.held j := by
  unfold Pool.held Pool.take
  by_cases own : j = i
  · subst own
    cases present : p.slots j with
    | none => simp [present]
    | some n => simp
  · rw [if_neg own]
    split
    · rfl
    · dsimp only
      rw [Function.update_of_ne own]

theorem Exact.held_some {n : Nat} (exact : Exact size p) (present : p.slots i = some n) :
    ∃ x, p.items[n]? = some x ∧ p.held i = some x := by
  obtain ⟨_,known,_⟩ := exact.inside present
  refine ⟨p.items[n],List.getElem?_eq_getElem known,?_⟩
  rw [Pool.held,present,Option.bind_some,List.getElem?_eq_getElem known]

theorem held_slot (here : p.held i = some x) : ∃ n, p.slots i = some n ∧ p.items[n]? = some x := by
  unfold Pool.held at here
  cases present : p.slots i with
  | none =>
    rw [present] at here
    cases here
  | some n =>
    rw [present,Option.bind_some] at here
    exact ⟨n,rfl,here⟩

/-- What the slots of a table hold is what the pool says. -/
structure Tracks (size : Nat) (view : Nat → Option α) (p : Pool α) : Prop where
  exact : p.Exact size
  held : ∀ {i}, i < size → p.held i = view i

section Views
variable {view view' : Nat → Option α}

theorem tracks_empty (vacant : ∀ i, i < size → view i = none) : Tracks size view empty :=
  ⟨exact_empty,fun bound => (vacant _ bound).symm⟩

theorem Tracks.slot (tracks : Tracks size view p) (bound : i < size) (here : view i = some x) :
    ∃ n, p.slots i = some n ∧ p.items[n]? = some x :=
  held_slot ((tracks.held bound).trans here)

theorem Tracks.vacant (tracks : Tracks size view p) (bound : i < size) (free : view i = none) : p.slots i = none := by
  cases present : p.slots i with
  | none => rfl
  | some n =>
    obtain ⟨x,_,here⟩ := tracks.exact.held_some present
    rw [tracks.held bound,free] at here
    cases here

theorem Tracks.put (tracks : Tracks size view p) (bound : i < size) (free : view i = none)
    (stored : ∀ j, view' j = if j = i then some x else view j) : Tracks size view' (p.put i x) := by
  refine ⟨tracks.exact.put bound (tracks.vacant bound free) x,?_⟩
  intro j inside
  rw [tracks.exact.held_put,stored,tracks.held inside]

theorem Tracks.take (tracks : Tracks size view p) (bound : i < size) (here : view i = some x)
    (left : ∀ j, view' j = if j = i then none else view j) : Tracks size view' (p.take i) := by
  obtain ⟨n,present,_⟩ := tracks.slot bound here
  refine ⟨tracks.exact.take present,?_⟩
  intro j inside
  rw [held_take,left,tracks.held inside]

end Views

/-- The numbers that still wait, by their slots. -/
def waiting (size : Nat) (p : Pool α) : List Nat := (List.range size).filterMap p.slots

theorem Exact.waiting_perm (exact : Exact size p) :
    (p.waiting size).Perm ((List.range p.items.length).filter fun n => decide (n ∉ p.taken)) := by
  have distinct : (p.waiting size).Nodup := by
    refine List.nodup_range.filterMap ?_
    intro i j n first second
    exact exact.single first second
  refine (List.perm_ext_iff_of_nodup distinct (List.nodup_range.filter _)).mpr ?_
  intro n
  simp only [waiting,List.mem_filterMap,List.mem_range,List.mem_filter,decide_eq_true_eq]
  refine ⟨?_,?_⟩
  · rintro ⟨i,_,present⟩
    exact (exact.inside present).2
  · rintro ⟨known,kept⟩
    obtain ⟨i,present⟩ := exact.somewhere known kept
    exact ⟨i,(exact.inside present).1,present⟩

/-- Counting the slots whose item passes a test counts the items that wait and pass it. -/
theorem Exact.count_waiting (exact : Exact size p) (test : α → Bool) :
    ((List.range size).filter fun i => (p.held i).any test).length =
      ((List.range p.items.length).filter fun n => decide (n ∉ p.taken) && (p.items[n]?).any test).length := by
  have passes : (List.range size).filter (fun i => (p.held i).any test) =
      (List.range size).filter fun i => (p.slots i).any fun n => (p.items[n]?).any test := by
    apply List.filter_congr
    intro i _
    unfold Pool.held
    cases p.slots i <;> rfl
  have counted (l : List Nat) :
      (l.filter fun i => (p.slots i).any fun n => (p.items[n]?).any test).length =
        ((l.filterMap p.slots).filter fun n => (p.items[n]?).any test).length := by
    induction l with
    | nil => rfl
    | cons i rest ih =>
      cases present : p.slots i with
      | none => simpa [present] using ih
      | some n =>
        by_cases good : (p.items[n]?).any test = true
        · simpa [present,good] using ih
        · simpa [present,good] using ih
  rw [passes,counted,← List.filter_filter]
  have moved := (exact.waiting_perm.filter fun n => (p.items[n]?).any test).length_eq
  rw [List.filter_filter] at moved ⊢
  simpa only [waiting,Bool.and_comm] using moved

section Order
variable (key : α → κ)

/-- Of two waiting items with one key, the earlier one has the lower slot. -/
def Sorted (p : Pool α) : Prop :=
  ∀ {i j m n : Nat} {x y : α}, p.slots i = some m → p.slots j = some n → p.items[m]? = some x → p.items[n]? = some y →
    key x = key y → m < n → i < j

/-- Items with one key leave in the order in which they came. -/
def InOrder (p : Pool α) : Prop :=
  ∀ (earlier later : List Nat) (m n : Nat) (x y : α), p.taken = earlier ++ n :: later → m < n →
    p.items[m]? = some x → p.items[n]? = some y → key x = key y → m ∈ earlier

variable {key}

theorem sorted_empty : Sorted key (empty : Pool α) := by
  intro i j m n x y present
  cases present

theorem inOrder_empty : InOrder key (empty : Pool α) := by
  intro earlier later m n x y split
  simp [empty] at split

theorem items_put {n : Nat} (known : n < p.items.length) : (p.put i x).items[n]? = p.items[n]? :=
  List.getElem?_append_left known

theorem Sorted.put (sorted : Sorted key p) (exact : Exact size p)
    (above : ∀ {j y}, p.held j = some y → key y = key x → j < i) : Sorted key (p.put i x) := by
  intro j k m n y z first second item item' same less
  rcases update_slot first with ⟨rfl,new⟩ | ⟨_,old⟩
  · cases new
    rcases update_slot second with ⟨rfl,new⟩ | ⟨_,old⟩
    · cases new
      exact absurd less (Nat.lt_irrefl _)
    · exact absurd (exact.inside old).2.1 (Nat.not_lt.mpr less.le)
  · rw [items_put (exact.inside old).2.1] at item
    rcases update_slot second with ⟨rfl,new⟩ | ⟨_,old'⟩
    · cases new
      rw [show (p.put k x).items[p.items.length]? = some x by simp [Pool.put]] at item'
      cases item'
      refine above ?_ same
      rw [Pool.held,old,Option.bind_some,item]
    · rw [items_put (exact.inside old').2.1] at item'
      exact sorted old old' item item' same less

theorem InOrder.put (inOrder : InOrder key p) (exact : Exact size p) : InOrder key (p.put i x) := by
  intro earlier later m n y z split less item item' same
  have gone : n ∈ p.taken := by
    change p.taken = _ at split
    rw [split]
    simp
  have known := exact.issued gone
  rw [items_put (less.trans known)] at item
  rw [items_put known] at item'
  exact inOrder earlier later m n y z split less item item' same

theorem Sorted.take (sorted : Sorted key p) {n : Nat} (present : p.slots i = some n) : Sorted key (p.take i) := by
  rw [take_present present]
  intro j k m n y z first second
  rcases update_slot first with ⟨_,new⟩ | ⟨_,old⟩
  · cases new
  rcases update_slot second with ⟨_,new⟩ | ⟨_,old'⟩
  · cases new
  · exact sorted old old'

/-- The item that leaves is the earliest of its key when it is taken from the lowest
slot. -/
theorem InOrder.take (inOrder : InOrder key p) (sorted : Sorted key p) (exact : Exact size p) {n : Nat}
    (present : p.slots i = some n)
    (lowest : ∀ {j y}, j < i → p.held j = some y → ∀ {x}, p.held i = some x → key y ≠ key x) :
    InOrder key (p.take i) := by
  rw [take_present present]
  intro earlier later m k y z split less item item' same
  dsimp only at split item item'
  rcases List.eq_nil_or_concat later with rfl | ⟨rest,last,rfl⟩
  · obtain ⟨rfl,single⟩ := List.append_inj' split rfl
    cases single
    by_contra kept
    obtain ⟨j,occupied⟩ := exact.somewhere (n := m) (less.trans (exact.inside present).2.1) kept
    have lower := sorted occupied present item item' same less
    refine lowest lower (y := y) ?_ (x := z) ?_ same
    · rw [Pool.held,occupied,Option.bind_some,item]
    · rw [Pool.held,present,Option.bind_some,item']
  · rw [List.concat_eq_append,← List.cons_append,← List.append_assoc] at split
    obtain ⟨before,_⟩ := List.append_inj' split rfl
    exact inOrder earlier rest m k y z before less item item' same

/-- A table whose items leave in order. -/
structure Ordered (key : α → κ) (size : Nat) (view : Nat → Option α) (p : Pool α) : Prop where
  tracks : Tracks size view p
  sorted : Sorted key p
  inOrder : InOrder key p

variable {view view' : Nat → Option α}

theorem ordered_empty (vacant : ∀ i, i < size → view i = none) : Ordered key size view empty :=
  ⟨tracks_empty vacant,sorted_empty,inOrder_empty⟩

theorem Ordered.put (ordered : Ordered key size view p) (bound : i < size) (free : view i = none)
    (above : ∀ j y, j < size → view j = some y → key y = key x → j < i)
    (stored : ∀ j, view' j = if j = i then some x else view j) : Ordered key size view' (p.put i x) := by
  obtain ⟨tracks,sorted,inOrder⟩ := ordered
  refine ⟨tracks.put bound free stored,sorted.put tracks.exact ?_,inOrder.put tracks.exact⟩
  intro j y here same
  obtain ⟨n,present,_⟩ := held_slot here
  have inside := (tracks.exact.inside present).1
  rw [tracks.held inside] at here
  exact above j y inside here same

theorem Ordered.take (ordered : Ordered key size view p) (bound : i < size) (here : view i = some x)
    (lowest : ∀ j, j < i → ∀ y, view j = some y → key y ≠ key x)
    (left : ∀ j, view' j = if j = i then none else view j) : Ordered key size view' (p.take i) := by
  obtain ⟨tracks,sorted,inOrder⟩ := ordered
  obtain ⟨n,present,_⟩ := tracks.slot bound here
  refine ⟨tracks.take bound here left,sorted.take present,inOrder.take sorted tracks.exact present ?_⟩
  intro j y lower occupied z held
  rw [tracks.held (lower.trans bound)] at occupied
  rw [tracks.held bound,here] at held
  cases held
  exact lowest j lower y occupied

end Order

end Pool

end LionOS.Library
