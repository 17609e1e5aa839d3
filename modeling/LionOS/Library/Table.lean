import LionOS.Library.Pool
import Mathlib.Data.Finmap
import Mathlib.Data.Finset.Card

/-! A finite map in a table of slots that is searched from its first slot on. -/
namespace LionOS.Library
variable {κ ν : Type} [DecidableEq κ] {size : Nat} {view view' : Nat → Option (κ × ν)} {map : Finmap fun _ : κ => ν} {i : Nat}
  {key : κ} {value : ν}

abbrev Map (κ ν : Type) := Finmap fun _ : κ => ν

def taken (size : Nat) (view : Nat → Option (κ × ν)) : Nat := ((List.range size).filter fun i => (view i).isSome).length

/-- The slots hold what the map holds, each key once. -/
structure Represents (size : Nat) (view : Nat → Option (κ × ν)) (map : Map κ ν) : Prop where
  single : ∀ {i j key value other}, i < size → j < size → view i = some (key,value) → view j = some (key,other) → i = j
  lookup : ∀ {key value}, map.lookup key = some value ↔ ∃ i < size, view i = some (key,value)
  count : map.keys.card = taken size view

theorem represents_empty (vacant : ∀ i < size, view i = none) : Represents size view (∅ : Map κ ν) := by
  refine ⟨?_,?_,?_⟩
  · intro i j key value other inside _ here
    rw [vacant i inside] at here
    cases here
  · intro key value
    rw [Finmap.lookup_empty]
    refine ⟨by simp,?_⟩
    rintro ⟨i,inside,here⟩
    rw [vacant i inside] at here
    cases here
  · have none_ : (List.range size).filter (fun i => (view i).isSome) = [] := by
      rw [List.filter_eq_nil_iff]
      intro i member
      rw [vacant i (List.mem_range.mp member)]
      exact Bool.false_ne_true
    rw [taken,none_]
    rfl

theorem Represents.absent (represents : Represents size view map) :
    map.lookup key = none ↔ ∀ i < size, ∀ value, view i ≠ some (key,value) := by
  rw [Option.eq_none_iff_forall_ne_some]
  refine ⟨?_,?_⟩
  · intro none_ i inside value here
    exact none_ value (represents.lookup.mpr ⟨i,inside,here⟩)
  · intro none_ value present
    obtain ⟨i,inside,here⟩ := represents.lookup.mp present
    exact none_ i inside value here

theorem Represents.present (represents : Represents size view map) (inside : i < size) (here : view i = some (key,value)) :
    map.lookup key = some value := represents.lookup.mpr ⟨i,inside,here⟩

theorem Represents.mem (represents : Represents size view map) (inside : i < size) (here : view i = some (key,value)) :
    key ∈ map := Finmap.mem_of_lookup_eq_some (represents.present inside here)

/-- A table is full when no slot is free. -/
theorem Represents.full (represents : Represents size view map) : size ≤ map.keys.card ↔ ∀ i < size, (view i).isSome := by
  have most := List.length_filter_le (fun i => (view i).isSome) (List.range size)
  rw [List.length_range] at most
  rw [represents.count,taken]
  refine ⟨?_,?_⟩
  · intro all i inside
    have whole := List.length_filter_eq_length_iff.mp ((Nat.le_antisymm most all).trans List.length_range.symm)
    exact whole i (List.mem_range.mpr inside)
  · intro all
    have whole := List.length_filter_eq_length_iff.mpr fun i member => all i (List.mem_range.mp member)
    rw [whole,List.length_range]

section Changes
variable (stored : ∀ j, j ≠ i → view' j = view j)
include stored

/-- Storing an entry in the slot of its key, or in a slot of no key when no slot has its key. -/
theorem Represents.store (represents : Represents size view map) (inside : i < size)
    (own : ∀ {k v}, view i = some (k,v) → k = key) (only : ∀ {j v}, j < size → view j = some (key,v) → j = i)
    (now : view' i = some (key,value)) (count : (map.insert key value).keys.card = taken size view') :
    Represents size view' (map.insert key value) := by
  have slot {j k other} (there : view' j = some (k,other)) : j = i ∧ k = key ∧ other = value ∨ j ≠ i ∧ view j = some (k,other) := by
    by_cases here : j = i
    · subst here
      rw [now,Option.some_inj,Prod.mk.injEq] at there
      exact .inl ⟨rfl,there.1.symm,there.2.symm⟩
    · exact .inr ⟨here,by rw [← stored j here,there]⟩
  refine ⟨?_,?_,count⟩
  · intro j k key' value' other inJ inK atJ atK
    obtain ⟨rfl,rfl,rfl⟩ | ⟨otherJ,atJ⟩ := slot atJ
    · obtain ⟨rfl,_,_⟩ | ⟨otherK,atK⟩ := slot atK
      · rfl
      · exact absurd (only inK atK) otherK
    · obtain ⟨rfl,rfl,rfl⟩ | ⟨otherK,atK⟩ := slot atK
      · exact absurd (only inJ atJ) otherJ
      · exact represents.single inJ inK atJ atK
  · intro key' value'
    by_cases same : key' = key
    · subst same
      rw [Finmap.lookup_insert,Option.some_inj]
      refine ⟨?_,?_⟩
      · rintro rfl
        exact ⟨i,inside,now⟩
      · rintro ⟨j,inJ,atJ⟩
        obtain ⟨_,_,rfl⟩ | ⟨otherJ,atJ⟩ := slot atJ
        · rfl
        · exact absurd (only inJ atJ) otherJ
    · rw [Finmap.lookup_insert_of_ne map same,represents.lookup]
      refine ⟨?_,?_⟩
      · rintro ⟨j,inJ,atJ⟩
        refine ⟨j,inJ,?_⟩
        rw [stored j ?_,atJ]
        rintro rfl
        exact same (own atJ)
      · rintro ⟨j,inJ,atJ⟩
        obtain ⟨_,mine,_⟩ | ⟨_,atJ⟩ := slot atJ
        · exact absurd mine same
        · exact ⟨j,inJ,atJ⟩

theorem Represents.replace {old : ν} (represents : Represents size view map) (inside : i < size)
    (here : view i = some (key,old)) (now : view' i = some (key,value)) :
    Represents size view' (map.insert key value) := by
  refine represents.store stored inside ?_ ?_ now ?_
  · intro k v there
    rw [here,Option.some_inj,Prod.mk.injEq] at there
    exact there.1.symm
  · intro j v inJ atJ
    exact represents.single inJ inside atJ here
  · have keys : (map.insert key value).keys = map.keys := by
      ext k
      rw [Finmap.mem_keys,Finmap.mem_keys,Finmap.mem_insert,or_iff_right_of_imp]
      rintro rfl
      exact represents.mem inside here
    rw [keys,represents.count,taken,taken]
    congr 1
    apply List.filter_congr
    intro j _
    by_cases own : j = i
    · rw [own,now,here]
      rfl
    · rw [stored j own]

theorem Represents.insert (represents : Represents size view map) (inside : i < size) (vacant : view i = none)
    (absent : map.lookup key = none) (now : view' i = some (key,value)) : Represents size view' (map.insert key value) := by
  refine represents.store stored inside ?_ ?_ now ?_
  · intro k v there
    rw [vacant] at there
    cases there
  · intro j v inJ atJ
    exact absurd atJ (represents.absent.mp absent j inJ v)
  · have keys : (map.insert key value).keys = Insert.insert key map.keys := by
      ext k
      rw [Finmap.mem_keys,Finmap.mem_insert,Finset.mem_insert,Finmap.mem_keys]
    have fresh : key ∉ map.keys := by
      rw [Finmap.mem_keys]
      exact Finmap.lookup_eq_none.mp absent
    rw [keys,Finset.card_insert_of_notMem fresh,represents.count]
    refine (count_range_gain inside ?_ ?_ ?_).symm
    · rw [vacant]
      rfl
    · rw [now]
      rfl
    · intro j other
      rw [stored j other]

theorem Represents.erase (represents : Represents size view map) (inside : i < size) (here : view i = some (key,value))
    (now : view' i = none) : Represents size view' (map.erase key) := by
  have slot {j k other} (there : view' j = some (k,other)) : j ≠ i ∧ view j = some (k,other) := by
    have own : j ≠ i := by
      rintro rfl
      rw [now] at there
      cases there
    exact ⟨own,by rw [← stored j own,there]⟩
  refine ⟨?_,?_,?_⟩
  · intro j k key' value' other inJ inK atJ atK
    exact represents.single inJ inK (slot atJ).2 (slot atK).2
  · intro key' value'
    by_cases own : key' = key
    · subst own
      rw [Finmap.lookup_erase]
      refine ⟨by simp,?_⟩
      rintro ⟨j,inJ,atJ⟩
      exact absurd (represents.single inJ inside (slot atJ).2 here) (slot atJ).1
    · rw [Finmap.lookup_erase_ne own,represents.lookup]
      refine exists_congr fun j => and_congr_right fun inJ => ?_
      refine ⟨?_,fun atJ => (slot atJ).2⟩
      intro atJ
      rw [stored j ?_,atJ]
      rintro rfl
      rw [here,Option.some_inj,Prod.mk.injEq] at atJ
      exact own atJ.1.symm
  · have known : key ∈ map.keys := by
      rw [Finmap.mem_keys]
      exact represents.mem inside here
    have less : taken size view = taken size view' + 1 := by
      refine count_range_gain inside ?_ ?_ ?_
      · rw [now]
        rfl
      · rw [here]
        rfl
      · intro j other
        rw [stored j other]
    rw [Finmap.keys_erase,Finset.card_erase_of_mem known,represents.count,less,Nat.add_sub_cancel]

end Changes

end LionOS.Library
