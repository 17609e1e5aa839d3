import LionOS.Memory

/-! Which frames are free and how often each is referenced after the operations of
the page allocator. -/
namespace LionOS.Memory

theorem bit_twoPow (p : Nat) : bit p = BitVec.twoPow 32 (p % 32) := by
  rw [bit,BitVec.twoPow_eq]

theorem isFree_bit (a : Allocator) (p : Nat) :
    isFree a p = (decide (p < maxPages) && !(a.bitmap (p / 32)).getLsbD (p % 32)) := by
  have bound : p % 32 < 32 := Nat.mod_lt p (by decide)
  have nonzero : BitVec.twoPow 32 (p % 32) ≠ 0#32 := by
    intro zero
    have bits := congrArg (fun word : BitVec 32 => word.getLsbD (p % 32)) zero
    simp [bound] at bits
  rw [isFree,bit_twoPow,BitVec.and_twoPow]
  cases (a.bitmap (p / 32)).getLsbD (p % 32) with
  | false => simp
  | true => simp [nonzero]

theorem same_bit {p q : Nat} (word : p / 32 = q / 32) (index : p % 32 = q % 32) : p = q := by
  rw [← Nat.div_add_mod p 32,word,index,Nat.div_add_mod]

@[simp] theorem isFree_markUsed (a : Allocator) (p q : Nat) :
    isFree (markUsed a p) q = (isFree a q && decide (q ≠ p)) := by
  have bound : q % 32 < 32 := Nat.mod_lt q (by decide)
  by_cases inside : p < maxPages
  · rw [isFree_bit,isFree_bit,markUsed,if_pos inside]
    by_cases word : q / 32 = p / 32
    · by_cases index : q % 32 = p % 32
      · have same := same_bit word index
        subst same
        simp [bit_twoPow,bound]
      · have other : q ≠ p := fun same => index (congrArg (· % 32) same)
        simp [word,other,bit_twoPow,Ne.symm index]
    · have other : q ≠ p := fun same => word (congrArg (· / 32) same)
      simp [Function.update_of_ne word,other]
  · rw [markUsed,if_neg inside]
    by_cases same : q = p
    · subst same
      simp [isFree_bit,inside]
    · simp [same]

@[simp] theorem isFree_markFree (a : Allocator) (p q : Nat) :
    isFree (markFree a p) q = (isFree a q || decide (q = p ∧ p < maxPages)) := by
  have bound : q % 32 < 32 := Nat.mod_lt q (by decide)
  by_cases inside : p < maxPages
  · rw [isFree_bit,isFree_bit,markFree,if_pos inside]
    by_cases word : q / 32 = p / 32
    · by_cases index : q % 32 = p % 32
      · have same := same_bit word index
        subst same
        simp [bit_twoPow,bound,inside]
      · have other : q ≠ p := fun same => index (congrArg (· % 32) same)
        simp [word,other,bit_twoPow,bound,index]
    · have other : q ≠ p := fun same => word (congrArg (· / 32) same)
      simp [Function.update_of_ne word,other]
  · simp [markFree,inside]

@[simp] theorem pageRefs_markUsed (a : Allocator) (p : Nat) : (markUsed a p).pageRefs = a.pageRefs := by
  unfold markUsed
  split <;> rfl

@[simp] theorem pageRefs_markFree (a : Allocator) (p : Nat) : (markFree a p).pageRefs = a.pageRefs := by
  unfold markFree
  split <;> rfl

@[simp] theorem isFree_pageRefs (a : Allocator) (refs : Nat → Nat) (q : Nat) :
    isFree {a with pageRefs := refs} q = isFree a q := rfl

@[simp] theorem isFree_freePages (a : Allocator) (n q : Nat) : isFree {a with freePages := n} q = isFree a q := rfl

/-- A block of `count` frames from `first` on has been handed out. -/
structure Takes (a a' : Allocator) (first count : Nat) : Prop where
  low : reservedPages ≤ first
  high : first + count ≤ maxPages
  free : ∀ q, first ≤ q → q < first + count → isFree a q = true
  rest : ∀ q, isFree a' q = (isFree a q && !decide (first ≤ q ∧ q < first + count))
  refs : ∀ q, a'.pageRefs q = if first ≤ q ∧ q < first + count then 1 else a.pageRefs q

theorem isFree_takeFrame (a : Allocator) (p q : Nat) :
    isFree (takeFrame a p) q = (isFree a q && decide (q ≠ p)) :=
  isFree_markUsed a p q

theorem pageRefs_takeFrame (a : Allocator) (p q : Nat) :
    (takeFrame a p).pageRefs q = if q = p then 1 else a.pageRefs q := by
  simp [takeFrame,Function.update_apply]

theorem takeFrames_free (a : Allocator) (first count q : Nat) :
    isFree ((List.range count).foldl (fun a i => takeFrame a (first + i)) a) q =
      (isFree a q && !decide (first ≤ q ∧ q < first + count)) := by
  induction count with
  | zero => simp; omega
  | succ n ih =>
    rw [List.range_succ,List.foldl_append]
    simp only [List.foldl_cons,List.foldl_nil,isFree_takeFrame,ih]
    cases isFree a q with
    | false => rfl
    | true =>
      simp only [Bool.true_and]
      by_cases last : q = first + n
      · simp [last]
      · have same : (first ≤ q ∧ q < first + n) ↔ (first ≤ q ∧ q < first + (n+1)) := by omega
        simp [last,same]

theorem takeFrames_refs (a : Allocator) (first count q : Nat) :
    ((List.range count).foldl (fun a i => takeFrame a (first + i)) a).pageRefs q =
      if first ≤ q ∧ q < first + count then 1 else a.pageRefs q := by
  induction count with
  | zero => rw [if_neg (by omega)]; rfl
  | succ n ih =>
    rw [List.range_succ,List.foldl_append]
    simp only [List.foldl_cons,List.foldl_nil,pageRefs_takeFrame,ih]
    by_cases last : q = first + n
    · simp [last]
    · rw [if_neg last]
      have same : (first ≤ q ∧ q < first + n) ↔ (first ≤ q ∧ q < first + (n+1)) := by omega
      simp only [same]

/-- The scan: where it succeeds, its run of free frames ends with the last frame it
has looked at. -/
theorem findRun_free {a : Allocator} {count fuel p run start first : Nat}
    (found : findRun a count fuel p run start = some first) (short : run < count)
    (low : reservedPages ≤ p) (joined : run ≠ 0 → start + run = p ∧ reservedPages ≤ start)
    (free : ∀ q, start ≤ q → q < start + run → isFree a q = true) :
    reservedPages ≤ first ∧ first + count ≤ p + fuel ∧
      ∀ q, first ≤ q → q < first + count → isFree a q = true := by
  induction fuel generalizing p run start with
  | zero => cases found
  | succ fuel ih =>
    unfold findRun at found
    by_cases here : isFree a p = true
    · rw [if_pos here] at found
      dsimp only at found
      obtain ⟨from',origin,below⟩ : ∃ from', (if run = 0 then p else start) = from' ∧ from' + run = p ∧
          reservedPages ≤ from' ∧ ∀ q, from' ≤ q → q < from' + run → isFree a q = true := by
        by_cases fresh : run = 0
        · exact ⟨p,if_pos fresh,by omega,low,by omega⟩
        · exact ⟨start,if_neg fresh,(joined fresh).1,(joined fresh).2,free⟩
      rw [origin] at found
      have extended (q : Nat) (above : from' ≤ q) (under : q < from' + (run+1)) : isFree a q = true := by
        by_cases last : q = p
        · rw [last,here]
        · exact below.2.2 q above (by omega)
      by_cases full : run + 1 = count
      · rw [if_pos full] at found
        cases found
        refine ⟨below.2.1,by omega,?_⟩
        intro q above under
        exact extended q above (by omega)
      · rw [if_neg full] at found
        obtain ⟨floor,ceiling,all⟩ :=
          ih found (by omega) (by omega) (fun _ => ⟨by omega,below.2.1⟩) extended
        exact ⟨floor,by omega,all⟩
    · rw [if_neg here] at found
      obtain ⟨floor,ceiling,all⟩ :=
        ih found (by omega) (by omega) (fun nonzero => absurd rfl nonzero) (by omega)
      exact ⟨floor,by omega,all⟩

theorem pageAllocContiguous_takes {a a' : Allocator} {count address : Nat}
    (allocated : pageAllocContiguous a count = some (a',address)) :
    ∃ first, address = first * pageSize ∧ Takes a a' first count := by
  unfold pageAllocContiguous at allocated
  by_cases refused : count = 0 ∨ count > maxPages - reservedPages
  · rw [if_pos refused] at allocated
    cases allocated
  · rw [if_neg refused] at allocated
    cases found : findRun a count (maxPages - reservedPages) reservedPages 0 reservedPages with
    | none => simp [found] at allocated
    | some first =>
      simp only [found,Option.some.injEq,Prod.mk.injEq] at allocated
      obtain ⟨rfl,rfl⟩ := allocated
      obtain ⟨low,high,free⟩ := findRun_free found (by omega) (Nat.le_refl _)
        (fun nonzero => absurd rfl nonzero) (by omega)
      refine ⟨first,rfl,low,high,free,?_,?_⟩
      · intro q
        rw [isFree_freePages,takeFrames_free]
      · intro q
        exact takeFrames_refs a first count q

theorem pageAlloc_takes {a a' : Allocator} {address : Nat} (allocated : pageAlloc a = some (a',address)) :
    ∃ first, address = first * pageSize ∧ Takes a a' first 1 :=
  pageAllocContiguous_takes allocated

theorem Takes.positive {a a' : Allocator} {first count : Nat} (takes : Takes a a' first count) :
    first * pageSize ≠ 0 := by
  have low := takes.low
  simp only [reservedPages,pageSize] at *
  omega

/-- No allocation makes a frame free. -/
theorem Takes.taken {a a' : Allocator} {first count q : Nat} (takes : Takes a a' first count)
    (used : isFree a q = false) : isFree a' q = false := by
  rw [takes.rest,used,Bool.false_and]

theorem Takes.single {a a' : Allocator} {first : Nat} (takes : Takes a a' first 1) (q : Nat) :
    isFree a' q = (isFree a q && decide (q ≠ first)) := by
  rw [takes.rest]
  by_cases same : q = first
  · simp [same]
  · have outside : ¬(first ≤ q ∧ q < first + 1) := by omega
    rw [decide_eq_false outside,decide_eq_true same,Bool.not_false]

theorem pageRefcount_positive {a : Allocator} {address : Nat} (counted : 0 < pageRefcount a address) :
    managed address = true ∧ isFree a (address / pageSize) = false ∧
      pageRefcount a address = a.pageRefs (address / pageSize) := by
  unfold pageRefcount at counted ⊢
  dsimp only at counted ⊢
  split_ifs at counted ⊢ with held
  · simp only [Bool.and_eq_true,Bool.not_eq_true'] at held
    exact ⟨held.1,held.2,rfl⟩
  · simp at counted

/-- A frame that is referenced more than once stays allocated. -/
theorem isFree_pageFree {a : Allocator} {address : Nat} (shared : 1 < a.pageRefs (address / pageSize)) (q : Nat) :
    isFree (pageFree a address) q = isFree a q := by
  unfold pageFree
  dsimp only
  split_ifs with held last
  · rw [Function.update_self] at last
    omega
  · rfl
  · rfl

end LionOS.Memory
