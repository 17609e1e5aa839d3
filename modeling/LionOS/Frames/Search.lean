import LionOS.Frames.Boot

/-! The search of `page_alloc_contiguous`: it finds the lowest run of free frames, and it
fails only where there is none. -/
namespace LionOS.Frames
open LionOS.Memory

/-- `count` consecutive free frames from `first` on. -/
structure FreeRun (a : Allocator) (count first : Nat) : Prop where
  some : 0 < count
  low : reservedPages ≤ first
  high : first + count ≤ maxPages
  free : ∀ p, first ≤ p → p < first + count → isFree a p = true

/-- What the scan passes over holds no run: it gives up only where there is none, and stops
at the first. `run` frames before `p` are free. -/
theorem findRun_passes {a : Allocator} {count fuel p run first : Nat} (start : Nat) (short : run < count) (joined : run ≤ p)
    (aligned : run ≠ 0 → start + run = p)
    (before : ∀ last, findRun a count fuel p run start = some last → first < last)
    (low : p - run ≤ first) (high : first + count ≤ p + fuel) :
    ¬ ∀ q, first ≤ q → q < first + count → isFree a q = true := by
  intro free
  induction fuel generalizing p run start with
  | zero => omega
  | succ fuel ih =>
    unfold findRun at before
    by_cases here : isFree a p = true
    · rw [if_pos here] at before
      dsimp only at before
      obtain ⟨from',origin,place⟩ : ∃ from', (if run = 0 then p else start) = from' ∧ from' + run = p := by
        by_cases fresh : run = 0
        · exact ⟨p,if_pos fresh,by omega⟩
        · exact ⟨start,if_neg fresh,aligned fresh⟩
      rw [origin] at before
      by_cases full : run + 1 = count
      · rw [if_pos full] at before
        have lower := before from' rfl
        omega
      · rw [if_neg full] at before
        exact ih _ (by omega) (by omega) (by omega) before (by omega) (by omega)
    · rw [if_neg here] at before
      have beyond : p < first := by
        by_contra within
        exact here (free p (by omega) (by omega))
      exact ih _ (by omega) (by omega) (by omega) before (by omega) (by omega)

theorem findRun_none {a : Allocator} {count first : Nat} (run : FreeRun a count first) :
    findRun a count (maxPages - reservedPages) reservedPages 0 reservedPages ≠ none := by
  intro none
  have range : reservedPages ≤ maxPages := by decide
  have high := run.high
  have within : first + count ≤ reservedPages + (maxPages - reservedPages) := by omega
  refine findRun_passes reservedPages run.some (Nat.zero_le reservedPages) (fun other => absurd rfl other) ?_ run.low within run.free
  intro last found
  rw [none] at found
  cases found

theorem findRun_least {a : Allocator} {count first last : Nat} (run : FreeRun a count first)
    (found : findRun a count (maxPages - reservedPages) reservedPages 0 reservedPages = some last) : last ≤ first := by
  by_contra lower
  have range : reservedPages ≤ maxPages := by decide
  have high := run.high
  have within : first + count ≤ reservedPages + (maxPages - reservedPages) := by omega
  refine findRun_passes reservedPages run.some (Nat.zero_le reservedPages) (fun other => absurd rfl other) ?_ run.low within run.free
  intro other same
  rw [found] at same
  cases same
  omega

/-- An allocation takes the lowest run, and it fails where there is no run. -/
structure Allocates (a : Allocator) (count : Nat) : Prop where
  found : ∀ a' address, pageAllocContiguous a count = some (a',address) →
    ∃ first, address = first * pageSize ∧ FreeRun a count first ∧ ∀ other, FreeRun a count other → first ≤ other
  fails : pageAllocContiguous a count = none ↔ ∀ first, ¬ FreeRun a count first

theorem pageAllocContiguous_found {a a' : Allocator} {count address : Nat}
    (allocated : pageAllocContiguous a count = some (a',address)) :
    ∃ first, findRun a count (maxPages - reservedPages) reservedPages 0 reservedPages = some first ∧ 0 < count ∧
      address = first * pageSize ∧ a'.freePages = (a.freePages + 2^32 - count) % 2^32 := by
  have counter (a : Allocator) (first count : Nat) :
      ((List.range count).foldl (fun a i => takeFrame a (first + i)) a).freePages = a.freePages := by
    induction count with
    | zero => rfl
    | succ n ih =>
      rw [List.range_succ,List.foldl_append]
      exact (freePages_markUsed _ (first + n)).trans ih
  unfold pageAllocContiguous at allocated
  split at allocated
  · cases allocated
  next valid =>
    split at allocated
    · cases allocated
    next first found =>
      cases allocated
      refine ⟨first,found,by omega,rfl,?_⟩
      dsimp only
      rw [counter]

theorem pageAllocContiguous_allocates (a : Allocator) (count : Nat) : Allocates a count := by
  constructor
  · intro a' address allocated
    obtain ⟨first,found,positive,place,_⟩ := pageAllocContiguous_found allocated
    obtain ⟨start,place',takes⟩ := pageAllocContiguous_takes allocated
    have same : start = first := by
      rw [place] at place'
      exact (Nat.eq_of_mul_eq_mul_right (by decide) place').symm
    subst same
    exact ⟨start,place,⟨positive,takes.low,takes.high,takes.free⟩,fun other run => findRun_least run found⟩
  · constructor
    · intro failed first run
      have low := run.low
      have high := run.high
      have positive := run.some
      have valid : ¬ (count = 0 ∨ count > maxPages - reservedPages) := by omega
      cases found : findRun a count (maxPages - reservedPages) reservedPages 0 reservedPages with
      | none => exact findRun_none run found
      | some last => simp [pageAllocContiguous,valid,found] at failed
    · intro absent
      cases allocated : pageAllocContiguous a count with
      | none => rfl
      | some result =>
        obtain ⟨a',address⟩ := result
        obtain ⟨first,_,positive,_⟩ := pageAllocContiguous_found allocated
        obtain ⟨start,_,takes⟩ := pageAllocContiguous_takes allocated
        exact absurd ⟨positive,takes.low,takes.high,takes.free⟩ (absent start)

/-- A run at the first frame that can be handed out is taken at once. -/
theorem freeRun_taken {a : Allocator} {count : Nat} (run : FreeRun a count reservedPages) :
    ∃ a', pageAllocContiguous a count = some (a',reservedPages * pageSize) ∧ Takes a a' reservedPages count := by
  obtain ⟨found,fails⟩ := pageAllocContiguous_allocates a count
  cases allocated : pageAllocContiguous a count with
  | none => exact absurd run (fails.mp allocated reservedPages)
  | some result =>
    obtain ⟨a',address⟩ := result
    obtain ⟨first,place,fits,least⟩ := found a' address allocated
    obtain ⟨start,place',takes⟩ := pageAllocContiguous_takes allocated
    have same : start = first := by
      rw [place] at place'
      exact (Nat.eq_of_mul_eq_mul_right (by decide) place').symm
    have lowest : first = reservedPages := Nat.le_antisymm (least reservedPages run) fits.low
    rw [same,lowest] at takes
    rw [place,lowest]
    exact ⟨a',rfl,takes⟩

end LionOS.Frames
