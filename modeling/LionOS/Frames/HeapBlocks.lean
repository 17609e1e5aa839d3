import LionOS.Frames.Allocation
import LionOS.Heap
import LionOS.Library.Pool

/-! The blocks of the kernel heap in any sequence of calls. -/
namespace LionOS.Frames
open LionOS.Library LionOS.Memory LionOS.Physical

/-- What a call of `kmalloc` returned, and the size that it was asked for. -/
structure HeapBlock where
  base : Nat
  size : Nat
  deriving DecidableEq

def HeapBlock.pages (b : HeapBlock) : Nat := (b.size + pageSize - 1) / pageSize

/-- The frame belongs to the block. -/
def HeapBlock.Has (b : HeapBlock) (f : Nat) : Prop := b.base / pageSize ≤ f ∧ f < b.base / pageSize + b.pages

def HeapBlock.Apart (b c : HeapBlock) : Prop := ∀ f, ¬(b.Has f ∧ c.Has f)

instance HeapBlock.apart_symm : Std.Symm HeapBlock.Apart := ⟨fun _ _ apart f both => apart f both.symm⟩

inductive HeapCall
  | malloc (size : Nat)
  | free (ptr : Nat)

/-- The heap and the blocks that callers hold. -/
structure Arena where
  heap : Heap
  live : List HeapBlock

def arenaStep (s : Arena) : HeapCall → Arena
  | .malloc size => match kmalloc s.heap size with
    | none => s
    | some (heap,base) => ⟨heap,s.live ++ [⟨base,size⟩]⟩
  | .free ptr => ⟨kfree s.heap ptr,s.live.filter fun b => b.base ≠ ptr⟩

def unusedArena (h : Heap) : Arena := ⟨heapInit h,[]⟩

def pagesHeld (live : List HeapBlock) : Nat := (live.map HeapBlock.pages).sum

/-- The loop of `kfree`. -/
def freeFramesFrom (a : Allocator) (base count : Nat) : Allocator :=
  (List.range count).foldl (fun a page => pageFree a (base + page * pageSize)) a

/-- A block of frames with a single reference each goes back to the allocator. -/
structure Returned (a a' : Allocator) (first count : Nat) : Prop where
  free : ∀ f, isFree a' f = true ↔ isFree a f = true ∨ first ≤ f ∧ f < first + count
  refs : ∀ f, a'.pageRefs f = if first ≤ f ∧ f < first + count then 0 else a.pageRefs f
  counter : a'.freePages % 2^32 = (a.freePages + count) % 2^32
  word : a.freePages < 2^32 → a'.freePages < 2^32

theorem freeFramesFrom_returned {a : Allocator} {first count : Nat} (low : reservedPages ≤ first) (high : first + count ≤ maxPages)
    (held : ∀ f, first ≤ f → f < first + count → isFree a f = false ∧ a.pageRefs f = 1) :
    Returned a (freeFramesFrom a (first * pageSize) count) first count := by
  unfold freeFramesFrom
  induction count with
  | zero =>
    refine ⟨fun f => ⟨Or.inl,fun free => free.elim id fun inside => by omega⟩,fun f => ?_,rfl,id⟩
    rw [if_neg (by omega)]
    rfl
  | succ count ih =>
    have earlier := ih (by omega) fun f above below => held f above (by omega)
    rw [List.range_succ,List.foldl_append,List.foldl_cons,List.foldl_nil]
    generalize (List.range count).foldl (fun a page => pageFree a (first * pageSize + page * pageSize)) a = a' at earlier
    have place : (first * pageSize + count * pageSize) / pageSize = first + count := by
      rw [← Nat.add_mul]
      exact Nat.mul_div_cancel _ (by decide)
    obtain ⟨used,single⟩ := held (first + count) (by omega) (by omega)
    have inside : managed (first * pageSize + count * pageSize) = true := by
      have bound : first + count < maxPages := by omega
      have aligned : (first * pageSize + count * pageSize) % pageSize = 0 := by rw [← Nat.add_mul,Nat.mul_mod_left]
      simp only [managed,place,aligned,Bool.and_eq_true,decide_eq_true_eq]
      exact ⟨⟨trivial,Nat.le_trans low (Nat.le_add_right first count)⟩,bound⟩
    have used' : isFree a' (first + count) = false := by
      rw [Bool.eq_false_iff]
      intro free
      rcases (earlier.free _).mp free with before | between
      · rw [used] at before
        cases before
      · omega
    have single' : a'.pageRefs (first + count) = 1 := by rw [earlier.refs,if_neg (by omega),single]
    have given := @pageFree_held a' (first * pageSize + count * pageSize) inside
    rw [place] at given
    obtain ⟨refs,free,counter⟩ := given used' (by rw [single']; simp)
    refine ⟨fun f => ?_,fun f => ?_,?_,fun _ => ?_⟩
    · rw [free,earlier.free]
      constructor
      · rintro ((before | between) | ⟨last,_⟩)
        · exact .inl before
        · exact .inr (by omega)
        · exact .inr (by omega)
      · rintro (before | between)
        · exact .inl (.inl before)
        · by_cases last : f = first + count
          · exact .inr ⟨last,by rw [last,single']⟩
          · exact .inl (.inr (by omega))
    · rw [refs]
      by_cases last : f = first + count
      · rw [if_pos last,if_pos (by omega),last,single']
      · rw [if_neg last,earlier.refs]
        by_cases between : first ≤ f ∧ f < first + count
        · rw [if_pos between,if_pos (by omega)]
        · rw [if_neg between,if_neg (by omega)]
    · have before := earlier.counter
      rw [counter,if_pos single']
      omega
    · rw [counter,if_pos single']
      exact Nat.mod_lt _ (by decide)

/-- The table of the heap records the blocks that callers hold, and their frames are those that
the heap took from the free frames of the start. -/
structure Sound (start : Allocator) (s : Arena) : Prop where
  recorded : ∀ i < maxHeapAllocs, (s.heap.allocations i).used = true →
    ∃ b ∈ s.live, s.heap.allocations i = ⟨b.base,b.pages,true⟩
  held : ∀ b ∈ s.live, ∃ i < maxHeapAllocs, s.heap.allocations i = ⟨b.base,b.pages,true⟩
  single : ∀ i j, i < maxHeapAllocs → j < maxHeapAllocs → (s.heap.allocations i).used = true →
    (s.heap.allocations j).used = true → (s.heap.allocations i).base = (s.heap.allocations j).base → i = j
  aligned : ∀ b ∈ s.live, b.base = b.base / pageSize * pageSize
  positive : ∀ b ∈ s.live, 0 < b.size
  low : ∀ b ∈ s.live, reservedPages ≤ b.base / pageSize
  high : ∀ b ∈ s.live, b.base / pageSize + b.pages ≤ maxPages
  apart : s.live.Pairwise HeapBlock.Apart
  free : ∀ f, isFree s.heap.pages f = true ↔ isFree start f = true ∧ ∀ b ∈ s.live, ¬b.Has f
  origin : ∀ b ∈ s.live, ∀ f, b.Has f → isFree start f = true
  refs : ∀ b ∈ s.live, ∀ f, b.Has f → s.heap.pages.pageRefs f = 1
  counter : (s.heap.pages.freePages + pagesHeld s.live) % 2^32 = start.freePages % 2^32
  word : start.freePages < 2^32 → s.heap.pages.freePages < 2^32

theorem unusedArena_sound (h : Heap) : Sound h.pages (unusedArena h) := by
  have none (b : HeapBlock) : b ∉ (unusedArena h).live := List.not_mem_nil
  refine ⟨fun i _ used => Bool.noConfusion used,fun b member => absurd member (none b),fun i j _ _ used => Bool.noConfusion used,
    fun b member => absurd member (none b),fun b member => absurd member (none b),fun b member => absurd member (none b),
    fun b member => absurd member (none b),List.Pairwise.nil,fun f => ?_,fun b member => absurd member (none b),
    fun b member => absurd member (none b),rfl,id⟩
  exact ⟨fun free => ⟨free,fun b member => absurd member (none b)⟩,And.left⟩

theorem HeapBlock.pages_pos {b : HeapBlock} (positive : 0 < b.size) : 0 < b.pages := by
  unfold pages
  exact Nat.div_pos (by omega) (by decide)

theorem HeapBlock.first {b : HeapBlock} (positive : 0 < b.size) : b.Has (b.base / pageSize) :=
  ⟨Nat.le_refl _,Nat.lt_add_of_pos_right (pages_pos positive)⟩

section Steps
variable {start : Allocator} {s : Arena}

theorem kmalloc_cases {h h' : Heap} {size base : Nat} (given : kmalloc h size = some (h',base)) :
    ∃ slot pages, 0 < size ∧ slot < maxHeapAllocs ∧ (h.allocations slot).used = false ∧
      pageAllocContiguous h.pages (HeapBlock.pages ⟨base,size⟩) = some (pages,base) ∧
        h' = ⟨Function.update h.allocations slot ⟨base,HeapBlock.pages ⟨base,size⟩,true⟩,pages⟩ := by
  unfold kmalloc at given
  split at given
  · cases given
  next valid =>
    dsimp only at given
    split at given
    · cases given
    next slot vacant =>
      split at given
      · cases given
      next pages base' allocated =>
        cases given
        obtain ⟨bound,unused,_⟩ := find_range.mp vacant
        rw [Bool.not_eq_true'] at unused
        exact ⟨slot,pages,by omega,bound,unused,allocated,rfl⟩

theorem has_taken {base size first : Nat} (place : base = first * pageSize) (f : Nat) :
    HeapBlock.Has ⟨base,size⟩ f ↔ first ≤ f ∧ f < first + HeapBlock.pages ⟨base,size⟩ := by
  unfold HeapBlock.Has
  rw [place,address_frame]

theorem pagesHeld_snoc (live : List HeapBlock) (b : HeapBlock) : pagesHeld (live ++ [b]) = pagesHeld live + b.pages := by
  unfold pagesHeld
  rw [List.map_append,List.sum_append,List.map_singleton,List.sum_singleton]

/-- Frames that are free belong to no block. -/
theorem Sound.vacant (sound : Sound start s) {f : Nat} (free : isFree s.heap.pages f = true) : ∀ b ∈ s.live, ¬b.Has f :=
  ((sound.free f).mp free).2

theorem Sound.malloc (sound : Sound start s) (size : Nat) : Sound start (arenaStep s (.malloc size)) := by
  unfold arenaStep
  dsimp only
  rcases given : kmalloc s.heap size with _ | ⟨h',base⟩
  · exact sound
  obtain ⟨slot,pages,positive,bound,unused,allocated,rfl⟩ := kmalloc_cases given
  obtain ⟨first,place,takes⟩ := pageAllocContiguous_takes allocated
  obtain ⟨_,_,_,_,counter⟩ := pageAllocContiguous_found allocated
  have has := @has_taken base size first place
  have frame : base / pageSize = first := by rw [place,address_frame]
  have clear : ∀ b ∈ s.live, ∀ f, b.Has f → ¬HeapBlock.Has ⟨base,size⟩ f := by
    intro b member f own inside
    obtain ⟨above,below⟩ := (has f).mp inside
    exact sound.vacant (takes.free f above below) b member own
  have other : ∀ b ∈ s.live, b.base ≠ base := by
    intro b member same
    have own := HeapBlock.first (sound.positive b member)
    exact clear b member _ own (same ▸ @HeapBlock.first ⟨base,size⟩ positive)
  have old {i : Nat} (inside : i < maxHeapAllocs) (used : (s.heap.allocations i).used = true) :
      (s.heap.allocations i).base ≠ base := by
    obtain ⟨b,member,record⟩ := sound.recorded i inside used
    rw [record]
    exact other b member
  change Sound start ⟨⟨Function.update s.heap.allocations slot ⟨base,HeapBlock.pages ⟨base,size⟩,true⟩,pages⟩,s.live ++ [⟨base,size⟩]⟩
  constructor
  · intro i inside used
    dsimp only at used ⊢
    by_cases own : i = slot
    · rw [own,Function.update_self]
      exact ⟨_,List.mem_append_right _ List.mem_cons_self,rfl⟩
    · rw [Function.update_of_ne own] at used ⊢
      obtain ⟨b,member,record⟩ := sound.recorded i inside used
      exact ⟨b,List.mem_append_left _ member,record⟩
  · intro b member
    rcases List.mem_append.mp member with earlier | new
    · obtain ⟨i,inside,record⟩ := sound.held b earlier
      have apart : i ≠ slot := by
        rintro rfl
        rw [record] at unused
        cases unused
      exact ⟨i,inside,(Function.update_of_ne apart _ _).trans record⟩
    · rw [List.mem_singleton.mp new]
      exact ⟨slot,bound,Function.update_self slot _ _⟩
  · intro i j insideI insideJ usedI usedJ same
    dsimp only at usedI usedJ same
    by_cases ownI : i = slot
    · by_cases ownJ : j = slot
      · rw [ownI,ownJ]
      · rw [ownI,Function.update_self,Function.update_of_ne ownJ] at same
        rw [Function.update_of_ne ownJ] at usedJ
        exact absurd same.symm (old insideJ usedJ)
    · rw [Function.update_of_ne ownI] at usedI same
      by_cases ownJ : j = slot
      · rw [ownJ,Function.update_self] at same
        exact absurd same (old insideI usedI)
      · rw [Function.update_of_ne ownJ] at usedJ same
        exact sound.single i j insideI insideJ usedI usedJ same
  · refine List.forall_mem_append.mpr ⟨sound.aligned,List.forall_mem_singleton.mpr ?_⟩
    dsimp only
    rw [frame]
    exact place
  · exact List.forall_mem_append.mpr ⟨sound.positive,List.forall_mem_singleton.mpr positive⟩
  · refine List.forall_mem_append.mpr ⟨sound.low,List.forall_mem_singleton.mpr ?_⟩
    dsimp only
    rw [frame]
    exact takes.low
  · refine List.forall_mem_append.mpr ⟨sound.high,List.forall_mem_singleton.mpr ?_⟩
    dsimp only
    rw [frame]
    exact takes.high
  · refine List.pairwise_append.mpr ⟨sound.apart,List.pairwise_singleton _ _,fun b member c new f => ?_⟩
    rw [List.mem_singleton.mp new]
    exact fun both => clear b member f both.1 both.2
  · intro f
    dsimp only
    rw [takes.rest,Bool.and_eq_true,Bool.not_eq_true',decide_eq_false_iff_not,sound.free,List.forall_mem_append,
      List.forall_mem_singleton,has,and_assoc]
  · refine List.forall_mem_append.mpr ⟨sound.origin,List.forall_mem_singleton.mpr fun f own => ?_⟩
    obtain ⟨above,below⟩ := (has f).mp own
    exact ((sound.free f).mp (takes.free f above below)).1
  · refine List.forall_mem_append.mpr ⟨fun b member f own => ?_,List.forall_mem_singleton.mpr fun f own => ?_⟩
    · rw [takes.refs,if_neg fun inside => clear b member f own ((has f).mpr inside)]
      exact sound.refs b member f own
    · rw [takes.refs,if_pos ((has f).mp own)]
  · have before := sound.counter
    have few := takes.high
    have whole : maxPages = 65536 := rfl
    dsimp only
    rw [counter,pagesHeld_snoc]
    omega
  · intro _
    dsimp only
    rw [counter]
    exact Nat.mod_lt _ (by decide)

theorem kfree_absent (sound : Sound start s) {ptr : Nat} (absent : ∀ b ∈ s.live, b.base ≠ ptr) : kfree s.heap ptr = s.heap := by
  unfold kfree
  split
  · rfl
  split
  · rfl
  next i found =>
    obtain ⟨inside,record,_⟩ := find_range.mp found
    rw [Bool.and_eq_true,decide_eq_true_eq] at record
    obtain ⟨b,member,same⟩ := sound.recorded i inside record.1
    refine absurd ?_ (absent b member)
    rw [← record.2,same]

theorem kfree_live (sound : Sound start s) {b : HeapBlock} (member : b ∈ s.live) :
    ∃ i < maxHeapAllocs, s.heap.allocations i = ⟨b.base,b.pages,true⟩ ∧ kfree s.heap b.base =
      ⟨Function.update s.heap.allocations i ⟨0,0,false⟩,freeFramesFrom s.heap.pages b.base b.pages⟩ := by
  obtain ⟨i,inside,record⟩ := sound.held b member
  refine ⟨i,inside,record,?_⟩
  have nonzero : b.base ≠ 0 := by
    intro zero
    have low := sound.low b member
    rw [zero,Nat.zero_div] at low
    exact absurd low (by decide)
  unfold kfree
  rw [if_neg nonzero]
  split
  next none =>
    have refused := find_range_none.mp none i inside
    rw [record] at refused
    simp at refused
  next j found =>
    obtain ⟨bound,same,_⟩ := find_range.mp found
    rw [Bool.and_eq_true,decide_eq_true_eq] at same
    have own : j = i := sound.single j i bound inside same.1 (by rw [record]) (by rw [same.2,record])
    rw [own,record]
    rfl

/-- The frames of a live block are its own. -/
theorem Sound.owns (sound : Sound start s) {b c : HeapBlock} (member : b ∈ s.live) (member' : c ∈ s.live) {f : Nat}
    (has : b.Has f) (has' : c.Has f) : b = c := by
  by_contra differ
  exact sound.apart.forall member member' differ f ⟨has,has'⟩

theorem Sound.same (sound : Sound start s) {b c : HeapBlock} (member : b ∈ s.live) (member' : c ∈ s.live)
    (base : c.base = b.base) : c = b :=
  sound.owns member' member (HeapBlock.first (sound.positive c member')) (base ▸ HeapBlock.first (sound.positive b member))

theorem Sound.returned (sound : Sound start s) {b : HeapBlock} (member : b ∈ s.live) :
    Returned s.heap.pages (kfree s.heap b.base).pages (b.base / pageSize) b.pages := by
  obtain ⟨i,_,_,freed⟩ := kfree_live sound member
  rw [freed]
  have given := @freeFramesFrom_returned s.heap.pages (b.base / pageSize) b.pages (sound.low b member) (sound.high b member)
    fun f above below => ⟨?_,sound.refs b member f ⟨above,below⟩⟩
  · rw [← sound.aligned b member] at given
    exact given
  · rw [Bool.eq_false_iff]
    exact fun free => sound.vacant free b member ⟨above,below⟩

theorem Sound.nodup (sound : Sound start s) : s.live.Nodup := by
  refine sound.apart.imp_of_mem fun {b c} member _ apart same => ?_
  have own := HeapBlock.first (sound.positive b member)
  exact apart _ ⟨own,same ▸ own⟩

/-- Giving a block back takes it alone out of the blocks that callers hold. -/
theorem Sound.filtered (sound : Sound start s) {b : HeapBlock} (member : b ∈ s.live) :
    s.live.filter (fun c => c.base ≠ b.base) = s.live.erase b := by
  rw [sound.nodup.erase_eq_filter]
  refine List.filter_congr fun c inside => ?_
  by_cases same : c = b
  · rw [same]
    simp
  · have other : c.base ≠ b.base := fun base => same (sound.same member inside base)
    simp [same,other]

theorem Sound.free_live (sound : Sound start s) {b : HeapBlock} (member : b ∈ s.live) :
    Sound start (arenaStep s (.free b.base)) := by
  obtain ⟨i,inside,record,freed⟩ := kfree_live sound member
  have returned := sound.returned member
  unfold arenaStep
  dsimp only
  rw [sound.filtered member,freed]
  rw [freed] at returned
  dsimp only at returned
  have still {c : HeapBlock} (kept : c ∈ s.live.erase b) : c ∈ s.live ∧ c ≠ b := by
    rw [sound.nodup.mem_erase_iff] at kept
    exact kept.symm
  have slot {j : Nat} (bound : j < maxHeapAllocs) (used : (s.heap.allocations j).used = true) (other : j ≠ i) :
      (s.heap.allocations j).base ≠ b.base := by
    intro base
    exact other (sound.single j i bound inside used (by rw [record]) (by rw [base,record]))
  constructor
  · intro j bound used
    dsimp only at used ⊢
    by_cases own : j = i
    · rw [own,Function.update_self] at used
      cases used
    · rw [Function.update_of_ne own] at used ⊢
      obtain ⟨c,present,same⟩ := sound.recorded j bound used
      refine ⟨c,(sound.nodup.mem_erase_iff).mpr ⟨?_,present⟩,same⟩
      rintro rfl
      exact slot bound used own (by rw [same])
  · intro c kept
    obtain ⟨present,other⟩ := still kept
    obtain ⟨j,bound,same⟩ := sound.held c present
    have apart : j ≠ i := by
      rintro rfl
      rw [record] at same
      exact other (sound.same member present (congrArg HeapAlloc.base same).symm)
    exact ⟨j,bound,(Function.update_of_ne apart _ _).trans same⟩
  · intro j k boundJ boundK usedJ usedK same
    dsimp only at usedJ usedK same
    have keptJ : j ≠ i := by
      rintro rfl
      rw [Function.update_self] at usedJ
      cases usedJ
    have keptK : k ≠ i := by
      rintro rfl
      rw [Function.update_self] at usedK
      cases usedK
    rw [Function.update_of_ne keptJ] at usedJ same
    rw [Function.update_of_ne keptK] at usedK same
    exact sound.single j k boundJ boundK usedJ usedK same
  · exact fun c kept => sound.aligned c (still kept).1
  · exact fun c kept => sound.positive c (still kept).1
  · exact fun c kept => sound.low c (still kept).1
  · exact fun c kept => sound.high c (still kept).1
  · exact sound.apart.sublist List.erase_sublist
  · intro f
    dsimp only
    rw [returned.free,sound.free]
    constructor
    · rintro (⟨first,vacant⟩ | own)
      · exact ⟨first,fun c kept => vacant c (still kept).1⟩
      · refine ⟨sound.origin b member f own,fun c kept has => ?_⟩
        exact (still kept).2 (sound.owns (still kept).1 member has own)
    · intro ⟨first,vacant⟩
      by_cases own : b.Has f
      · exact .inr own
      · refine .inl ⟨first,fun c present has => ?_⟩
        by_cases same : c = b
        · exact own (same ▸ has)
        · exact vacant c (sound.nodup.mem_erase_iff.mpr ⟨same,present⟩) has
  · exact fun c kept => sound.origin c (still kept).1
  · intro c kept f has
    obtain ⟨present,other⟩ := still kept
    have outside : ¬(b.base / pageSize ≤ f ∧ f < b.base / pageSize + b.pages) :=
      fun own => other (sound.owns present member has own)
    dsimp only
    rw [returned.refs,if_neg outside]
    exact sound.refs c present f has
  · have before := sound.counter
    have given := returned.counter
    have sum : b.pages + pagesHeld (s.live.erase b) = pagesHeld s.live := List.sum_map_erase HeapBlock.pages member
    dsimp only
    omega
  · exact fun word => returned.word (sound.word word)

theorem Sound.free_step (sound : Sound start s) (ptr : Nat) : Sound start (arenaStep s (.free ptr)) := by
  by_cases present : ∃ b ∈ s.live, b.base = ptr
  · obtain ⟨b,member,rfl⟩ := present
    exact sound.free_live member
  · have absent : ∀ b ∈ s.live, b.base ≠ ptr := fun b member same => present ⟨b,member,same⟩
    have all : s.live.filter (fun b => b.base ≠ ptr) = s.live :=
      List.filter_eq_self.mpr fun b member => decide_eq_true (absent b member)
    unfold arenaStep
    dsimp only
    rw [kfree_absent sound absent,all]
    exact sound

theorem Sound.step (sound : Sound start s) (call : HeapCall) : Sound start (arenaStep s call) := by
  cases call with
  | malloc size => exact sound.malloc size
  | free ptr => exact sound.free_step ptr

/-- Every byte of a block lies in its frames. -/
theorem HeapBlock.covers {b : HeapBlock} (aligned : b.base = b.base / pageSize * pageSize) {x : Nat} (above : b.base ≤ x)
    (below : x < b.base + b.size) : b.Has (x / pageSize) := by
  unfold Has pages pageSize at *
  omega

end Steps

/-- In any sequence of calls the blocks of the heap are whole, apart from each other and from
what else is allocated, and they are given back once. -/
theorem heap_blocks (h : Heap) (word : h.pages.freePages < 2^32) (calls : List HeapCall) :
    let s := run arenaStep (unusedArena h) calls
    (∀ b ∈ s.live, b.base % pageSize = 0 ∧ (∀ x, b.base ≤ x → x < b.base + b.size → b.Has (x / pageSize)) ∧
      ∀ f, b.Has f → isFree h.pages f = true ∧ isFree s.heap.pages f = false) ∧
    s.live.Pairwise HeapBlock.Apart ∧
    (∀ b ∈ s.live, Returned s.heap.pages (kfree s.heap b.base).pages (b.base / pageSize) b.pages) ∧
    (∀ ptr, (∀ b ∈ s.live, b.base ≠ ptr) → kfree s.heap ptr = s.heap) ∧
    (s.live = [] → s.heap.pages.freePages = h.pages.freePages) := by
  have keeps (s : Arena) (call : HeapCall) (sound : Sound h.pages s) : Sound h.pages (arenaStep s call) := sound.step call
  have sound : Sound h.pages (run arenaStep (unusedArena h) calls) := run_invariant keeps (unusedArena_sound h)
  refine ⟨fun b member => ⟨?_,fun x => HeapBlock.covers (sound.aligned b member),fun f has => ⟨sound.origin b member f has,?_⟩⟩,
    sound.apart,fun b member => sound.returned member,fun ptr absent => kfree_absent sound absent,fun none => ?_⟩
  · rw [sound.aligned b member]
    exact Nat.mul_mod_left _ _
  · rw [Bool.eq_false_iff]
    exact fun free => sound.vacant free b member has
  · have counter := sound.counter
    rw [none,Nat.mod_eq_of_lt word] at counter
    exact (Nat.mod_eq_of_lt (sound.word word)).symm.trans counter

/-- A heap over free frames whose number the counter does not know. -/
def miscounted : Heap := ⟨fun _ => default,⟨fun _ => 0,fun _ => 0,maxPages,0⟩⟩

def twoBlocks : List HeapCall := [.malloc 1,.malloc 5000,.free 0x800000,.free 0,.free 0x800000,.free 0x801000]

theorem heap_blocks_two : (run arenaStep (unusedArena miscounted) twoBlocks).heap.pages.freePages = 0 := by
  have gone : (run arenaStep (unusedArena miscounted) twoBlocks).live = [] := by decide +kernel
  exact (heap_blocks miscounted (Nat.two_pow_pos 32) twoBlocks).2.2.2.2 gone

end LionOS.Frames
