import Mathlib.Algebra.Order.Group.Multiset
import LionOS.Frames.Allocation
import LionOS.Frames.Search

/-! What an allocator has lent since an earlier state: the frames and references that have
to be given back until it is that state again. -/
namespace LionOS.Frames
open LionOS.Memory LionOS.Physical

/-- The parts of the allocator that no call touches. -/
structure Aside (a a' : Allocator) : Prop where
  words : ∀ w, maxPages / 32 ≤ w → a'.bitmap w = a.bitmap w
  total : a'.totalPages = a.totalPages

theorem Aside.refl (a : Allocator) : Aside a a := ⟨fun _ _ => rfl,rfl⟩

theorem Aside.trans {a b c : Allocator} (first : Aside a b) (second : Aside b c) : Aside a c :=
  ⟨fun w high => (second.words w high).trans (first.words w high),second.total.trans first.total⟩

theorem word_below {p : Nat} (inside : p < maxPages) {w : Nat} (high : maxPages / 32 ≤ w) : w ≠ p / 32 := by
  simp only [maxPages] at *
  omega

theorem markUsed_aside (a : Allocator) (p : Nat) : Aside a (markUsed a p) := by
  unfold markUsed
  split
  next inside => exact ⟨fun w high => Function.update_of_ne (word_below inside high) _ _,rfl⟩
  next => exact .refl a

theorem markFree_aside (a : Allocator) (p : Nat) : Aside a (markFree a p) := by
  unfold markFree
  split
  next inside => exact ⟨fun w high => Function.update_of_ne (word_below inside high) _ _,rfl⟩
  next => exact .refl a

theorem pageAllocContiguous_aside {a a' : Allocator} {count address : Nat}
    (allocated : pageAllocContiguous a count = some (a',address)) : Aside a a' := by
  unfold pageAllocContiguous at allocated
  split at allocated
  · cases allocated
  · split at allocated
    · cases allocated
    next first _ =>
      cases allocated
      have taken : Aside a ((List.range count).foldl (fun a i => takeFrame a (first + i)) a) := by
        refine List.foldlRecOn _ _ (Aside.refl a) fun b before i _ => ?_
        obtain ⟨words,total⟩ := markUsed_aside b (first + i)
        exact before.trans ⟨words,total⟩
      exact ⟨taken.words,taken.total⟩

theorem pageFree_aside (a : Allocator) (address : Nat) : Aside a (pageFree a address) := by
  unfold pageFree
  dsimp only
  split_ifs
  · refine ⟨(markFree_aside _ (address / pageSize)).words,(markFree_aside _ (address / pageSize)).total⟩
  · exact ⟨fun _ _ => rfl,rfl⟩
  · exact .refl a

theorem pageRetain_aside (a : Allocator) (address : Nat) : Aside a (pageRetain a address) := by
  unfold pageRetain
  dsimp only
  split_ifs
  · exact ⟨fun _ _ => rfl,rfl⟩
  · exact .refl a

/-- `a'` is `a` less the frames and with the references of `owed`, one for each time that a
frame occurs in it. -/
structure Lent (a a' : Allocator) (owed : Multiset Nat) : Prop where
  base : Agrees a
  agrees : Agrees a'
  refs : ∀ p, a'.pageRefs p = a.pageRefs p + owed.count p
  free : ∀ p, isFree a' p = (isFree a p && decide (p ∉ owed))
  inside : ∀ p ∈ owed, reservedPages ≤ p ∧ p < maxPages
  backed : ∀ p ∈ owed, isFree a p = false → a.pageRefs p ≠ 0
  aside : Aside a a'

section Lent
variable {a a' : Allocator} {owed : Multiset Nat}

theorem Lent.refl (agrees : Agrees a) : Lent a a 0 :=
  ⟨agrees,agrees,fun _ => by simp,fun _ => by simp,by simp,by simp,.refl a⟩

theorem Lent.used (lent : Lent a a' owed) {p : Nat} (member : p ∈ owed) : isFree a' p = false := by
  rw [lent.free,decide_eq_false (not_not.mpr member),Bool.and_false]

theorem Lent.taken (lent : Lent a a' owed) {p : Nat} (used : isFree a p = false) : isFree a' p = false := by
  rw [lent.free,used,Bool.false_and]

/-- A block of frames as they are handed out. -/
def block (first count : Nat) : Multiset Nat := ↑((List.range count).map (first + ·))

theorem mem_block {first count p : Nat} : p ∈ block first count ↔ first ≤ p ∧ p < first + count := by
  rw [block,Multiset.mem_coe,List.mem_map]
  constructor
  · rintro ⟨i,inside,rfl⟩
    rw [List.mem_range] at inside
    omega
  · rintro ⟨low,high⟩
    exact ⟨p - first,List.mem_range.mpr (by omega),by omega⟩

theorem count_block (first count p : Nat) : (block first count).count p = if first ≤ p ∧ p < first + count then 1 else 0 := by
  have nodup : (block first count).Nodup := by
    rw [block,Multiset.coe_nodup]
    exact List.nodup_range.map fun i j same => by simpa using same
  split
  next inside => exact Multiset.count_eq_one_of_mem nodup (mem_block.mpr inside)
  next outside => exact Multiset.count_eq_zero_of_notMem (mt mem_block.mp outside)

theorem block_one (first : Nat) : block first 1 = {first} := by simp [block]

theorem Lent.alloc {a'' : Allocator} {count address : Nat} (lent : Lent a a' owed)
    (allocated : pageAllocContiguous a' count = some (a'',address)) :
    ∃ first, address = first * pageSize ∧ Takes a' a'' first count ∧ Lent a a'' (block first count + owed) := by
  obtain ⟨first,place,takes⟩ := pageAllocContiguous_takes allocated
  have vacant {p : Nat} (within : first ≤ p ∧ p < first + count) : isFree a p = true ∧ p ∉ owed := by
    have free := takes.free p within.1 within.2
    rw [lent.free,Bool.and_eq_true,decide_eq_true_eq] at free
    exact free
  refine ⟨first,place,takes,lent.base,lent.agrees.alloc allocated,?_,?_,?_,?_,lent.aside.trans (pageAllocContiguous_aside allocated)⟩
  · intro p
    rw [takes.refs,Multiset.count_add,count_block,lent.refs]
    split
    next within =>
      obtain ⟨free,absent⟩ := vacant within
      rw [lent.base.unreferenced p free,Multiset.count_eq_zero_of_notMem absent]
    next => omega
  · intro p
    have parts : (p ∉ block first count + owed) ↔ ¬ (first ≤ p ∧ p < first + count) ∧ p ∉ owed := by
      rw [Multiset.mem_add,mem_block,not_or]
    rw [takes.rest,lent.free,Bool.and_assoc,← decide_not,← Bool.decide_and]
    simp only [parts,and_comm]
  · intro p member
    rcases Multiset.mem_add.mp member with new | old
    · have low := takes.low
      have high := takes.high
      have within := mem_block.mp new
      omega
    · exact lent.inside p old
  · intro p member used
    rcases Multiset.mem_add.mp member with new | old
    · rw [(vacant (mem_block.mp new)).1] at used
      cases used
    · exact lent.backed p old used

theorem managed_address {p : Nat} (low : reservedPages ≤ p) (high : p < maxPages) : managed (p * pageSize) = true := by
  unfold managed
  rw [Nat.mul_mod_left,address_frame,decide_eq_true rfl,decide_eq_true low,decide_eq_true high]
  rfl

theorem Lent.giveBack {p : Nat} (lent : Lent a a' (p ::ₘ owed)) : Lent a (pageFree a' (p * pageSize)) owed := by
  have own : p ∈ p ::ₘ owed := Multiset.mem_cons_self p owed
  obtain ⟨low,high⟩ := lent.inside p own
  have used := lent.used own
  have count := lent.refs p
  rw [Multiset.count_cons_self] at count
  have place : p * pageSize / pageSize = p := address_frame
  rw [← place] at used
  obtain ⟨refs,free,_⟩ := pageFree_held (managed_address low high) used (by rw [place]; omega)
  rw [place] at refs free used
  refine ⟨lent.base,lent.agrees.free _,?_,?_,fun q member => lent.inside q (Multiset.mem_cons_of_mem member),
    fun q member => lent.backed q (Multiset.mem_cons_of_mem member),lent.aside.trans (pageFree_aside a' _)⟩
  · intro q
    rw [refs,lent.refs]
    split
    next same =>
      subst same
      rw [Multiset.count_cons_self]
      omega
    next other => rw [Multiset.count_cons_of_ne other]
  · intro q
    rw [Bool.eq_iff_iff,free,Bool.and_eq_true,decide_eq_true_eq]
    by_cases same : q = p
    · subst same
      rw [used,count,← Multiset.count_eq_zero]
      constructor
      · rintro (vacant | ⟨_,last⟩)
        · cases vacant
        · have none : a.pageRefs q = 0 := by omega
          refine ⟨?_,by omega⟩
          by_contra taken
          rw [Bool.not_eq_true] at taken
          exact lent.backed q own taken none
      · rintro ⟨vacant,absent⟩
        have none := lent.base.unreferenced q vacant
        exact .inr ⟨rfl,by omega⟩
    · rw [lent.free,Bool.and_eq_true,decide_eq_true_eq,Multiset.mem_cons]
      simp [same]

theorem Lent.giveBackAll {frames : List Nat} (lent : Lent a a' (↑frames + owed)) :
    Lent a ((frames.map (· * pageSize)).foldl pageFree a') owed := by
  induction frames generalizing a' with
  | nil =>
    rw [Multiset.coe_nil,zero_add] at lent
    exact lent
  | cons p rest ih =>
    rw [← Multiset.cons_coe,Multiset.cons_add] at lent
    exact ih lent.giveBack

theorem Lent.retain {p : Nat} (lent : Lent a a' owed) (low : reservedPages ≤ p) (high : p < maxPages)
    (held : isFree a p = false ∧ a.pageRefs p ≠ 0) (room : a'.pageRefs p < 0xFFFF) :
    Lent a (pageRetain a' (p * pageSize)) (p ::ₘ owed) := by
  have used := lent.taken held.1
  have result : pageRetain a' (p * pageSize) =
      {a' with pageRefs := Function.update a'.pageRefs p (a'.pageRefs p + 1)} := by
    unfold pageRetain
    dsimp only
    rw [address_frame,managed_address low high,used,decide_eq_true room]
    rfl
  have agrees := lent.agrees.retain (p * pageSize)
  have aside := lent.aside.trans (pageRetain_aside a' (p * pageSize))
  rw [result] at agrees aside ⊢
  refine ⟨lent.base,agrees,?_,?_,?_,?_,aside⟩
  · intro q
    dsimp only
    by_cases same : q = p
    · subst same
      rw [Function.update_self,Multiset.count_cons_self,lent.refs]
      omega
    · rw [Function.update_of_ne same,Multiset.count_cons_of_ne same,lent.refs]
  · intro q
    rw [isFree_pageRefs,lent.free]
    by_cases same : q = p
    · subst same
      rw [held.1,Bool.false_and,Bool.false_and]
    · simp [same]
  · intro q member
    rcases Multiset.mem_cons.mp member with rfl | old
    · exact ⟨low,high⟩
    · exact lent.inside q old
  · intro q member
    rcases Multiset.mem_cons.mp member with rfl | old
    · exact fun _ => held.2
    · exact lent.backed q old

/-- What is lent on top of what was lent. -/
theorem Lent.trans {a'' : Allocator} {more : Multiset Nat} (first : Lent a a' owed) (second : Lent a' a'' more) :
    Lent a a'' (more + owed) := by
  refine ⟨first.base,second.agrees,?_,?_,?_,?_,first.aside.trans second.aside⟩
  · intro p
    rw [second.refs,first.refs,Multiset.count_add]
    omega
  · intro p
    rw [second.free,first.free,Bool.and_assoc,← Bool.decide_and]
    simp only [Multiset.mem_add,not_or,and_comm]
  · intro p member
    rcases Multiset.mem_add.mp member with new | old
    · exact second.inside p new
    · exact first.inside p old
  · intro p member used
    by_cases old : p ∈ owed
    · exact first.backed p old used
    · have new := (Multiset.mem_add.mp member).resolve_right old
      have counted := second.backed p new (first.taken used)
      rw [first.refs,Multiset.count_eq_zero_of_notMem old] at counted
      exact counted

/-- Where nothing is owed, the allocator is as it was. -/
theorem Lent.nothing (lent : Lent a a' 0) : a' = a := by
  have free (p : Nat) : isFree a' p = isFree a p := by
    rw [lent.free]
    simp
  have refs : a'.pageRefs = a.pageRefs := by
    funext p
    rw [lent.refs,Multiset.count_zero,Nat.add_zero]
  have counter : a'.freePages = a.freePages := by
    rw [lent.agrees.counter,lent.base.counter,freeFrames_congr free]
  have bitmap : a'.bitmap = a.bitmap := by
    funext w
    by_cases high : maxPages / 32 ≤ w
    · exact lent.aside.words w high
    · apply BitVec.eq_of_getLsbD_eq
      intro i inside
      have word : (32 * w + i) / 32 = w := by omega
      have index : (32 * w + i) % 32 = i := by omega
      have low : 32 * w + i < maxPages := by
        simp only [maxPages] at *
        omega
      have same := free (32 * w + i)
      rw [isFree_bit,isFree_bit,word,index,decide_eq_true low,Bool.true_and,Bool.true_and] at same
      exact Bool.not_inj same
  obtain ⟨b,r,t,n⟩ := a
  obtain ⟨b',r',t',n'⟩ := a'
  have total : t' = t := lent.aside.total
  dsimp only at bitmap refs counter
  rw [bitmap,refs,counter,total]

/-- The allocator is as it was exactly if nothing is owed. -/
theorem Lent.same (lent : Lent a a' owed) : a' = a ↔ owed = 0 := by
  constructor
  · rintro rfl
    refine Multiset.eq_zero_of_forall_notMem fun p member => ?_
    have positive := Multiset.count_pos.mpr member
    have refs := lent.refs p
    omega
  · rintro rfl
    exact lent.nothing

end Lent

/-! ### The states that the allocator can be in -/

/-- A state of the allocator after `memory_init` and any calls since, of a kernel that has
frame `root` in its image and adds references only to frames that were handed out. -/
inductive Reached (root : Nat) : Allocator → Prop
  | booted {bytes : Nat → Byte} {mi kernelStart kernelEnd fuel : Nat} {a : Allocator}
      (done : memoryInit bytes mi kernelStart kernelEnd fuel = some a) (small : kernelEnd < 2^32)
      (low : kernelStart ≤ root * pageSize) (high : root * pageSize < kernelEnd) : Reached root a
  | alloc {a a' : Allocator} {count address : Nat} (reached : Reached root a)
      (allocated : pageAllocContiguous a count = some (a',address)) : Reached root a'
  | retain {a : Allocator} {address : Nat} (reached : Reached root a) (counted : a.pageRefs (address / pageSize) ≠ 0) :
      Reached root (pageRetain a address)
  | free {a : Allocator} (address : Nat) (reached : Reached root a) : Reached root (pageFree a address)

/-- The records agree, the frames that are never handed out are in use, and nobody can give
back the frame of the kernel. -/
structure Regular (root : Nat) (a : Allocator) : Prop where
  agrees : Agrees a
  reserved : ∀ p < reservedPages, isFree a p = false
  used : isFree a root = false
  unreferenced : a.pageRefs root = 0

/-- An allocator with `n` frames left, the first that it hands out. -/
def scarce (n : Nat) : Allocator :=
  ⟨fun w => if w = reservedPages / 32 then BitVec.allOnes 32 <<< n else BitVec.allOnes 32,fun _ => 0,maxPages,n⟩

theorem scarce_isFree {n : Nat} (few : n ≤ 32) (p : Nat) :
    isFree (scarce n) p = decide (reservedPages ≤ p ∧ p < reservedPages + n) := by
  have bound : p % 32 < 32 := Nat.mod_lt p (by decide)
  have word := Nat.div_add_mod p 32
  rw [isFree_bit,scarce]
  dsimp only
  split
  next own =>
    rw [BitVec.getLsbD_shiftLeft,BitVec.getLsbD_allOnes]
    simp only [reservedPages,maxPages] at *
    grind
  next other =>
    rw [BitVec.getLsbD_allOnes]
    simp only [reservedPages,maxPages] at *
    grind

theorem scarce_regular {n root : Nat} (few : n ≤ 32) (low : root < reservedPages) : Regular root (scarce n) := by
  have reserved (p : Nat) (below : p < reservedPages) : isFree (scarce n) p = false := by
    rw [scarce_isFree few,decide_eq_false_iff_not]
    omega
  refine ⟨⟨?_,fun _ _ => rfl⟩,reserved,reserved root low,rfl⟩
  have frames : freeFrames (scarce n) = Finset.Ico reservedPages (reservedPages + n) := by
    ext p
    rw [mem_freeFrames,scarce_isFree few,decide_eq_true_iff,Finset.mem_Ico]
  rw [frames,Nat.card_Ico,Nat.add_sub_cancel_left]
  rfl

theorem pageFree_used {a : Allocator} {address p : Nat} (used : isFree a p = false)
    (kept : p < reservedPages ∨ a.pageRefs p = 0) : isFree (pageFree a address) p = false := by
  by_cases held : managed address = true ∧ isFree a (address / pageSize) = false ∧ a.pageRefs (address / pageSize) ≠ 0
  · obtain ⟨_,free,_⟩ := pageFree_held held.1 held.2.1 held.2.2
    rw [Bool.eq_false_iff]
    intro vacant
    rcases (free p).mp vacant with before | ⟨rfl,_⟩
    · rw [used] at before
      cases before
    · rcases kept with low | none
      · have high := held.1
        simp only [managed,Bool.and_eq_true,decide_eq_true_eq] at high
        omega
      · exact held.2.2 none
  · rw [pageFree_refused held]
    exact used

theorem pageRetain_isFree (a : Allocator) (address p : Nat) : isFree (pageRetain a address) p = isFree a p := by
  unfold pageRetain
  dsimp only
  split_ifs <;> rfl

theorem Regular.alloc {root : Nat} {a a' : Allocator} {count address : Nat} (regular : Regular root a)
    (allocated : pageAllocContiguous a count = some (a',address)) : Regular root a' := by
  obtain ⟨first,_,takes⟩ := pageAllocContiguous_takes allocated
  refine ⟨regular.agrees.alloc allocated,fun p low => takes.taken (regular.reserved p low),takes.taken regular.used,?_⟩
  rw [takes.refs,if_neg]
  · exact regular.unreferenced
  · rintro ⟨low,high⟩
    have free := takes.free root low high
    rw [regular.used] at free
    cases free

theorem Regular.retain {root : Nat} {a : Allocator} {address : Nat} (regular : Regular root a)
    (counted : a.pageRefs (address / pageSize) ≠ 0) : Regular root (pageRetain a address) := by
  refine ⟨regular.agrees.retain address,?_,?_,?_⟩
  · intro p low
    rw [pageRetain_isFree]
    exact regular.reserved p low
  · rw [pageRetain_isFree]
    exact regular.used
  · unfold pageRetain
    dsimp only
    split_ifs
    · dsimp only
      rw [Function.update_of_ne]
      · exact regular.unreferenced
      · rintro rfl
        exact counted regular.unreferenced
    · exact regular.unreferenced

theorem Regular.free {root : Nat} {a : Allocator} (regular : Regular root a) (address : Nat) : Regular root (pageFree a address) := by
  refine ⟨regular.agrees.free address,fun p low => pageFree_used (regular.reserved p low) (.inl low),
    pageFree_used regular.used (.inr regular.unreferenced),?_⟩
  by_cases held : managed address = true ∧ isFree a (address / pageSize) = false ∧ a.pageRefs (address / pageSize) ≠ 0
  · obtain ⟨refs,_⟩ := pageFree_held held.1 held.2.1 held.2.2
    rw [refs,regular.unreferenced]
    split <;> rfl
  · rw [pageFree_refused held]
    exact regular.unreferenced

theorem Reached.regular {root : Nat} {a : Allocator} (reached : Reached root a) : Regular root a := by
  induction reached with
  | booted done small low high =>
    have unused := memoryInit_unused done
    exact ⟨unused.agrees,fun p low => memoryInit_low done low,memoryInit_reserves done small low high,unused.refs root⟩
  | alloc reached allocated ih => exact ih.alloc allocated
  | retain reached counted ih => exact ih.retain counted
  | free address reached ih => exact ih.free address

/-- Lending never takes the frame of the kernel. -/
theorem Lent.regular {root : Nat} {a a' : Allocator} {owed : Multiset Nat} (lent : Lent a a' owed) (regular : Regular root a) :
    Regular root a' := by
  refine ⟨lent.agrees,fun p low => lent.taken (regular.reserved p low),lent.taken regular.used,?_⟩
  rw [lent.refs,regular.unreferenced,Nat.zero_add,Multiset.count_eq_zero]
  intro member
  exact lent.backed root member regular.used regular.unreferenced

/-! ### When there is no frame left -/

theorem pageAllocContiguous_counter {a a' : Allocator} {count address : Nat} (agrees : Agrees a)
    (allocated : pageAllocContiguous a count = some (a',address)) : a'.freePages + count = a.freePages := by
  obtain ⟨_,_,_,_,counter⟩ := pageAllocContiguous_found allocated
  obtain ⟨first,_,takes⟩ := pageAllocContiguous_takes allocated
  have enough := freeFrames_enough takes
  have few := freeFrames_card a
  unfold maxPages at few
  rw [← agrees.counter] at enough few
  omega

/-- One frame is refused only where the counter of free frames is zero. -/
theorem pageAlloc_exhausted {a : Allocator} (agrees : Agrees a) (reserved : ∀ p < reservedPages, isFree a p = false) :
    pageAlloc a = none ↔ a.freePages = 0 := by
  have fails := (pageAllocContiguous_allocates a 1).fails
  rw [pageAlloc,fails,agrees.counter,Finset.card_eq_zero]
  constructor
  · intro none
    rw [Finset.eq_empty_iff_forall_notMem]
    intro p member
    have free := (mem_freeFrames a p).mp member
    have inside : p < maxPages := by
      rw [isFree,Bool.and_eq_true,decide_eq_true_eq] at free
      exact free.1
    have low : reservedPages ≤ p := by
      by_contra below
      rw [reserved p (by omega)] at free
      cases free
    refine none p ⟨by omega,low,by omega,?_⟩
    intro q first last
    have same : q = p := by omega
    rw [same]
    exact free
  · intro none first run
    have member := (mem_freeFrames a first).mpr (run.free first (Nat.le_refl _) (by omega))
    rw [none] at member
    cases member

theorem Lent.exhausted {a a' : Allocator} {owed : Multiset Nat} (lent : Lent a a' owed)
    (reserved : ∀ p < reservedPages, isFree a p = false) : pageAlloc a' = none ↔ a'.freePages = 0 :=
  pageAlloc_exhausted lent.agrees fun p low => lent.taken (reserved p low)

end LionOS.Frames
