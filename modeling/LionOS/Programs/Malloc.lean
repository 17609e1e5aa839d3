import LionOS.Library.Run
import Mathlib.Algebra.Group.Nat.Defs
import Mathlib.Data.List.Pairwise

/-! The allocator of the user programs: an arena that only grows. -/
namespace LionOS.Programs
open LionOS.Library

def userHeapSize : BitVec 32 := 32768

/-- `malloc` on the value of `user_heap_used`; the pointer is its place in `user_heap`. -/
def malloc (used size : BitVec 32) : BitVec 32 × Option Nat :=
  if size = 0 then (used,none)
  else
    let size := (size + 7) &&& ~~~(7 : BitVec 32)
    if size > userHeapSize - used then (used,none)
    else (used + size,some used.toNat)

inductive HeapCall
  | malloc (size : BitVec 32)
  | free (ptr : Option Nat)

/-- The bytes that a call asked for, from its pointer on. -/
structure Block where
  start : Nat
  size : Nat
  deriving DecidableEq

/-- The arena with the blocks of all the calls that did not return null. -/
structure Arena where
  used : BitVec 32
  blocks : List Block

def fresh : Arena := ⟨0,[]⟩

/-- `free` takes no notice of its pointer. -/
def heapStep (a : Arena) : HeapCall → Arena
  | .malloc size =>
    let (used,ptr) := malloc a.used size
    ⟨used,a.blocks ++ ptr.toList.map fun start => ⟨start,size.toNat⟩⟩
  | .free _ => a

def Apart (b c : Block) : Prop := b.start + b.size ≤ c.start ∨ c.start + c.size ≤ b.start

/-- Every block lies in the arena on a multiple of eight, apart from the others. -/
structure DisjointBlocks (blocks : List Block) : Prop where
  inside : ∀ b ∈ blocks, b.start + b.size ≤ userHeapSize.toNat
  aligned : ∀ b ∈ blocks, b.start % 8 = 0
  apart : blocks.Pairwise Apart

section Rounding

theorem mask_shift (x : BitVec 32) : x &&& ~~~(7 : BitVec 32) = (x >>> 3) <<< 3 := by
  have mask : ∀ i < 32, (4294967288#32).getLsbD i = !decide (i < 3) := by decide
  ext i bound
  have bit : (4294967288#32)[i] = !decide (i < 3) := mask i bound
  rw [show ~~~(7 : BitVec 32) = 4294967288#32 from rfl,BitVec.getElem_and,bit,BitVec.getElem_shiftLeft]
  by_cases low : i < 3
  · simp [low]
  · simp [low,Nat.add_sub_cancel' (Nat.le_of_not_lt low),BitVec.getLsbD_eq_getElem bound]

theorem rounded_toNat (size : BitVec 32) :
    ((size + 7) &&& ~~~(7 : BitVec 32)).toNat = (size.toNat + 7) % 2^32 / 8 * 8 := by
  rw [mask_shift,BitVec.toNat_shiftLeft,BitVec.toNat_ushiftRight,BitVec.toNat_add]
  rw [Nat.shiftRight_eq_div_pow,Nat.shiftLeft_eq]
  change (size.toNat + 7) % 2^32 / 8 * 8 % 2^32 = _
  omega

end Rounding

section Calls
variable {used size : BitVec 32}

theorem malloc_eq (used size : BitVec 32) : malloc used size =
    if size = 0 then (used,none)
    else if (size + 7) &&& ~~~(7 : BitVec 32) > userHeapSize - used then (used,none)
    else (used + ((size + 7) &&& ~~~(7 : BitVec 32)),some used.toNat) := rfl

/-- A request that the rounding does not carry past 32 bits gets its bytes or null. -/
theorem malloc_given {start : Nat} (room : used.toNat ≤ 32768) (small : size.toNat ≤ 2^32 - 8)
    (given : (malloc used size).2 = some start) : start = used.toNat ∧ used.toNat + size.toNat ≤ (malloc used size).1.toNat ∧
      (malloc used size).1.toNat ≤ 32768 ∧ (malloc used size).1.toNat % 8 = used.toNat % 8 := by
  have rounded := rounded_toNat size
  rw [malloc_eq] at given ⊢
  generalize (size + 7) &&& ~~~(7 : BitVec 32) = whole at rounded given ⊢
  by_cases zero : size = 0
  · rw [if_pos zero] at given
    cases given
  rw [if_neg zero] at given ⊢
  by_cases large : whole > userHeapSize - used
  · rw [if_pos large] at given
    cases given
  rw [if_neg large] at given ⊢
  cases given
  have heap : userHeapSize.toNat = 32768 := rfl
  rw [gt_iff_lt,BitVec.lt_def,BitVec.toNat_sub_of_le (BitVec.le_def.mpr room),rounded] at large
  dsimp only
  rw [BitVec.toNat_add,rounded]
  omega

theorem malloc_null (null : (malloc used size).2 = none) : (malloc used size).1 = used := by
  rw [malloc_eq] at null ⊢
  generalize (size + 7) &&& ~~~(7 : BitVec 32) = whole at null ⊢
  by_cases zero : size = 0
  · rw [if_pos zero]
  rw [if_neg zero] at null ⊢
  by_cases large : whole > userHeapSize - used
  · rw [if_pos large]
  · rw [if_neg large] at null
    cases null

/-- A request within seven bytes of 2^32 is rounded to none, and never refused. -/
theorem malloc_wraps (large : 2^32 - 8 < size.toNat) : (malloc used size).2 = some used.toNat := by
  have bound := size.isLt
  have rounded := rounded_toNat size
  rw [malloc_eq]
  generalize (size + 7) &&& ~~~(7 : BitVec 32) = whole at rounded ⊢
  have some_ : size ≠ 0 := by
    rintro rfl
    exact absurd large (by decide)
  have none : whole.toNat = 0 := by omega
  rw [if_neg some_,if_neg]
  rw [gt_iff_lt,BitVec.lt_def,none]
  exact Nat.not_lt_zero _

end Calls

/-- The request does not wrap when it is rounded up. -/
def Rounds : HeapCall → Prop
  | .malloc size => size.toNat ≤ 2^32 - 8
  | .free _ => True

/-- The blocks are as they should be, and the arena is used up to a multiple of eight behind them. -/
structure Sound (a : Arena) : Prop where
  disjoint : DisjointBlocks a.blocks
  room : a.used.toNat ≤ userHeapSize.toNat
  even : a.used.toNat % 8 = 0
  below : ∀ b ∈ a.blocks, b.start + b.size ≤ a.used.toNat

section Runs
variable {a : Arena}

theorem heapStep_sound (sound : Sound a) {call : HeapCall} (rounds : Rounds call) : Sound (heapStep a call) := by
  cases call with
  | free ptr => exact sound
  | malloc size =>
    obtain ⟨disjoint,room,even,below⟩ := sound
    have step : heapStep a (.malloc size) =
        ⟨(malloc a.used size).1,a.blocks ++ (malloc a.used size).2.toList.map fun start => ⟨start,size.toNat⟩⟩ := rfl
    rw [step]
    cases given : (malloc a.used size).2 with
    | none =>
      rw [malloc_null given,Option.toList_none,List.map_nil,List.append_nil]
      exact ⟨disjoint,room,even,below⟩
    | some start =>
      obtain ⟨rfl,ends,room',even'⟩ := malloc_given room rounds given
      rw [Option.toList_some,List.map_singleton]
      have last : ∀ b ∈ [(⟨a.used.toNat,size.toNat⟩ : Block)], b = ⟨a.used.toNat,size.toNat⟩ := fun b => List.mem_singleton.mp
      refine ⟨⟨?_,?_,?_⟩,room',even'.trans even,?_⟩
      · refine List.forall_mem_append.mpr ⟨disjoint.inside,fun b member => ?_⟩
        rw [last b member]
        exact Nat.le_trans ends room'
      · refine List.forall_mem_append.mpr ⟨disjoint.aligned,fun b member => ?_⟩
        rw [last b member]
        exact even
      · refine List.pairwise_append.mpr ⟨disjoint.apart,List.pairwise_singleton _ _,fun b member c new => ?_⟩
        rw [last c new]
        exact .inl (below b member)
      · refine List.forall_mem_append.mpr ⟨fun b member => ?_,fun b member => ?_⟩
        · exact Nat.le_trans (below b member) (Nat.le_trans (Nat.le_add_right _ _) ends)
        · rw [last b member]
          exact ends

theorem heapStep_keeps (a : Arena) (call : HeapCall) : a.blocks ⊆ (heapStep a call).blocks := by
  cases call with
  | free ptr => exact List.Subset.refl _
  | malloc size => exact List.subset_append_left _ _

theorem run_keeps (a : Arena) (calls : List HeapCall) : a.blocks ⊆ (run heapStep a calls).blocks := by
  induction calls generalizing a with
  | nil => exact List.Subset.refl _
  | cons call rest ih => exact List.Subset.trans (heapStep_keeps a call) (ih _)

/-- A request that wraps leaves a block that is larger than the arena. -/
theorem heapStep_wraps {call : HeapCall} (wraps : ¬Rounds call) : ∃ b ∈ (heapStep a call).blocks, userHeapSize.toNat < b.size := by
  cases call with
  | free ptr => exact absurd trivial wraps
  | malloc size =>
    have large : 2^32 - 8 < size.toNat := Nat.lt_of_not_le wraps
    have step : heapStep a (.malloc size) =
        ⟨(malloc a.used size).1,a.blocks ++ (malloc a.used size).2.toList.map fun start => ⟨start,size.toNat⟩⟩ := rfl
    rw [step,malloc_wraps large]
    refine ⟨⟨a.used.toNat,size.toNat⟩,List.mem_append_right _ (List.mem_singleton_self _),?_⟩
    have heap : userHeapSize.toNat = 32768 := rfl
    dsimp only
    omega

theorem run_sound (sound : Sound a) (calls : List HeapCall) : DisjointBlocks (run heapStep a calls).blocks ↔ ∀ call ∈ calls, Rounds call := by
  induction calls generalizing a with
  | nil => exact iff_of_true sound.disjoint nofun
  | cons call rest ih =>
    rw [List.forall_mem_cons,run_cons]
    by_cases rounds : Rounds call
    · rw [and_iff_right rounds]
      exact ih (heapStep_sound sound rounds)
    · refine iff_of_false (fun disjoint => ?_) fun both => rounds both.1
      obtain ⟨b,member,large⟩ := @heapStep_wraps a call rounds
      have inside := disjoint.inside b (run_keeps _ rest member)
      omega

end Runs

theorem fresh_sound : Sound fresh :=
  ⟨⟨nofun,nofun,.nil⟩,Nat.zero_le _,rfl,nofun⟩

/-- All that `malloc` hands out in a run is disjoint and inside the arena exactly if no request is
within seven bytes of 2^32. -/
theorem blocks_disjoint_iff (calls : List HeapCall) : DisjointBlocks (run heapStep fresh calls).blocks ↔
    ∀ size : BitVec 32, .malloc size ∈ calls → size.toNat ≤ 2^32 - 8 := by
  refine (run_sound fresh_sound calls).trans ⟨fun all size member => all _ member,fun all call member => ?_⟩
  cases call with
  | malloc size => exact all size member
  | free ptr => trivial

/-- `malloc(0xFFFFFFFF)` returns the start of the arena, and takes nothing of it. -/
theorem huge_request : ¬DisjointBlocks (run heapStep fresh [.malloc 0xFFFFFFFF,.malloc 8]).blocks := by
  intro disjoint
  have first : (⟨0,0xFFFFFFFF⟩ : Block) ∈ (run heapStep fresh [.malloc 0xFFFFFFFF,.malloc 8]).blocks := by decide
  exact absurd (disjoint.inside _ first) (by decide)

end LionOS.Programs
