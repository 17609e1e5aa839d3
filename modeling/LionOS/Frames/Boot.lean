import Mathlib.Data.Finset.Card
import LionOS.Spaces.Frames
import LionOS.Physical

/-! `memory_init`: which frames the boot information of the loader makes allocatable, and
that the three records of the allocator agree from there on. -/
namespace LionOS.Frames
open LionOS.Memory LionOS.Physical

def tagEnd : Nat := 0
def tagModule : Nat := 3
def tagMmap : Nat := 6
def memoryAvailable : Nat := 1

def read32 (bytes : Nat → Byte) (address : Nat) : Nat :=
  (bytes address).toNat + 2^8 * (bytes (address + 1)).toNat + 2^16 * (bytes (address + 2)).toNat +
    2^24 * (bytes (address + 3)).toNat

def read64 (bytes : Nat → Byte) (address : Nat) : Nat := read32 bytes address + 2^32 * read32 bytes (address + 4)

def alignDown (n : Nat) : Nat := n / pageSize * pageSize

/-- Rounding up to a page in 64 bits. -/
def alignUp (n : Nat) : Nat := alignDown ((n + (pageSize - 1)) % 2^64)

/-- The frame number of an address is cut to 32 bits. -/
def frameOf (address : Nat) : Nat := address / pageSize % 2^32

def pagesBetween (first last : Nat) : List Nat :=
  (List.range ((last - first) / pageSize)).map fun i => first + i * pageSize

def reserveFrame (a : Allocator) (p : Nat) : Allocator :=
  if p < maxPages ∧ isFree a p = true then
    let a := markUsed a p
    {a with freePages := a.freePages - 1}
  else a

def reserveRange (a : Allocator) (first last : Nat) : Allocator :=
  if last ≤ first then a
  else (pagesBetween (alignDown first) (alignUp last)).foldl (fun a address => reserveFrame a (frameOf address)) a

def releaseFrame (a : Allocator) (p : Nat) : Allocator :=
  if p < maxPages ∧ isFree a p = false then
    let a := markFree a p
    {a with
      pageRefs := Function.update a.pageRefs p 0,freePages := a.freePages + 1
      totalPages := if p + 1 > a.totalPages then p + 1 else a.totalPages}
  else a

/-- One entry of the memory map. -/
def mmapEntry (bytes : Nat → Byte) (a : Allocator) (entry : Nat) : Allocator :=
  if read32 bytes (entry + 16) = memoryAvailable then
    let first := alignUp (read64 bytes entry)
    let last := alignDown ((read64 bytes entry + read64 bytes (entry + 8)) % 2^64)
    (pagesBetween first last).foldl (fun a address => releaseFrame a (frameOf address)) a
  else a

/-- The entries of a memory map up to `last`. `none`: the loop has not come to its end in
`fuel` turns, which an entry size of 0 never does. -/
def mmapEntries (bytes : Nat → Byte) (size last : Nat) : Nat → Nat → Allocator → Option Allocator
  | 0, _, _ => none
  | fuel+1, entry, a =>
    if entry + size ≤ last then mmapEntries bytes size last fuel (entry + size) (mmapEntry bytes a entry) else some a

def mmapTag (bytes : Nat → Byte) (fuel tag : Nat) (a : Allocator) : Option Allocator :=
  if read32 bytes tag = tagMmap then
    mmapEntries bytes (read32 bytes (tag + 8)) (tag + read32 bytes (tag + 4)) fuel (tag + 16) a
  else some a

def moduleTag (bytes : Nat → Byte) (tag : Nat) (a : Allocator) : Option Allocator :=
  if read32 bytes tag = tagModule ∧ read32 bytes (tag + 4) ≥ 16 then
    some (reserveRange a (read32 bytes (tag + 8)) (read32 bytes (tag + 12)))
  else some a

/-- The size of a tag rounded up to 8 in 32 bits. -/
def tagStride (size : Nat) : Nat := (size + 7) % 2^32 / 8 * 8

/-- The loop over the tags of the boot information, which `memory_init` runs twice. -/
def forTags (bytes : Nat → Byte) (visit : Nat → Allocator → Option Allocator) (last : Nat) :
    Nat → Nat → Allocator → Option Allocator
  | 0, _, _ => none
  | fuel+1, tag, a =>
    if tag + 8 ≤ last then
      if read32 bytes tag = tagEnd then some a
      else match visit tag a with
        | none => none
        | some a => forTags bytes visit last fuel (tag + tagStride (read32 bytes (tag + 4))) a
    else some a

/-- `memory_init` on the boot information at `mi`; `none` where it does not return within
`fuel` turns of a loop. Pointers do not wrap here, as they do not in C. -/
def memoryInit (bytes : Nat → Byte) (mi kernelStart kernelEnd fuel : Nat) : Option Allocator :=
  let total := read32 bytes mi
  match forTags bytes (mmapTag bytes fuel) (mi + total) fuel (mi + 8) ⟨fun _ => 0xFFFFFFFF#32,fun _ => 0,0,0⟩ with
  | none => none
  | some a =>
    let a := reserveRange a 0 (reservedPages * pageSize)
    let a := reserveRange a kernelStart kernelEnd
    let a := reserveRange a mi (mi + total)
    forTags bytes (moduleTag bytes) (mi + total) fuel (mi + 8) a

/-! ### The count of the free frames -/

def freeFrames (a : Allocator) : Finset Nat := (Finset.range maxPages).filter fun p => isFree a p = true

theorem mem_freeFrames (a : Allocator) (p : Nat) : p ∈ freeFrames a ↔ isFree a p = true := by
  rw [freeFrames,Finset.mem_filter,Finset.mem_range]
  constructor
  · exact And.right
  · intro free
    refine ⟨?_,free⟩
    rw [isFree,Bool.and_eq_true,decide_eq_true_eq] at free
    exact free.1

/-- The bitmap, the counter of free frames and the reference counts agree. -/
structure Agrees (a : Allocator) : Prop where
  counter : a.freePages = (freeFrames a).card
  unreferenced : ∀ p, isFree a p = true → a.pageRefs p = 0

/-- The allocator before the first allocation: no frame has a reference. -/
structure Unused (a : Allocator) : Prop where
  agrees : Agrees a
  refs : ∀ p, a.pageRefs p = 0

theorem freeFrames_used {a : Allocator} {p : Nat} : freeFrames (markUsed a p) = (freeFrames a).erase p := by
  ext q
  rw [mem_freeFrames,Finset.mem_erase,mem_freeFrames,isFree_markUsed,Bool.and_eq_true,decide_eq_true_eq,and_comm]

theorem freeFrames_freed {a : Allocator} {p : Nat} (inside : p < maxPages) :
    freeFrames (markFree a p) = insert p (freeFrames a) := by
  ext q
  rw [mem_freeFrames,Finset.mem_insert,mem_freeFrames,isFree_markFree,Bool.or_eq_true,decide_eq_true_eq,or_comm]
  simp [inside]

@[simp] theorem freePages_markUsed (a : Allocator) (p : Nat) : (markUsed a p).freePages = a.freePages := by
  unfold markUsed
  split <;> rfl

@[simp] theorem freePages_markFree (a : Allocator) (p : Nat) : (markFree a p).freePages = a.freePages := by
  unfold markFree
  split <;> rfl

theorem freeFrames_congr {a a' : Allocator} (same : ∀ p, isFree a' p = isFree a p) : freeFrames a' = freeFrames a := by
  ext p
  rw [mem_freeFrames,mem_freeFrames,same]

theorem reserveFrame_unused {a : Allocator} (unused : Unused a) (p : Nat) : Unused (reserveFrame a p) := by
  unfold reserveFrame
  split
  next free =>
    have taken : p ∈ freeFrames a := (mem_freeFrames a p).mpr free.2
    have refs (q : Nat) : (markUsed a p).pageRefs q = 0 := by
      rw [pageRefs_markUsed]
      exact unused.refs q
    refine ⟨⟨?_,fun q _ => refs q⟩,refs⟩
    have frames : freeFrames {markUsed a p with freePages := (markUsed a p).freePages - 1} = (freeFrames a).erase p :=
      freeFrames_used
    rw [frames,Finset.card_erase_of_mem taken,← unused.agrees.counter]
    dsimp only
    rw [freePages_markUsed]
  next => exact unused

theorem releaseFrame_unused {a : Allocator} (unused : Unused a) (p : Nat) : Unused (releaseFrame a p) := by
  unfold releaseFrame
  split
  next held =>
    have absent : p ∉ freeFrames a := by
      rw [mem_freeFrames,held.2]
      nofun
    have refs (q : Nat) : Function.update (markFree a p).pageRefs p 0 q = 0 := by
      rw [Function.update_apply]
      split
      · rfl
      · rw [pageRefs_markFree]
        exact unused.refs q
    refine ⟨⟨?_,fun q _ => refs q⟩,refs⟩
    dsimp only
    rw [freePages_markFree,unused.agrees.counter,← Finset.card_insert_of_notMem absent,← freeFrames_freed held.1]
    rfl
  next => exact unused

theorem reserveRange_unused {a : Allocator} (unused : Unused a) (first last : Nat) : Unused (reserveRange a first last) := by
  unfold reserveRange
  split
  · exact unused
  · exact List.foldlRecOn _ _ unused fun a unused address _ => reserveFrame_unused unused (frameOf address)

theorem mmapEntry_unused (bytes : Nat → Byte) {a : Allocator} (unused : Unused a) (entry : Nat) :
    Unused (mmapEntry bytes a entry) := by
  unfold mmapEntry
  split
  · exact List.foldlRecOn _ _ unused fun a unused address _ => releaseFrame_unused unused (frameOf address)
  · exact unused

theorem mmapEntries_unused {bytes : Nat → Byte} {size last fuel entry : Nat} {a a' : Allocator} (unused : Unused a)
    (done : mmapEntries bytes size last fuel entry a = some a') : Unused a' := by
  induction fuel generalizing entry a with
  | zero => cases done
  | succ fuel ih =>
    unfold mmapEntries at done
    split at done
    · exact ih (mmapEntry_unused bytes unused entry) done
    · cases done
      exact unused

/-- What every visit keeps, the loop over the tags keeps. -/
theorem forTags_keeps {bytes : Nat → Byte} {visit : Nat → Allocator → Option Allocator} {last fuel tag : Nat}
    {a a' : Allocator} {keeps : Allocator → Prop} (visits : ∀ tag a a', keeps a → visit tag a = some a' → keeps a')
    (kept : keeps a) (done : forTags bytes visit last fuel tag a = some a') : keeps a' := by
  induction fuel generalizing tag a with
  | zero => cases done
  | succ fuel ih =>
    unfold forTags at done
    split at done
    · split at done
      · cases done
        exact kept
      · split at done
        · cases done
        next visited => exact ih (visits _ _ _ kept visited) done
    · cases done
      exact kept

/-- `memory_init` starts with every bit set. -/
theorem isFree_full (p : Nat) : isFree ⟨fun _ => 0xFFFFFFFF#32,fun _ => 0,0,0⟩ p = false := by
  have bound : p % 32 < 32 := Nat.mod_lt p (by decide)
  have bits : (0xFFFFFFFF#32).getLsbD (p % 32) = true := by
    have ones : 0xFFFFFFFF#32 = BitVec.allOnes 32 := by decide
    rw [ones,BitVec.getLsbD_allOnes]
    exact decide_eq_true bound
  rw [isFree_bit]
  simp only [bits,Bool.not_true,Bool.and_false]

/-- Whatever the boot information says, the allocator starts without references and with a
counter that is right. -/
theorem memoryInit_unused {bytes : Nat → Byte} {mi kernelStart kernelEnd fuel : Nat} {a : Allocator}
    (booted : memoryInit bytes mi kernelStart kernelEnd fuel = some a) : Unused a := by
  have empty : Unused ⟨fun _ => 0xFFFFFFFF#32,fun _ => 0,0,0⟩ := by
    refine ⟨⟨?_,fun _ _ => rfl⟩,fun _ => rfl⟩
    symm
    rw [Finset.card_eq_zero]
    ext p
    rw [mem_freeFrames,isFree_full]
    simp
  unfold memoryInit at booted
  dsimp only at booted
  split at booted
  · cases booted
  next mapped mapping =>
    have maps (tag : Nat) (a a' : Allocator) (unused : Unused a) (done : mmapTag bytes fuel tag a = some a') :
        Unused a' := by
      unfold mmapTag at done
      split at done
      · exact mmapEntries_unused unused done
      · cases done
        exact unused
    have modules (tag : Nat) (a a' : Allocator) (unused : Unused a) (done : moduleTag bytes tag a = some a') :
        Unused a' := by
      unfold moduleTag at done
      split at done
      · cases done
        exact reserveRange_unused unused _ _
      · cases done
        exact unused
    have first := forTags_keeps maps empty mapping
    exact forTags_keeps modules
      (reserveRange_unused (reserveRange_unused (reserveRange_unused first _ _) _ _) _ _) booted

/-! ### Reserved ranges -/

theorem reserveFrame_used {a : Allocator} {p : Nat} (q : Nat) (used : isFree a p = false) :
    isFree (reserveFrame a q) p = false := by
  unfold reserveFrame
  split
  · rw [isFree_freePages,isFree_markUsed,used,Bool.false_and]
  · exact used

theorem reserveFrames_used {a : Allocator} {p : Nat} (addresses : List Nat) (used : isFree a p = false) :
    isFree (addresses.foldl (fun a address => reserveFrame a (frameOf address)) a) p = false := by
  induction addresses generalizing a with
  | nil => exact used
  | cons address rest ih => exact ih (reserveFrame_used (frameOf address) used)

theorem reserveRange_used {a : Allocator} {p : Nat} (first last : Nat) (used : isFree a p = false) :
    isFree (reserveRange a first last) p = false := by
  unfold reserveRange
  split
  · exact used
  · exact reserveFrames_used _ used

theorem reserveFrame_own (a : Allocator) (p : Nat) : isFree (reserveFrame a p) p = false := by
  unfold reserveFrame
  split
  · rw [isFree_freePages,isFree_markUsed]
    simp
  next free =>
    cases held : isFree a p with
    | false => rfl
    | true =>
      have inside : p < maxPages := by
        rw [isFree,Bool.and_eq_true,decide_eq_true_eq] at held
        exact held.1
      exact absurd ⟨inside,held⟩ free

theorem reserveFrames_inside (addresses : List Nat) (a : Allocator) {p : Nat}
    (member : ∃ address ∈ addresses, frameOf address = p) :
    isFree (addresses.foldl (fun a address => reserveFrame a (frameOf address)) a) p = false := by
  induction addresses generalizing a with
  | nil => simp at member
  | cons first rest ih =>
    rw [List.foldl_cons]
    obtain ⟨address,here | later,rfl⟩ : ∃ address, (address = first ∨ address ∈ rest) ∧ frameOf address = p := by
      simpa using member
    · subst here
      exact reserveFrames_used rest (reserveFrame_own a _)
    · exact ih _ ⟨address,later,rfl⟩

/-- Every frame that a range touches is reserved. -/
theorem reserveRange_inside (a : Allocator) {first last p : Nat} (small : last < 2^32) (low : first ≤ p * pageSize)
    (high : p * pageSize < last) : isFree (reserveRange a first last) p = false := by
  unfold reserveRange
  rw [if_neg (by omega)]
  apply reserveFrames_inside
  have fits : last + (pageSize - 1) < 2^64 := by
    simp only [pageSize]
    omega
  have up : alignUp last = (last + 4095) / 4096 * 4096 := by
    unfold alignUp
    rw [Nat.mod_eq_of_lt fits]
    rfl
  refine ⟨p * pageSize,List.mem_map.mpr ⟨p - first / pageSize,?_,?_⟩,?_⟩
  · rw [List.mem_range,up]
    simp only [alignDown,pageSize] at *
    omega
  · simp only [alignDown,pageSize] at *
    omega
  · simp only [frameOf,pageSize] at *
    omega

theorem moduleTag_used {bytes : Nat → Byte} {tag p : Nat} {a a' : Allocator} (used : isFree a p = false)
    (done : moduleTag bytes tag a = some a') : isFree a' p = false := by
  unfold moduleTag at done
  split at done
  · cases done
    exact reserveRange_used _ _ used
  · cases done
    exact used

/-- The frames of the kernel image are nobody's. -/
theorem memoryInit_reserves {bytes : Nat → Byte} {mi kernelStart kernelEnd fuel : Nat} {a : Allocator}
    (booted : memoryInit bytes mi kernelStart kernelEnd fuel = some a) (small : kernelEnd < 2^32) {p : Nat}
    (low : kernelStart ≤ p * pageSize) (high : p * pageSize < kernelEnd) : isFree a p = false := by
  unfold memoryInit at booted
  dsimp only at booted
  split at booted
  · cases booted
  next mapped _ =>
    exact forTags_keeps (fun _ _ _ => moduleTag_used) (reserveRange_used _ _ (reserveRange_inside _ small low high)) booted

/-- Neither are those that are never handed out. -/
theorem memoryInit_low {bytes : Nat → Byte} {mi kernelStart kernelEnd fuel : Nat} {a : Allocator}
    (booted : memoryInit bytes mi kernelStart kernelEnd fuel = some a) {p : Nat} (low : p < reservedPages) :
    isFree a p = false := by
  unfold memoryInit at booted
  dsimp only at booted
  split at booted
  · cases booted
  next mapped _ =>
    have below : p * pageSize < reservedPages * pageSize := Nat.mul_lt_mul_of_pos_right low (by decide)
    have first := reserveRange_inside mapped (by decide) (Nat.zero_le _) below
    exact forTags_keeps (fun _ _ _ => moduleTag_used) (reserveRange_used _ _ (reserveRange_used _ _ first)) booted

end LionOS.Frames
