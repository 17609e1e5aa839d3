import Mathlib.Data.BitVec
import Mathlib.Logic.Function.Basic

/-! The physical page allocator: a bitmap of 65536 frames in 32-bit words, a
reference count for each frame and the counter of free frames, a number of 32 bits. -/
namespace LionOS.Memory

def pageSize : Nat := 4096
def maxPages : Nat := 65536
def reservedPages : Nat := 2048

structure Allocator where
  bitmap : Nat → BitVec 32
  pageRefs : Nat → Nat
  totalPages : Nat
  freePages : Nat

def bit (p : Nat) : BitVec 32 := 1#32 <<< (p % 32)

def markUsed (a : Allocator) (p : Nat) : Allocator :=
  if p < maxPages then {a with bitmap := Function.update a.bitmap (p / 32) (a.bitmap (p / 32) ||| bit p)}
  else a

def markFree (a : Allocator) (p : Nat) : Allocator :=
  if p < maxPages then {a with bitmap := Function.update a.bitmap (p / 32) (a.bitmap (p / 32) &&& ~~~bit p)}
  else a

def isFree (a : Allocator) (p : Nat) : Bool :=
  decide (p < maxPages) && (a.bitmap (p / 32) &&& bit p == 0#32)

/-- The scan of `page_alloc_contiguous`: `run` consecutive free frames end just
before frame `p`, the first of them at `start`. -/
def findRun (a : Allocator) (count : Nat) : Nat → Nat → Nat → Nat → Option Nat
  | 0, _, _, _ => none
  | fuel+1, p, run, start =>
    if isFree a p then
      let start := if run = 0 then p else start
      if run + 1 = count then some start else findRun a count fuel (p+1) (run+1) start
    else findRun a count fuel (p+1) 0 start

def takeFrame (a : Allocator) (p : Nat) : Allocator :=
  let a := markUsed a p
  {a with pageRefs := Function.update a.pageRefs p 1}

def pageAllocContiguous (a : Allocator) (count : Nat) : Option (Allocator × Nat) :=
  if count = 0 ∨ count > maxPages - reservedPages then none
  else match findRun a count (maxPages - reservedPages) reservedPages 0 reservedPages with
    | none => none
    | some start =>
      let a := (List.range count).foldl (fun a i => takeFrame a (start+i)) a
      some ({a with freePages := (a.freePages + 2^32 - count) % 2^32},start * pageSize)

def pageAlloc (a : Allocator) : Option (Allocator × Nat) := pageAllocContiguous a 1

/-- `page_retain`, `page_refcount` and `page_free` ignore a pointer that is not
page aligned or lies outside the allocatable frames. -/
def managed (address : Nat) : Bool :=
  decide (address % pageSize = 0) && decide (reservedPages ≤ address / pageSize) &&
    decide (address / pageSize < maxPages)

def pageRetain (a : Allocator) (address : Nat) : Allocator :=
  let p := address / pageSize
  if managed address && !isFree a p && decide (a.pageRefs p < 0xFFFF) then
    {a with pageRefs := Function.update a.pageRefs p (a.pageRefs p + 1)}
  else a

def pageRefcount (a : Allocator) (address : Nat) : Nat :=
  let p := address / pageSize
  if managed address && !isFree a p then a.pageRefs p else 0

def pageFree (a : Allocator) (address : Nat) : Allocator :=
  let p := address / pageSize
  if managed address && !isFree a p && decide (a.pageRefs p ≠ 0) then
    let a := {a with pageRefs := Function.update a.pageRefs p (a.pageRefs p - 1)}
    if a.pageRefs p = 0 then
      let a := markFree a p
      {a with freePages := (a.freePages + 1) % 2^32}
    else a
  else a

end LionOS.Memory
