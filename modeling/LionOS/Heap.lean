import LionOS.Memory

/-! The kernel heap: whole pages from the page allocator and a table of 1024 blocks. -/
namespace LionOS.Memory

def maxHeapAllocs : Nat := 1024

structure HeapAlloc where
  base : Nat
  pages : Nat
  used : Bool
  deriving Inhabited

structure Heap where
  allocations : Nat → HeapAlloc
  pages : Allocator

def heapInit (h : Heap) : Heap := {h with allocations := fun _ => ⟨0,0,false⟩}

def freeHeapSlot (h : Heap) : Option Nat :=
  (List.range maxHeapAllocs).find? fun i => !(h.allocations i).used

def kmalloc (h : Heap) (size : Nat) : Option (Heap × Nat) :=
  if size = 0 ∨ size > 0xFFFFFFFF - (pageSize - 1) then none
  else
    let count := (size + pageSize - 1) / pageSize
    match freeHeapSlot h with
    | none => none
    | some slot => match pageAllocContiguous h.pages count with
      | none => none
      | some (pages,base) =>
        some ({h with pages,allocations := Function.update h.allocations slot ⟨base,count,true⟩},base)

def kfree (h : Heap) (ptr : Nat) : Heap :=
  if ptr = 0 then h
  else match (List.range maxHeapAllocs).find? fun i =>
      (h.allocations i).used && decide ((h.allocations i).base = ptr) with
    | none => h
    | some i =>
      let block := h.allocations i
      let pages := (List.range block.pages).foldl
        (fun a page => pageFree a (block.base + page * pageSize)) h.pages
      {h with pages,allocations := Function.update h.allocations i ⟨0,0,false⟩}

end LionOS.Memory
