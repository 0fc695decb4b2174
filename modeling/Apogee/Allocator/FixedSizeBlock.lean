import Mathlib.Logic.Function.Basic
import Mathlib.Data.List.FinRange
import Apogee.Allocator.LinkedList

/-!
# The fixed-size-block allocator (`src/allocator/fixed_size_block.rs`)

The kernel's global allocator: ten lists of parked blocks, one for each block size, over the
linked-list allocator. The lock around it is not in the model: a call runs with it held.
-/

namespace Apogee

open Verif

/-- `BLOCK_SIZES`. -/
def blockSizes : List Nat := [8, 16, 32, 64, 128, 256, 512, 1024, 2048, 4096]

/-- An index into `BLOCK_SIZES`: a size class. -/
abbrev Class := Fin blockSizes.length

/-- `Layout::from_size_align`. -/
def Layout.fromSizeAlign (size align : Nat) : Option Layout :=
  if h : align = 2 ^ align.log2 ∧ size + align ≤ 2 ^ 63 then
    some ⟨size, align, ⟨_, h.1⟩, h.2⟩
  else
    none

/-- `HeapStats`. -/
structure HeapStats where
  heapSize : Nat
  freeBytes : Nat
  deriving DecidableEq, Repr

structure FixedSizeBlockAllocator where
  listHeads : Class → List ListNode
  fallbackAllocator : LinkedListAllocator

namespace FixedSizeBlockAllocator

def empty : FixedSizeBlockAllocator :=
  { listHeads := fun _ => [], fallbackAllocator := .empty }

def init (p : Profile) (self : FixedSizeBlockAllocator) (heapStart heapSize : Nat) :
    Panics FixedSizeBlockAllocator := do
  let fallbackAllocator ← LinkedListAllocator.init p heapStart heapSize
  pure { self with fallbackAllocator }

def listIndex (layout : Layout) : Option Class :=
  let required := max layout.size layout.align
  blockSizes.findFinIdx? (required ≤ ·)

def fallbackAlloc (p : Profile) (self : FixedSizeBlockAllocator) (layout : Layout) :
    Panics (Nat × FixedSizeBlockAllocator) := do
  let (ptr, fallbackAllocator) ← self.fallbackAllocator.alloc p layout
  pure (ptr, { self with fallbackAllocator })

/-- `stats`: each parked block counts with the size of its class. -/
def stats (self : FixedSizeBlockAllocator) : HeapStats :=
  let cachedBytes :=
    ((List.finRange blockSizes.length).map fun i =>
      ((self.listHeads i).map fun _ => blockSizes.get i).sum).sum
  { heapSize := self.fallbackAllocator.heapSize
    freeBytes := self.fallbackAllocator.freeBytes + cachedBytes }

/-- `GlobalAlloc::alloc`. The null pointer is address `0`. -/
def alloc (p : Profile) (self : FixedSizeBlockAllocator) (layout : Layout) :
    Panics (Nat × FixedSizeBlockAllocator) :=
  match listIndex layout with
  | some index =>
    match self.listHeads index with
    | node :: next =>
      pure (node.startAddr, { self with listHeads := Function.update self.listHeads index next })
    | [] => do
      let blockSize := blockSizes.get index
      let blockAlign := blockSize
      let layout ← expect (Layout.fromSizeAlign blockSize blockAlign) "invalid block layout"
      self.fallbackAlloc p layout
  | none => self.fallbackAlloc p layout

/-- `dealloc` to the fallback allocator. -/
def fallbackDealloc (p : Profile) (self : FixedSizeBlockAllocator) (ptr : Nat) (layout : Layout) :
    Panics FixedSizeBlockAllocator := do
  let fallbackAllocator ← self.fallbackAllocator.dealloc p ptr layout
  pure { self with fallbackAllocator }

/-- `GlobalAlloc::dealloc`. -/
def dealloc (p : Profile) (self : FixedSizeBlockAllocator) (ptr : Nat) (layout : Layout) :
    Panics FixedSizeBlockAllocator :=
  match listIndex layout with
  | some index =>
    if minBlock ≤ blockSizes.get index ∧ nodeAlign ≤ blockSizes.get index then
      let node : ListNode := ⟨ptr, blockSizes.get index⟩
      pure { self with
        listHeads := Function.update self.listHeads index (node :: self.listHeads index) }
    else
      -- A block smaller than a node.
      self.fallbackDealloc p ptr layout
  | none => self.fallbackDealloc p ptr layout

end FixedSizeBlockAllocator

end Apogee
