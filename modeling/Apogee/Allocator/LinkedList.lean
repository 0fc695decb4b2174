import Apogee.Lib.Span
import Apogee.Allocator.Layout

/-!
# The linked-list allocator (`src/allocator/linkedlist.rs`)

A free region holds its own list node, so a node is its address and its size, and the list that
`head` starts is the list of nodes in link order. A loop over a `slot` (the head or a `next` field)
is a recursion over the nodes from that slot on.

Every panic of the source is in the model: overflowing word arithmetic and the debug assertions of
a `dev` build, and the two `expect`s of `find_region`.
-/

namespace Apogee

open Verif

/-- `ListNode`, with the address it is stored at. -/
abbrev ListNode := Span

/-- `mem::size_of::<ListNode>()`. -/
def minBlock : Nat := 16

/-- `mem::align_of::<ListNode>()`. -/
def nodeAlign : Nat := 8

def ListNode.startAddr (node : ListNode) : Nat := node.addr

def ListNode.endAddr (p : Profile) (node : ListNode) : Panics Nat := Word.add p node.addr node.size

def allocationSize (p : Profile) (layout : Layout) : Panics Nat :=
  alignUp p (max layout.size minBlock) nodeAlign

def allocationAlign (layout : Layout) : Nat := max layout.align nodeAlign

structure LinkedListAllocator where
  head : List ListNode
  heapStart : Nat
  heapEnd : Nat
  deriving DecidableEq, Repr

namespace LinkedListAllocator

def empty : LinkedListAllocator := { head := [], heapStart := 0, heapEnd := 0 }

/-- The walk of `add_free_region` from a slot on, and the splice of the new node there. -/
def splice (p : Profile) (addr size : Nat) : List ListNode → Panics (List ListNode)
  | [] => pure [⟨addr, size⟩]
  | node :: next =>
    if node.startAddr < addr then do
      p.debugAssert (do return decide ((← node.endAddr p) ≤ addr))
        "free region overlaps an existing region"
      let rest ← splice p addr size next
      pure (node :: rest)
    else
      pure (⟨addr, size⟩ :: node :: next)

/-- The loop of `coalesce` at `node`, with the nodes after it. -/
def coalesceFrom (p : Profile) (node : ListNode) : List ListNode → Panics (List ListNode)
  | [] => pure [node]
  | next :: rest => do
    let nodeEnd ← node.endAddr p
    if next.startAddr = nodeEnd then
      -- The same node again: it may now touch the region after the one it took in.
      let size ← Word.add p node.size next.size
      coalesceFrom p ⟨node.addr, size⟩ rest
    else
      let rest ← coalesceFrom p next rest
      pure (node :: rest)

def coalesce (p : Profile) : List ListNode → Panics (List ListNode)
  | [] => pure []
  | node :: next => coalesceFrom p node next

def addFreeRegion (p : Profile) (self : LinkedListAllocator) (addr size : Nat) :
    Panics LinkedListAllocator := do
  p.debugAssert (pure (decide (minBlock ≤ size))) "free region smaller than a node"
  p.debugAssert (do return decide ((← alignUp p addr nodeAlign) = addr))
    "free region misaligned for a node"
  p.debugAssert
    (pure (decide (self.heapStart ≤ addr ∧ Word.satAdd addr size ≤ self.heapEnd)))
    "free region outside the heap"
  let head ← splice p addr size self.head
  let head ← coalesce p head
  pure { self with head }

def init (p : Profile) (heapStart heapSize : Nat) : Panics LinkedListAllocator := do
  let self : LinkedListAllocator :=
    { head := [], heapStart, heapEnd := Word.satAdd heapStart heapSize }
  let start ← alignUp p heapStart nodeAlign
  let size := self.heapEnd - start
  if minBlock ≤ size then
    self.addFreeRegion p start size
  else
    pure self

def heapSize (self : LinkedListAllocator) : Nat := self.heapEnd - self.heapStart

def freeRegionCount (self : LinkedListAllocator) : Nat := self.head.length

def freeBytes (self : LinkedListAllocator) : Nat := (self.head.map Span.size).sum

/-- The bounds that `find_region` keeps of a region that fits. -/
structure Fit where
  regionStart : Nat
  allocStart : Nat
  allocEnd : Nat
  regionEnd : Nat
  deriving DecidableEq, Repr

/-- `find_region`'s look at one node. -/
def fit (p : Profile) (size align : Nat) (node : ListNode) : Panics (Option Fit) := do
  let regionStart := node.startAddr
  let regionEnd ← node.endAddr p
  let allocStart ← alignUp p regionStart align
  match Word.checkedAdd allocStart size with
  | some allocEnd =>
    if allocEnd ≤ regionEnd then
      pure (some { regionStart, allocStart, allocEnd, regionEnd })
    else
      pure none
  | none => pure none

/-- The loop of `find_region` from a slot on: the first fit, and the nodes from the slot on with
the fitting one unlinked. -/
def findSlot (p : Profile) (size align : Nat) :
    List ListNode → Panics (Option (Fit × List ListNode))
  | [] => pure none
  | node :: next => do
    match ← fit p size align node with
    | some f =>
      let _removed ← expect (node :: next).head? "region checked above"
      pure (some (f, next))
    | none =>
      let node ← expect (node :: next).head? "checked above"
      match ← findSlot p size align next with
      | some (f, rest) => pure (some (f, node :: rest))
      | none => pure none

def findRegion (p : Profile) (self : LinkedListAllocator) (size align : Nat) :
    Panics (Option Nat × LinkedListAllocator) := do
  match ← findSlot p size align self.head with
  | none => pure (none, self)
  | some (f, head) =>
    let self := { self with head }
    let front ← Word.sub p f.allocStart f.regionStart
    let back ← Word.sub p f.regionEnd f.allocEnd
    let self ← (if minBlock ≤ front then self.addFreeRegion p f.regionStart front else pure self)
    let self ← (if minBlock ≤ back then self.addFreeRegion p f.allocEnd back else pure self)
    pure (some f.allocStart, self)

/-- `alloc`. The null pointer is address `0`. -/
def alloc (p : Profile) (self : LinkedListAllocator) (layout : Layout) :
    Panics (Nat × LinkedListAllocator) := do
  let size ← allocationSize p layout
  let align := allocationAlign layout
  match ← self.findRegion p size align with
  | (some addr, self) => pure (addr, self)
  | (none, self) => pure (0, self)

def dealloc (p : Profile) (self : LinkedListAllocator) (ptr : Nat) (layout : Layout) :
    Panics LinkedListAllocator := do
  let size ← allocationSize p layout
  let addr := ptr
  p.debugAssert
    (pure (decide (self.heapStart ≤ addr ∧ Word.satAdd addr size ≤ self.heapEnd)))
    "dealloc: pointer outside the heap"
  p.debugAssert (do return decide ((← alignUp p addr nodeAlign) = addr))
    "dealloc: pointer not aligned for a free-list node"
  self.addFreeRegion p addr size

end LinkedListAllocator

end Apogee
