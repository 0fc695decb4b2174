import Apogee.Allocator.InMemoryRuns
import Apogee.Allocator.FixedSizeBlockSpec

/-!
# The global allocator in memory

The fixed-size-block allocator parks a block by writing a node into it, so the ten class lists and
the fallback's free list are nodes in one memory, between the blocks that clients store to.

`Rep m a` says that memory holds all eleven lists of `a`. Each call answers as the one on lists and
keeps `Rep`, and it writes to no live block but the one it gets back (`alloc_rep`, `dealloc_rep`).
`globalAlloc_inMemory` has what follows for whole runs.
-/

namespace Apogee

open Verif Span

/-- `FixedSizeBlockAllocator`, with its nodes in memory. The memory is in the fallback's record. -/
structure FixedSizeBlockAllocator.InMemory where
  listHeads : Class → Option Nat
  fallbackAllocator : LinkedListAllocator.InMemory

namespace FixedSizeBlockAllocator.InMemory

def mem (self : InMemory) : Mem := self.fallbackAllocator.mem

def setMem (self : InMemory) (mem : Mem) : InMemory :=
  { self with fallbackAllocator := { self.fallbackAllocator with mem } }

def init (p : Profile) (fuel : Nat) (mem : Mem) (heapStart heapSize : Nat) : Panics InMemory := do
  let fallbackAllocator ← LinkedListAllocator.InMemory.init p fuel mem heapStart heapSize
  pure { listHeads := fun _ => none, fallbackAllocator }

def fallbackAlloc (p : Profile) (fuel : Nat) (self : InMemory) (layout : Layout) :
    Panics (Nat × InMemory) := do
  let (ptr, fallbackAllocator) ← self.fallbackAllocator.alloc p fuel layout
  pure (ptr, { self with fallbackAllocator })

/-- `stats`: the blocks of each class list are counted one by one. -/
def stats (p : Profile) (fuel : Nat) (self : InMemory) : Panics HeapStats := do
  let nodes := self.fallbackAllocator.toNodes
  let cachedBytes ← (List.finRange blockSizes.length).foldlM (fun cachedBytes index =>
    nodes.walk (fun cachedBytes _ => Word.add p cachedBytes (blockSizes.get index)) fuel
      (self.listHeads index) cachedBytes) 0
  let freeBytes ← self.fallbackAllocator.freeBytes p fuel
  let freeBytes ← Word.add p freeBytes cachedBytes
  pure { heapSize := self.fallbackAllocator.heapSize, freeBytes }

/-- `GlobalAlloc::alloc`. The null pointer is address `0`. -/
def alloc (p : Profile) (fuel : Nat) (self : InMemory) (layout : Layout) :
    Panics (Nat × InMemory) :=
  match listIndex layout with
  | some index =>
    match self.listHeads index with
    | some node =>
      let nodes := self.fallbackAllocator.toNodes
      -- `node.take_next()`
      let next := nodes.next node
      let nodes := nodes.setNext node none
      pure (node, { self.setMem nodes.mem with
        listHeads := Function.update self.listHeads index next })
    | none => do
      let blockSize := blockSizes.get index
      let blockAlign := blockSize
      let layout ← expect (Layout.fromSizeAlign blockSize blockAlign) "invalid block layout"
      self.fallbackAlloc p fuel layout
  | none => self.fallbackAlloc p fuel layout

/-- `dealloc` to the fallback allocator. -/
def fallbackDealloc (p : Profile) (fuel : Nat) (self : InMemory) (ptr : Nat) (layout : Layout) :
    Panics InMemory := do
  let fallbackAllocator ← self.fallbackAllocator.dealloc p fuel ptr layout
  pure { self with fallbackAllocator }

/-- `GlobalAlloc::dealloc`. -/
def dealloc (p : Profile) (fuel : Nat) (self : InMemory) (ptr : Nat) (layout : Layout) :
    Panics InMemory :=
  match listIndex layout with
  | some index =>
    if minBlock ≤ blockSizes.get index ∧ nodeAlign ≤ blockSizes.get index then
      let nodes := self.fallbackAllocator.toNodes
      -- `new_node_ptr.write(ListNode::new(BLOCK_SIZES[index]))`
      let nodes := (nodes.setVal ptr (blockSizes.get index)).setNext ptr none
      let head := self.listHeads index
      let nodes := nodes.setNext ptr head
      pure { self.setMem nodes.mem with
        listHeads := Function.update self.listHeads index (some ptr) }
    else
      self.fallbackDealloc p fuel ptr layout
  | none => self.fallbackDealloc p fuel ptr layout

/-- Memory holds the lists of `a`. -/
structure Rep (m : InMemory) (a : FixedSizeBlockAllocator) : Prop where
  fallback : m.fallbackAllocator.Rep a.fallbackAllocator
  parked : ∀ i, m.fallbackAllocator.links.Chain (m.listHeads i)
    (LinkedListAllocator.nodes (a.listHeads i))

end FixedSizeBlockAllocator.InMemory

namespace FixedSizeBlockAllocator

open LinkedListAllocator (nodes)
open LinkedListAllocator.InMemory (Roomy chain_of_changesIn)

variable {p : Profile} {s n fuel : Nat} {a : FixedSizeBlockAllocator} {live : List Block}
  {m : InMemory} {S : Set Nat}

/-! ## Where the nodes lie -/

theorem Ok.size_lt (h : a.Ok s n live) (hfuel : n < fuel) :
    a.fallbackAllocator.heapEnd - a.fallbackAllocator.heapStart < fuel := by
  rw [h.start, h.stop]
  omega

theorem Ok.tracked_parked (h : a.Ok s n live) {i : Class} {node : ListNode}
    (hnode : node ∈ a.listHeads i) : a.fallbackAllocator.Tracked node :=
  h.inv.tracked node
    (List.mem_append_left _ (List.mem_append_right _ (mem_parked.mpr ⟨i, hnode⟩)))

theorem Ok.roomy_parked (h : a.Ok s n live) (i : Class) : Roomy (a.listHeads i) :=
  fun _ hnode => (h.tracked_parked hnode).room

/-- Stores outside the parked blocks keep the class lists. -/
theorem InMemory.Rep.parked_of_changesIn (hrep : m.Rep a) (h : a.Ok s n live)
    (hout : ∀ x ∈ cover a.parked, x ∉ S) {k : LinkedListAllocator.InMemory}
    (hmem : Mem.ChangesIn S m.mem k.mem) (i : Class) :
    k.links.Chain (m.listHeads i) (nodes (a.listHeads i)) := by
  refine chain_of_changesIn (hrep.parked i) (h.roomy_parked i) (fun x hx => hout x ?_) hmem
  obtain ⟨r, hr, hxr⟩ := hx
  exact ⟨r, mem_parked.mpr ⟨i, hr⟩, hxr⟩

/-- Stores outside the parked blocks and the free regions keep all lists. -/
theorem InMemory.Rep.setMem (hrep : m.Rep a) (h : a.Ok s n live)
    (hparked : ∀ x ∈ S, x ∉ cover a.parked) (hfree : ∀ x ∈ S, x ∉ cover a.fallbackAllocator.head)
    {mem : Mem} (hmem : Mem.ChangesIn S m.mem mem) : (m.setMem mem).Rep a :=
  ⟨hrep.fallback.write h.inv.roomy (fun x hx hxS => hfree x hxS hx) hmem,
    fun i => hrep.parked_of_changesIn h (fun x hx hxS => hparked x hxS hx)
      (k := (m.setMem mem).fallbackAllocator) hmem i⟩

/-- A parked block has no free byte. -/
theorem Ok.parked_not_free (h : a.Ok s n live) {x : Nat} (hx : x ∈ cover a.parked) :
    x ∉ cover a.fallbackAllocator.head := by
  obtain ⟨r, hr, hxr⟩ := hx
  exact h.inv.not_free (List.mem_append_right _ hr) hxr

theorem Ok.live_not_free (h : a.Ok s n live) {b : Block} (hb : b ∈ live) {x : Nat}
    (hx : x ∈ b.reserved.bytes) : x ∉ cover a.fallbackAllocator.head :=
  h.inv.not_free (List.mem_append_left _ (List.mem_map_of_mem hb)) hx

/-- A live block has no byte of a parked one. -/
theorem Ok.live_not_parked (h : a.Ok s n live) {b : Block} (hb : b ∈ live) {x : Nat}
    (hx : x ∈ b.reserved.bytes) : x ∉ cover a.parked := by
  rintro ⟨r, hr, hxr⟩
  have hap := (List.pairwise_append.mp (List.pairwise_append.mp h.inv.apart).1).2.2
  exact (hap b.reserved (List.mem_map_of_mem hb) r hr).not_mem hx hxr

/-- The first block of a class is apart from all other parked blocks. -/
theorem Ok.apart_first (h : a.Ok s n live) {i : Class} {node : ListNode} {next : List ListNode}
    (hlist : a.listHeads i = node :: next) :
    ∀ x ∈ parked { a with listHeads := Function.update a.listHeads i next }, node.Apart x := by
  have hperm := parked_update a i node next
  rw [← hlist, Function.update_eq_self] at hperm
  have hap := (List.pairwise_append.mp (List.pairwise_append.mp h.inv.apart).1).2.1
  exact (List.pairwise_cons.mp ((hperm.pairwise_iff Apart.symm).mp hap)).1

/-- The class lists after the change of one of them. -/
theorem forall_class {P : Class → Option Nat → List ListNode → Prop} {f : Class → Option Nat}
    {g : Class → List ListNode} {i : Class} {link : Option Nat} {l : List ListNode}
    (hi : P i link l) (h : ∀ j, j ≠ i → P j (f j) (g j)) (j : Class) :
    P j (Function.update f i link j) (Function.update g i l j) := by
  by_cases hj : j = i
  · subst hj
    rw [Function.update_self, Function.update_self]
    exact hi
  · rw [Function.update_of_ne hj, Function.update_of_ne hj]
    exact h j hj

/-! ## `alloc` -/

theorem InMemory.fallbackAlloc_rep (h : a.Ok s n live) (hrep : m.Rep a) {l : Layout}
    (hl : 0 < l.size) (hfuel : n < fuel) :
    ∃ ptr m' a', m.fallbackAlloc p fuel l = .ok (ptr, m') ∧ a.fallbackAlloc p l = .ok (ptr, a') ∧
      m'.Rep a' ∧ Mem.ChangesIn (cover a.fallbackAllocator.head) m.mem m'.mem := by
  obtain ⟨ptr, k, f, hk, hf, hrep', hmem⟩ := LinkedListAllocator.InMemory.alloc_rep (p := p) h.inv
    hrep.fallback hl (h.size_lt hfuel)
  refine ⟨ptr, { m with fallbackAllocator := k }, { a with fallbackAllocator := f }, ?_, ?_,
    ⟨hrep', fun i => ?_⟩, hmem⟩
  · unfold InMemory.fallbackAlloc
    rw [hk]
    rfl
  · unfold FixedSizeBlockAllocator.fallbackAlloc
    rw [hf]
    rfl
  · exact hrep.parked_of_changesIn h (fun x hx => h.parked_not_free hx) hmem i

/-- Taking the first block of a class. -/
theorem InMemory.unpark_rep (h : a.Ok s n live) (hrep : m.Rep a) {i : Class} {node : ListNode}
    {next : List ListNode} (hlist : a.listHeads i = node :: next) {nodes' : Nodes}
    (hnodes : nodes' = m.fallbackAllocator.setNext node.addr none) :
    Rep { m.setMem nodes'.mem with
        listHeads := Function.update m.listHeads i (m.fallbackAllocator.next node.addr) }
      { a with listHeads := Function.update a.listHeads i next } ∧
      Mem.ChangesIn node.bytes m.mem nodes'.mem := by
  have hmem : node ∈ a.listHeads i := by rw [hlist]; exact .head _
  have hroom := (h.tracked_parked hmem).room
  have hchange : Mem.ChangesIn node.bytes m.mem nodes'.mem := by
    rw [hnodes]
    exact Mem.changesIn_store _ _ (LinkedListAllocator.InMemory.node_mem_bytes hroom).2
  have hin : ∀ x ∈ node.bytes, x ∈ cover a.parked := fun x hx =>
    ⟨node, mem_parked.mpr ⟨i, hmem⟩, hx⟩
  have hap := h.apart_first hlist
  have hrest : m.fallbackAllocator.links.Chain (m.fallbackAllocator.next node.addr)
      (nodes next) := by
    have hchain := hrep.parked i
    rw [hlist] at hchain
    exact hchain.2.2
  -- A class list without the first block does not meet its node.
  have hkeep : ∀ (j : Class) (link : Option Nat) (l : List ListNode),
      (∀ x ∈ l, x ∈ a.listHeads j) → (∀ x ∈ l, node.Apart x) →
      m.fallbackAllocator.links.Chain link (nodes l) →
      (m.setMem nodes'.mem).fallbackAllocator.links.Chain link (nodes l) := by
    intro j link l hsub hl hchain
    refine chain_of_changesIn hchain (fun x hx => h.roomy_parked j x (hsub x hx)) ?_ hchange
    rintro x ⟨r, hr, hxr⟩ hxn
    exact (hl r hr).not_mem hxn hxr
  refine ⟨⟨hrep.fallback.write h.inv.roomy (fun x hx hxn => ?_) hchange, fun j => ?_⟩, hchange⟩
  · exact h.parked_not_free (hin x hxn) hx
  · refine forall_class (P := fun _ link l =>
      (m.setMem nodes'.mem).fallbackAllocator.links.Chain link (nodes l)) ?_ (fun j hj => ?_) j
    · refine hkeep i _ _ (fun x hx => by rw [hlist]; exact .tail _ hx) (fun x hx => ?_) hrest
      exact hap x (mem_parked.mpr ⟨i, by simp [hx]⟩)
    · refine hkeep j _ _ (fun _ hx => hx) (fun x hx => ?_) (hrep.parked j)
      exact hap x (mem_parked.mpr ⟨j, by simp [Function.update_of_ne hj, hx]⟩)

theorem InMemory.alloc_rep (h : a.Ok s n live) (hrep : m.Rep a) {l : Layout} (hl : 0 < l.size)
    (hfuel : n < fuel) :
    ∃ ptr m' a', m.alloc p fuel l = .ok (ptr, m') ∧ a.alloc p l = .ok (ptr, a') ∧ m'.Rep a' ∧
      Mem.ChangesIn (cover a.parked ∪ cover a.fallbackAllocator.head) m.mem m'.mem := by
  unfold InMemory.alloc FixedSizeBlockAllocator.alloc
  cases hi : listIndex l with
  | none =>
    obtain ⟨ptr, m', a', hm, ha, hrep', hmem⟩ := fallbackAlloc_rep (p := p) h hrep hl hfuel
    exact ⟨ptr, m', a', hm, ha, hrep', hmem.mono Set.subset_union_right⟩
  | some i =>
    have hchain := hrep.parked i
    cases hlist : a.listHeads i with
    | nil =>
      rw [hlist] at hchain
      have hhead : m.listHeads i = none := hchain
      have hpos : 0 < (classLayout i).size :=
        Nat.lt_of_lt_of_le (by decide) (blockSizes_bounds i).1
      simp only [hhead, hlist, fromSizeAlign_class, expect_some, Panics.bind_ok]
      obtain ⟨ptr, m', a', hm, ha, hrep', hmem⟩ := fallbackAlloc_rep (p := p) h hrep hpos hfuel
      exact ⟨ptr, m', a', hm, ha, hrep', hmem.mono Set.subset_union_right⟩
    | cons node next =>
      rw [hlist] at hchain
      have hhead : m.listHeads i = some node.addr := hchain.1
      obtain ⟨hrep', hmem⟩ := unpark_rep h hrep hlist rfl
      simp only [hhead, hlist]
      refine ⟨node.addr, _, _, rfl, rfl, hrep', hmem.mono fun x hx => .inl ⟨node, ?_, hx⟩⟩
      exact mem_parked.mpr ⟨i, by rw [hlist]; exact .head _⟩

/-! ## `dealloc` -/

theorem InMemory.fallbackDealloc_rep {b : Block} (h : a.Ok s n (b :: live)) (hrep : m.Rep a)
    (hext : b.layout.reserved = b.layout.extent) (hfuel : n < fuel) :
    ∃ m' a', m.fallbackDealloc p fuel b.ptr b.layout = .ok m' ∧
      a.fallbackDealloc p b.ptr b.layout = .ok a' ∧ m'.Rep a' ∧
      Mem.ChangesIn (b.reserved.bytes ∪ cover a.fallbackAllocator.head) m.mem m'.mem := by
  have hinv := h.inv
  rw [List.map_cons, Block.reserved, hext] at hinv
  obtain ⟨k, f, hk, hf, hrep', hmem⟩ := LinkedListAllocator.InMemory.dealloc_rep (p := p) hinv
    hrep.fallback (h.size_lt hfuel)
  rw [← hext] at hmem
  refine ⟨{ m with fallbackAllocator := k }, { a with fallbackAllocator := f }, ?_, ?_,
    ⟨hrep', fun i => ?_⟩, hmem⟩
  · unfold InMemory.fallbackDealloc
    rw [hk]
    rfl
  · unfold FixedSizeBlockAllocator.fallbackDealloc
    rw [hf]
    rfl
  · refine hrep.parked_of_changesIn h (fun x hx => ?_) hmem i
    rintro (hb | hfree)
    · exact h.live_not_parked (.head _) hb hx
    · exact h.parked_not_free hx hfree

/-- Parking a block in its class. -/
theorem InMemory.park_rep {b : Block} (h : a.Ok s n (b :: live)) (hrep : m.Rep a) {i : Class}
    (hi : listIndex b.layout = some i) (hroom : minBlock ≤ blockSizes.get i) {nodes' : Nodes}
    (hnodes : nodes' = ((m.fallbackAllocator.setVal b.ptr (blockSizes.get i)).setNext b.ptr
      none).setNext b.ptr (m.listHeads i)) :
    Rep { m.setMem nodes'.mem with
        listHeads := Function.update m.listHeads i (some b.ptr) }
      { a with
        listHeads := Function.update a.listHeads i (⟨b.ptr, blockSizes.get i⟩ :: a.listHeads i) } ∧
      Mem.ChangesIn b.reserved.bytes m.mem nodes'.mem := by
  have hspan : b.reserved = ⟨b.ptr, blockSizes.get i⟩ := by
    simp only [Block.reserved, Layout.reserved, hi, Nat.max_eq_right hroom]
  have hwords := LinkedListAllocator.InMemory.node_mem_bytes (r := b.reserved)
    (by rw [hspan]; exact hroom)
  have hchange : Mem.ChangesIn b.reserved.bytes m.mem nodes'.mem := by
    rw [hnodes]
    exact (Mem.changesIn_store m.mem _ hwords.1).trans ((Mem.changesIn_store _ _ hwords.2).trans
      (Mem.changesIn_store _ _ hwords.2))
  have hlink : LinkFits (m.listHeads i) := by
    refine LinkedListAllocator.InMemory.linkFits_of_chain (hrep.parked i) fun r hr => ?_
    exact (h.tracked_parked hr).region h.inv.start_pos h.inv.sound.end_lt
  have hkeep : ∀ j, (m.setMem nodes'.mem).fallbackAllocator.links.Chain (m.listHeads j)
      (nodes (a.listHeads j)) := fun j => by
    have hmem : Mem.ChangesIn b.reserved.bytes m.mem
      (m.setMem nodes'.mem).fallbackAllocator.mem := hchange
    exact hrep.parked_of_changesIn h (fun x hx hb => h.live_not_parked (.head _) hb hx) hmem j
  refine ⟨⟨hrep.fallback.write h.inv.roomy (fun x hx hb => ?_) hchange, fun j => ?_⟩, hchange⟩
  · exact h.live_not_free (.head _) hb hx
  · refine forall_class (P := fun _ link l =>
      (m.setMem nodes'.mem).fallbackAllocator.links.Chain link (nodes l)) ?_ (fun j _ => hkeep j) j
    -- The node that was written, in front of the old list.
    have hbound := (blockSizes_bounds i).2
    have hval : ((m.fallbackAllocator.setVal b.ptr (blockSizes.get i)).setNext b.ptr
        none).links.cell b.ptr = ⟨blockSizes.get i, none⟩ := by
      rw [Nodes.cell_setNext _ _ linkFits_none]
      exact congrArg (fun c : Cell Nat => Cell.mk c.val none)
        (Nodes.cell_setVal m.fallbackAllocator.toNodes b.ptr
          (show blockSizes.get i < 2 ^ 64 by omega))
    have hcell : nodes'.links.cell b.ptr = ⟨blockSizes.get i, m.listHeads i⟩ := by
      rw [hnodes, Nodes.cell_setNext _ _ hlink]
      exact congrArg (fun c : Cell Nat => Cell.mk c.val (m.listHeads i)) hval
    have hcell' : (m.setMem nodes'.mem).fallbackAllocator.links.cell b.ptr =
        ⟨blockSizes.get i, m.listHeads i⟩ := hcell
    refine ⟨rfl, ?_, ?_⟩
    · rw [hcell']
    · rw [hcell']
      exact hkeep i

theorem InMemory.dealloc_rep {b : Block} (h : a.Ok s n (b :: live)) (hrep : m.Rep a)
    (hfuel : n < fuel) :
    ∃ m' a', m.dealloc p fuel b.ptr b.layout = .ok m' ∧ a.dealloc p b.ptr b.layout = .ok a' ∧
      m'.Rep a' ∧
      Mem.ChangesIn (b.reserved.bytes ∪ cover a.fallbackAllocator.head) m.mem m'.mem := by
  unfold InMemory.dealloc FixedSizeBlockAllocator.dealloc
  cases hi : listIndex b.layout with
  | none => exact fallbackDealloc_rep h hrep (by simp [Layout.reserved, hi]) hfuel
  | some i =>
    by_cases hroom : minBlock ≤ blockSizes.get i ∧ nodeAlign ≤ blockSizes.get i
    · obtain ⟨hrep', hmem⟩ := park_rep h hrep hi hroom.1 rfl
      simp only [if_pos hroom]
      exact ⟨_, _, rfl, rfl, hrep', hmem.mono Set.subset_union_left⟩
    · simp only [if_neg hroom]
      exact fallbackDealloc_rep h hrep (reserved_eq_extent hi hroom) hfuel

/-! ## `stats` -/

theorem length_le_total {l : List Span} (hpos : ∀ r ∈ l, 0 < r.size) : l.length ≤ total l := by
  induction l with
  | nil => exact Nat.le_refl _
  | cons r l ih =>
    obtain ⟨hr, hl⟩ := List.forall_mem_cons.mp hpos
    have hle := ih hl
    rw [List.length_cons, total_cons]
    omega

/-- What is free has no more bytes than the heap. -/
theorem Ok.total_le (h : a.Ok s n live) : total a.parked + total a.fallbackAllocator.head ≤ n := by
  have hap := h.inv.apart
  have htr := h.inv.tracked
  rw [List.append_assoc] at hap htr
  have hle := total_le_of_apart (List.pairwise_append.mp hap).2.1
    (fun r hr => (htr r (List.mem_append_right _ hr)).pos)
    (fun r hr => (htr r (List.mem_append_right _ hr)).inside)
  rw [total_append, h.start, h.stop] at hle
  omega

theorem Ok.length_le (h : a.Ok s n live) (i : Class) : (a.listHeads i).length ≤ n := by
  have hle : (a.listHeads i).length ≤ a.parked.length :=
    (List.sublist_flatten_of_mem (List.mem_map_of_mem (List.mem_finRange i))).length_le
  have htotal := length_le_total (l := a.parked) fun r hr => by
    obtain ⟨j, hj⟩ := mem_parked.mp hr
    exact (h.tracked_parked hj).pos
  have := h.total_le
  omega

/-- The loop over one class list adds the block size once for each block. -/
theorem InMemory.walk_class (h : a.Ok s n live) (hrep : m.Rep a) (hfuel : n < fuel) (i : Class)
    (acc : Nat) (hacc : acc + ((a.listHeads i).map fun _ => blockSizes.get i).sum < 2 ^ 64) :
    m.fallbackAllocator.walk (fun cached _ => Word.add p cached (blockSizes.get i)) fuel
      (m.listHeads i) acc =
      .ok (acc + ((a.listHeads i).map fun _ => blockSizes.get i).sum) := by
  have hlen : (nodes (a.listHeads i)).length ≤ fuel := by
    have hle := h.length_le i
    rw [LinkedListAllocator.nodes, List.length_map]
    omega
  have hmap : ((nodes (a.listHeads i)).map fun _ => blockSizes.get i) =
      (a.listHeads i).map fun _ => blockSizes.get i := by
    rw [LinkedListAllocator.nodes, List.map_map]
    rfl
  rw [Nodes.walk_eq _ (hrep.parked i) hlen,
    LinkedListAllocator.foldlM_sum (f := fun _ : Nat × Nat => blockSizes.get i), hmap]
  · exact fun acc x h => Word.add_of_lt h
  · rwa [hmap]

theorem InMemory.stats_rep (h : a.Ok s n live) (hn : s + n ≤ 2 ^ 63) (hrep : m.Rep a)
    (hfuel : n < fuel) : m.stats p fuel = .ok a.stats := by
  have hfree : m.fallbackAllocator.freeBytes p fuel = .ok a.fallbackAllocator.freeBytes :=
    LinkedListAllocator.InMemory.freeBytes_rep h.inv hrep.fallback (h.size_lt hfuel)
  have hstats : a.stats.freeBytes < 2 ^ 64 := by
    have hle := h.total_le
    have heq : a.fallbackAllocator.freeBytes = total a.fallbackAllocator.head := rfl
    rw [h.freeBytes_eq, heq]
    omega
  have hsum : a.fallbackAllocator.freeBytes + ((List.finRange blockSizes.length).map fun i =>
      ((a.listHeads i).map fun _ => blockSizes.get i).sum).sum < 2 ^ 64 := hstats
  have hsize : m.fallbackAllocator.heapSize = a.fallbackAllocator.heapSize := by
    unfold LinkedListAllocator.InMemory.heapSize LinkedListAllocator.heapSize
    rw [hrep.fallback.start, hrep.fallback.stop]
  unfold InMemory.stats
  simp only
  rw [LinkedListAllocator.foldlM_sum (fun acc i hacc => walk_class h hrep hfuel i acc hacc) _ 0
    (by omega), Panics.bind_ok, hfree, Panics.bind_ok, Nat.zero_add, Word.add_of_lt hsum,
    Panics.bind_ok, hsize]
  rfl

/-! ## Whole runs -/

/-- The allocator over the heap `[s, s + n)` of the memory `mem`. -/
def memApi (p : Profile) (fuel : Nat) (mem : Mem) (s n : Nat) : MemApi InMemory where
  init := InMemory.init p fuel mem s n
  alloc := InMemory.alloc p fuel
  dealloc := InMemory.dealloc p fuel
  mem := InMemory.mem
  setMem := InMemory.setMem
  mem_setMem _ _ := rfl

theorem InMemory.init_rep (p : Profile) (mem : Mem) (hs : 0 < s) (hn : s + n ≤ 2 ^ 63)
    (hfuel : n < fuel) : ∃ m a, InMemory.init p fuel mem s n = .ok m ∧
      FixedSizeBlockAllocator.init p .empty s n = .ok a ∧ m.Rep a := by
  obtain ⟨k, f, hk, hf, hrep⟩ := LinkedListAllocator.InMemory.init_rep p mem hs hn hfuel
  refine ⟨⟨fun _ => none, k⟩, ⟨fun _ => [], f⟩, ?_, ?_, hrep, fun _ => rfl⟩
  · unfold InMemory.init
    rw [hk]
    rfl
  · unfold FixedSizeBlockAllocator.init
    rw [hf]
    rfl

theorem nodeAlign_dvd_reserved (l : Layout) : nodeAlign ∣ l.reserved := by
  unfold Layout.reserved
  cases listIndex l with
  | none => exact dvd_roundUp _ _
  | some i =>
    show nodeAlign ∣ max minBlock (blockSizes.get i)
    revert i
    decide

theorem memApi_refines (p : Profile) (mem : Mem) (hs : 0 < s) (hn : s + n ≤ 2 ^ 63)
    (hfuel : n < fuel) :
    (memApi p fuel mem s n).Refines (api p s n) (Ok s n) InMemory.Rep Layout.reserved where
  keeps := keeps_ok hs hn
  init := InMemory.init_rep p mem hs hn hfuel
  alloc hrep hok hl := by
    obtain ⟨ptr, m', a', hm, ha, hrep', hmem⟩ := InMemory.alloc_rep (p := p) hok hrep hl hfuel
    refine ⟨ptr, m', a', hm, ha, hrep', untouched_of_changesIn hmem fun b hb x hx => ?_⟩
    rintro (hparked | hfree)
    · exact hok.live_not_parked hb hx hparked
    · exact hok.live_not_free hb hx hfree
  dealloc hrep hok := by
    obtain ⟨m', a', hm, ha, hrep', hmem⟩ := InMemory.dealloc_rep (p := p) hok hrep hfuel
    refine ⟨m', a', hm, ha, hrep', untouched_of_changesIn hmem fun b hb x hx => ?_⟩
    rintro (hfirst | hfree)
    · exact hok.inv.not_first (List.mem_append_left _ (List.mem_map_of_mem hb)) hx hfirst
    · exact hok.live_not_free (.tail _ hb) hx hfree
  store v hrep hok hb ha := by
    exact hrep.setMem hok (fun x hx => hok.live_not_parked hb hx)
      (fun x hx => hok.live_not_free hb hx) (ha.changesIn _ v (Layout.size_le_reserved _))
  word hok hb ha := by
    have htr := hok.inv.tracked _
      (List.mem_append_left _ (List.mem_append_left _ (List.mem_map_of_mem hb)))
    exact ha.add_le htr.aligned (Layout.size_le_reserved _) (nodeAlign_dvd_reserved _)

/-- **The global allocator works in the memory it manages.** Over every heap that ends at or below
`2 ^ 63` and any contents of memory, take any sequence of `alloc`, contract-abiding `dealloc` and
stores of clients into their live blocks, whatever they store. The allocator that keeps its ten
class lists and the fallback's free list as nodes in that memory always mirrors the one on lists: no
call panics or loops, every call answers the same, `stats` reports the same without an overflow, no
call touches the contents of another live block, and each live block holds what was last stored in
it. -/
theorem globalAlloc_inMemory (p : Profile) (s n fuel : Nat) (mem : Mem) (hs : 0 < s)
    (hn : s + n ≤ 2 ^ 63) (hfuel : n < fuel) :
    (∃ m, InMemory.init p fuel mem s n = .ok m) ∧
    ∀ st, (memApi p fuel mem s n).system.Reach st → ∃ a,
      MemApi.Mirrors (memApi p fuel mem s n) (api p s n) InMemory.Rep Layout.reserved st a ∧
      st.heap.stats p fuel = .ok a.stats := by
  have hr := memApi_refines p mem hs hn hfuel
  obtain ⟨m, -, hm, -⟩ := hr.init
  refine ⟨⟨m, hm⟩, fun st hst => ?_⟩
  obtain ⟨a, ha⟩ := hr.mirrors hst
  exact ⟨a, ha, InMemory.stats_rep (hr.keeps.reach ha.reach) hn ha.rep hfuel⟩

/-- On the kernel's heap: a block of 24 bytes holds what its owner stored. -/
theorem globalAlloc_inMemory_kernelHeap :
    ∃ st, (memApi .dev 102401 (fun _ => 0) 0x444444440000 (100 * 1024)).system.Reach st ∧
      st.live = [⟨0x444444440000, ⟨24, 8, ⟨3, rfl⟩, by decide⟩⟩] ∧
      st.heap.mem 0x444444440008 = 7 := by
  have h0 : (memApi .dev 102401 (fun _ => 0) 0x444444440000 (100 * 1024)).system.Reach
      ⟨⟨_, []⟩, fun _ => none⟩ := .init ⟨rfl, rfl, rfl⟩
  have h1 := h0.step (.alloc (l := ⟨24, 8, ⟨3, rfl⟩, by decide⟩) (by decide) rfl (by decide))
  have h2 := h1.step (.store (a := 0x444444440008) (v := 7) (.head _) (by decide))
  obtain ⟨a, ha, -⟩ := (globalAlloc_inMemory .dev 0x444444440000 (100 * 1024) 102401 (fun _ => 0)
    (by decide) (by decide) (by decide)).2 _ h2
  exact ⟨_, h2, rfl, (ha.written _ _ (Function.update_self ..)).2⟩

/-! ## What a client relies on -/

/-- The bytes of the heap that are in no live block. -/
def idle (s n : Nat) (live : List Block) : Set Nat :=
  fun x => (s ≤ x ∧ x < s + n) ∧ ∀ b ∈ live, x ∉ b.reserved.bytes

theorem idle_mono {live' : List Block} (h : ∀ b ∈ live', b ∈ live) :
    idle s n live ⊆ idle s n live' :=
  fun _ hx => ⟨hx.1, fun b hb => hx.2 b (h b hb)⟩

/-- The allocator in memory serves the blocks `live`: it mirrors a run on lists that has them. -/
def InMemory.Serves (p : Profile) (s n : Nat) (m : InMemory) (live : List Block) : Prop :=
  ∃ a, (api p s n).system.Reach ⟨a, live⟩ ∧ m.Rep a

theorem Ok.idle_of_parked (h : a.Ok s n live) {x : Nat} (hx : x ∈ cover a.parked) :
    x ∈ idle s n live := by
  obtain ⟨r, hr, hxr⟩ := hx
  obtain ⟨i, hi⟩ := mem_parked.mp hr
  obtain ⟨hlo, hhi⟩ := (h.tracked_parked hi).inside
  rw [h.start] at hlo
  rw [h.stop] at hhi
  exact ⟨⟨hlo.trans hxr.1, hxr.2.trans_le hhi⟩,
    fun b hb hxb => h.live_not_parked hb hxb ⟨r, hr, hxr⟩⟩

theorem Ok.idle_of_free (h : a.Ok s n live) {x : Nat} (hx : x ∈ cover a.fallbackAllocator.head) :
    x ∈ idle s n live := by
  obtain ⟨r, hr, hxr⟩ := hx
  obtain ⟨hlo, hhi⟩ := (h.inv.tracked r (List.mem_append_right _ hr)).inside
  rw [h.start] at hlo
  rw [h.stop] at hhi
  exact ⟨⟨hlo.trans hxr.1, hxr.2.trans_le hhi⟩, fun b hb hxb => h.live_not_free hb hxb ⟨r, hr, hxr⟩⟩

theorem Ok.inside (h : a.Ok s n live) {b : Block} (hb : b ∈ live) :
    b.reserved.Inside s (s + n) := by
  have hin := (h.inv.tracked _
    (List.mem_append_left _ (List.mem_append_left _ (List.mem_map_of_mem hb)))).inside
  rwa [h.start, h.stop] at hin

namespace InMemory.Serves

variable (hs : 0 < s) (hn : s + n ≤ 2 ^ 63) (hfuel : n < fuel)

include hs hn

theorem inside (h : m.Serves p s n live) {b : Block} (hb : b ∈ live) :
    b.reserved.Inside s (s + n) := by
  obtain ⟨a, hreach, -⟩ := h
  exact ((keeps_ok hs hn).reach hreach).inside hb

/-- Different live blocks have no byte in common. -/
theorem apart_of_ne (h : m.Serves p s n live) {b c : Block} (hb : b ∈ live) (hc : c ∈ live)
    (hne : b ≠ c) : b.reserved.Apart c.reserved := by
  obtain ⟨a, hreach, -⟩ := h
  have hok := ((keeps_ok hs hn).reach hreach).perm (List.perm_cons_erase hb)
  have hc' : c ∈ live.erase b := (List.mem_erase_of_ne hne.symm).mpr hc
  have hap := (List.pairwise_append.mp (List.pairwise_append.mp hok.inv.apart).1).1
  exact (List.pairwise_cons.mp hap).1 _ (List.mem_map_of_mem hc')

theorem pos (h : m.Serves p s n live) {b : Block} (hb : b ∈ live) : 0 < b.reserved.size := by
  obtain ⟨a, hreach, -⟩ := h
  have hok := (keeps_ok hs hn).reach hreach
  exact (hok.inv.tracked _
    (List.mem_append_left _ (List.mem_append_left _ (List.mem_map_of_mem hb)))).pos

/-- A new block is not one of the old ones. -/
theorem notMem {b : Block} (h : m.Serves p s n (b :: live)) : b ∉ live := by
  intro hb
  have hpos := h.pos hs hn (.head _)
  obtain ⟨a, hreach, -⟩ := h
  have hok := (keeps_ok hs hn).reach hreach
  have hap := (List.pairwise_append.mp (List.pairwise_append.mp hok.inv.apart).1).1
  have hself := (List.pairwise_cons.mp hap).1 _ (List.mem_map_of_mem hb)
  have hmem : b.ptr ∈ b.reserved.bytes := by
    rw [mem_bytes, stop]
    exact ⟨Nat.le_refl _, Nat.lt_add_of_pos_right hpos⟩
  exact hself.not_mem hmem hmem

/-- Live blocks that are different have no more bytes than the heap. -/
theorem total_le (h : m.Serves p s n live) {bs : List Block} (hbs : bs.Nodup)
    (hsub : ∀ b ∈ bs, b ∈ live) : total (bs.map Block.reserved) ≤ n := by
  have hap : (bs.map Block.reserved).Pairwise Apart :=
    List.pairwise_map.mpr (hbs.imp_of_mem fun hb hc hne =>
      h.apart_of_ne hs hn (hsub _ hb) (hsub _ hc) hne)
  have hpos : ∀ r ∈ bs.map Block.reserved, 0 < r.size := by
    intro r hr
    obtain ⟨b, hb, rfl⟩ := List.mem_map.mp hr
    exact h.pos hs hn (hsub b hb)
  have hle := total_le_of_apart hap hpos fun r hr => by
    obtain ⟨b, hb, rfl⟩ := List.mem_map.mp hr
    exact h.inside hs hn (hsub b hb)
  omega

/-- Stores outside the idle bytes are no concern of the allocator. -/
theorem setMem (h : m.Serves p s n live) (hS : ∀ x ∈ S, x ∉ idle s n live) {mem : Mem}
    (hmem : Mem.ChangesIn S m.mem mem) : (m.setMem mem).Serves p s n live := by
  obtain ⟨a, hreach, hrep⟩ := h
  have hok := (keeps_ok hs hn).reach hreach
  exact ⟨a, hreach, hrep.setMem hok (fun x hx hp => hS x hx (hok.idle_of_parked hp))
    (fun x hx hf => hS x hx (hok.idle_of_free hf)) hmem⟩

include hfuel

/-- An `alloc` writes to idle bytes only. -/
theorem alloc (h : m.Serves p s n live) {l : Layout} (hl : 0 < l.size) {ptr : Nat} {m' : InMemory}
    (he : m.alloc p fuel l = .ok (ptr, m')) :
    m'.Serves p s n (if ptr = 0 then live else ⟨ptr, l⟩ :: live) ∧
      Mem.ChangesIn (idle s n live) m.mem m'.mem := by
  obtain ⟨a, hreach, hrep⟩ := h
  have hok := (keeps_ok hs hn).reach hreach
  obtain ⟨ptr', k, a', hm, ha, hrep', hmem⟩ := alloc_rep (p := p) hok hrep hl hfuel
  obtain ⟨rfl, rfl⟩ := Prod.mk.inj (Except.ok.inj (hm.symm.trans he))
  refine ⟨?_, hmem.mono ?_⟩
  · by_cases h0 : ptr' = 0
    · subst h0
      exact ⟨a', hreach.step (.allocNull hl ha), hrep'⟩
    · rw [if_neg h0]
      exact ⟨a', hreach.step (.alloc hl ha h0), hrep'⟩
  · exact Set.union_subset (fun x hx => hok.idle_of_parked hx) fun x hx => hok.idle_of_free hx

/-- A `dealloc` returns, and writes to bytes only that are idle after it. -/
theorem dealloc (h : m.Serves p s n live) {b : Block} (hb : b ∈ live) :
    ∃ m', m.dealloc p fuel b.ptr b.layout = .ok m' ∧ m'.Serves p s n (live.erase b) ∧
      Mem.ChangesIn (idle s n (live.erase b)) m.mem m'.mem := by
  obtain ⟨a, hreach, hrep⟩ := h
  have hok := ((keeps_ok hs hn).reach hreach).perm (List.perm_cons_erase hb)
  obtain ⟨m', a', hm, ha, hrep', hmem⟩ := dealloc_rep (p := p) hok hrep hfuel
  refine ⟨m', hm, ⟨a', hreach.step (.dealloc hb ha), hrep'⟩, hmem.mono ?_⟩
  refine Set.union_subset (fun x hx => ?_) fun x hx => ?_
  · obtain ⟨hlo, hhi⟩ := hok.inside (.head _)
    refine ⟨⟨hlo.trans hx.1, hx.2.trans_le hhi⟩, fun c hc hxc => ?_⟩
    exact hok.inv.not_first (List.mem_append_left _ (List.mem_map_of_mem hc)) hxc hx
  · exact idle_mono (fun c hc => .tail _ hc) (hok.idle_of_free hx)

end InMemory.Serves

end FixedSizeBlockAllocator

end Apogee
