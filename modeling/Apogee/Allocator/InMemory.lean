import Apogee.Lib.Nodes
import Apogee.Allocator.Coalesce

/-!
# The free list in the memory it manages

`LinkedListAllocator` has its free list as a list. In the source a node is written into the free
region it describes, and the loops walk and rewire the nodes through a pointer to a slot. Here the
same functions work on the words of memory: a bad store would change a node, or a live block.

`Rep m a` relates the two. Each function of this module refines the one of the same name on lists:
it returns the same, leaves memory that holds the new list, and changes no word outside the free
regions and the block that it is given (`addFreeRegion_rep`, `findRegion_rep`). The loops have a
bound on their body runs; the size of the heap is enough.
-/

namespace Apogee

open Verif Span

/-- `LinkedListAllocator`, with its nodes in memory. -/
structure LinkedListAllocator.InMemory extends Nodes where
  heapStart : Nat
  heapEnd : Nat

/-! ## Passes of `coalesce` -/

namespace LinkedListAllocator.Pass

variable {m₀ m m' : Links Nat} {slot : Slot} {l done rest : List ListNode}

/-- A pass depends on the nodes that it still has. Something touches, so memory may have changed. -/
theorem congr (h : Pass m₀ l done rest m slot) (hhead : m'.head = m.head)
    (hcell : ∀ x ∈ nodes (done ++ rest), m'.cell x.1 = m.cell x.1) (htouch : ¬ Gapped l) :
    Pass m₀ l done rest m' slot := by
  rw [nodes_append] at hcell
  have hdone : ∀ x ∈ nodes done, m'.cell x.1 = m.cell x.1 :=
    fun x hx => hcell x (List.mem_append_left _ hx)
  have hs : m'.read .head = m.read .head := hhead
  refine ⟨h.behind.frame hs hdone, ?_, h.regions, h.joined, fun hg => absurd hg htouch⟩
  rw [h.behind.read_end hs hdone]
  exact h.ahead.frame fun x hx => hcell x (List.mem_append_right _ hx)

theorem cover_eq (h : Pass m₀ l done rest m slot) :
    cover (done ++ rest) = cover l := by
  have hjoined := congrArg cover h.joined
  rw [cover_fuse] at hjoined
  rw [← hjoined]
  ext x
  have hfuse := Set.ext_iff.mp (cover_fuse rest) x
  simp only [mem_cover, List.mem_append, or_and_right, exists_or] at hfuse ⊢
  rw [hfuse]

end LinkedListAllocator.Pass

/-! ## The functions -/

namespace LinkedListAllocator.InMemory

/-- The loop of `add_free_region`: the first slot that does not lead to a region before `addr`. -/
def insertSlot (p : Profile) (m : Nodes) (addr : Nat) : Nat → Slot → Panics Slot
  | 0, _ => outOfFuel
  | fuel + 1, slot =>
    match m.read slot with
    | some node =>
      if node < addr then do
        p.debugAssert (do return decide ((← Word.add p node (m.val node)) ≤ addr))
          "free region overlaps an existing region"
        insertSlot p m addr fuel (.next node)
      else
        pure slot
    | none => pure slot

/-- `add_free_region`'s splice of a header for the new region. -/
def spliceNode (m : Nodes) (slot : Slot) (addr size : Nat) : Nodes :=
  -- `(*slot).take()`
  let next := m.read slot
  let m := m.write slot none
  -- `node.write(ListNode { size, next })`
  let m := (m.setVal addr size).setNext addr next
  m.write slot (some addr)

/-- `node` takes in `next`, the node after it. -/
def absorb (p : Profile) (m : Nodes) (node next : Nat) : Panics Nodes := do
  -- `node.next.take()`
  let m := m.setNext node none
  let size ← Word.add p (m.val node) (m.val next)
  let m := m.setVal node size
  -- `next.next.take()`
  let rest := m.next next
  let m := m.setNext next none
  pure (m.setNext node rest)

/-- The loop of `coalesce`, from a slot on. -/
def coalesce (p : Profile) : Nat → Slot → Nodes → Panics Nodes
  | 0, _, _ => outOfFuel
  | fuel + 1, slot, m =>
    match m.read slot with
    | none => pure m
    | some node => do
      let nextBounds := m.next node
      let merge ← (match nextBounds with
        | some start => do return decide (start = (← Word.add p node (m.val node)))
        | none => pure false)
      if merge then
        let next ← expect (m.next node) "merge checked above"
        let m ← absorb p m node next
        coalesce p fuel slot m
      else
        coalesce p fuel (.next node) m

def addFreeRegion (p : Profile) (fuel : Nat) (self : InMemory) (addr size : Nat) :
    Panics InMemory := do
  p.debugAssert (pure (decide (minBlock ≤ size))) "free region smaller than a node"
  p.debugAssert (do return decide ((← alignUp p addr nodeAlign) = addr))
    "free region misaligned for a node"
  p.debugAssert
    (pure (decide (self.heapStart ≤ addr ∧ Word.satAdd addr size ≤ self.heapEnd)))
    "free region outside the heap"
  let slot ← insertSlot p self.toNodes addr fuel .head
  let m ← coalesce p fuel .head (spliceNode self.toNodes slot addr size)
  pure { self with toNodes := m }

def init (p : Profile) (fuel : Nat) (mem : Mem) (heapStart heapSize : Nat) : Panics InMemory := do
  let self : InMemory :=
    { head := none, mem, heapStart, heapEnd := Word.satAdd heapStart heapSize }
  let start ← alignUp p heapStart nodeAlign
  let size := self.heapEnd - start
  if minBlock ≤ size then
    self.addFreeRegion p fuel start size
  else
    pure self

def heapSize (self : InMemory) : Nat := self.heapEnd - self.heapStart

def freeRegionCount (p : Profile) (fuel : Nat) (self : InMemory) : Panics Nat :=
  self.walk (fun count _ => Word.add p count 1) fuel self.head 0

def freeBytes (p : Profile) (fuel : Nat) (self : InMemory) : Panics Nat :=
  self.walk (fun bytes node => Word.add p bytes (self.val node)) fuel self.head 0

/-- `find_region`'s removal of the region that a slot leads to. -/
def unlink (m : Nodes) (slot : Slot) : Panics Nodes := do
  let removed ← expect (m.read slot) "region checked above"
  -- `slot.take()`
  let m := m.write slot none
  -- `removed.next.take()`
  let successor := m.next removed
  let m := m.setNext removed none
  pure (m.write slot successor)

/-- The end of `find_region`: the leftovers of the region go back. -/
def giveBackRest (p : Profile) (fuel : Nat) (self : InMemory) (f : Fit) :
    Panics (Option Nat × InMemory) := do
  let front ← Word.sub p f.allocStart f.regionStart
  let back ← Word.sub p f.regionEnd f.allocEnd
  let self ←
    (if minBlock ≤ front then self.addFreeRegion p fuel f.regionStart front else pure self)
  let self ← (if minBlock ≤ back then self.addFreeRegion p fuel f.allocEnd back else pure self)
  pure (some f.allocStart, self)

/-- `find_region`, from a slot on. -/
def findRegion (p : Profile) (fuel : Nat) (self : InMemory) (size align : Nat) :
    Nat → Slot → Panics (Option Nat × InMemory)
  | 0, _ => outOfFuel
  | n + 1, slot =>
    match self.read slot with
    | none => pure (none, self)
    | some node => do
      match ← fit p size align ⟨node, self.val node⟩ with
      | some f =>
        let m ← unlink self.toNodes slot
        giveBackRest p fuel { self with toNodes := m } f
      | none =>
        let node ← expect (self.read slot) "checked above"
        findRegion p fuel self size align n (.next node)

/-- `alloc`. The null pointer is address `0`. -/
def alloc (p : Profile) (fuel : Nat) (self : InMemory) (layout : Layout) :
    Panics (Nat × InMemory) := do
  let size ← allocationSize p layout
  let align := allocationAlign layout
  match ← self.findRegion p fuel size align fuel .head with
  | (some addr, self) => pure (addr, self)
  | (none, self) => pure (0, self)

def dealloc (p : Profile) (fuel : Nat) (self : InMemory) (ptr : Nat) (layout : Layout) :
    Panics InMemory := do
  let size ← allocationSize p layout
  let addr := ptr
  p.debugAssert
    (pure (decide (self.heapStart ≤ addr ∧ Word.satAdd addr size ≤ self.heapEnd)))
    "dealloc: pointer outside the heap"
  p.debugAssert (do return decide ((← alignUp p addr nodeAlign) = addr))
    "dealloc: pointer not aligned for a free-list node"
  self.addFreeRegion p fuel addr size

/-- Memory holds the free list of `a`. -/
structure Rep (m : InMemory) (a : LinkedListAllocator) : Prop where
  holds : Holds m.links a.head
  start : m.heapStart = a.heapStart
  stop : m.heapEnd = a.heapEnd

/-! ## Nodes of regions -/

/-- The regions have room for a node each, so no two nodes share a word. -/
def Roomy (l : List ListNode) : Prop := ∀ r ∈ l, minBlock ≤ r.size

variable {p : Profile} {m : Nodes} {slot : Slot} {r s b : ListNode}
  {l pre post done rest : List ListNode} {fuel : Nat} {S : Set Nat}

theorem spaced_of_ordered (h : Ordered l) (hroom : Roomy l) :
    (nodes l).Pairwise fun x y => Spaced x.1 y.1 := by
  refine List.pairwise_map.mpr (h.imp_of_mem fun {r s} hr _ hrs => .inl ?_)
  have hsize : 16 ≤ r.size := hroom r hr
  unfold stop at hrs
  omega

theorem mem_nodes {x : Nat × Nat} : x ∈ nodes l ↔ ∃ r ∈ l, (r.addr, r.size) = x :=
  List.mem_map

/-- Every region takes a byte of the heap. -/
theorem length_le {lo hi : Nat} (h : Ordered l) (hroom : Roomy l) (hin : ∀ r ∈ l, r.Inside lo hi) :
    l.length ≤ hi - lo := by
  induction l generalizing lo with
  | nil => exact Nat.zero_le _
  | cons r l ih =>
    obtain ⟨hr, hl⟩ := List.pairwise_cons.mp h
    obtain ⟨hlo, hhi⟩ := hin r (.head _)
    have hsize : 16 ≤ r.size := hroom r (.head _)
    have hrest := ih hl (fun s hs => hroom s (.tail _ hs)) fun s hs =>
      ⟨hr s hs, (hin s (.tail _ hs)).2⟩
    unfold stop at *
    rw [List.length_cons]
    omega

/-- Both words of a region's node are in the region. -/
theorem node_mem_bytes (h : minBlock ≤ r.size) : r.addr ∈ r.bytes ∧ r.addr + 8 ∈ r.bytes := by
  have hsize : 16 ≤ r.size := h
  simp only [mem_bytes, stop]
  omega

theorem linkFits_of_chain {m : Links Nat} {link : Option Nat} (h : m.Chain link (nodes l))
    (hreg : ∀ r ∈ l, Region r) : LinkFits link := by
  cases l with
  | nil =>
    obtain rfl : link = none := h
    exact linkFits_none
  | cons r l =>
    obtain ⟨rfl, -, -⟩ := h
    obtain ⟨hpos, hsize, hstop⟩ := hreg r (.head _)
    unfold stop at hstop
    exact linkFits_some hpos (by omega)

/-- Stores outside the regions keep their nodes. -/
theorem chain_of_changesIn {link : Option Nat} (h : m.links.Chain link (nodes l)) (hroom : Roomy l)
    (hout : ∀ x ∈ cover l, x ∉ S) {m' : Nodes} (hmem : Mem.ChangesIn S m.mem m'.mem) :
    m'.links.Chain link (nodes l) := by
  refine h.frame fun x hx => ?_
  obtain ⟨r, hr, rfl⟩ := mem_nodes.mp hx
  have hsize : 16 ≤ r.size := hroom r hr
  refine Nodes.cell_of_changesIn hmem fun y h1 h2 => hout y ⟨r, hr, ?_⟩
  simp only [mem_bytes, stop]
  omega

/-! ## The splice -/

theorem insertSlot_eq {addr : Nat} (haddr : addr < 2 ^ 64)
    (h : m.links.Chain (m.read slot) (nodes (pre ++ post)))
    (hpre : ∀ r ∈ pre, r.addr < addr ∧ r.stop ≤ addr) (hpost : ∀ r ∈ post.head?, addr ≤ r.addr)
    (hfuel : pre.length < fuel) :
    ∃ slot', insertSlot p m addr fuel slot = .ok slot' ∧ m.links.Seg slot (nodes pre) slot' ∧
      m.links.Chain (m.read slot') (nodes post) := by
  induction pre generalizing slot fuel with
  | nil =>
    obtain ⟨fuel, rfl⟩ := Nat.exists_eq_add_one_of_ne_zero hfuel.ne'
    refine ⟨slot, ?_, rfl, h⟩
    unfold insertSlot
    cases post with
    | nil =>
      have hread : m.read slot = none := h
      simp only [hread]
      rfl
    | cons r post =>
      have hread : m.read slot = some r.addr := h.1
      have hge : ¬ r.addr < addr := Nat.not_lt.mpr (hpost r rfl)
      simp only [hread, if_neg hge]
      rfl
  | cons r pre ih =>
    obtain ⟨fuel, rfl⟩ := Nat.exists_eq_add_one_of_ne_zero (Nat.ne_zero_of_lt hfuel)
    obtain ⟨hread, hval, hrest⟩ := h
    obtain ⟨hlt, hstop⟩ := hpre r (.head _)
    have hend : Word.add p r.addr (m.val r.addr) = .ok r.stop := by
      rw [show m.val r.addr = r.size from hval]
      exact Word.add_of_lt (Nat.lt_of_le_of_lt hstop haddr)
    have hrest : m.links.Chain (m.read (.next r.addr)) (nodes (pre ++ post)) := hrest
    obtain ⟨slot', hins, hseg, hchain⟩ := ih hrest (fun s hs => hpre s (.tail _ hs))
      (Nat.lt_of_succ_lt_succ hfuel)
    refine ⟨slot', ?_, ⟨?_, hval, hseg⟩, hchain⟩
    · unfold insertSlot
      simp only [hread, if_pos hlt, hend, Panics.bind_ok, Panics.pure_eq, decide_eq_true hstop,
        Profile.debugAssert_true]
      exact hins
    · rw [Nodes.links_read, hread]

/-- The new node is linked in where the slot was. -/
theorem spliceNode_rep (hseg : m.links.Seg .head (nodes pre) slot)
    (hchain : m.links.Chain (m.read slot) (nodes post)) (hreg : Regions (pre ++ b :: post))
    (hroom : Roomy (pre ++ b :: post)) (hsize : b.size < 2 ^ 64) :
    Holds (spliceNode m slot b.addr b.size).links (pre ++ b :: post) ∧
      Mem.ChangesIn (cover (pre ++ b :: post)) m.mem (spliceNode m slot b.addr b.size).mem := by
  have hsp := spaced_of_ordered hreg.ordered hroom
  rw [nodes_append] at hsp
  obtain ⟨hpp, hbp, hcross⟩ := List.pairwise_append.mp hsp
  obtain ⟨hb, -⟩ := List.pairwise_cons.mp hbp
  have hbreg := hreg.region b (by simp)
  have hnext : LinkFits (m.read slot) := linkFits_of_chain hchain fun r hr =>
    hreg.region r (by simp [hr])
  have hself : LinkFits (some b.addr) := by
    have hstop := hbreg.stop_le
    have hpos := hbreg.size_pos
    unfold stop at hstop
    exact linkFits_some hbreg.addr_pos (by omega)
  -- The slot is emptied, the node is written, the slot leads to it.
  let m₁ := m.write slot none
  let m₂ := (m₁.setVal b.addr b.size).setNext b.addr (m.read slot)
  have h₁ : m₁.links.Seg .head (nodes pre) slot := Nodes.Seg.write hseg hpp linkFits_none
  have hcell₂ : ∀ x, Spaced x b.addr → m₂.links.cell x = m₁.links.cell x := fun x hx =>
    (Nodes.cell_setNext_of_spaced _ _ hx).trans (Nodes.cell_setVal_of_spaced _ _ hx)
  have hnode : m₂.links.cell b.addr = ⟨b.size, m.read slot⟩ := by
    have hv := Nodes.cell_setVal m₁ b.addr hsize
    have hc := Nodes.cell_setNext (m₁.setVal b.addr b.size) b.addr hnext
    rwa [show (m₁.setVal b.addr b.size).val b.addr = b.size from congrArg Cell.val hv] at hc
  have h₂ : m₂.links.Seg .head (nodes pre) slot :=
    h₁.frame rfl fun x hx => hcell₂ x.1 (hcross x hx _ (.head _))
  have h₃ : (m₂.write slot (some b.addr)).links.Seg .head (nodes pre) slot :=
    Nodes.Seg.write h₂ hpp hself
  -- A node apart from the ones before the slot and from the new one is as it was.
  have hcell : ∀ x, (∀ y ∈ nodes pre, Spaced x y.1) → Spaced x b.addr →
      (m₂.write slot (some b.addr)).links.cell x = m.links.cell x := fun x hx hxb => by
    rw [Nodes.cell_write h₂ _ hx, hcell₂ x hxb, Nodes.cell_write hseg _ hx]
  refine ⟨?_, ?_⟩
  · unfold Holds
    rw [nodes_append]
    refine h₃.chain ⟨?_, ?_, ?_⟩
    · rw [Nodes.links_read]
      exact Nodes.read_write m₂ slot hself
    · rw [Nodes.cell_write h₂ _ fun x hx => (hcross x hx _ (.head _)).symm, hnode]
    · rw [Nodes.cell_write h₂ _ fun x hx => (hcross x hx _ (.head _)).symm, hnode]
      refine hchain.frame fun x hx => hcell x.1 (fun y hy => ?_) (hb x hx).symm
      exact (hcross y hy x (.tail _ hx)).symm
  · have hin : ∀ r ∈ pre ++ b :: post, r.addr ∈ cover (pre ++ b :: post) ∧
        r.addr + 8 ∈ cover (pre ++ b :: post) := fun r hr =>
      ⟨⟨r, hr, (node_mem_bytes (hroom r hr)).1⟩, ⟨r, hr, (node_mem_bytes (hroom r hr)).2⟩⟩
    have hpre : ∀ x ∈ nodes pre, x.1 + 8 ∈ cover (pre ++ b :: post) := fun x hx => by
      obtain ⟨r, hr, rfl⟩ := mem_nodes.mp hx
      exact (hin r (List.mem_append_left _ hr)).2
    obtain ⟨hb1, hb2⟩ := hin b (by simp)
    have hset : Mem.ChangesIn (cover (pre ++ b :: post)) m₁.mem m₂.mem :=
      (Mem.changesIn_store m₁.mem _ hb1).trans (Mem.changesIn_store _ _ hb2)
    exact (Nodes.changesIn_write hseg _ hpre).trans
      (hset.trans (Nodes.changesIn_write h₂ _ hpre))

/-! ## `coalesce` -/

/-- `absorb` changes the two nodes, and no node apart from them. -/
theorem absorb_eq {node next : Nat} (hsp : Spaced next node)
    (hsize : Word.add p (m.val node) (m.val next) = .ok (m.val node + m.val next))
    (hlt : m.val node + m.val next < 2 ^ 64) (hlink : LinkFits (m.next next)) :
    ∃ m', absorb p m node next = .ok m' ∧ m'.head = m.head ∧
      m'.links.cell node = ⟨m.val node + m.val next, m.next next⟩ ∧
      (∀ a, Spaced a node → Spaced a next → m'.links.cell a = m.links.cell a) ∧
      (node ∈ S → node + 8 ∈ S → next + 8 ∈ S → Mem.ChangesIn S m.mem m'.mem) := by
  let m₁ := m.setNext node none
  let m₂ := m₁.setVal node (m.val node + m.val next)
  let m₃ := m₂.setNext next none
  have hnode₁ : m₁.links.cell node = ⟨m.val node, none⟩ := Nodes.cell_setNext m node linkFits_none
  have hnext₁ : m₁.links.cell next = m.links.cell next := Nodes.cell_setNext_of_spaced m none hsp
  have hnext₂ : m₂.links.cell next = m.links.cell next :=
    (Nodes.cell_setVal_of_spaced m₁ _ hsp).trans hnext₁
  have hnode₃ : m₃.links.cell node = ⟨m.val node + m.val next, m₁.next node⟩ :=
    (Nodes.cell_setNext_of_spaced m₂ none hsp.symm).trans (Nodes.cell_setVal m₁ node hlt)
  have hrest : m₂.next next = m.next next := congrArg Cell.next hnext₂
  refine ⟨m₃.setNext node (m.next next), ?_, rfl, ?_, fun a hnode hnext => ?_, fun h1 h2 h3 => ?_⟩
  · have hv : m₁.val node = m.val node := congrArg Cell.val hnode₁
    have hv' : m₁.val next = m.val next := congrArg Cell.val hnext₁
    unfold absorb
    simp only
    rw [show (m.setNext node none).val node = m.val node from hv,
      show (m.setNext node none).val next = m.val next from hv', hsize, Panics.bind_ok]
    rw [show ((m.setNext node none).setVal node (m.val node + m.val next)).next next =
      m.next next from hrest]
    rfl
  · have h := Nodes.cell_setNext m₃ node hlink
    rwa [show m₃.val node = m.val node + m.val next from congrArg Cell.val hnode₃] at h
  · exact (Nodes.cell_setNext_of_spaced m₃ _ hnode).trans
      ((Nodes.cell_setNext_of_spaced m₂ _ hnext).trans
        ((Nodes.cell_setVal_of_spaced m₁ _ hnode).trans
          (Nodes.cell_setNext_of_spaced m _ hnode)))
  · exact (Mem.changesIn_store m.mem _ h2).trans ((Mem.changesIn_store m₁.mem _ h1).trans
      ((Mem.changesIn_store m₂.mem _ h3).trans (Mem.changesIn_store m₃.mem _ h2)))

/-- A region that touches the one before it is taken in. -/
theorem absorbNode {m₀ : Links Nat} (h : Pass m₀ l done (r :: s :: rest) m.links slot)
    (hroom : Roomy (done ++ r :: s :: rest)) (htouch : s.addr = r.stop) :
    ∃ m', absorb p m r.addr s.addr = .ok m' ∧
      Pass m₀ l done (⟨r.addr, r.size + s.size⟩ :: rest) m'.links slot ∧
      Mem.ChangesIn (cover l) m.mem m'.mem := by
  obtain ⟨-, hrval, -, hsval, hrest⟩ := h.ahead
  have hsp := spaced_of_ordered h.regions.ordered hroom
  rw [nodes_append] at hsp
  obtain ⟨-, hright, hcross⟩ := List.pairwise_append.mp hsp
  obtain ⟨hr, hright⟩ := List.pairwise_cons.mp hright
  obtain ⟨hs, -⟩ := List.pairwise_cons.mp hright
  have hadd := h.regions.right.add_eq (p := p) htouch
  have hlt : r.size + s.size < 2 ^ 64 := by
    have hpos := (h.regions.region r (by simp)).addr_pos
    have hstop := (h.regions.region s (by simp)).stop_le
    unfold stop at *
    omega
  have hlink : LinkFits (m.next s.addr) :=
    linkFits_of_chain hrest fun q hq => h.regions.region q (by simp [hq])
  have hval : m.val r.addr = r.size := hrval
  have hval' : m.val s.addr = s.size := hsval
  rw [← hval, ← hval'] at hadd hlt
  have hin : ∀ q ∈ done ++ r :: s :: rest, q.addr ∈ cover l ∧ q.addr + 8 ∈ cover l := fun q hq => by
    rw [← h.cover_eq]
    exact ⟨⟨q, hq, (node_mem_bytes (hroom q hq)).1⟩, ⟨q, hq, (node_mem_bytes (hroom q hq)).2⟩⟩
  obtain ⟨m', habs, hhead, hcell, hother, hmem⟩ :=
    absorb_eq (S := cover l) (hr _ (.head _)).symm hadd hlt hlink
  refine ⟨m', habs, ?_, hmem (hin r (by simp)).1 (hin r (by simp)).2 (hin s (by simp)).2⟩
  -- The pass on cells has the same cell at `r`, and both keep the other nodes.
  obtain ⟨c, hc, hpass⟩ := h.absorb (p := p) htouch
  have hne : s.addr ≠ r.addr := by
    have hpos := (h.regions.region r (by simp)).size_pos
    unfold stop at htouch
    omega
  obtain ⟨c', hc', hhead', hcell', hother'⟩ :=
    LinkedListAllocator.absorb_eq (m := m.links) p hne hadd
  obtain rfl : c' = c := Except.ok.inj (hc'.symm.trans hc)
  refine Pass.congr hpass (hhead.trans hhead'.symm) (fun x hx => ?_) ?_
  · have hsame : ∀ y : Nat, Spaced y r.addr → Spaced y s.addr →
        m'.links.cell y = c'.cell y := fun y hyr hys => by
      have hyr' : y ≠ r.addr := fun e => by unfold Spaced at hyr; omega
      have hys' : y ≠ s.addr := fun e => by unfold Spaced at hys; omega
      rw [hother y hyr hys, hother' y hyr' hys']
    rw [nodes_append] at hx
    rcases List.mem_append.mp hx with hx | hx
    · exact hsame x.1 (hcross x hx _ (.head _)) (hcross x hx _ (.tail _ (.head _)))
    · rcases List.mem_cons.mp hx with rfl | hx
      · exact hcell.trans hcell'.symm
      · exact hsame x.1 (hr x (.tail _ hx)).symm (hs x hx).symm
  · intro hg
    rw [← (h.same hg).2] at hg
    have hgap := (List.pairwise_cons.mp (List.pairwise_append.mp hg).2.1).1 s (.head _)
    omega

/-- The loop in memory does what the list-level `coalesce` does. -/
theorem coalesce_rep {m₀ : Links Nat} (h : Pass m₀ l done rest m.links slot)
    (hroom : Roomy (done ++ rest)) (hfuel : rest.length < fuel) :
    ∃ m', coalesce p fuel slot m = .ok m' ∧ Holds m'.links (fuse l) ∧
      Mem.ChangesIn (cover l) m.mem m'.mem := by
  induction fuel generalizing m slot done rest with
  | zero => omega
  | succ fuel ih =>
    unfold coalesce
    cases rest with
    | nil =>
      have hread : m.read slot = none := (Nodes.links_read m slot).symm.trans h.ahead
      have hholds := h.behind.chain h.ahead
      rw [← nodes_append, ← show fuse [] = ([] : List Span) from rfl, h.joined] at hholds
      simp only [hread]
      exact ⟨m, rfl, hholds, .refl _ _⟩
    | cons r rest =>
      obtain ⟨hread, hval, hrest⟩ := h.ahead
      rw [Nodes.links_read] at hread
      have hval : m.val r.addr = r.size := hval
      -- Where nothing touches, the slot moves on.
      have hmove : fuse (r :: rest) = r :: fuse rest →
          ∃ m', coalesce p fuel (.next r.addr) m = .ok m' ∧
            Holds m'.links (fuse l) ∧ Mem.ChangesIn (cover l) m.mem m'.mem := fun hfuse => by
        refine ih (h.advance hfuse) ?_ (Nat.lt_of_succ_lt_succ hfuel)
        rw [List.append_assoc]
        exact hroom
      cases rest with
      | nil =>
        have hnext : m.next r.addr = none := hrest
        simp only [hread, hnext, Panics.pure_eq, Panics.bind_ok]
        exact hmove rfl
      | cons s rest =>
        have hreg := h.regions.right
        have hnext : m.next r.addr = some s.addr := hrest.1
        have hend : Word.add p r.addr (m.val r.addr) = .ok r.stop := by
          rw [hval]
          exact hreg.endAddr_eq
        simp only [hread, hnext, hend, Panics.pure_eq, Panics.bind_ok]
        by_cases htouch : s.addr = r.stop
        · obtain ⟨m', habs, hpass, hmem⟩ := absorbNode (p := p) h hroom htouch
          have hroom' : Roomy (done ++ ⟨r.addr, r.size + s.size⟩ :: rest) := by
            intro q hq
            rcases List.mem_append.mp hq with hq | hq
            · exact hroom q (List.mem_append_left _ hq)
            · rcases List.mem_cons.mp hq with rfl | hq
              · exact Nat.le_add_right_of_le (hroom r (by simp))
              · exact hroom q (by simp [hq])
          obtain ⟨m'', hco, hholds, hmem'⟩ := ih hpass hroom' (Nat.lt_of_succ_lt_succ hfuel)
          refine ⟨m'', ?_, hholds, hmem.trans hmem'⟩
          simp only [decide_eq_true htouch, if_true, expect_some, Panics.bind_ok, habs]
          exact hco
        · have hfuse : fuse (r :: s :: rest) = r :: fuse (s :: rest) := by
            simp only [fuse, fuseFrom, if_neg htouch]
          simp only [decide_eq_false htouch, Bool.false_eq_true, if_false]
          exact hmove hfuse

/-! ## `add_free_region` -/

section Operations

variable {a : LinkedListAllocator} {owned : List Span} {m : InMemory}

/-- A region is put back: memory holds the list with it. -/
theorem addFreeRegion_rep {b : Span} (h : a.Sound (b :: owned)) (hrep : m.Rep a)
    (hfuel : a.heapEnd - a.heapStart < fuel) :
    ∃ m', m.addFreeRegion p fuel b.addr b.size = .ok m' ∧ m'.Rep (a.release b) ∧
      Mem.ChangesIn (b.bytes ∪ cover a.head) m.mem m'.mem := by
  have hb := h.tracked b (.head _)
  have hend := h.end_lt
  obtain ⟨hlo, hhi⟩ := hb.inside
  have hroom : 16 ≤ b.size := hb.room
  have hsat : Word.satAdd b.addr b.size ≤ a.heapEnd := by
    unfold stop at hhi
    rw [Word.satAdd_of_lt (by omega)]
    exact hhi
  have hroomy : Roomy (place b a.head) := fun r hr => (h.place_tracked r hr).room
  have hreg := h.place_regions
  obtain ⟨pre, post, hhead, hplace, hpre, hpost⟩ := exists_place b a.head
  -- The length of the list leaves enough body runs for both loops.
  have hlen : (place b a.head).length < fuel := by
    refine Nat.lt_of_le_of_lt (length_le hreg.ordered hroomy fun r hr => ?_) hfuel
    exact (h.place_tracked r hr).inside
  have hchain : m.links.Chain (m.read .head) (nodes (pre ++ post)) := by
    rw [← hhead]
    exact hrep.holds
  have hstop : ∀ r ∈ pre, r.addr < b.addr ∧ r.stop ≤ b.addr := fun r hr => by
    have hap := (List.pairwise_cons.mp h.apart).1 r
      (List.mem_append_right _ (by rw [hhead]; exact List.mem_append_left _ hr))
    exact ⟨hpre r hr, hap.stop_le hb.pos (hpre r hr)⟩
  rw [hplace] at hlen hreg hroomy
  obtain ⟨slot, hins, hseg, hahead⟩ := insertSlot_eq (p := p) (by unfold stop at hhi; omega) hchain
    hstop hpost (show pre.length < fuel by simp at hlen; omega)
  obtain ⟨hholds, hmem⟩ := spliceNode_rep hseg hahead hreg hroomy (by unfold stop at hhi; omega)
  obtain ⟨m', hco, hholds', hmem'⟩ :=
    coalesce_rep (p := p) (Pass.start hreg hholds) hroomy hlen
  refine ⟨{ m with toNodes := m' }, ?_, ⟨?_, hrep.start, hrep.stop⟩, ?_⟩
  · unfold addFreeRegion
    simp only [hrep.start, hrep.stop, hb.alignUp_eq hend, hb.room, hlo, hsat, hins, hco, and_self,
      decide_true, Panics.pure_eq, Panics.bind_ok, Profile.debugAssert_true]
  · show Holds m'.links (fuse (place b a.head))
    rw [hplace]
    exact hholds'
  · rw [← cover_place, hplace]
    exact hmem.trans hmem'

/-- A leftover goes back if it can hold a node. -/
theorem giveBack_rep {b : Span} (h : a.Sound ([b].filter (minBlock ≤ ·.size) ++ owned))
    (hrep : m.Rep a) (hfuel : a.heapEnd - a.heapStart < fuel) :
    ∃ m', (if minBlock ≤ b.size then m.addFreeRegion p fuel b.addr b.size else pure m) = .ok m' ∧
      m'.Rep (a.giveBack b) ∧ Mem.ChangesIn (b.bytes ∪ cover a.head) m.mem m'.mem := by
  unfold LinkedListAllocator.giveBack
  by_cases hb : minBlock ≤ b.size
  · simp only [List.filter_cons, decide_eq_true hb, if_true, List.filter_nil] at h
    simp only [if_pos hb]
    exact addFreeRegion_rep h hrep hfuel
  · simp only [if_neg hb]
    exact ⟨m, rfl, hrep, .refl _ _⟩

/-! ## `find_region` -/

/-- The region behind the slot is taken off the list. -/
theorem unlink_rep {m : Nodes} (hseg : m.links.Seg .head (nodes pre) slot)
    (hchain : m.links.Chain (m.read slot) (nodes (r :: post))) (hreg : Regions (pre ++ r :: post))
    (hroom : Roomy (pre ++ r :: post)) :
    ∃ m', unlink m slot = .ok m' ∧ Holds m'.links (pre ++ post) ∧
      Mem.ChangesIn (cover (pre ++ r :: post)) m.mem m'.mem := by
  obtain ⟨hread, -, hrest⟩ := hchain
  have hsp := spaced_of_ordered hreg.ordered hroom
  rw [nodes_append] at hsp
  obtain ⟨hpp, hrp, hcross⟩ := List.pairwise_append.mp hsp
  obtain ⟨hr, -⟩ := List.pairwise_cons.mp hrp
  have hpre : ∀ x ∈ nodes pre, Spaced r.addr x.1 := fun x hx => (hcross x hx _ (.head _)).symm
  have hlink : LinkFits (m.next r.addr) :=
    linkFits_of_chain hrest fun q hq => hreg.region q (by simp [hq])
  let m₁ := m.write slot none
  let m₂ := m₁.setNext r.addr none
  have h₁ : m₁.links.Seg .head (nodes pre) slot := Nodes.Seg.write hseg hpp linkFits_none
  have hsucc : m₁.next r.addr = m.next r.addr :=
    congrArg Cell.next (Nodes.cell_write hseg none hpre)
  have h₂ : m₂.links.Seg .head (nodes pre) slot :=
    h₁.frame rfl fun x hx => Nodes.cell_setNext_of_spaced m₁ none (hpre x hx).symm
  have h₃ : (m₂.write slot (m.next r.addr)).links.Seg .head (nodes pre) slot :=
    Nodes.Seg.write h₂ hpp hlink
  refine ⟨m₂.write slot (m.next r.addr), ?_, ?_, ?_⟩
  · unfold unlink
    simp only [hread, expect_some, Panics.bind_ok, Panics.pure_eq]
    rw [show (m.write slot none).next r.addr = m.next r.addr from hsucc]
  · unfold Holds
    rw [nodes_append]
    refine h₃.chain ?_
    rw [Nodes.links_read, Nodes.read_write m₂ slot hlink]
    refine hrest.frame fun x hx => ?_
    have hxpre : ∀ y ∈ nodes pre, Spaced x.1 y.1 := fun y hy => (hcross y hy x (.tail _ hx)).symm
    rw [Nodes.cell_write h₂ _ hxpre, Nodes.cell_setNext_of_spaced m₁ none (hr x hx).symm,
      Nodes.cell_write hseg _ hxpre]
  · have hin : ∀ q ∈ pre ++ r :: post, q.addr + 8 ∈ cover (pre ++ r :: post) := fun q hq =>
      ⟨q, hq, (node_mem_bytes (hroom q hq)).2⟩
    have hwrite : ∀ x ∈ nodes pre, x.1 + 8 ∈ cover (pre ++ r :: post) := fun x hx => by
      obtain ⟨q, hq, rfl⟩ := mem_nodes.mp hx
      exact hin q (List.mem_append_left _ hq)
    exact (Nodes.changesIn_write hseg _ hwrite).trans
      ((Mem.changesIn_store m₁.mem _ (hin r (by simp))).trans
        (Nodes.changesIn_write h₂ _ hwrite))

/-- The loop walks over the regions without room. -/
theorem findRegion_skip (p : Profile) (fuel size : Nat) {align k : Nat} (hk : align = 2 ^ k)
    (h : m.links.Chain (m.read slot) (nodes (pre ++ post)))
    (hal : ∀ r ∈ pre, r.addr + align < 2 ^ 64) (hstop : ∀ r ∈ pre, r.stop < 2 ^ 64)
    (hskip : ∀ r ∈ pre, Skips size align r) :
    ∃ slot', m.links.Seg slot (nodes pre) slot' ∧ m.links.Chain (m.read slot') (nodes post) ∧
      ∀ n, m.findRegion p fuel size align (pre.length + n) slot =
        m.findRegion p fuel size align n slot' := by
  induction pre generalizing slot with
  | nil => exact ⟨slot, rfl, h, fun n => by rw [List.length_nil, Nat.zero_add]⟩
  | cons r pre ih =>
    obtain ⟨hread, hval, hrest⟩ := h
    have hrest : m.links.Chain (m.read (.next r.addr)) (nodes (pre ++ post)) := hrest
    have hval : m.val r.addr = r.size := hval
    obtain ⟨slot', hseg, hchain, hfind⟩ := ih hrest (fun q hq => hal q (.tail _ hq))
      (fun q hq => hstop q (.tail _ hq)) fun q hq => hskip q (.tail _ hq)
    have hfit := fit_eq (p := p) size hk (hal r (.head _)) (hstop r (.head _))
    rw [if_neg (Nat.not_le_of_lt (hskip r (.head _)))] at hfit
    refine ⟨slot', ⟨by rw [Nodes.links_read, hread], hval, hseg⟩, hchain, fun n => ?_⟩
    rw [List.length_cons, Nat.add_right_comm]
    conv => lhs; unfold findRegion
    simp only [hread, hval, hfit, Panics.bind_ok, expect_some]
    exact hfind n

theorem findRegion_rep_none (h : a.Sound owned) (hrep : m.Rep a) {size align k : Nat}
    (hk : align = 2 ^ k) (hclear : Clear size align a.head)
    (hno : ∀ r ∈ a.head, Skips size align r) (hfuel : a.heapEnd - a.heapStart < fuel) :
    m.findRegion p fuel size align fuel .head = .ok (none, m) := by
  have hlen : a.head.length < fuel := by
    refine Nat.lt_of_le_of_lt (length_le h.gapped.ordered (fun r hr => ?_) fun r hr => ?_) hfuel
    · exact (h.tracked r (List.mem_append_right _ hr)).room
    · exact (h.tracked r (List.mem_append_right _ hr)).inside
  have hchain : m.links.Chain (m.read .head) (nodes (a.head ++ [])) := by
    rw [List.append_nil]
    exact hrep.holds
  rw [← List.append_nil a.head] at hclear
  obtain ⟨slot, -, hend, hfind⟩ := findRegion_skip p fuel size hk hchain
    (hclear.append hno).1 (fun r hr => h.stop_lt (List.mem_append_right _ hr)) hno
  have hread : m.read slot = none := hend
  obtain ⟨n, rfl⟩ : ∃ n, fuel = a.head.length + (n + 1) := ⟨fuel - a.head.length - 1, by omega⟩
  rw [hfind]
  unfold findRegion
  simp only [hread]
  rfl

/-- The first fit is taken, and its leftovers go back. -/
theorem findRegion_rep (h : a.Sound owned) (hrep : m.Rep a) {size align k : Nat}
    (hk : align = 2 ^ k) (hclear : Clear size align a.head) (hlo : nodeAlign ≤ align)
    (hsz : nodeAlign ∣ size) (hmin : minBlock ≤ size) (f : FirstFit a size align)
    (hfuel : a.heapEnd - a.heapStart < fuel) :
    ∃ m', m.findRegion p fuel size align fuel .head = .ok (some f.addr, m') ∧ m'.Rep f.heap ∧
      Mem.ChangesIn (cover a.head) m.mem m'.mem := by
  have htr : ∀ r ∈ a.head, a.Tracked r := fun r hr => h.tracked r (List.mem_append_right _ hr)
  have hroomy : Roomy a.head := fun r hr => (htr r hr).room
  have hreg : Regions a.head :=
    ⟨h.gapped.ordered, fun r hr => (htr r hr).region h.start_pos h.end_lt⟩
  have hstop : ∀ r ∈ a.head, r.stop < 2 ^ 64 := fun r hr => h.stop_lt (List.mem_append_right _ hr)
  have hlen : f.pre.length < fuel := by
    have hle := length_le h.gapped.ordered hroomy fun r hr => (htr r hr).inside
    rw [f.head_eq, List.length_append] at hle
    omega
  have hge : f.region.addr ≤ f.addr := le_roundUp _ (hk ▸ Nat.two_pow_pos k)
  have hroom : f.addr + size ≤ f.region.stop := f.room
  have h8 : nodeAlign ∣ align := by
    rw [hk]
    exact Nat.pow_dvd_pow 2 (m := 3) ((Nat.pow_le_pow_iff_right (a := 2) (by decide)).mp (hk ▸ hlo))
  have hfitAt := hstop f.region f.region_mem
  rw [f.head_eq] at hclear hreg hroomy
  obtain ⟨hal, hregion, -⟩ := hclear.append f.skipped
  have hchain : m.links.Chain (m.read .head) (nodes (f.pre ++ f.region :: f.post)) := by
    rw [← f.head_eq]
    exact hrep.holds
  obtain ⟨slot, hseg, hahead, hfind⟩ := findRegion_skip p fuel size hk hchain hal
    (fun r hr => hstop r (by rw [f.head_eq]; exact List.mem_append_left _ hr)) f.skipped
  have hfit : fit p size align f.region =
      .ok (some ⟨f.region.addr, f.addr, f.addr + size, f.region.stop⟩) := by
    rw [fit_eq size hk hregion hfitAt, if_pos f.room]
    rfl
  obtain ⟨m₀, hun, hholds, hmem₀⟩ := unlink_rep hseg hahead hreg hroomy
  -- The two leftovers.
  have hsplit := h.splitRegion f.head_eq hge hroom (h8.trans f.align_dvd) hsz hmin
  have hinv₁ := (hsplit.giveBack (p := p)).2
  have hrep₀ : Rep { m with toNodes := m₀ } { a with head := f.pre ++ f.post } :=
    ⟨hholds, hrep.start, hrep.stop⟩
  obtain ⟨m₁, e₁, hrep₁, hmem₁⟩ := giveBack_rep (p := p) hsplit hrep₀ hfuel
  have hbounds :
      (LinkedListAllocator.giveBack { a with head := f.pre ++ f.post } f.front).heapEnd -
        (LinkedListAllocator.giveBack { a with head := f.pre ++ f.post } f.front).heapStart <
          fuel := by
    unfold LinkedListAllocator.giveBack
    split <;> exact hfuel
  obtain ⟨m₂, e₂, hrep₂, hmem₂⟩ := giveBack_rep (p := p) hinv₁ hrep₁ hbounds
  refine ⟨m₂, ?_, hrep₂, ?_⟩
  · obtain ⟨n, hn⟩ : ∃ n, fuel = f.pre.length + (n + 1) := ⟨fuel - f.pre.length - 1, by omega⟩
    have hread : m.read slot = some f.region.addr := hahead.1
    have hval : m.val f.region.addr = f.region.size := hahead.2.1
    have hfirst := hfind (n + 1)
    rw [← hn] at hfirst
    rw [hfirst]
    unfold findRegion giveBackRest
    simp only [hread, hval, hfit, hun, Panics.bind_ok, Panics.pure_eq, Word.sub_of_le hge,
      Word.sub_of_le hroom]
    simp only [Panics.pure_eq] at e₁ e₂
    rw [e₁, Panics.bind_ok, e₂]
    rfl
  · have hin : ∀ x ∈ f.region.bytes, x ∈ cover a.head := fun x hx => ⟨f.region, f.region_mem, hx⟩
    have hrest : cover (f.pre ++ f.post) ⊆ cover a.head := by
      rintro x ⟨q, hq, hx⟩
      refine ⟨q, ?_, hx⟩
      rw [f.head_eq]
      simp only [List.mem_append, List.mem_cons] at hq ⊢
      tauto
    have hfront : f.front.bytes ⊆ cover a.head := fun x hx => hin x (by
      simp only [FirstFit.front, mem_bytes, stop] at *
      omega)
    have hback : f.back.bytes ⊆ cover a.head := fun x hx => hin x (by
      simp only [FirstFit.back, mem_bytes, stop] at *
      omega)
    rw [← f.head_eq] at hmem₀
    refine hmem₀.trans ((hmem₁.mono (Set.union_subset hfront hrest)).trans
      (hmem₂.mono (Set.union_subset hback fun x hx => ?_)))
    rcases mem_cover_giveBack.mp hx with ⟨-, hx⟩ | hx
    · exact hfront hx
    · exact hrest hx

/-! ## The allocator's operations -/

theorem init_rep (p : Profile) (mem : Mem) {s n : Nat} (hs : 0 < s) (hn : s + n ≤ 2 ^ 63)
    (hfuel : n < fuel) :
    ∃ m a, init p fuel mem s n = .ok m ∧ LinkedListAllocator.init p s n = .ok a ∧ m.Rep a := by
  obtain ⟨a, hinit, -⟩ := init_spec (p := p) hs hn
  have ha := hinit
  have hend : Word.satAdd s n = s + n := Word.satAdd_of_lt (by omega)
  have hal : alignUp p s nodeAlign = .ok (roundUp s nodeAlign) := alignUp_node (by omega)
  have hge := le_roundUp (a := nodeAlign) s (by decide)
  have hdvd := dvd_roundUp s nodeAlign
  unfold LinkedListAllocator.init at ha
  unfold init
  simp only [hend, hal, Panics.bind_ok] at ha ⊢
  generalize roundUp s nodeAlign = start at *
  have hrep : Rep ⟨⟨none, mem⟩, s, s + n⟩ ⟨[], s, s + n⟩ := ⟨rfl, rfl, rfl⟩
  by_cases hroom : minBlock ≤ s + n - start
  · have hsound : Sound ⟨[], s, s + n⟩ [⟨start, s + n - start⟩] := by
      refine ⟨hs, show s + n < 2 ^ 64 by omega, .nil, fun r hr => ?_,
        List.pairwise_singleton _ _⟩
      rw [List.append_nil, List.mem_singleton] at hr
      subst hr
      refine ⟨hdvd, hroom, hge, ?_⟩
      simp only [stop, minBlock] at *
      omega
    rw [if_pos hroom] at ha ⊢
    obtain rfl := Except.ok.inj (ha.symm.trans hsound.addFreeRegion_eq)
    obtain ⟨m', hadd, hrep', -⟩ := addFreeRegion_rep (p := p) hsound hrep
      (show s + n - s < fuel by omega)
    exact ⟨m', _, hadd, hinit, hrep'⟩
  · rw [if_neg hroom] at ha ⊢
    obtain rfl := Except.ok.inj ha
    exact ⟨_, _, rfl, hinit, hrep⟩

/-- `alloc` in memory answers as the one on lists. It changes free bytes only. -/
theorem alloc_rep (h : a.Inv owned) (hrep : m.Rep a) {l : Layout} (hl : 0 < l.size)
    (hfuel : a.heapEnd - a.heapStart < fuel) :
    ∃ ptr m' a', m.alloc p fuel l = .ok (ptr, m') ∧ a.alloc p l = .ok (ptr, a') ∧ m'.Rep a' ∧
      Mem.ChangesIn (cover a.head) m.mem m'.mem := by
  obtain ⟨k, hk⟩ := allocationAlign_eq l
  unfold alloc
  simp only [allocationSize_eq, Panics.bind_ok]
  rcases skips_or_firstFit a l.extent (allocationAlign l) with hno | ⟨⟨f⟩⟩
  · refine ⟨0, m, a, ?_, h.alloc_null hl hno, hrep, .refl _ _⟩
    rw [findRegion_rep_none h.sound hrep hk (h.clearFor hl) hno hfuel]
    rfl
  · obtain ⟨m', hfind, hrep', hmem⟩ := findRegion_rep (p := p) h.sound hrep hk (h.clearFor hl)
      (Nat.le_max_right _ _) (dvd_roundUp _ _) l.minBlock_le_extent f hfuel
    refine ⟨f.addr, m', f.heap, ?_, (h.alloc_eq hl f).1, hrep', hmem⟩
    rw [hfind]
    rfl

/-- `dealloc` in memory does what the one on lists does. It changes free bytes and the block. -/
theorem dealloc_rep {ptr : Nat} {l : Layout} (h : a.Inv (⟨ptr, l.extent⟩ :: owned))
    (hrep : m.Rep a) (hfuel : a.heapEnd - a.heapStart < fuel) :
    ∃ m' a', m.dealloc p fuel ptr l = .ok m' ∧ a.dealloc p ptr l = .ok a' ∧ m'.Rep a' ∧
      Mem.ChangesIn (Span.bytes ⟨ptr, l.extent⟩ ∪ cover a.head) m.mem m'.mem := by
  have hb := h.tracked _ (.head _)
  have hin : a.heapStart ≤ ptr ∧ ptr + l.extent ≤ a.heapEnd := hb.inside
  have hend := h.sound.end_lt
  have hal : alignUp p ptr nodeAlign = .ok ptr := hb.alignUp_eq hend
  obtain ⟨m', hadd, hrep', hmem⟩ := addFreeRegion_rep (p := p) h.sound hrep hfuel
  refine ⟨m', _, ?_, h.dealloc_eq, hrep', hmem⟩
  unfold dealloc
  simp only [allocationSize_eq, Panics.bind_ok, hal, hrep.start, hrep.stop,
    Word.satAdd_of_lt (show ptr + l.extent < 2 ^ 64 by omega), hin.1, hin.2, and_self,
    decide_true, Panics.pure_eq, Profile.debugAssert_true]
  exact hadd

/-- Stores outside the free regions leave the list alone. -/
theorem Rep.write (hrep : m.Rep a) (h : Roomy a.head) (hout : ∀ x ∈ cover a.head, x ∉ S) {mem : Mem}
    (hmem : Mem.ChangesIn S m.mem mem) : Rep { m with mem } a :=
  ⟨chain_of_changesIn hrep.holds h hout hmem, hrep.start, hrep.stop⟩

end Operations

end LinkedListAllocator.InMemory

end Apogee
