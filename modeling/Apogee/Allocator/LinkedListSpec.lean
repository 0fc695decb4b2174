import Apogee.Allocator.LinkedList
import Apogee.Allocator.Runs

/-!
# The free list over whole runs

The invariant `Inv a owned` of the linked-list allocator `a`, where `owned` are the spans that are
out of the free list (the extents of live blocks, and for a moment the pieces of a region that
`find_region` has unlinked): the free list is gapped, every span is aligned for a node, has room
for one and lies in the heap, and no two overlap. `Inv` is for a heap that ends at or below
`2 ^ 63`, `Sound` the same for any heap. Three moves keep them:

* `Sound.unlink` takes a region off the list, `Sound.carve` replaces an owned span by pieces of it;
* `Sound.release` is `add_free_region`: an owned span goes back to the list, no assertion fails, and
  the new list is `fuse (place b list)`.

`find_region` takes the first region with room (`FirstFit`), which is these moves in order
(`Sound.findRegion`), where `align_up` does not overflow on its way (`Clear`); below `2 ^ 63` it
never does (`Inv.clearFor`). `dealloc` is the last move (`Inv.dealloc_eq`). A leftover that cannot
hold a node stays out of the list for good: `discards` counts the bytes that an `alloc` loses this
way (`Inv.alloc`).
-/

namespace Apogee

open Verif Span

/-- The bytes that the allocator reserves for a layout: its size, at least a node, rounded up. -/
def Layout.extent (l : Layout) : Nat := roundUp (max l.size minBlock) nodeAlign

theorem Layout.size_le_extent (l : Layout) : l.size ≤ l.extent :=
  Nat.le_trans (Nat.le_max_left _ _) (le_roundUp _ (by decide))

theorem Layout.minBlock_le_extent (l : Layout) : minBlock ≤ l.extent :=
  Nat.le_trans (Nat.le_max_right _ _) (le_roundUp _ (by decide))

/-- The extent `[p, p + allocation_size(layout))` of a block. -/
def Block.span (b : Block) : Span := ⟨b.ptr, b.layout.extent⟩

namespace LinkedListAllocator

variable {p : Profile} {a : LinkedListAllocator} {owned : List Span}

/-! ## The list operations without a panic -/

theorem alignUp_node {addr : Nat} (h : addr + 8 < 2 ^ 64) :
    alignUp p addr nodeAlign = .ok (roundUp addr nodeAlign) :=
  alignUp_eq (k := 3) rfl h

theorem splice_eq {addr size : Nat} {l : List ListNode} (hpos : 0 < size)
    (hend : ∀ r ∈ l, r.stop < 2 ^ 64) (hap : ∀ r ∈ l, Apart ⟨addr, size⟩ r) :
    splice p addr size l = .ok (place ⟨addr, size⟩ l) := by
  induction l with
  | nil => rfl
  | cons node next ih =>
    unfold splice place ListNode.startAddr
    by_cases hlt : node.addr < addr
    · have hle : node.addr + node.size ≤ addr := (hap node (.head _)).stop_le hpos hlt
      have hadd : node.endAddr p = .ok (node.addr + node.size) :=
        Word.add_of_lt (hend node (.head _))
      rw [if_pos hlt, if_pos hlt, hadd, ih (fun r hr => hend r (.tail _ hr))
        fun r hr => hap r (.tail _ hr)]
      simp [hle]
    · rw [if_neg hlt, if_neg hlt]; rfl

/-- A free region: not at null, not empty, and in the address space. -/
structure Region (r : ListNode) : Prop where
  addr_pos : 0 < r.addr
  size_pos : 0 < r.size
  stop_le : r.stop ≤ 2 ^ 64

/-- Free regions in address order, without an overlap. Neighbours may touch. -/
structure Regions (l : List ListNode) : Prop where
  ordered : Ordered l
  region : ∀ r ∈ l, Region r

namespace Regions

variable {r s : ListNode} {l pre : List ListNode}

theorem right (h : Regions (pre ++ l)) : Regions l :=
  ⟨(List.pairwise_append.mp h.ordered).2.1, fun s hs => h.region s (List.mem_append_right _ hs)⟩

/-- The end of a region that another one follows is a word. -/
theorem endAddr_eq (h : Regions (r :: s :: l)) : r.endAddr p = .ok r.stop := by
  have hle : r.stop ≤ s.addr := (List.pairwise_cons.mp h.ordered).1 s (.head _)
  obtain ⟨-, hpos, hstop⟩ := h.region s (.tail _ (.head _))
  apply Word.add_of_lt
  show r.stop < 2 ^ 64
  unfold stop at *
  omega

theorem add_eq (h : Regions (r :: s :: l)) (htouch : s.addr = r.stop) :
    Word.add p r.size s.size = .ok (r.size + s.size) := by
  have hpos := (h.region r (.head _)).addr_pos
  have hstop := (h.region s (.tail _ (.head _))).stop_le
  apply Word.add_of_lt
  unfold stop at *
  omega

/-- Two touching neighbours as one region. -/
theorem join (h : Regions (pre ++ r :: s :: l)) (htouch : s.addr = r.stop) :
    Regions (pre ++ ⟨r.addr, r.size + s.size⟩ :: l) := by
  obtain ⟨hpre, hrest, hcross⟩ := List.pairwise_append.mp h.ordered
  obtain ⟨-, hsl⟩ := List.pairwise_cons.mp hrest
  obtain ⟨hs, hl⟩ := List.pairwise_cons.mp hsl
  have hjoin : (⟨r.addr, r.size + s.size⟩ : Span).stop = s.stop := by
    unfold stop at *
    simp only
    omega
  constructor
  · refine List.pairwise_append.mpr ⟨hpre, List.pairwise_cons.mpr ⟨?_, hl⟩, ?_⟩
    · intro t ht
      rw [hjoin]
      exact hs t ht
    · intro q hq t ht
      rcases List.mem_cons.mp ht with rfl | ht
      · exact hcross q hq r (.head _)
      · exact hcross q hq t (.tail _ (.tail _ ht))
  · intro t ht
    rcases List.mem_append.mp ht with ht | ht
    · exact h.region t (List.mem_append_left _ ht)
    · rcases List.mem_cons.mp ht with rfl | ht
      · obtain ⟨haddr, hsize, -⟩ := h.region r (List.mem_append_right _ (.head _))
        have hstop := (h.region s (List.mem_append_right _ (.tail _ (.head _)))).stop_le
        exact ⟨haddr, Nat.add_pos_left hsize _, hjoin ▸ hstop⟩
      · exact h.region t (List.mem_append_right _ (.tail _ (.tail _ ht)))

end Regions

theorem coalesceFrom_eq {node : ListNode} {l : List ListNode} (h : Regions (node :: l)) :
    coalesceFrom p node l = .ok (fuseFrom node l) := by
  induction l generalizing node with
  | nil => rfl
  | cons next rest ih =>
    have hjoin : Regions ([] ++ node :: next :: rest) := h
    have htail : Regions ([node] ++ next :: rest) := h
    unfold coalesceFrom fuseFrom ListNode.startAddr
    rw [h.endAddr_eq, Panics.bind_ok]
    by_cases htouch : next.addr = node.stop
    · rw [if_pos htouch, if_pos htouch, h.add_eq htouch, Panics.bind_ok]
      exact ih (hjoin.join htouch)
    · rw [if_neg htouch, if_neg htouch, ih htail.right]
      rfl

theorem coalesce_eq {l : List ListNode} (h : Regions l) : coalesce p l = .ok (fuse l) := by
  cases l with
  | nil => rfl
  | cons node next => exact coalesceFrom_eq h

/-! ## The invariant -/

/-- A span that the list can hold: aligned for a node, with room for one, in the heap. -/
structure Tracked (a : LinkedListAllocator) (r : Span) : Prop where
  aligned : nodeAlign ∣ r.addr
  room : minBlock ≤ r.size
  inside : r.Inside a.heapStart a.heapEnd

theorem Tracked.pos {r : Span} (h : a.Tracked r) : 0 < r.size :=
  Nat.lt_of_lt_of_le (by decide) h.room

/-- The invariant of the allocator with the spans `owned` out of its list. -/
structure Inv (a : LinkedListAllocator) (owned : List Span) : Prop where
  start_pos : 0 < a.heapStart
  end_le : a.heapEnd ≤ 2 ^ 63
  gapped : Gapped a.head
  tracked : ∀ r ∈ owned ++ a.head, a.Tracked r
  apart : (owned ++ a.head).Pairwise Apart

/-- The same over a heap that may end anywhere below `2 ^ 64`. Only `align_up` to the alignment of
a layout needs more room than this. -/
structure Sound (a : LinkedListAllocator) (owned : List Span) : Prop where
  start_pos : 0 < a.heapStart
  end_lt : a.heapEnd < 2 ^ 64
  gapped : Gapped a.head
  tracked : ∀ r ∈ owned ++ a.head, a.Tracked r
  apart : (owned ++ a.head).Pairwise Apart

theorem Inv.sound (h : a.Inv owned) : a.Sound owned :=
  ⟨h.start_pos, Nat.lt_of_le_of_lt h.end_le (by decide), h.gapped, h.tracked, h.apart⟩

theorem Sound.inv (h : a.Sound owned) (hend : a.heapEnd ≤ 2 ^ 63) : a.Inv owned :=
  ⟨h.start_pos, hend, h.gapped, h.tracked, h.apart⟩

theorem Sound.perm (h : a.Sound owned) {owned' : List Span} (hp : owned.Perm owned') :
    a.Sound owned' where
  start_pos := h.start_pos
  end_lt := h.end_lt
  gapped := h.gapped
  tracked r hr := h.tracked r ((hp.append_right a.head).mem_iff.mpr hr)
  apart := ((hp.append_right a.head).pairwise_iff Apart.symm).mp h.apart

theorem Inv.perm (h : a.Inv owned) {owned' : List Span} (hp : owned.Perm owned') :
    a.Inv owned' :=
  (h.sound.perm hp).inv h.end_le

theorem Sound.stop_lt (h : a.Sound owned) {r : Span} (hr : r ∈ owned ++ a.head) :
    r.stop < 2 ^ 64 :=
  Nat.lt_of_le_of_lt (h.tracked r hr).inside.2 h.end_lt

/-! ## The three moves -/

theorem Sound.unlink (h : a.Sound owned) {pre post : List ListNode} {r : ListNode}
    (hl : a.head = pre ++ r :: post) : Sound { a with head := pre ++ post } (r :: owned) := by
  have hperm : (owned ++ a.head).Perm ((r :: owned) ++ (pre ++ post)) := by
    rw [hl, List.cons_append, ← List.append_assoc, ← List.append_assoc]
    exact List.perm_middle
  refine ⟨h.start_pos, h.end_lt, ?_, fun s hs => ?_, (hperm.pairwise_iff Apart.symm).mp h.apart⟩
  · have hg := h.gapped
    rw [hl] at hg
    exact hg.sublist ((List.sublist_cons_self r post).append_left pre)
  · obtain ⟨h1, h2, h3⟩ := h.tracked s (hperm.mem_iff.mpr hs)
    exact ⟨h1, h2, h3⟩

/-- A span apart from one that holds another is apart from the other. -/
theorem apart_of_within {r s t : Span} (h : r.Apart t) (hlo : r.addr ≤ s.addr)
    (hhi : s.stop ≤ r.stop) : s.Apart t := by
  unfold Apart at *
  omega

theorem Sound.carve {r : Span} (h : a.Sound (r :: owned)) {ps : List Span}
    (htr : ∀ s ∈ ps, a.Tracked s) (hin : ∀ s ∈ ps, r.addr ≤ s.addr ∧ s.stop ≤ r.stop)
    (hap : ps.Pairwise Apart) : a.Sound (ps ++ owned) := by
  obtain ⟨hr, hrest⟩ := List.pairwise_cons.mp h.apart
  refine ⟨h.start_pos, h.end_lt, h.gapped, fun s hs => ?_, ?_⟩
  · rw [List.append_assoc] at hs
    rcases List.mem_append.mp hs with hs | hs
    · exact htr s hs
    · exact h.tracked s (.tail _ hs)
  · rw [List.append_assoc]
    refine List.pairwise_append.mpr ⟨hap, hrest, fun s hs t ht => ?_⟩
    exact apart_of_within (hr t ht) (hin s hs).1 (hin s hs).2

/-- The allocator with the span `b` back on the list. -/
def release (a : LinkedListAllocator) (b : Span) : LinkedListAllocator :=
  { a with head := fuse (place b a.head) }

theorem cover_release (a : LinkedListAllocator) (b : Span) :
    cover (a.release b).head = b.bytes ∪ cover a.head := by
  unfold release
  rw [cover_fuse, cover_place]

theorem freeBytes_release (a : LinkedListAllocator) (b : Span) :
    (a.release b).freeBytes = b.size + a.freeBytes := by
  show total (fuse (place b a.head)) = b.size + total a.head
  rw [total_fuse, total_place]

/-- A tracked span has room for a node behind its start, so `align_up` to a node stays below
`2 ^ 64`. -/
theorem Tracked.alignUp_eq {r : Span} (h : a.Tracked r) (hend : a.heapEnd < 2 ^ 64) :
    alignUp p r.addr nodeAlign = .ok r.addr := by
  have hroom : 16 ≤ r.size := h.room
  have hstop : r.addr + r.size ≤ a.heapEnd := h.inside.2
  rw [alignUp_node (by omega), roundUp_of_dvd (by decide) h.aligned]

theorem Tracked.region {r : Span} (h : a.Tracked r) (hs : 0 < a.heapStart)
    (hend : a.heapEnd < 2 ^ 64) : Region r :=
  ⟨Nat.lt_of_lt_of_le hs h.inside.1, h.pos, Nat.le_trans h.inside.2 hend.le⟩

/-- The list with an owned span put in its place. -/
theorem Sound.place_tracked {b : Span} (h : a.Sound (b :: owned)) :
    ∀ r ∈ place b a.head, a.Tracked r := by
  intro r hr
  rcases mem_place.mp hr with rfl | hr
  · exact h.tracked r (.head _)
  · exact h.tracked r (List.mem_append_right _ hr)

theorem Sound.place_regions {b : Span} (h : a.Sound (b :: owned)) : Regions (place b a.head) := by
  refine ⟨h.gapped.ordered.place (h.tracked b (.head _)).pos ?_ ?_, fun r hr => ?_⟩
  · exact fun r hr => (h.tracked r (List.mem_append_right _ hr)).pos
  · exact fun r hr => (List.pairwise_cons.mp h.apart).1 r (List.mem_append_right _ hr)
  · exact (h.place_tracked r hr).region h.start_pos h.end_lt

theorem Sound.addFreeRegion_eq {b : Span} (h : a.Sound (b :: owned)) :
    a.addFreeRegion p b.addr b.size = .ok (a.release b) := by
  have hb := h.tracked b (.head _)
  have hend := h.end_lt
  have hin := hb.inside
  have hstop : b.addr + b.size ≤ a.heapEnd := hin.2
  have hal : alignUp p b.addr nodeAlign = .ok b.addr := hb.alignUp_eq hend
  have hap : ∀ r ∈ a.head, Apart ⟨b.addr, b.size⟩ r := fun r hr =>
    (List.pairwise_cons.mp h.apart).1 r (List.mem_append_right _ hr)
  have hsplice : splice p b.addr b.size a.head = .ok (place b a.head) :=
    splice_eq hb.pos (fun r hr => h.stop_lt (List.mem_append_right _ hr)) hap
  have hco : coalesce p (place b a.head) = .ok (fuse (place b a.head)) :=
    coalesce_eq h.place_regions
  unfold addFreeRegion
  rw [hal, hsplice, Word.satAdd_of_lt (by omega)]
  simp [hb.room, hin.1, hstop, hco, release]

theorem Sound.release {b : Span} (h : a.Sound (b :: owned)) : (a.release b).Sound owned := by
  obtain ⟨hb, hrest⟩ := List.pairwise_cons.mp h.apart
  have hpl := h.place_tracked
  have hg : Gapped (a.release b).head :=
    h.place_regions.ordered.fuse_gapped fun r hr => (hpl r hr).pos
  -- A region of the new list starts where an old one or `b` starts, and its bytes are theirs.
  have hcov := a.cover_release b
  have htr : ∀ r ∈ (a.release b).head, a.Tracked r := by
    intro r hr
    obtain ⟨s, hs, haddr, hsize⟩ := mem_fuse hr
    have hst := hpl s hs
    refine ⟨haddr ▸ hst.aligned, Nat.le_trans hst.room hsize, haddr ▸ hst.inside.1, ?_⟩
    have hpos := hst.pos
    have hlast : r.stop - 1 ∈ cover (place b a.head) := by
      rw [cover_place, ← hcov]
      exact ⟨r, hr, by simp only [mem_bytes, stop]; omega⟩
    obtain ⟨t, ht, hx⟩ := hlast
    have htin := (hpl t ht).inside.2
    simp only [mem_bytes, stop] at *
    omega
  refine ⟨h.start_pos, h.end_lt, hg, fun r hr => ?_, ?_⟩
  · rcases List.mem_append.mp hr with hr | hr
    · obtain ⟨h1, h2, h3⟩ := h.tracked r (.tail _ (List.mem_append_left _ hr))
      exact ⟨h1, h2, h3⟩
    · obtain ⟨h1, h2, h3⟩ := htr r hr
      exact ⟨h1, h2, h3⟩
  · refine List.pairwise_append.mpr
      ⟨(List.pairwise_append.mp hrest).1, hg.apart, fun s hs r hr => ?_⟩
    refine apart_of_cover (c := b) (l := a.head) ?_ (fun r hr => (htr r hr).pos) (fun t ht => ?_)
      (hb s (List.mem_append_left _ hs)).symm hcov.subset r hr
    · exact (h.tracked s (.tail _ (List.mem_append_left _ hs))).pos
    · exact (List.pairwise_append.mp hrest).2.2 s hs t ht

theorem Inv.release {b : Span} (h : a.Inv (b :: owned)) : (a.release b).Inv owned :=
  h.sound.release.inv h.end_le

/-! ## `find_region` -/

theorem fit_eq (size : Nat) {align k : Nat} {r : ListNode} (hk : align = 2 ^ k)
    (hal : r.addr + align < 2 ^ 64) (hr : r.stop < 2 ^ 64) :
    fit p size align r = .ok (if roundUp r.addr align + size ≤ r.stop then
      some ⟨r.addr, roundUp r.addr align, roundUp r.addr align + size, r.stop⟩ else none) := by
  have hend : r.endAddr p = .ok r.stop := Word.add_of_lt hr
  unfold fit ListNode.startAddr
  simp only [hend, alignUp_eq hk hal, Panics.bind_ok, Word.checkedAdd]
  by_cases hlt : roundUp r.addr align + size < 2 ^ 64
  · simp only [if_pos hlt]
    split <;> rfl
  · simp only [if_neg hlt]
    rw [if_neg (by omega)]
    rfl

/-- The region has no room for `size` bytes at a multiple of `align`. -/
def Skips (size align : Nat) (r : ListNode) : Prop := r.stop < roundUp r.addr align + size

/-- `align_up` does not overflow on the regions that `find_region` looks at: those up to the first
one with room. -/
def Clear (size align : Nat) : List ListNode → Prop
  | [] => True
  | r :: rest => r.addr + align < 2 ^ 64 ∧ (Skips size align r → Clear size align rest)

theorem clear_of_forall {size align : Nat} {l : List ListNode}
    (h : ∀ r ∈ l, r.addr + align < 2 ^ 64) : Clear size align l := by
  induction l with
  | nil => exact trivial
  | cons r rest ih => exact ⟨h r (.head _), fun _ => ih fun q hq => h q (.tail _ hq)⟩

/-- Behind regions without room, `find_region` looks at the rest of the list. -/
theorem Clear.append {size align : Nat} {pre l : List ListNode} (h : Clear size align (pre ++ l))
    (hskip : ∀ r ∈ pre, Skips size align r) :
    (∀ r ∈ pre, r.addr + align < 2 ^ 64) ∧ Clear size align l := by
  induction pre with
  | nil => exact ⟨by simp, h⟩
  | cons node pre ih =>
    obtain ⟨hnode, hrest⟩ := h
    obtain ⟨hpre, hl⟩ := ih (hrest (hskip node (.head _))) fun r hr => hskip r (.tail _ hr)
    exact ⟨List.forall_mem_cons.mpr ⟨hnode, hpre⟩, hl⟩

/-- What first fit finds: the first region of the list with room. -/
structure FirstFit (a : LinkedListAllocator) (size align : Nat) where
  pre : List ListNode
  region : ListNode
  post : List ListNode
  head_eq : a.head = pre ++ region :: post
  skipped : ∀ r ∈ pre, Skips size align r
  room : roundUp region.addr align + size ≤ region.stop

theorem skips_or_firstFit (a : LinkedListAllocator) (size align : Nat) :
    (∀ r ∈ a.head, Skips size align r) ∨ Nonempty (FirstFit a size align) := by
  cases hfind : a.head.find? fun r => roundUp r.addr align + size ≤ r.stop with
  | none =>
    left
    intro r hr
    have hno := List.find?_eq_none.mp hfind r hr
    exact Nat.lt_of_not_le fun hle => hno (decide_eq_true hle)
  | some r =>
    right
    obtain ⟨hroom, pre, post, hl, hpre⟩ := List.find?_eq_some_iff_append.mp hfind
    refine ⟨⟨pre, r, post, hl, fun q hq => ?_, of_decide_eq_true hroom⟩⟩
    have hno := hpre q hq
    exact Nat.lt_of_not_le fun hle => by simp [hle] at hno

/-- `find_region`'s loop walks over the regions without room. -/
theorem findSlot_append (size : Nat) {align k : Nat} (hk : align = 2 ^ k)
    {pre l : List ListNode} (hal : ∀ r ∈ pre, r.addr + align < 2 ^ 64)
    (hstop : ∀ r ∈ pre, r.stop < 2 ^ 64) (hskip : ∀ r ∈ pre, Skips size align r) :
    findSlot p size align (pre ++ l) =
      (·.map fun (f, rest) => (f, pre ++ rest)) <$> findSlot p size align l := by
  induction pre with
  | nil =>
    rw [List.nil_append]
    cases findSlot p size align l with
    | error => rfl
    | ok slot => cases slot <;> rfl
  | cons node pre ih =>
    have hrest := ih (fun r hr => hal r (.tail _ hr)) (fun r hr => hstop r (.tail _ hr))
      fun r hr => hskip r (.tail _ hr)
    have hfit := fit_eq (p := p) size hk (hal node (.head _)) (hstop node (.head _))
    rw [if_neg (Nat.not_le_of_lt (hskip node (.head _)))] at hfit
    rw [List.cons_append]
    generalize findSlot p size align l = found at hrest ⊢
    unfold findSlot
    rw [hfit, hrest]
    cases found with
    | error => rfl
    | ok slot => cases slot <;> rfl

/-- A leftover goes back to the list if it can hold a node; else it stays out of it. -/
def giveBack (a : LinkedListAllocator) (b : Span) : LinkedListAllocator :=
  if minBlock ≤ b.size then a.release b else a

/-- How much of a leftover of that size is lost. -/
def waste (size : Nat) : Nat := if minBlock ≤ size then 0 else size

theorem waste_cases (size : Nat) :
    minBlock ≤ size ∧ waste size = 0 ∨ size < minBlock ∧ waste size = size := by
  unfold waste
  split <;> omega

theorem mem_cover_giveBack {b : Span} {x : Nat} :
    x ∈ cover (a.giveBack b).head ↔ (minBlock ≤ b.size ∧ x ∈ b.bytes) ∨ x ∈ cover a.head := by
  unfold giveBack
  split
  · next hb => simp only [cover_release, hb, true_and, Set.mem_union]
  · next hb => simp only [hb, false_and, false_or]

theorem freeBytes_giveBack (b : Span) :
    (a.giveBack b).freeBytes + waste b.size = b.size + a.freeBytes := by
  unfold giveBack waste
  split
  · rw [freeBytes_release, Nat.add_zero]
  · exact Nat.add_comm _ _

theorem Sound.giveBack {b : Span} (h : a.Sound ([b].filter (minBlock ≤ ·.size) ++ owned)) :
    (if minBlock ≤ b.size then a.addFreeRegion p b.addr b.size else pure a) = .ok (a.giveBack b) ∧
      (a.giveBack b).Sound owned := by
  unfold LinkedListAllocator.giveBack
  by_cases hb : minBlock ≤ b.size
  · simp only [List.filter_cons, decide_eq_true hb, if_true, List.filter_nil] at h
    simp only [if_pos hb]
    exact ⟨h.addFreeRegion_eq, h.release⟩
  · simp only [List.filter_cons, decide_eq_false hb, Bool.false_eq_true, if_false,
      List.filter_nil, List.nil_append] at h
    simp only [if_neg hb]
    exact ⟨rfl, h⟩

namespace FirstFit

variable {size align : Nat} (f : FirstFit a size align)

def addr : Nat := roundUp f.region.addr align

def block : Span := ⟨f.addr, size⟩

/-- What is before the block in its region. -/
def front : Span := ⟨f.region.addr, f.addr - f.region.addr⟩

/-- What is after the block in its region. -/
def back : Span := ⟨f.addr + size, f.region.stop - (f.addr + size)⟩

/-- The allocator without the block. -/
def heap : LinkedListAllocator :=
  ({ a with head := f.pre ++ f.post }.giveBack f.front).giveBack f.back

theorem heap_bounds : f.heap.heapStart = a.heapStart ∧ f.heap.heapEnd = a.heapEnd := by
  unfold heap giveBack
  split <;> split <;> exact ⟨rfl, rfl⟩

theorem align_dvd : align ∣ f.addr := dvd_roundUp _ _

theorem region_mem : f.region ∈ a.head := by
  rw [f.head_eq]
  exact List.mem_append_right _ (.head _)

/-- The free bytes before the allocation are those after it, the block and the waste. -/
theorem freeBytes_heap (ha : 0 < align) :
    f.heap.freeBytes + size + (waste f.front.size + waste f.back.size) = a.freeBytes := by
  have hge : f.region.addr ≤ f.addr := le_roundUp _ ha
  have hroom : f.addr + size ≤ f.region.addr + f.region.size := f.room
  have hfront := freeBytes_giveBack (a := { a with head := f.pre ++ f.post }) f.front
  have hback := freeBytes_giveBack (a := { a with head := f.pre ++ f.post }.giveBack f.front) f.back
  have hrest : LinkedListAllocator.freeBytes { a with head := f.pre ++ f.post } + f.region.size =
      a.freeBytes := by
    show total (f.pre ++ f.post) + f.region.size = total a.head
    rw [f.head_eq, total_perm List.perm_middle, total_cons, Nat.add_comm]
  have hfrontSize : f.front.size = f.addr - f.region.addr := rfl
  have hbackSize : f.back.size = f.region.addr + f.region.size - (f.addr + size) := rfl
  unfold heap
  omega

theorem findSlot_eq {k : Nat} (hk : align = 2 ^ k) (hclear : Clear size align a.head)
    (hstop : ∀ r ∈ a.head, r.stop < 2 ^ 64) :
    findSlot p size align a.head =
      .ok (some (⟨f.region.addr, f.addr, f.addr + size, f.region.stop⟩, f.pre ++ f.post)) := by
  rw [f.head_eq] at hclear
  obtain ⟨hpre, hregion, -⟩ := hclear.append f.skipped
  have hfit := fit_eq (p := p) size hk hregion (hstop _ f.region_mem)
  rw [if_pos f.room] at hfit
  rw [f.head_eq, findSlot_append size hk hpre ?_ f.skipped]
  · unfold findSlot
    rw [hfit]
    rfl
  · intro r hr
    exact hstop r (by rw [f.head_eq]; exact List.mem_append_left _ hr)

end FirstFit

/-- A region taken off the list splits into what is before a block in it, what is after it, and the
block. Of the first two, those that can hold a node are tracked. -/
theorem Sound.splitRegion (h : a.Sound owned) {pre post : List ListNode} {r : ListNode}
    {start size : Nat} (hl : a.head = pre ++ r :: post) (hge : r.addr ≤ start)
    (hroom : start + size ≤ r.stop) (hstart : nodeAlign ∣ start) (hsize : nodeAlign ∣ size)
    (hmin : minBlock ≤ size) :
    Sound { a with head := pre ++ post }
      ([⟨r.addr, start - r.addr⟩].filter (minBlock ≤ ·.size) ++
        ([⟨start + size, r.stop - (start + size)⟩].filter (minBlock ≤ ·.size) ++
          ⟨start, size⟩ :: owned)) := by
  have hr : a.Tracked r := h.tracked r (List.mem_append_right _ (by rw [hl]; simp))
  obtain ⟨front, hfront⟩ : ∃ b : Span, b = ⟨r.addr, start - r.addr⟩ := ⟨_, rfl⟩
  obtain ⟨back, hback⟩ : ∃ b : Span, b = ⟨start + size, r.stop - (start + size)⟩ := ⟨_, rfl⟩
  obtain ⟨block, hblock⟩ : ∃ b : Span, b = ⟨start, size⟩ := ⟨_, rfl⟩
  have hin : ∀ q ∈ [front, back, block], r.addr ≤ q.addr ∧ q.stop ≤ r.stop := by
    simp only [List.forall_mem_cons, hfront, hback, hblock, stop] at *
    refine ⟨by omega, by omega, by omega, by simp⟩
  have haligned : ∀ q ∈ [front, back, block], nodeAlign ∣ q.addr := by
    simp only [List.forall_mem_cons, hfront, hback, hblock]
    exact ⟨hr.aligned, Nat.dvd_add hstart hsize, hstart, by simp⟩
  have hcarve : Sound { a with head := pre ++ post }
      ([front, back, block].filter (minBlock ≤ ·.size) ++ owned) := by
    refine (h.unlink hl).carve (fun q hq => ?_) (fun q hq => hin q (List.mem_of_mem_filter hq)) ?_
    · obtain ⟨hq, hroom⟩ := List.mem_filter.mp hq
      obtain ⟨h1, h2⟩ := hin q hq
      exact ⟨haligned q hq, of_decide_eq_true hroom, Nat.le_trans hr.inside.1 h1,
        Nat.le_trans h2 hr.inside.2⟩
    · refine List.Pairwise.filter _ ?_
      simp only [List.pairwise_cons, List.forall_mem_cons, Apart, hfront, hback, hblock, stop]
      refine ⟨⟨by omega, by omega, by simp⟩, ⟨by omega, by simp⟩, by simp, List.Pairwise.nil⟩
  have hlast : [block].filter (minBlock ≤ ·.size) = [block] := by simp [hblock, hmin]
  rw [show [front, back, block] = [front] ++ ([back] ++ [block]) from rfl, List.filter_append,
    List.filter_append, hlast, List.append_assoc, List.append_assoc] at hcarve
  rw [← hfront, ← hback, ← hblock]
  exact hcarve

theorem Sound.findRegion_none (h : a.Sound owned) {size align k : Nat} (hk : align = 2 ^ k)
    (hclear : Clear size align a.head) (hno : ∀ r ∈ a.head, Skips size align r) :
    findSlot p size align a.head = .ok none ∧ a.findRegion p size align = .ok (none, a) := by
  rw [← List.append_nil a.head] at hclear
  have hslot : findSlot p size align (a.head ++ []) = .ok none := by
    rw [findSlot_append size hk (hclear.append hno).1
      (fun r hr => h.stop_lt (List.mem_append_right _ hr)) hno]
    rfl
  rw [List.append_nil] at hslot
  refine ⟨hslot, ?_⟩
  unfold LinkedListAllocator.findRegion
  rw [hslot]
  rfl

theorem Sound.findRegion (h : a.Sound owned) {size align k : Nat} (hk : align = 2 ^ k)
    (hclear : Clear size align a.head) (hlo : nodeAlign ≤ align) (hsz : nodeAlign ∣ size)
    (hmin : minBlock ≤ size) (f : FirstFit a size align) :
    a.findRegion p size align = .ok (some f.addr, f.heap) ∧ f.heap.Sound (f.block :: owned) := by
  have hslot := f.findSlot_eq (p := p) hk hclear fun r hr =>
    h.stop_lt (List.mem_append_right _ hr)
  have hge : f.region.addr ≤ f.addr := le_roundUp _ (hk ▸ Nat.two_pow_pos k)
  have hroom : f.addr + size ≤ f.region.stop := f.room
  have h8 : nodeAlign ∣ align := by
    rw [hk]
    exact Nat.pow_dvd_pow 2 (m := 3) ((Nat.pow_le_pow_iff_right (a := 2) (by decide)).mp (hk ▸ hlo))
  have hsplit := h.splitRegion f.head_eq hge hroom (h8.trans f.align_dvd) hsz hmin
  obtain ⟨e₁, hinv₁⟩ := hsplit.giveBack (p := p)
  obtain ⟨e₂, hinv₂⟩ := hinv₁.giveBack (p := p)
  refine ⟨?_, hinv₂⟩
  unfold LinkedListAllocator.findRegion
  rw [hslot]
  simp only [Panics.bind_ok]
  rw [Word.sub_of_le hge, Word.sub_of_le hroom]
  simp only [Panics.bind_ok, Panics.pure_eq] at e₁ e₂ ⊢
  rw [e₁, Panics.bind_ok, e₂]
  rfl

/-! ## The allocator's operations -/

theorem allocationSize_eq (l : Layout) : allocationSize p l = .ok l.extent := by
  have := l.fits
  exact alignUp_node (by simp only [minBlock]; omega)

theorem allocationAlign_eq (l : Layout) : ∃ k, allocationAlign l = 2 ^ k := by
  obtain ⟨k, hk⟩ := l.align_pow
  unfold allocationAlign
  rcases Nat.le_total l.align nodeAlign with h | h
  · exact ⟨3, Nat.max_eq_right h⟩
  · exact ⟨k, (Nat.max_eq_left h).trans hk⟩

theorem align_dvd_allocationAlign (l : Layout) : l.align ∣ allocationAlign l := by
  obtain ⟨k, hk⟩ := l.align_pow
  unfold allocationAlign
  rcases Nat.le_total l.align nodeAlign with h | h
  · rw [Nat.max_eq_right h, hk]
    exact Nat.pow_dvd_pow 2 (n := 3)
      ((Nat.pow_le_pow_iff_right (a := 2) (by decide)).mp (hk ▸ h))
  · rw [Nat.max_eq_left h]

/-- The region that `init` makes of the heap `[s, s + n)`, if it has room for a node. -/
def initRegion (s n : Nat) : List ListNode :=
  [⟨roundUp s nodeAlign, s + n - roundUp s nodeAlign⟩].filter (minBlock ≤ ·.size)

/-- `init` puts the whole aligned range on the list, if it has room for a node. -/
theorem init_sound {s n : Nat} (hs : 0 < s) (hn : s + n < 2 ^ 64) (hnode : s + nodeAlign < 2 ^ 64) :
    ∃ a, init p s n = .ok a ∧ a.Sound [] ∧ a.heapStart = s ∧ a.heapEnd = s + n ∧
      a.head = initRegion s n := by
  have hge := le_roundUp (a := nodeAlign) s (by decide)
  have hdvd := dvd_roundUp s nodeAlign
  unfold init initRegion
  rw [Word.satAdd_of_lt hn]
  simp only [alignUp_node (p := p) hnode, Panics.bind_ok]
  generalize roundUp s nodeAlign = start at *
  have h0 : Sound { head := [], heapStart := s, heapEnd := s + n } [] :=
    ⟨hs, hn, .nil, by simp, .nil⟩
  split
  · rename_i hroom
    have h1 : Sound { head := [], heapStart := s, heapEnd := s + n } [⟨start, s + n - start⟩] := by
      refine ⟨hs, hn, .nil, fun r hr => ?_, List.pairwise_singleton _ _⟩
      rw [List.append_nil, List.mem_singleton] at hr
      subst hr
      refine ⟨hdvd, hroom, hge, ?_⟩
      simp only [stop, minBlock] at *
      omega
    refine ⟨_, h1.addFreeRegion_eq, h1.release, rfl, rfl, ?_⟩
    simp only [List.filter_cons, hroom, decide_true, if_true, List.filter_nil]
    rfl
  · rename_i hroom
    refine ⟨_, rfl, h0, rfl, rfl, ?_⟩
    simp [hroom]

theorem init_spec {s n : Nat} (hs : 0 < s) (hn : s + n ≤ 2 ^ 63) :
    ∃ a, init p s n = .ok a ∧ a.Inv [] ∧ a.heapStart = s ∧ a.heapEnd = s + n ∧
      a.head = initRegion s n := by
  obtain ⟨a, ha, hsound, hstart, hend, hhead⟩ := init_sound (p := p) hs
    (show s + n < 2 ^ 64 by omega) (show s + 8 < 2 ^ 64 by omega)
  exact ⟨a, ha, hsound.inv (by omega), hstart, hend, hhead⟩

theorem allocationAlign_le {l : Layout} (hl : 0 < l.size) : allocationAlign l ≤ 2 ^ 62 :=
  Nat.max_le.mpr ⟨l.align_le hl, by decide⟩

/-- The request that `alloc` makes of `find_region` does not overflow. -/
abbrev ClearFor (a : LinkedListAllocator) (l : Layout) : Prop :=
  Clear l.extent (allocationAlign l) a.head

theorem Inv.clearFor (h : a.Inv owned) {l : Layout} (hl : 0 < l.size) : a.ClearFor l := by
  apply clear_of_forall
  intro r hr
  have hstop : r.addr + r.size ≤ a.heapEnd :=
    (h.tracked r (List.mem_append_right _ hr)).inside.2
  have hend := h.end_le
  have halign := allocationAlign_le hl
  omega

theorem Sound.alloc_null (h : a.Sound owned) {l : Layout} (hclear : a.ClearFor l)
    (hno : ∀ r ∈ a.head, Skips l.extent (allocationAlign l) r) : a.alloc p l = .ok (0, a) := by
  obtain ⟨k, hk⟩ := allocationAlign_eq l
  unfold LinkedListAllocator.alloc
  simp only [allocationSize_eq, Panics.bind_ok]
  rw [(h.findRegion_none hk hclear hno).2]
  rfl

theorem Inv.alloc_null (h : a.Inv owned) {l : Layout} (hl : 0 < l.size)
    (hno : ∀ r ∈ a.head, Skips l.extent (allocationAlign l) r) : a.alloc p l = .ok (0, a) :=
  h.sound.alloc_null (h.clearFor hl) hno

theorem Sound.alloc_eq (h : a.Sound owned) {l : Layout} (hclear : a.ClearFor l)
    (f : FirstFit a l.extent (allocationAlign l)) :
    a.alloc p l = .ok (f.addr, f.heap) ∧ f.addr ≠ 0 ∧ f.heap.Sound (f.block :: owned) := by
  obtain ⟨k, hk⟩ := allocationAlign_eq l
  have hsz : nodeAlign ∣ l.extent := dvd_roundUp _ _
  obtain ⟨hfind, hinv⟩ := h.findRegion (p := p) hk hclear (Nat.le_max_right _ _) hsz
    l.minBlock_le_extent f
  refine ⟨?_, ?_, hinv⟩
  · unfold LinkedListAllocator.alloc
    simp only [allocationSize_eq, Panics.bind_ok]
    rw [hfind]
    rfl
  · have h1 : f.heap.heapStart ≤ f.addr := (hinv.tracked _ (.head _)).inside.1
    have h2 := hinv.start_pos
    omega

theorem Inv.alloc_eq (h : a.Inv owned) {l : Layout} (hl : 0 < l.size)
    (f : FirstFit a l.extent (allocationAlign l)) :
    a.alloc p l = .ok (f.addr, f.heap) ∧ f.addr ≠ 0 ∧ f.heap.Inv (f.block :: owned) := by
  obtain ⟨e, hne, hsound⟩ := h.sound.alloc_eq (p := p) (h.clearFor hl) f
  exact ⟨e, hne, hsound.inv (f.heap_bounds.2.trans_le h.end_le)⟩

/-- The bytes that an `alloc` of the layout loses: the leftovers that cannot hold a node. -/
def discards (p : Profile) (a : LinkedListAllocator) (layout : Layout) : Nat :=
  match allocationSize p layout >>= fun size => findSlot p size (allocationAlign layout) a.head with
  | .ok (some (f, _)) => waste (f.allocStart - f.regionStart) + waste (f.regionEnd - f.allocEnd)
  | _ => 0

theorem Inv.discards_null (h : a.Inv owned) {l : Layout} (hl : 0 < l.size)
    (hno : ∀ r ∈ a.head, Skips l.extent (allocationAlign l) r) : a.discards p l = 0 := by
  obtain ⟨k, hk⟩ := allocationAlign_eq l
  unfold discards
  rw [allocationSize_eq, Panics.bind_ok,
    (h.sound.findRegion_none hk (h.clearFor hl) hno).1]

theorem Sound.discards_eq (h : a.Sound owned) {l : Layout} (hclear : a.ClearFor l)
    (f : FirstFit a l.extent (allocationAlign l)) :
    a.discards p l = waste f.front.size + waste f.back.size := by
  obtain ⟨k, hk⟩ := allocationAlign_eq l
  unfold discards
  rw [allocationSize_eq, Panics.bind_ok,
    f.findSlot_eq hk hclear fun r hr => h.stop_lt (List.mem_append_right _ hr)]
  rfl

/-- `alloc` returns null and changes nothing, or it takes the first fit. The free bytes shrink by
the extent and by what is lost. -/
theorem Inv.alloc (h : a.Inv owned) {l : Layout} (hl : 0 < l.size) :
    a.alloc p l = .ok (0, a) ∧ a.discards p l = 0 ∨
    ∃ f : FirstFit a l.extent (allocationAlign l),
      a.alloc p l = .ok (f.addr, f.heap) ∧ f.addr ≠ 0 ∧ f.heap.Inv (f.block :: owned) ∧
      f.heap.freeBytes + l.extent + a.discards p l = a.freeBytes := by
  rcases skips_or_firstFit a l.extent (allocationAlign l) with hno | ⟨⟨f⟩⟩
  · exact .inl ⟨h.alloc_null hl hno, h.discards_null hl hno⟩
  · obtain ⟨e, hne, hinv⟩ := h.alloc_eq (p := p) hl f
    refine .inr ⟨f, e, hne, hinv, ?_⟩
    rw [h.sound.discards_eq (h.clearFor hl) f]
    exact f.freeBytes_heap (Nat.lt_of_lt_of_le (by decide) (Nat.le_max_right _ _))

theorem Sound.dealloc_eq {ptr : Nat} {l : Layout} (h : a.Sound (⟨ptr, l.extent⟩ :: owned)) :
    a.dealloc p ptr l = .ok (a.release ⟨ptr, l.extent⟩) := by
  have hb := h.tracked _ (.head _)
  have hin : a.heapStart ≤ ptr ∧ ptr + l.extent ≤ a.heapEnd := hb.inside
  have hend := h.end_lt
  have hal : alignUp p ptr nodeAlign = .ok ptr := hb.alignUp_eq hend
  unfold LinkedListAllocator.dealloc
  simp only [allocationSize_eq, Panics.bind_ok, hal,
    Word.satAdd_of_lt (show ptr + l.extent < 2 ^ 64 by omega), hin.1, hin.2, and_self,
    decide_true, Panics.pure_eq, Profile.debugAssert_true]
  exact h.addFreeRegion_eq

theorem Inv.dealloc_eq {ptr : Nat} {l : Layout} (h : a.Inv (⟨ptr, l.extent⟩ :: owned)) :
    a.dealloc p ptr l = .ok (a.release ⟨ptr, l.extent⟩) :=
  h.sound.dealloc_eq

/-! ## Whole runs -/

/-- The allocator over the heap `[s, s + n)`. -/
def api (p : Profile) (s n : Nat) : Api LinkedListAllocator where
  init := init p s n
  alloc := alloc p
  dealloc := dealloc p

/-- The invariant over `[s, s + n)`: the live blocks own their extents. -/
structure Ok (s n : Nat) (a : LinkedListAllocator) (live : List Block) : Prop where
  inv : a.Inv (live.map Block.span)
  start : a.heapStart = s
  stop : a.heapEnd = s + n

theorem keeps_ok {s n : Nat} (hs : 0 < s) (hn : s + n ≤ 2 ^ 63) : (api p s n).Keeps (Ok s n) where
  init := by
    obtain ⟨a, ha, hinv, hst, hend, -⟩ := init_spec (p := p) hs hn
    exact ⟨a, ha, hinv, hst, hend⟩
  perm h hp := ⟨h.inv.perm (hp.map _), h.start, h.stop⟩
  alloc h hl := by
    rcases h.inv.alloc (p := p) hl with ⟨h0, -⟩ | ⟨f, e, hne, hinv, -⟩
    · exact .inl h0
    · obtain ⟨hst, hend⟩ := f.heap_bounds
      exact .inr ⟨f.addr, f.heap, e, hne, hinv, hst.trans h.start, hend.trans h.stop⟩
  dealloc h := ⟨_, Inv.dealloc_eq h.inv, h.inv.release, h.start, h.stop⟩

/-- **The free list over whole runs.** From `init` over any heap `[s, s + n)` that ends at or below
`2 ^ 63`, in every reachable state: the list is strictly ascending; each region is aligned for a
node, has room for one and lies in the heap; no two regions overlap or touch; the regions and the
extents of the live blocks are pairwise apart; and no call of the allocator panics, so every
assertion and every `expect` that it reaches holds. -/
theorem freeList_sound (p : Profile) (s n : Nat) (hs : 0 < s) (hn : s + n ≤ 2 ^ 63) :
    (∃ a, init p s n = .ok a) ∧
    ∀ st, (api p s n).system.Reach st →
      st.heap.head.Pairwise (fun a b => a.addr < b.addr) ∧
      (∀ r ∈ st.heap.head, nodeAlign ∣ r.addr ∧ minBlock ≤ r.size ∧ r.Inside s (s + n)) ∧
      st.heap.head.Pairwise (fun a b => a.stop < b.addr) ∧
      (st.heap.head ++ st.live.map Block.span).Pairwise Apart ∧
      (∀ l : Layout, 0 < l.size → ∃ r, st.heap.alloc p l = .ok r) ∧
      (∀ b ∈ st.live, ∃ r, st.heap.dealloc p b.ptr b.layout = .ok r) := by
  have hk := keeps_ok (p := p) hs hn
  obtain ⟨a, ha, -⟩ := hk.init
  refine ⟨⟨a, ha⟩, fun st hst => ?_⟩
  have hok := hk.reach hst
  have hinv := hok.inv
  refine ⟨?_, fun r hr => ?_, hinv.gapped, ?_, fun l hl => ?_, fun b hb => hk.dealloc_ok hok hb⟩
  · exact hinv.gapped.imp fun {a b} hab => Nat.lt_of_le_of_lt (Nat.le_add_right a.addr a.size) hab
  · have ht := hinv.tracked r (List.mem_append_right _ hr)
    have hin := ht.inside
    rw [hok.start, hok.stop] at hin
    exact ⟨ht.aligned, ht.room, hin⟩
  · exact (List.perm_append_comm.pairwise_iff Apart.symm).mp hinv.apart
  · rcases hinv.alloc (p := p) hl with ⟨h, -⟩ | ⟨f, h, -⟩
    · exact ⟨_, h⟩
    · exact ⟨_, h⟩

/-- On the kernel's heap, with a block of 17 bytes aligned to 16 live: the state is reachable, and
its one region and the block are apart. -/
theorem freeList_sound_kernelHeap :
    ∃ st, (api .dev 0x444444440000 (100 * 1024)).system.Reach st ∧
      st.live = [⟨0x444444440000, ⟨17, 16, ⟨4, rfl⟩, by decide⟩⟩] ∧
      st.heap.head = [⟨0x444444440018, 102376⟩] ∧
      (st.heap.head ++ st.live.map Block.span).Pairwise Apart := by
  have h0 : (api .dev 0x444444440000 (100 * 1024)).system.Reach
      ⟨⟨[⟨0x444444440000, 102400⟩], 0x444444440000, 0x444444459000⟩, []⟩ := .init ⟨rfl, rfl⟩
  have hst : (api .dev 0x444444440000 (100 * 1024)).system.Reach
      ⟨⟨[⟨0x444444440018, 102376⟩], 0x444444440000, 0x444444459000⟩,
        [⟨0x444444440000, ⟨17, 16, ⟨4, rfl⟩, by decide⟩⟩]⟩ :=
    h0.step (.alloc (by decide) rfl (by decide))
  exact ⟨_, hst, rfl, rfl, ((freeList_sound .dev _ _ (by decide) (by decide)).2 _ hst).2.2.2.1⟩

end LinkedListAllocator
end Apogee
