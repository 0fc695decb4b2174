import Apogee.Allocator.FixedSizeBlock
import Apogee.Allocator.LinkedListSpec

/-!
# The global allocator over whole runs

`alloc` asks the fallback allocator for a block of its class's size, `dealloc` decides from the
block's own layout where it goes. Both agree on a block's extent (`Layout.reserved`) because a
layout's class depends on the layout only:

* class 8: the fallback reserves 16 bytes for it, and `dealloc` gives back
  `allocation_size(layout) = 16`;
* a larger class: the block's extent is the block size, on both ways and while it is parked;
* no class: the fallback's own extent.

The invariant `Ok` is the fallback's `Inv` with the extents of the live and of the parked blocks
as its owned spans, so a block that moves between the two stays the same span.
-/

namespace Apogee

open Verif Span

namespace FixedSizeBlockAllocator

/-! ## Classes -/

theorem listIndex_some {l : Layout} {i : Class} (h : listIndex l = some i) :
    l.size ≤ blockSizes.get i ∧ l.align ≤ blockSizes.get i := by
  obtain ⟨hi, -⟩ := List.findFinIdx?_eq_some_iff.mp h
  exact Nat.max_le.mp (of_decide_eq_true hi)

theorem blockSizes_pow (i : Class) : ∃ k, blockSizes.get i = 2 ^ k := by
  refine ⟨i.val + 3, ?_⟩
  revert i
  decide

theorem blockSizes_bounds (i : Class) : nodeAlign ≤ blockSizes.get i ∧ blockSizes.get i ≤ 4096 := by
  revert i
  decide

/-- The layout that `alloc` asks the fallback for. -/
def classLayout (i : Class) : Layout :=
  ⟨blockSizes.get i, blockSizes.get i, blockSizes_pow i, by have := (blockSizes_bounds i).2; omega⟩

theorem fromSizeAlign_class (i : Class) :
    Layout.fromSizeAlign (blockSizes.get i) (blockSizes.get i) = some (classLayout i) := by
  have h : blockSizes.get i = 2 ^ (blockSizes.get i).log2 := by
    revert i
    decide
  have hb := (blockSizes_bounds i).2
  exact dif_pos ⟨h, by omega⟩

theorem classLayout_extent (i : Class) :
    (classLayout i).extent = max minBlock (blockSizes.get i) := by
  revert i
  decide

end FixedSizeBlockAllocator

open FixedSizeBlockAllocator

/-- The bytes that a live block owns: 16 in class 8, the block size in a larger class, and
`allocation_size(layout)` for a layout with no class. -/
def Layout.reserved (l : Layout) : Nat :=
  match listIndex l with
  | some i => max minBlock (blockSizes.get i)
  | none => l.extent

/-- What a pointer for the layout is a multiple of. -/
def Layout.grain (l : Layout) : Nat :=
  match listIndex l with
  | some i => blockSizes.get i
  | none => l.align

/-- The extent of a live block of the global allocator. -/
def Block.reserved (b : Block) : Span := ⟨b.ptr, b.layout.reserved⟩

theorem Layout.size_le_reserved (l : Layout) : l.size ≤ l.reserved := by
  unfold Layout.reserved
  split
  · rename_i i hi
    exact Nat.le_trans (listIndex_some hi).1 (Nat.le_max_right _ _)
  · exact l.size_le_extent

/-- Powers of two divide each other in order. -/
theorem Layout.align_dvd_grain (l : Layout) : l.align ∣ l.grain := by
  unfold Layout.grain
  split
  · rename_i i hi
    obtain ⟨k, hk⟩ := l.align_pow
    obtain ⟨m, hm⟩ := blockSizes_pow i
    have hle := (listIndex_some hi).2
    rw [hk, hm] at hle ⊢
    exact Nat.pow_dvd_pow 2 ((Nat.pow_le_pow_iff_right (by decide)).mp hle)
  · exact Nat.dvd_refl _

namespace FixedSizeBlockAllocator

variable {p : Profile} {a : FixedSizeBlockAllocator} {live : List Block}

/-- All parked blocks. A node's size is its block's. -/
def parked (a : FixedSizeBlockAllocator) : List ListNode :=
  (List.finRange blockSizes.length).flatMap a.listHeads

theorem mem_parked {node : ListNode} : node ∈ a.parked ↔ ∃ i, node ∈ a.listHeads i := by
  simp [parked]

/-- One class's list with a node in front. -/
theorem flatMap_update_cons {ι α : Type} [DecidableEq ι] (f : ι → List α) (i : ι) (x : α)
    (l : List α) {is : List ι} (hn : is.Nodup) (hi : i ∈ is) :
    (is.flatMap (Function.update f i (x :: l))).Perm
      (x :: is.flatMap (Function.update f i l)) := by
  induction is with
  | nil => cases hi
  | cons j js ih =>
    obtain ⟨hj, hn'⟩ := List.nodup_cons.mp hn
    rw [List.flatMap_cons, List.flatMap_cons]
    by_cases hij : i = j
    · subst hij
      have hcongr : ∀ l', js.flatMap (Function.update f i l') = js.flatMap f := fun l' =>
        List.flatMap_congr fun k hk =>
          Function.update_of_ne (show k ≠ i from fun e => hj (e ▸ hk)) _ _
      rw [hcongr, hcongr, Function.update_self, Function.update_self]
      exact .refl _
    · have hi' : i ∈ js := (List.mem_cons.mp hi).resolve_left hij
      rw [Function.update_of_ne (Ne.symm hij), Function.update_of_ne (Ne.symm hij)]
      exact ((ih hn' hi').append_left _).trans List.perm_middle

/-- Parking a node, or taking the first one of a class. -/
theorem parked_update (a : FixedSizeBlockAllocator) (i : Class) (node : ListNode)
    (next : List ListNode) :
    (parked { a with listHeads := Function.update a.listHeads i (node :: next) }).Perm
      (node :: parked { a with listHeads := Function.update a.listHeads i next }) :=
  flatMap_update_cons _ _ _ _ (List.nodup_finRange _) (List.mem_finRange i)

/-- A property of the nodes of every class, after one class's list has changed. -/
theorem forall_update {P : Class → ListNode → Prop} {f : Class → List ListNode} {i : Class}
    {l : List ListNode} (hf : ∀ j, ∀ x ∈ f j, P j x) (hl : ∀ x ∈ l, P i x) :
    ∀ j, ∀ x ∈ Function.update f i l j, P j x := by
  intro j x hx
  by_cases hj : j = i
  · subst hj
    rw [Function.update_self] at hx
    exact hl x hx
  · rw [Function.update_of_ne hj] at hx
    exact hf j x hx

/-! ## The invariant -/

/-- The invariant of the allocator with the blocks `live` handed out, over `[s, s + n)`. -/
structure Ok (s n : Nat) (a : FixedSizeBlockAllocator) (live : List Block) : Prop where
  inv : a.fallbackAllocator.Inv (live.map Block.reserved ++ a.parked)
  start : a.fallbackAllocator.heapStart = s
  stop : a.fallbackAllocator.heapEnd = s + n
  grain : ∀ b ∈ live, b.layout.grain ∣ b.ptr
  node : ∀ i, ∀ node ∈ a.listHeads i, blockSizes.get i ∣ node.addr ∧ node.size = blockSizes.get i

variable {s n : Nat}

/-- `stats` counts the free regions and the parked blocks. -/
theorem Ok.freeBytes_eq (h : a.Ok s n live) :
    a.stats.freeBytes = a.fallbackAllocator.freeBytes + total a.parked := by
  unfold stats parked
  rw [total_flatMap]
  have hclass : ∀ i,
      ((a.listHeads i).map fun _ => blockSizes.get i).sum = total (a.listHeads i) := by
    intro i
    unfold total
    rw [List.map_congr_left fun node hnode => (h.node i node hnode).2]
  simp only [hclass]

/-- The bytes that an `alloc` of the layout loses, in the fallback if it gets there. -/
def discards (p : Profile) (a : FixedSizeBlockAllocator) (layout : Layout) : Nat :=
  match listIndex layout with
  | some index =>
    match a.listHeads index with
    | _ :: _ => 0
    | [] => a.fallbackAllocator.discards p (classLayout index)
  | none => a.fallbackAllocator.discards p layout

theorem init_spec (hs : 0 < s) (hn : s + n ≤ 2 ^ 63) :
    ∃ a, init p .empty s n = .ok a ∧ a.Ok s n [] ∧ a.parked = [] ∧
      a.fallbackAllocator.head = LinkedListAllocator.initRegion s n := by
  obtain ⟨f, hf, hinv, hst, hend, hhead⟩ := LinkedListAllocator.init_spec (p := p) hs hn
  have hparked : (FixedSizeBlockAllocator.empty).parked = [] :=
    List.flatMap_eq_nil_iff.mpr fun _ _ => rfl
  refine ⟨{ FixedSizeBlockAllocator.empty with fallbackAllocator := f }, ?_, ?_, hparked, hhead⟩
  · unfold init
    rw [hf]
    rfl
  · exact ⟨by rw [← hparked] at hinv; exact hinv, hst, hend, by simp, fun i node h => nomatch h⟩

/-- The fallback hands out a block for `l` with the extent and the alignment of `b`. -/
theorem Ok.fallbackAlloc (h : a.Ok s n live) {l : Layout} (hl : 0 < l.size) :
    a.fallbackAlloc p l = .ok (0, a) ∧ a.fallbackAllocator.discards p l = 0 ∨
    ∃ ptr a', a.fallbackAlloc p l = .ok (ptr, a') ∧ ptr ≠ 0 ∧
      a'.stats.freeBytes + l.extent + a.fallbackAllocator.discards p l = a.stats.freeBytes ∧
      ∀ l' : Layout, l'.reserved = l.extent → l'.grain ∣ allocationAlign l →
        a'.Ok s n (⟨ptr, l'⟩ :: live) := by
  unfold FixedSizeBlockAllocator.fallbackAlloc
  rcases h.inv.alloc (p := p) hl with ⟨h0, hlost⟩ | ⟨f, hf, hne, hinv, hbytes⟩
  · left
    rw [h0]
    exact ⟨rfl, hlost⟩
  · right
    obtain ⟨hst, hend⟩ := f.heap_bounds
    refine ⟨f.addr, { a with fallbackAllocator := f.heap }, by rw [hf]; rfl, hne, ?_,
      fun l' hres hgr => ?_⟩
    · simp only [stats]
      omega
    refine ⟨?_, hst.trans h.start, hend.trans h.stop, fun b hb => ?_, h.node⟩
    · rw [List.map_cons, Block.reserved, hres]
      exact hinv
    · rcases List.mem_cons.mp hb with rfl | hb
      · exact hgr.trans f.align_dvd
      · exact h.grain b hb

/-- A parked block becomes live: the same span, under another layout of its class. -/
theorem Ok.unpark (h : a.Ok s n live) {l : Layout} {i : Class} (hi : listIndex l = some i)
    {node : ListNode} {next : List ListNode} (hlist : a.listHeads i = node :: next)
    {a' : FixedSizeBlockAllocator}
    (ha' : a' = { a with listHeads := Function.update a.listHeads i next }) :
    node.addr ≠ 0 ∧ a'.Ok s n (⟨node.addr, l⟩ :: live) ∧
      a'.stats.freeBytes + l.reserved = a.stats.freeBytes := by
  have hmem : node ∈ a.listHeads i := by rw [hlist]; exact .head _
  obtain ⟨hal, hsize⟩ := h.node i node hmem
  have htr := h.inv.tracked node
    (List.mem_append_left _ (List.mem_append_right _ (mem_parked.mpr ⟨i, hmem⟩)))
  have hspan : Block.reserved ⟨node.addr, l⟩ = node := by
    have hroom := htr.room
    refine Span.ext rfl ?_
    simp only [Block.reserved, Layout.reserved, hi, ← hsize]
    exact Nat.max_eq_right hroom
  have hperm : a.parked.Perm (node :: a'.parked) := by
    have hupdate := parked_update a i node next
    rw [← hlist, Function.update_eq_self] at hupdate
    rw [ha']
    exact hupdate
  have hok : a'.Ok s n (⟨node.addr, l⟩ :: live) := by
    subst ha'
    refine ⟨h.inv.perm ?_, h.start, h.stop, fun b hb => ?_,
      forall_update h.node fun x hx => h.node i x (by rw [hlist]; exact .tail _ hx)⟩
    · rw [List.map_cons, hspan]
      exact (hperm.append_left _).trans List.perm_middle
    · rcases List.mem_cons.mp hb with rfl | hb
      · simpa only [Layout.grain, hi] using hal
      · exact h.grain b hb
  refine ⟨?_, hok, ?_⟩
  · have h1 := htr.inside.1
    have h2 := h.inv.start_pos
    omega
  · have hres : l.reserved = node.size := congrArg Span.size hspan
    have hfree : a'.fallbackAllocator = a.fallbackAllocator := by rw [ha']
    rw [h.freeBytes_eq, hok.freeBytes_eq, total_perm hperm, total_cons, hres, hfree]
    omega

/-- `alloc` returns null and leaves the allocator as it is, or hands out a block. The free bytes
shrink by the block's extent and by what is lost. -/
theorem Ok.alloc (h : a.Ok s n live) {l : Layout} (hl : 0 < l.size) :
    a.alloc p l = .ok (0, a) ∧ a.discards p l = 0 ∨
    ∃ ptr a', a.alloc p l = .ok (ptr, a') ∧ ptr ≠ 0 ∧ a'.Ok s n (⟨ptr, l⟩ :: live) ∧
      a'.stats.freeBytes + l.reserved + a.discards p l = a.stats.freeBytes := by
  unfold FixedSizeBlockAllocator.alloc FixedSizeBlockAllocator.discards
  cases hi : listIndex l with
  | none =>
    have hres : l.reserved = l.extent := by simp [Layout.reserved, hi]
    rcases h.fallbackAlloc (p := p) hl with h0 | ⟨ptr, a', e, hne, hbytes, hok⟩
    · exact .inl h0
    · refine .inr ⟨ptr, a', e, hne, hok l hres ?_, hres ▸ hbytes⟩
      simp only [Layout.grain, hi]
      exact LinkedListAllocator.align_dvd_allocationAlign l
  | some i =>
    cases hlist : a.listHeads i with
    | nil =>
      have hres : l.reserved = (classLayout i).extent := by
        simp only [Layout.reserved, hi, classLayout_extent]
      have hpos : 0 < (classLayout i).size :=
        Nat.lt_of_lt_of_le (by decide) (blockSizes_bounds i).1
      simp only [hlist, fromSizeAlign_class, expect_some, Panics.bind_ok]
      rcases h.fallbackAlloc (p := p) hpos with h0 | ⟨ptr, a', e, hne, hbytes, hok⟩
      · exact .inl h0
      · refine .inr ⟨ptr, a', e, hne, hok l hres ?_, hres ▸ hbytes⟩
        simp only [Layout.grain, hi]
        exact LinkedListAllocator.align_dvd_allocationAlign (classLayout i)
    | cons node next =>
      obtain ⟨hne, hok, hbytes⟩ := h.unpark hi hlist rfl
      simp only [hlist, Nat.add_zero]
      exact .inr ⟨node.addr, _, rfl, hne, hok, hbytes⟩

theorem Ok.fallbackDealloc {b : Block} (h : a.Ok s n (b :: live))
    (hext : b.layout.reserved = b.layout.extent) :
    ∃ a', a.fallbackDealloc p b.ptr b.layout = .ok a' ∧ a'.Ok s n live ∧
      a'.stats.freeBytes = a.stats.freeBytes + b.layout.reserved := by
  have hinv := h.inv
  rw [List.map_cons, Block.reserved, hext] at hinv
  refine ⟨{ a with fallbackAllocator := a.fallbackAllocator.release ⟨b.ptr, b.layout.extent⟩ }, ?_,
    ⟨hinv.release, h.start, h.stop, fun c hc => h.grain c (.tail _ hc), h.node⟩, ?_⟩
  · unfold FixedSizeBlockAllocator.fallbackDealloc
    rw [hinv.dealloc_eq]
    rfl
  · simp only [stats, LinkedListAllocator.freeBytes_release, hext]
    omega

/-- A live block of a class with room for a node is parked. -/
theorem Ok.park {b : Block} (h : a.Ok s n (b :: live)) {i : Class}
    (hi : listIndex b.layout = some i) (hroom : minBlock ≤ blockSizes.get i)
    {a' : FixedSizeBlockAllocator}
    (ha' : a' = { a with
      listHeads := Function.update a.listHeads i (⟨b.ptr, blockSizes.get i⟩ :: a.listHeads i) }) :
    a'.Ok s n live ∧ a'.stats.freeBytes = a.stats.freeBytes + b.layout.reserved := by
  have hspan : b.reserved = ⟨b.ptr, blockSizes.get i⟩ := by
    simp only [Block.reserved, Layout.reserved, hi, Nat.max_eq_right hroom]
  have hperm : a'.parked.Perm (⟨b.ptr, blockSizes.get i⟩ :: a.parked) := by
    have hupdate := parked_update a i ⟨b.ptr, blockSizes.get i⟩ (a.listHeads i)
    rw [Function.update_eq_self] at hupdate
    rw [ha']
    exact hupdate
  have hok : a'.Ok s n live := by
    subst ha'
    refine ⟨h.inv.perm ?_, h.start, h.stop, fun c hc => h.grain c (.tail _ hc),
      forall_update h.node fun x hx => ?_⟩
    · rw [List.map_cons, hspan]
      exact List.perm_middle.symm.trans (hperm.symm.append_left _)
    · rcases List.mem_cons.mp hx with rfl | hx
      · refine ⟨?_, rfl⟩
        have hg := h.grain b (.head _)
        simpa only [Layout.grain, hi] using hg
      · exact h.node i x hx
  refine ⟨hok, ?_⟩
  have hres : b.layout.reserved = blockSizes.get i := congrArg Span.size hspan
  have hfree : a'.fallbackAllocator = a.fallbackAllocator := by rw [ha']
  rw [h.freeBytes_eq, hok.freeBytes_eq, total_perm hperm, total_cons, hres, hfree]
  simp only
  omega

/-- Class 8: the fallback's extent of any layout of this class is 16. -/
theorem reserved_eq_extent {l : Layout} {i : Class} (hi : listIndex l = some i)
    (hsmall : ¬ (minBlock ≤ blockSizes.get i ∧ nodeAlign ≤ blockSizes.get i)) :
    l.reserved = l.extent := by
  have hlt : blockSizes.get i < minBlock := by
    have := (blockSizes_bounds i).1
    omega
  have hle := (listIndex_some hi).1
  simp only [Layout.reserved, hi, Layout.extent]
  rw [Nat.max_eq_left hlt.le, Nat.max_eq_right (by omega)]
  rfl

/-- `dealloc` of a live block with its own layout. The free bytes grow by its extent. -/
theorem Ok.dealloc {b : Block} (h : a.Ok s n (b :: live)) :
    ∃ a', a.dealloc p b.ptr b.layout = .ok a' ∧ a'.Ok s n live ∧
      a'.stats.freeBytes = a.stats.freeBytes + b.layout.reserved := by
  unfold FixedSizeBlockAllocator.dealloc
  cases hi : listIndex b.layout with
  | none => exact h.fallbackDealloc (by simp [Layout.reserved, hi])
  | some i =>
    simp only
    split
    · rename_i hroom
      exact ⟨_, rfl, h.park hi hroom.1 rfl⟩
    · rename_i hsmall
      exact h.fallbackDealloc (reserved_eq_extent hi hsmall)

theorem Ok.perm {live' : List Block} (h : a.Ok s n live) (hp : live.Perm live') :
    a.Ok s n live' :=
  ⟨h.inv.perm ((hp.map _).append_right _), h.start, h.stop,
    fun b hb => h.grain b (hp.mem_iff.mpr hb), h.node⟩

/-! ## Whole runs -/

/-- The global allocator over the heap `[s, s + n)`. -/
def api (p : Profile) (s n : Nat) : Api FixedSizeBlockAllocator where
  init := init p .empty s n
  alloc := alloc p
  dealloc := dealloc p

theorem keeps_ok (hs : 0 < s) (hn : s + n ≤ 2 ^ 63) : (api p s n).Keeps (Ok s n) where
  init := by
    obtain ⟨a, ha, hok, -⟩ := init_spec (p := p) hs hn
    exact ⟨a, ha, hok⟩
  perm h hp := h.perm hp
  alloc h hl := by
    rcases h.alloc (p := p) hl with ⟨h0, -⟩ | ⟨ptr, a', e, hne, hok, -⟩
    · exact .inl h0
    · exact .inr ⟨ptr, a', e, hne, hok⟩
  dealloc h := by
    obtain ⟨a', e, hok, -⟩ := h.dealloc (p := p)
    exact ⟨a', e, hok⟩

/-- The extents of all live blocks, all parked blocks and all free regions of the fallback. -/
def extents (st : Api.State FixedSizeBlockAllocator) : List Span :=
  st.live.map Block.reserved ++ st.heap.parked ++ st.heap.fallbackAllocator.head

/-- **The global allocator over whole runs.** From `init` over any heap `[s, s + n)` that ends at or
below `2 ^ 63`, in every reachable state: all extents are pairwise apart and lie in the heap; a
live block is aligned as its layout asks and its extent has room for it; a block parked in class
`i` is aligned to `BLOCK_SIZES[i]` and has that many bytes; no call panics; and an `alloc` that
returns null leaves the allocator as it was, else its pointer is aligned as the layout asks. -/
theorem globalAlloc_sound (p : Profile) (s n : Nat) (hs : 0 < s) (hn : s + n ≤ 2 ^ 63) :
    (∃ a, init p .empty s n = .ok a) ∧
    ∀ st, (api p s n).system.Reach st →
      (extents st).Pairwise Apart ∧ (∀ r ∈ extents st, r.Inside s (s + n)) ∧
      (∀ b ∈ st.live, b.layout.align ∣ b.ptr ∧ b.layout.size ≤ b.reserved.size) ∧
      (∀ i, ∀ node ∈ st.heap.listHeads i,
        blockSizes.get i ∣ node.addr ∧ blockSizes.get i ≤ node.size) ∧
      (∀ l : Layout, 0 < l.size → ∃ ptr a', st.heap.alloc p l = .ok (ptr, a') ∧
        (ptr = 0 → a' = st.heap) ∧ (ptr ≠ 0 → l.align ∣ ptr)) ∧
      (∀ b ∈ st.live, ∃ a', st.heap.dealloc p b.ptr b.layout = .ok a') := by
  have hk := keeps_ok (p := p) hs hn
  obtain ⟨a, ha, -⟩ := hk.init
  refine ⟨⟨a, ha⟩, fun st hst => ?_⟩
  have hok := hk.reach hst
  refine ⟨hok.inv.apart, fun r hr => ?_, fun b hb => ⟨?_, b.layout.size_le_reserved⟩,
    fun i node hnode => ?_, fun l hl => ?_, fun b hb => hk.dealloc_ok hok hb⟩
  · have hin := (hok.inv.tracked r hr).inside
    rw [hok.start, hok.stop] at hin
    exact hin
  · exact b.layout.align_dvd_grain.trans (hok.grain b hb)
  · obtain ⟨h1, h2⟩ := hok.node i node hnode
    exact ⟨h1, h2.ge⟩
  · rcases hok.alloc (p := p) hl with ⟨h0, -⟩ | ⟨ptr, a', e, hne, hok', -⟩
    · exact ⟨0, _, h0, fun _ => rfl, fun h => absurd rfl h⟩
    · refine ⟨ptr, a', e, fun h => absurd h hne, fun _ => ?_⟩
      exact l.align_dvd_grain.trans (hok'.grain _ (.head _))

/-- On the kernel's heap, with a block of 24 bytes live: it owns the 32 bytes of its class. -/
theorem globalAlloc_sound_kernelHeap :
    ∃ st, (api .dev 0x444444440000 (100 * 1024)).system.Reach st ∧
      extents st = [⟨0x444444440000, 32⟩, ⟨0x444444440020, 102368⟩] ∧
      (extents st).Pairwise Apart := by
  have h0 : (api .dev 0x444444440000 (100 * 1024)).system.Reach
      ⟨⟨fun _ => [], ⟨[⟨0x444444440000, 102400⟩], 0x444444440000, 0x444444459000⟩⟩, []⟩ :=
    .init ⟨rfl, rfl⟩
  have hst : (api .dev 0x444444440000 (100 * 1024)).system.Reach
      ⟨⟨fun _ => [], ⟨[⟨0x444444440020, 102368⟩], 0x444444440000, 0x444444459000⟩⟩,
        [⟨0x444444440000, ⟨24, 8, ⟨3, rfl⟩, by decide⟩⟩]⟩ :=
    h0.step (.alloc (by decide) rfl (by decide))
  exact ⟨_, hst, rfl, ((globalAlloc_sound .dev _ _ (by decide) (by decide)).2 _ hst).1⟩

end FixedSizeBlockAllocator
end Apogee
