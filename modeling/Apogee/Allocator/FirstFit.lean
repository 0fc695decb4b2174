import Mathlib.Order.Bounds.Basic
import Apogee.Allocator.LinkedListSpec

/-!
# First fit, byte by byte

The list is a representation of a set of free bytes, `cover head`. Seen from that set, `alloc`
returns the lowest aligned address with enough free bytes after it (`alloc_first_fit`):

* regions do not touch, so free bytes in a row are bytes of one region (`Gapped.exists_of_window`),
  and a region has room for the block exactly if it has room at its first aligned address
  (`FreeAt.room`);
* the list is in address order, so the first region with room has the lowest such address
  (`FirstFit.isLeast`).

What leaves the set is the block and the leftovers that cannot hold a node (`FirstFit.cover_heap`).
-/

namespace Apogee

open Verif Span

namespace LinkedListAllocator

variable {p : Profile} {a : LinkedListAllocator} {owned : List Span} {size align : Nat}

/-- The `size` bytes from `b` on are free, and `b` is aligned. -/
def FreeAt (a : LinkedListAllocator) (size align b : Nat) : Prop :=
  align ∣ b ∧ bytes ⟨b, size⟩ ⊆ cover a.head

/-- The region that holds the free bytes has room for them at its first aligned address. -/
theorem FreeAt.room {b : Nat} (h : a.FreeAt size align b) (hg : Gapped a.head) (hpos : 0 < size) :
    ∃ r ∈ a.head, r.addr ≤ b ∧ ¬ Skips size align r ∧ roundUp r.addr align ≤ b := by
  obtain ⟨r, hr, hlo, hhi⟩ := hg.exists_of_window (w := ⟨b, size⟩) hpos h.2
  have hle : roundUp r.addr align ≤ b := roundUp_le hlo h.1
  refine ⟨r, hr, hlo, ?_, hle⟩
  unfold Skips
  simp only [stop] at *
  omega

theorem not_freeAt (hg : Gapped a.head) (hpos : 0 < size)
    (hno : ∀ r ∈ a.head, Skips size align r) (b : Nat) : ¬ a.FreeAt size align b := by
  intro h
  obtain ⟨r, hr, -, hroom, -⟩ := h.room hg hpos
  exact hroom (hno r hr)

theorem waste_lt (size : Nat) : waste size < minBlock := by
  have hpos : 0 < minBlock := by decide
  have hcases := waste_cases size
  omega

namespace FirstFit

variable (f : FirstFit a size align)

theorem mem_cover_head {x : Nat} :
    x ∈ cover a.head ↔ x ∈ f.region.bytes ∨ x ∈ cover (f.pre ++ f.post) := by
  rw [f.head_eq, cover_perm List.perm_middle, cover_cons]
  exact Iff.rfl

theorem block_subset (ha : 0 < align) : f.block.bytes ⊆ f.region.bytes := by
  have hge : f.region.addr ≤ f.addr := le_roundUp _ ha
  have hroom : f.addr + size ≤ f.region.stop := f.room
  intro x hx
  simp only [block, mem_bytes, stop] at *
  omega

/-- The block's address is the lowest one with enough free bytes. -/
theorem isLeast (ha : 0 < align) (hg : Gapped a.head) (hpos : 0 < size) :
    IsLeast {b | a.FreeAt size align b} f.addr := by
  refine ⟨⟨f.align_dvd, fun x hx => f.mem_cover_head.mpr (.inl (f.block_subset ha hx))⟩, ?_⟩
  intro b hb
  obtain ⟨r, hr, hlo, hroom, hle⟩ := FreeAt.room hb hg hpos
  rw [f.head_eq] at hr hg
  rcases List.mem_append.mp hr with hpre | hr
  · exact absurd (f.skipped r hpre) hroom
  rcases List.mem_cons.mp hr with rfl | hpost
  · exact hle
  · -- A later region starts after the one that holds the block.
    have hafter := (List.pairwise_cons.mp (List.pairwise_append.mp hg).2.1).1 r hpost
    have hin : f.addr + size ≤ f.region.stop := f.room
    omega

/-- The bytes before the block that are lost. -/
def frontWaste : Span := ⟨f.addr - waste f.front.size, waste f.front.size⟩

/-- The bytes after the block that are lost. -/
def backWaste : Span := ⟨f.addr + size, waste f.back.size⟩

theorem frontWaste_stop (ha : 0 < align) : f.frontWaste.stop = f.addr := by
  have hge : f.region.addr ≤ f.addr := le_roundUp _ ha
  have hfront : f.front.size = f.addr - f.region.addr := rfl
  have hcases := waste_cases f.front.size
  simp only [frontWaste, stop]
  omega

/-- The block and what is lost around it are bytes of the region, and the rest of it stays free. -/
theorem mem_region (ha : 0 < align) {x : Nat} :
    x ∈ f.region.bytes ↔ (minBlock ≤ f.front.size ∧ x ∈ f.front.bytes) ∨
      (minBlock ≤ f.back.size ∧ x ∈ f.back.bytes) ∨
      x ∈ f.frontWaste.bytes ∪ f.block.bytes ∪ f.backWaste.bytes := by
  have hge : f.region.addr ≤ f.addr := le_roundUp _ ha
  have hroom : f.addr + size ≤ f.region.stop := f.room
  have hfront := waste_cases f.front.size
  have hback := waste_cases f.back.size
  simp only [frontWaste, backWaste, front, back, block, Set.mem_union, mem_bytes, stop] at *
  omega

/-- The bytes that stay free are not those of the block or lost. -/
theorem not_mem_gone (ha : 0 < align) {x : Nat}
    (h : (minBlock ≤ f.front.size ∧ x ∈ f.front.bytes) ∨
      (minBlock ≤ f.back.size ∧ x ∈ f.back.bytes)) :
    x ∉ f.frontWaste.bytes ∪ f.block.bytes ∪ f.backWaste.bytes := by
  have hge : f.region.addr ≤ f.addr := le_roundUp _ ha
  have hfront := waste_cases f.front.size
  have hback := waste_cases f.back.size
  simp only [frontWaste, backWaste, front, back, block, Set.mem_union, mem_bytes, stop] at *
  omega

theorem not_mem_rest (hg : Gapped a.head) {x : Nat} (hx : x ∈ f.region.bytes) :
    x ∉ cover (f.pre ++ f.post) := by
  have hap := hg.apart
  rw [f.head_eq] at hap
  have hap := (List.perm_middle.pairwise_iff Apart.symm).mp hap
  rintro ⟨r, hr, hxr⟩
  exact ((List.pairwise_cons.mp hap).1 r hr).not_mem hx hxr

theorem mem_cover_heap {x : Nat} :
    x ∈ cover f.heap.head ↔ (minBlock ≤ f.back.size ∧ x ∈ f.back.bytes) ∨
      (minBlock ≤ f.front.size ∧ x ∈ f.front.bytes) ∨ x ∈ cover (f.pre ++ f.post) := by
  unfold heap
  rw [mem_cover_giveBack, mem_cover_giveBack]

/-- The free bytes after the allocation. -/
theorem cover_heap (ha : 0 < align) (hg : Gapped a.head) :
    cover f.heap.head =
      cover a.head \ (f.frontWaste.bytes ∪ f.block.bytes ∪ f.backWaste.bytes) := by
  ext x
  have hregion := f.mem_region ha (x := x)
  rw [mem_cover_heap, Set.mem_sdiff, f.mem_cover_head]
  constructor
  · rintro (hback | hfront | hx)
    · exact ⟨.inl (hregion.mpr (.inr (.inl hback))), f.not_mem_gone ha (.inr hback)⟩
    · exact ⟨.inl (hregion.mpr (.inl hfront)), f.not_mem_gone ha (.inl hfront)⟩
    · exact ⟨.inr hx, fun hgone => f.not_mem_rest hg (hregion.mpr (.inr (.inr hgone))) hx⟩
  · rintro ⟨hx | hx, hgone⟩
    · rcases hregion.mp hx with hfront | hback | hx
      · exact .inr (.inl hfront)
      · exact .inl hback
      · exact absurd hx hgone
    · exact .inr (.inr hx)

end FirstFit

/-- **First fit.** In every reachable state and for every nonempty layout, `alloc` returns the
lowest aligned address with `allocation_size(layout)` free bytes. It returns null exactly if there
is none, and then nothing changes. Else the bytes that are no longer free are the block's and, on
each side of it, fewer than `MIN_BLOCK` bytes that touch it. -/
theorem alloc_first_fit (p : Profile) (s n : Nat) (hs : 0 < s) (hn : s + n ≤ 2 ^ 63)
    (st : Api.State LinkedListAllocator) (h : (api p s n).system.Reach st) (l : Layout)
    (hl : 0 < l.size) :
    ∃ size ptr a', allocationSize p l = .ok size ∧ st.heap.alloc p l = .ok (ptr, a') ∧
      (ptr = 0 ↔ ∀ b, ¬ st.heap.FreeAt size (allocationAlign l) b) ∧
      (ptr = 0 → a' = st.heap) ∧
      (ptr ≠ 0 → IsLeast {b | st.heap.FreeAt size (allocationAlign l) b} ptr ∧
        ∃ front back : Span, front.size < minBlock ∧ front.stop = ptr ∧
          back.size < minBlock ∧ back.addr = ptr + size ∧
          front.bytes ∪ back.bytes ⊆ cover st.heap.head ∧
          cover a'.head =
            cover st.heap.head \ (front.bytes ∪ bytes ⟨ptr, size⟩ ∪ back.bytes)) := by
  have hinv := ((keeps_ok hs hn).reach h).inv
  have hpos : 0 < l.extent := Nat.lt_of_lt_of_le (by decide) l.minBlock_le_extent
  have ha : 0 < allocationAlign l := Nat.lt_of_lt_of_le (by decide) (Nat.le_max_right _ _)
  rcases skips_or_firstFit st.heap l.extent (allocationAlign l) with hno | ⟨⟨f⟩⟩
  · refine ⟨l.extent, 0, st.heap, allocationSize_eq l, hinv.alloc_null hl hno, ?_, fun _ => rfl,
      fun hne => absurd rfl hne⟩
    exact ⟨fun _ => not_freeAt hinv.gapped hpos hno, fun _ => rfl⟩
  · obtain ⟨halloc, hne, -⟩ := hinv.alloc_eq (p := p) hl f
    have hleast := f.isLeast ha hinv.gapped hpos
    refine ⟨l.extent, f.addr, f.heap, allocationSize_eq l, halloc, ?_, fun h0 => absurd h0 hne,
      fun _ => ⟨hleast, f.frontWaste, f.backWaste, waste_lt _, f.frontWaste_stop ha, waste_lt _,
        rfl, ?_, f.cover_heap ha hinv.gapped⟩⟩
    · exact ⟨fun h0 => absurd h0 hne, fun hno => absurd hleast.1 (hno _)⟩
    · intro x hx
      refine f.mem_cover_head.mpr (.inl ((f.mem_region ha).mpr (.inr (.inr ?_))))
      rcases hx with hx | hx
      · exact .inl (.inl hx)
      · exact .inr hx

/-- On the kernel's heap, with a block of 17 bytes live: the next address aligned to 32 is taken,
and the 8 bytes before it, which cannot hold a node, are lost. -/
theorem alloc_first_fit_kernelHeap : ∃ st, (api .dev 0x444444440000 (100 * 1024)).system.Reach st ∧
    cover st.heap.head = bytes ⟨0x444444440018, 102376⟩ ∧
    IsLeast {b | st.heap.FreeAt 24 32 b} 0x444444440020 := by
  have h0 : (api .dev 0x444444440000 (100 * 1024)).system.Reach
      ⟨⟨[⟨0x444444440000, 102400⟩], 0x444444440000, 0x444444459000⟩, []⟩ := .init ⟨rfl, rfl⟩
  have hst : (api .dev 0x444444440000 (100 * 1024)).system.Reach
      ⟨⟨[⟨0x444444440018, 102376⟩], 0x444444440000, 0x444444459000⟩,
        [⟨0x444444440000, ⟨17, 16, ⟨4, rfl⟩, by decide⟩⟩]⟩ :=
    h0.step (.alloc (by decide) rfl (by decide))
  refine ⟨_, hst, ?_, ?_⟩
  · simp only [cover_cons]
    ext x
    simp
  · obtain ⟨size, ptr, a', hsize, halloc, -, -, hfit⟩ := alloc_first_fit .dev _ _ (by decide)
      (by decide) _ hst ⟨24, 32, ⟨5, rfl⟩, by decide⟩ (by decide)
    obtain rfl : 24 = size := Except.ok.inj hsize
    obtain ⟨rfl, -⟩ := Prod.mk.inj (Except.ok.inj halloc)
    exact (hfit (by decide)).1

end LinkedListAllocator

end Apogee
