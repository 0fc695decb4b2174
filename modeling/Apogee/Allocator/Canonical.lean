import Apogee.Allocator.FirstFit
import Apogee.Allocator.Overflow

/-!
# The free list is a canonical form

A gapped list is determined by its bytes, so the list says nothing more than which bytes are free
(`Sound.eq_of_cover`). What a sequence of calls leaves is then a computation with sets:

* frees add bytes, in any order (`Sound.deallocAll`);
* an `alloc` without waste takes out the bytes that its `dealloc` puts back (`Sound.dealloc_alloc`).

`align_up` must not overflow for this, so `freeList_canonical` is about runs in which every `alloc`
is clear. In a release build over a heap at the end of the address space, two lists of the same
bytes are reachable (`wrapped_alloc`).
-/

namespace Apogee

open Verif Span

namespace LinkedListAllocator

variable {p : Profile} {a b : LinkedListAllocator} {owned owned' : List Span}

/-- Two lists over the same heap with the same free bytes are the same. -/
theorem Sound.eq_of_cover (ha : a.Sound owned) (hb : b.Sound owned')
    (hcov : cover a.head = cover b.head) (hstart : a.heapStart = b.heapStart)
    (hend : a.heapEnd = b.heapEnd) : a = b := by
  have hhead : a.head = b.head := ha.gapped.eq_of_cover hb.gapped
    (fun r hr => (ha.tracked r (List.mem_append_right _ hr)).pos)
    (fun r hr => (hb.tracked r (List.mem_append_right _ hr)).pos) hcov
  cases a
  cases b
  simp only at hhead hstart hend
  rw [hhead, hstart, hend]

/-- The deallocations of `blocks`, one after the other. -/
def deallocAll (p : Profile) (a : LinkedListAllocator) (blocks : List Block) :
    Panics LinkedListAllocator :=
  blocks.foldlM (fun a b => a.dealloc p b.ptr b.layout) a

theorem Sound.deallocAll {blocks : List Block} (h : a.Sound (blocks.map Block.span ++ owned)) :
    ∃ a', a.deallocAll p blocks = .ok a' ∧ a'.Sound owned ∧ a'.heapStart = a.heapStart ∧
      a'.heapEnd = a.heapEnd ∧ cover a'.head = cover (blocks.map Block.span) ∪ cover a.head := by
  induction blocks generalizing a with
  | nil => exact ⟨a, rfl, h, rfl, rfl, by ext x; simp⟩
  | cons b blocks ih =>
    obtain ⟨a', he, hsound, hstart, hend, hcov⟩ := ih h.release
    refine ⟨a', ?_, hsound, hstart, hend, ?_⟩
    · unfold LinkedListAllocator.deallocAll
      rw [List.foldlM_cons, h.dealloc_eq]
      exact he
    · rw [hcov, cover_release, List.map_cons, cover_cons, Set.union_left_comm, Set.union_assoc]

/-- The order of the deallocations does not matter. -/
theorem Sound.deallocAll_perm {blocks blocks' : List Block}
    (h : a.Sound (blocks.map Block.span ++ owned)) (hp : blocks.Perm blocks') :
    ∃ a', a.deallocAll p blocks = .ok a' ∧ a.deallocAll p blocks' = .ok a' := by
  have hspans := hp.map Block.span
  obtain ⟨a₁, he₁, hsound₁, hstart₁, hend₁, hcov₁⟩ := h.deallocAll (p := p)
  obtain ⟨a₂, he₂, hsound₂, hstart₂, hend₂, hcov₂⟩ :=
    (h.perm (hspans.append_right owned)).deallocAll (p := p)
  have heq : a₁ = a₂ := by
    refine hsound₁.eq_of_cover hsound₂ ?_ (hstart₁.trans hstart₂.symm) (hend₁.trans hend₂.symm)
    rw [hcov₁, hcov₂, cover_perm hspans]
  exact ⟨a₁, he₁, heq ▸ he₂⟩

/-- What an `alloc` without waste takes out, its `dealloc` puts back. -/
theorem Sound.dealloc_alloc (h : a.Sound owned) {l : Layout} (hclear : a.ClearFor l) {ptr : Nat}
    {a' : LinkedListAllocator} (halloc : a.alloc p l = .ok (ptr, a')) (hne : ptr ≠ 0)
    (hwaste : a.discards p l = 0) : a'.dealloc p ptr l = .ok a := by
  rcases skips_or_firstFit a l.extent (allocationAlign l) with hno | ⟨⟨f⟩⟩
  · cases (h.alloc_null hclear hno).symm.trans halloc
    exact absurd rfl hne
  obtain ⟨he, -, hsound⟩ := h.alloc_eq (p := p) hclear f
  obtain ⟨rfl, rfl⟩ := Prod.mk.inj (Except.ok.inj (he.symm.trans halloc))
  rw [h.discards_eq hclear f] at hwaste
  have ha : 0 < allocationAlign l := Nat.lt_of_lt_of_le (by decide) (Nat.le_max_right _ _)
  rw [hsound.dealloc_eq]
  refine congrArg Except.ok (hsound.release.eq_of_cover h ?_ f.heap_bounds.1 f.heap_bounds.2)
  -- Nothing is lost, so the bytes that are no longer free are the block's.
  have hfront : f.frontWaste.size = 0 := (Nat.add_eq_zero_iff.mp hwaste).1
  have hback : f.backWaste.size = 0 := (Nat.add_eq_zero_iff.mp hwaste).2
  have hblock : f.block.bytes ⊆ cover a.head := fun x hx =>
    f.mem_cover_head.mpr (.inl (f.block_subset ha hx))
  rw [cover_release, f.cover_heap ha h.gapped, bytes_eq_empty hfront, bytes_eq_empty hback,
    Set.empty_union, Set.union_empty]
  exact Set.union_sdiff_cancel hblock

/-- **Canonical form.** Over a heap below the end of the address space, and in runs in which no
`alloc` overflows: states with the same free bytes have the same list. In every state, distinct live
blocks can be freed in any order with the same result, and a `dealloc` right after an `alloc` that
does not overflow and discards nothing restores the allocator. -/
theorem freeList_canonical (p : Profile) (s n : Nat) (hs : 0 < s) (hn : s + n ≤ 2 ^ 64 - 1)
    (hnode : s + nodeAlign < 2 ^ 64) :
    (∀ st₁ st₂, ((api p s n).clearRuns ClearFor).Reach st₁ →
      ((api p s n).clearRuns ClearFor).Reach st₂ →
      cover st₁.heap.head = cover st₂.heap.head → st₁.heap.head = st₂.heap.head) ∧
    ∀ st, ((api p s n).clearRuns ClearFor).Reach st →
      (∀ blocks blocks' : List Block, blocks.Nodup → blocks ⊆ st.live → blocks.Perm blocks' →
        ∃ a', st.heap.deallocAll p blocks = .ok a' ∧ st.heap.deallocAll p blocks' = .ok a') ∧
      (∀ (l : Layout) (ptr : Nat) (a' : LinkedListAllocator), st.heap.ClearFor l →
        st.heap.alloc p l = .ok (ptr, a') → ptr ≠ 0 → st.heap.discards p l = 0 →
        a'.dealloc p ptr l = .ok st.heap) := by
  have hk := keeps_okBelow (p := p) (n := n) hs (by omega) hnode
  refine ⟨fun st₁ st₂ h₁ h₂ hcov => ?_, fun st h => ⟨fun blocks blocks' hnd hsub hp => ?_,
    fun l ptr a' hclear halloc hne hwaste =>
      (hk.reach h).sound.dealloc_alloc hclear halloc hne hwaste⟩⟩
  · have hok₁ := hk.reach h₁
    have hok₂ := hk.reach h₂
    rw [hok₁.sound.eq_of_cover hok₂.sound hcov (hok₁.start.trans hok₂.start.symm)
      (hok₁.stop.trans hok₂.stop.symm)]
  · -- The blocks that stay live own their extents throughout.
    obtain ⟨blocks₀, hperm₀, hsubl⟩ := List.subperm_of_subset hnd hsub
    obtain ⟨rest, hrest⟩ := hsubl.exists_perm_append
    have hlive : st.live.Perm (blocks ++ rest) := hrest.trans (hperm₀.append_right rest)
    have hsound := (hk.reach h).sound.perm (hlive.map Block.span)
    rw [List.map_append] at hsound
    exact hsound.deallocAll_perm hp

/-- Two blocks on the kernel's heap: freed in either order, they leave the same list. -/
theorem freeList_canonical_kernelHeap :
    ∃ st, ((api .dev 0x444444440000 (100 * 1024)).clearRuns ClearFor).Reach st ∧
      st.live = [⟨0x444444440018, ⟨16, 8, ⟨3, rfl⟩, by decide⟩⟩,
        ⟨0x444444440000, ⟨17, 8, ⟨3, rfl⟩, by decide⟩⟩] ∧
      ∃ a', st.heap.deallocAll .dev st.live = .ok a' ∧
        st.heap.deallocAll .dev st.live.reverse = .ok a' := by
  have h0 : ((api .dev 0x444444440000 (100 * 1024)).clearRuns ClearFor).Reach
      ⟨⟨[⟨0x444444440000, 102400⟩], 0x444444440000, 0x444444459000⟩, []⟩ := .init ⟨rfl, rfl⟩
  have h1 : ((api .dev 0x444444440000 (100 * 1024)).clearRuns ClearFor).Reach
      ⟨⟨[⟨0x444444440018, 102376⟩], 0x444444440000, 0x444444459000⟩,
        [⟨0x444444440000, ⟨17, 8, ⟨3, rfl⟩, by decide⟩⟩]⟩ :=
    h0.step_restrict (.alloc (by decide) rfl (by decide)) (clear_of_forall (by decide))
  have h2 : ((api .dev 0x444444440000 (100 * 1024)).clearRuns ClearFor).Reach
      ⟨⟨[⟨0x444444440028, 102360⟩], 0x444444440000, 0x444444459000⟩,
        [⟨0x444444440018, ⟨16, 8, ⟨3, rfl⟩, by decide⟩⟩,
          ⟨0x444444440000, ⟨17, 8, ⟨3, rfl⟩, by decide⟩⟩]⟩ :=
    h1.step_restrict (.alloc (by decide) rfl (by decide)) (clear_of_forall (by decide))
  have hcanon := (freeList_canonical .dev _ _ (by decide) (by decide) (by decide)).2 _ h2
  exact ⟨_, h2, rfl, hcanon.1 _ _ (by decide) (List.Subset.refl _) (List.reverse_perm _).symm⟩

/-- A release build over the last two pages of the address space but for 16 bytes. The free region
starts at `2 ^ 64 - r`, and `align_up` to `2 ^ 14` wraps to 0. The call returns null, and the region
has become two that overlap, with a border at `2 ^ 64 - r`. -/
theorem wrapped_alloc :
    ∃ st₁ st₂, (api .release (2 ^ 64 - 2 ^ 13) (2 ^ 13 - 16)).system.Reach st₁ ∧
      (api .release (2 ^ 64 - 2 ^ 13) (2 ^ 13 - 16)).system.Reach st₂ ∧
      cover st₁.heap.head = cover st₂.heap.head ∧ st₁.heap.head ≠ st₂.heap.head := by
  have h0 : (api .release (2 ^ 64 - 2 ^ 13) (2 ^ 13 - 16)).system.Reach
      ⟨⟨[⟨2 ^ 64 - 2 ^ 13, 2 ^ 13 - 16⟩], 2 ^ 64 - 2 ^ 13, 2 ^ 64 - 16⟩, []⟩ := .init ⟨rfl, rfl⟩
  have h1 : (api .release (2 ^ 64 - 2 ^ 13) (2 ^ 13 - 16)).system.Reach
      ⟨⟨[⟨2 ^ 64 - 2 ^ 12, 2 ^ 12 - 16⟩], 2 ^ 64 - 2 ^ 13, 2 ^ 64 - 16⟩,
        [⟨2 ^ 64 - 2 ^ 13, ⟨2 ^ 12, 8, ⟨3, rfl⟩, by decide⟩⟩]⟩ :=
    h0.step (.alloc (by decide) rfl (by decide))
  have h2 : (api .release (2 ^ 64 - 2 ^ 13) (2 ^ 13 - 16)).system.Reach
      ⟨⟨[⟨16, 2 ^ 64 - 32⟩, ⟨2 ^ 64 - 2 ^ 13, 2 ^ 13⟩], 2 ^ 64 - 2 ^ 13, 2 ^ 64 - 16⟩, _⟩ :=
    h0.step (.allocNull (l := ⟨16, 2 ^ 14, ⟨14, rfl⟩, by decide⟩) (by decide) rfl)
  have h2' : (api .release (2 ^ 64 - 2 ^ 13) (2 ^ 13 - 16)).system.Reach
      ⟨⟨[⟨16, 2 ^ 64 - 32⟩, ⟨2 ^ 64 - 2 ^ 12, 2 ^ 12⟩], 2 ^ 64 - 2 ^ 13, 2 ^ 64 - 16⟩, _⟩ :=
    h1.step (.allocNull (l := ⟨16, 2 ^ 14, ⟨14, rfl⟩, by decide⟩) (by decide) rfl)
  refine ⟨_, _, h2, h2', ?_, by decide⟩
  ext x
  simp only [mem_cover, List.mem_cons, List.not_mem_nil, or_false, exists_eq_or_imp,
    exists_eq_left, mem_bytes, stop]
  omega

end LinkedListAllocator

end Apogee
