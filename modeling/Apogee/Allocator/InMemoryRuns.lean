import Apogee.Allocator.InMemory
import Apogee.Allocator.MemoryRuns

/-!
# Whole runs of the free list in memory

The operations of `InMemory` keep the relation to the list-level allocator and leave live blocks
alone (`memApi_refines`), so every run in memory mirrors a run on lists (`inMemory_mirrors`).
-/

namespace Apogee

open Verif Span

/-- A word of a block is in an extent that a node fits in a whole number of times. -/
theorem Block.HasWord.add_le {b : Block} {a extent : Nat} (h : b.HasWord a) (hptr : 8 ∣ b.ptr)
    (hsize : b.layout.size ≤ extent) (hext : 8 ∣ extent) : a + 8 ≤ b.ptr + extent := by
  obtain ⟨ha, hge, hlt⟩ := h
  omega

/-- A store to a word of the block changes no byte apart from its extent. -/
theorem Block.HasWord.changesIn {b : Block} {a : Nat} (h : b.HasWord a) (m : Mem) (v : UInt64)
    {extent : Nat} (hsize : b.layout.size ≤ extent) :
    Mem.ChangesIn (Span.bytes ⟨b.ptr, extent⟩) m (m.store a v) := by
  refine Mem.changesIn_store m v ?_
  simp only [mem_bytes, stop]
  exact ⟨h.ge, by have := h.lt; omega⟩

/-- Spans apart from the bytes that change keep their words. -/
theorem untouched_of_changesIn {extent : Layout → Nat} {live : List Block} {S : Set Nat}
    {m m' : Mem} (h : Mem.ChangesIn S m m')
    (hout : ∀ b ∈ live, ∀ x ∈ Span.bytes ⟨b.ptr, extent b.layout⟩, x ∉ S) :
    MemApi.Untouched extent live m m' := by
  intro b hb a hge hle
  refine h a (hout b hb a ?_)
  simp only [mem_bytes, stop]
  omega

namespace LinkedListAllocator

variable {p : Profile} {s n fuel : Nat} {a : LinkedListAllocator} {owned : List Span}

/-- What is owned is no free byte. -/
theorem Inv.not_free (h : a.Inv owned) {r : Span} (hr : r ∈ owned) {x : Nat} (hx : x ∈ r.bytes) :
    x ∉ cover a.head := by
  rintro ⟨q, hq, hxq⟩
  exact ((List.pairwise_append.mp h.apart).2.2 r hr q hq).not_mem hx hxq

/-- Two things that are owned have no byte in common. -/
theorem Inv.not_first {b r : Span} (h : a.Inv (b :: owned)) (hr : r ∈ owned) {x : Nat}
    (hx : x ∈ r.bytes) : x ∉ b.bytes := by
  have hap := (List.pairwise_cons.mp h.apart).1 r (List.mem_append_left _ hr)
  exact hap.symm.not_mem hx

theorem Inv.roomy (h : a.Inv owned) : InMemory.Roomy a.head :=
  fun r hr => (h.tracked r (List.mem_append_right _ hr)).room

/-- The allocator over the heap `[s, s + n)` of the memory `mem`. -/
def memApi (p : Profile) (fuel : Nat) (mem : Mem) (s n : Nat) : MemApi InMemory where
  init := InMemory.init p fuel mem s n
  alloc := InMemory.alloc p fuel
  dealloc := InMemory.dealloc p fuel
  mem := fun m => m.mem
  setMem := fun m mem => { m with mem }
  mem_setMem _ _ := rfl

theorem Ok.size_lt {live : List Block} (h : a.Ok s n live) (hfuel : n < fuel) :
    a.heapEnd - a.heapStart < fuel := by
  rw [h.start, h.stop]
  omega

theorem memApi_refines (p : Profile) (mem : Mem) (hs : 0 < s) (hn : s + n ≤ 2 ^ 63)
    (hfuel : n < fuel) :
    (memApi p fuel mem s n).Refines (api p s n) (Ok s n) InMemory.Rep Layout.extent where
  keeps := keeps_ok hs hn
  init := InMemory.init_rep p mem hs hn hfuel
  alloc hrep hok hl := by
    obtain ⟨ptr, m', a', hm, ha, hrep', hmem⟩ :=
      InMemory.alloc_rep (p := p) hok.inv hrep hl (hok.size_lt hfuel)
    refine ⟨ptr, m', a', hm, ha, hrep', untouched_of_changesIn hmem fun b hb x hx => ?_⟩
    exact hok.inv.not_free (List.mem_map_of_mem hb) hx
  dealloc hrep hok := by
    obtain ⟨m', a', hm, ha, hrep', hmem⟩ :=
      InMemory.dealloc_rep (p := p) hok.inv hrep (hok.size_lt hfuel)
    refine ⟨m', a', hm, ha, hrep', untouched_of_changesIn hmem fun b hb x hx => ?_⟩
    rintro (hfirst | hfree)
    · exact hok.inv.not_first (List.mem_map_of_mem hb) hx hfirst
    · exact hok.inv.not_free (.tail _ (List.mem_map_of_mem hb)) hx hfree
  store v hrep hok hb ha := by
    refine hrep.write hok.inv.roomy (fun x hx hxb => ?_)
      (ha.changesIn _ v (Layout.size_le_extent _))
    exact hok.inv.not_free (List.mem_map_of_mem hb) hxb hx
  word hok hb ha :=
    ha.add_le (hok.inv.tracked _ (List.mem_append_left _ (List.mem_map_of_mem hb))).aligned
      (Layout.size_le_extent _) (dvd_roundUp _ _)

/-! ## The counts -/

/-- A loop that adds without an overflow computes the sum. -/
theorem foldlM_sum {α : Type} {add : Nat → α → Panics Nat} {f : α → Nat}
    (hadd : ∀ acc x, acc + f x < 2 ^ 64 → add acc x = .ok (acc + f x)) (xs : List α) (acc : Nat)
    (h : acc + (xs.map f).sum < 2 ^ 64) : xs.foldlM add acc = .ok (acc + (xs.map f).sum) := by
  induction xs generalizing acc with
  | nil => rfl
  | cons x xs ih =>
    rw [List.map_cons, List.sum_cons] at h ⊢
    rw [List.foldlM_cons, hadd _ _ (by omega), Panics.bind_ok, ih _ (by omega)]
    congr 1
    omega

theorem chain_val {m : Links Nat} {link : Option Nat} {l : List (Nat × Nat)}
    (h : m.Chain link l) : ∀ x ∈ l, (m.cell x.1).val = x.2 := by
  induction l generalizing link with
  | nil => exact fun _ hx => nomatch hx
  | cons y l ih =>
    obtain ⟨-, hval, hrest⟩ := h
    exact List.forall_mem_cons.mpr ⟨hval, ih hrest⟩

theorem Inv.total_le (h : a.Inv owned) : total a.head ≤ a.heapEnd - a.heapStart := by
  cases hl : a.head with
  | nil => exact Nat.zero_le _
  | cons r rest =>
    have hg := h.gapped
    have htr := h.tracked
    rw [hl] at hg htr
    have hle := hg.total_le fun q hq => (htr q (List.mem_append_right _ hq)).inside
    omega

theorem InMemory.freeBytes_rep {m : InMemory} (h : a.Inv owned) (hrep : m.Rep a)
    (hfuel : a.heapEnd - a.heapStart < fuel) : m.freeBytes p fuel = .ok a.freeBytes := by
  have hlen : (nodes a.head).length ≤ fuel := by
    have hle := InMemory.length_le h.gapped.ordered h.roomy fun r hr =>
      (h.tracked r (List.mem_append_right _ hr)).inside
    rw [nodes, List.length_map]
    omega
  have hchain : m.links.Chain m.head (nodes a.head) := hrep.holds
  have hval : ∀ x ∈ nodes a.head, m.val x.1 = x.2 := chain_val hchain
  have hsum : ((nodes a.head).map fun x => m.val x.1).sum = a.freeBytes := by
    rw [List.map_congr_left hval, nodes, List.map_map]
    rfl
  have hend := h.end_le
  have htotal : a.freeBytes ≤ a.heapEnd - a.heapStart := h.total_le
  unfold InMemory.freeBytes
  rw [Nodes.walk_eq _ hchain hlen, foldlM_sum (f := fun x : Nat × Nat => m.val x.1), hsum,
    Nat.zero_add]
  · exact fun acc x h => Word.add_of_lt h
  · rw [hsum]
    omega

theorem InMemory.freeRegionCount_rep {m : InMemory} (h : a.Inv owned) (hrep : m.Rep a)
    (hfuel : a.heapEnd - a.heapStart < fuel) :
    m.freeRegionCount p fuel = .ok a.freeRegionCount := by
  have hle := InMemory.length_le h.gapped.ordered h.roomy fun r hr =>
    (h.tracked r (List.mem_append_right _ hr)).inside
  have hchain : m.links.Chain m.head (nodes a.head) := hrep.holds
  have hlen : (nodes a.head).length = a.head.length := List.length_map _
  have hend := h.end_le
  have hcount : ((nodes a.head).map fun _ => 1).sum = a.freeRegionCount := by
    rw [List.map_const', List.sum_replicate, hlen]
    exact Nat.mul_one _
  unfold InMemory.freeRegionCount
  rw [Nodes.walk_eq _ hchain (by omega), foldlM_sum (f := fun _ : Nat × Nat => 1), hcount,
    Nat.zero_add]
  · exact fun acc x h => Word.add_of_lt h
  · rw [hcount]
    unfold LinkedListAllocator.freeRegionCount
    omega

/-- **The free list works in the memory it manages.** Over every heap that ends at or below `2 ^ 63`
and any contents of memory, take any sequence of `alloc`, contract-abiding `dealloc` and stores of
clients into their live blocks, whatever they store. The allocator that walks and rewires nodes in
that memory always mirrors the list-level allocator: no call panics or loops, every call answers the
same, `free_bytes` and `free_region_count` count the same, no call touches the contents of another
live block, and each live block holds what was last stored in it. -/
theorem inMemory_mirrors (p : Profile) (s n fuel : Nat) (mem : Mem) (hs : 0 < s)
    (hn : s + n ≤ 2 ^ 63) (hfuel : n < fuel) :
    (∃ m, InMemory.init p fuel mem s n = .ok m) ∧
    ∀ st, (memApi p fuel mem s n).system.Reach st → ∃ a,
      MemApi.Mirrors (memApi p fuel mem s n) (api p s n) InMemory.Rep Layout.extent st a ∧
      st.heap.freeBytes p fuel = .ok a.freeBytes ∧
      st.heap.freeRegionCount p fuel = .ok a.freeRegionCount := by
  have hr := memApi_refines p mem hs hn hfuel
  obtain ⟨m, -, hm, -⟩ := hr.init
  refine ⟨⟨m, hm⟩, fun st hst => ?_⟩
  obtain ⟨a, ha⟩ := hr.mirrors hst
  have hok := hr.keeps.reach ha.reach
  exact ⟨a, ha, InMemory.freeBytes_rep hok.inv ha.rep (hok.size_lt hfuel),
    InMemory.freeRegionCount_rep hok.inv ha.rep (hok.size_lt hfuel)⟩

/-- On the kernel's heap: a block of 24 bytes still holds what its owner stored, after another block
was cut off the list and given back. -/
theorem inMemory_mirrors_kernelHeap :
    ∃ st, (memApi .dev 102401 (fun _ => 0) 0x444444440000 (100 * 1024)).system.Reach st ∧
      st.live = [⟨0x444444440000, ⟨24, 8, ⟨3, rfl⟩, by decide⟩⟩] ∧
      st.heap.mem 0x444444440008 = 7 ∧ st.heap.freeBytes .dev 102401 = .ok 102376 := by
  have h0 : (memApi .dev 102401 (fun _ => 0) 0x444444440000 (100 * 1024)).system.Reach
      ⟨⟨_, []⟩, fun _ => none⟩ := .init ⟨rfl, rfl, rfl⟩
  have h1 := h0.step (.alloc (l := ⟨24, 8, ⟨3, rfl⟩, by decide⟩) (by decide) rfl (by decide))
  have h2 := h1.step (.store (a := 0x444444440008) (v := 7) (.head _) (by decide))
  have h3 := h2.step (.alloc (l := ⟨40, 8, ⟨3, rfl⟩, by decide⟩) (by decide) rfl (by decide))
  have h4 := h3.step (.dealloc (.head _) rfl)
  obtain ⟨a, ha, -, -⟩ := (inMemory_mirrors .dev 0x444444440000 (100 * 1024) 102401 (fun _ => 0)
    (by decide) (by decide) (by decide)).2 _ h4
  exact ⟨_, h4, rfl, (ha.written 0x444444440008 7 rfl).2, rfl⟩

end LinkedListAllocator

end Apogee
