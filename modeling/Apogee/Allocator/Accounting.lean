import Apogee.Allocator.FixedSizeBlockSpec

/-!
# The global allocator's accounts

`stats().free_bytes` counts two structures, the fallback's free regions and the parked blocks, and a
block moves between them under one extent (`Layout.reserved`). Over a whole run, free bytes, the
extents of the live blocks and the fragments that the fallback has discarded add up to the region
that `init` made (`heap_accounting`).
-/

namespace Apogee

open Verif Span

namespace FixedSizeBlockAllocator

variable {p : Profile} {s n : Nat}

theorem accounts :
    (api p s n).Accounts (Ok s n) (fun a => a.stats.freeBytes) Layout.reserved (discards p) where
  alloc h hl he hne := by
    rcases h.alloc (p := p) hl with ⟨h0, -⟩ | ⟨ptr, a', e, -, -, hbytes⟩
    · cases h0.symm.trans he
      exact absurd rfl hne
    · cases e.symm.trans he
      exact hbytes
  allocNull h hl he := by
    rcases h.alloc (p := p) hl with ⟨h0, hlost⟩ | ⟨ptr, a', e, hne, -⟩
    · cases h0.symm.trans he
      exact ⟨rfl, hlost⟩
    · exact absurd (Prod.mk.inj (Except.ok.inj (e.symm.trans he))).1 hne
  dealloc h he := by
    obtain ⟨a', e, -, hbytes⟩ := h.dealloc (p := p)
    cases e.symm.trans he
    exact hbytes

/-- **Accounting.** In every reachable state of every run over a heap that ends at or below `2 ^
63`: free bytes, the extents of the live blocks and what was discarded so far add up to the region
that `init` put on the list. So the free bytes never exceed the heap; a `dealloc` raises them by the
block's extent; a successful `alloc` lowers them by the extent and by what it discards; and a failed
one leaves them. -/
theorem heap_accounting (p : Profile) (s n : Nat) (hs : 0 < s) (hn : s + n ≤ 2 ^ 63) :
    (∃ a₀, init p .empty s n = .ok a₀ ∧
      a₀.fallbackAllocator.head = LinkedListAllocator.initRegion s n) ∧
    ∀ m, ((api p s n).system.metered (Api.loss (discards p))).Reach m →
      m.1.heap.stats.freeBytes + (m.1.live.map fun b => b.layout.reserved).sum + m.2 =
        total (LinkedListAllocator.initRegion s n) ∧
      m.1.heap.stats.freeBytes ≤ m.1.heap.stats.heapSize ∧
      (∀ b ∈ m.1.live, ∃ a', m.1.heap.dealloc p b.ptr b.layout = .ok a' ∧
        a'.stats.freeBytes = m.1.heap.stats.freeBytes + b.layout.reserved) ∧
      (∀ l : Layout, 0 < l.size → ∃ ptr a', m.1.heap.alloc p l = .ok (ptr, a') ∧
        (ptr ≠ 0 → a'.stats.freeBytes + (l.reserved + m.1.heap.discards p l) =
          m.1.heap.stats.freeBytes) ∧
        (ptr = 0 → a'.stats.freeBytes = m.1.heap.stats.freeBytes)) := by
  obtain ⟨a₀, ha₀, hok₀, hparked, hhead⟩ := init_spec (p := p) hs hn
  refine ⟨⟨a₀, ha₀, hhead⟩, fun m h => ?_⟩
  have hok := (keeps_ok hs hn).reach h.of_metered
  have hfree₀ : a₀.stats.freeBytes = total (LinkedListAllocator.initRegion s n) := by
    rw [hok₀.freeBytes_eq, hparked, ← hhead]
    rfl
  have hbalance : m.1.heap.stats.freeBytes + (m.1.live.map fun b => b.layout.reserved).sum + m.2 =
      total (LinkedListAllocator.initRegion s n) := by
    rw [← hfree₀]
    exact accounts.balance (keeps_ok hs hn) ha₀ h
  refine ⟨hbalance, ?_, fun b hb => ?_, fun l hl => ?_⟩
  · have hregion : total (LinkedListAllocator.initRegion s n) ≤ n := by
      have hge := le_roundUp (a := nodeAlign) s (by decide)
      unfold LinkedListAllocator.initRegion
      by_cases hroom : minBlock ≤ s + n - roundUp s nodeAlign <;> simp [hroom]
      omega
    have hsize : m.1.heap.stats.heapSize = s + n - s := by
      show m.1.heap.fallbackAllocator.heapEnd - m.1.heap.fallbackAllocator.heapStart = _
      rw [hok.start, hok.stop]
    omega
  · obtain ⟨a', e, -, hbytes⟩ := (hok.perm (List.perm_cons_erase hb)).dealloc (p := p)
    exact ⟨a', e, hbytes⟩
  · rcases hok.alloc (p := p) hl with ⟨h0, -⟩ | ⟨ptr, a', e, hne, -, hbytes⟩
    · exact ⟨0, _, h0, fun hne => absurd rfl hne, fun _ => rfl⟩
    · exact ⟨ptr, a', e, fun _ => by omega, fun h0 => absurd h0 hne⟩

/-- On the kernel's heap, after a block of 24 bytes has been parked: a block of 5000 bytes and one
of 16 are live, and 8 bytes were discarded to align the latter. -/
theorem heap_accounting_kernelHeap :
    ∃ m, ((api .dev 0x444444440000 (100 * 1024)).system.metered
      (Api.loss (discards .dev))).Reach m ∧
      m.1.live = [⟨0x4444444413b0, ⟨16, 16, ⟨4, rfl⟩, by decide⟩⟩,
        ⟨0x444444440020, ⟨5000, 8, ⟨3, rfl⟩, by decide⟩⟩] ∧ m.2 = 8 ∧
      m.1.heap.stats.freeBytes + (16 + 5000) + 8 = 102400 := by
  have h0 : ((api .dev 0x444444440000 (100 * 1024)).system.metered (Api.loss (discards .dev))).Reach
      (⟨⟨fun _ => [], ⟨[⟨0x444444440000, 102400⟩], 0x444444440000, 0x444444459000⟩⟩, []⟩, 0) :=
    .init ⟨⟨rfl, rfl⟩, rfl⟩
  have h1 : ((api .dev 0x444444440000 (100 * 1024)).system.metered (Api.loss (discards .dev))).Reach
      (⟨⟨fun _ => [], ⟨[⟨0x444444440020, 102368⟩], 0x444444440000, 0x444444459000⟩⟩,
        [⟨0x444444440000, ⟨24, 8, ⟨3, rfl⟩, by decide⟩⟩]⟩, 0) :=
    h0.step ⟨.alloc (by decide) rfl (by decide), rfl⟩
  have h2 : ((api .dev 0x444444440000 (100 * 1024)).system.metered (Api.loss (discards .dev))).Reach
      (⟨⟨fun _ => [], ⟨[⟨0x4444444413a8, 97368⟩], 0x444444440000, 0x444444459000⟩⟩,
        [⟨0x444444440020, ⟨5000, 8, ⟨3, rfl⟩, by decide⟩⟩,
          ⟨0x444444440000, ⟨24, 8, ⟨3, rfl⟩, by decide⟩⟩]⟩, 0) :=
    h1.step ⟨.alloc (by decide) rfl (by decide), rfl⟩
  have h3 : ((api .dev 0x444444440000 (100 * 1024)).system.metered (Api.loss (discards .dev))).Reach
      (⟨⟨fun _ => [], ⟨[⟨0x4444444413c0, 97344⟩], 0x444444440000, 0x444444459000⟩⟩,
        [⟨0x4444444413b0, ⟨16, 16, ⟨4, rfl⟩, by decide⟩⟩,
          ⟨0x444444440020, ⟨5000, 8, ⟨3, rfl⟩, by decide⟩⟩,
          ⟨0x444444440000, ⟨24, 8, ⟨3, rfl⟩, by decide⟩⟩]⟩, 8) :=
    h2.step ⟨.alloc (by decide) rfl (by decide), rfl⟩
  have h4 : ((api .dev 0x444444440000 (100 * 1024)).system.metered (Api.loss (discards .dev))).Reach
      (⟨⟨Function.update (fun _ => []) ⟨2, by decide⟩ [⟨0x444444440000, 32⟩],
          ⟨[⟨0x4444444413c0, 97344⟩], 0x444444440000, 0x444444459000⟩⟩,
        [⟨0x4444444413b0, ⟨16, 16, ⟨4, rfl⟩, by decide⟩⟩,
          ⟨0x444444440020, ⟨5000, 8, ⟨3, rfl⟩, by decide⟩⟩]⟩, 8) :=
    h3.step ⟨.dealloc (b := ⟨0x444444440000, ⟨24, 8, ⟨3, rfl⟩, by decide⟩⟩)
      (.tail _ (.tail _ (.head _))) rfl, rfl⟩
  exact ⟨_, h4, rfl, rfl, ((heap_accounting .dev _ _ (by decide) (by decide)).2 _ h4).1⟩

end FixedSizeBlockAllocator

end Apogee
