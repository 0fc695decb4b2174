import Apogee.Allocator.LinkedListSpec

/-!
# What comes back when every block has been freed

An `alloc` puts what is left of its region back on the list, unless it is too small for a node;
`dealloc` gives back the block only. So free bytes and the extents of the live blocks shrink
together by what each `alloc` discards (`accounts`), and nothing of it ever returns:

* `recovers_iff`: with no block live, the list is the region that `init` made exactly if no `alloc`
  of the run has discarded a byte;
* `heap_erodes`: a client that allocates all but 8 bytes and frees them again, over and over, is
  left with 16 bytes of heap.
-/

namespace Apogee

open Verif Span

namespace LinkedListAllocator

variable {p : Profile} {s n : Nat}

theorem accounts :
    (api p s n).Accounts (Ok s n) freeBytes Layout.extent (discards p) where
  alloc h hl he hne := by
    rcases h.inv.alloc (p := p) hl with ⟨h0, -⟩ | ⟨f, e, -, -, hbytes⟩
    · cases h0.symm.trans he
      exact absurd rfl hne
    · cases e.symm.trans he
      exact hbytes
  allocNull h hl he := by
    rcases h.inv.alloc (p := p) hl with ⟨h0, hlost⟩ | ⟨f, e, hne, -⟩
    · cases h0.symm.trans he
      exact ⟨rfl, hlost⟩
    · exact absurd (Prod.mk.inj (Except.ok.inj (e.symm.trans he))).1 hne
  dealloc h he := by
    cases (Inv.dealloc_eq (p := p) h.inv).symm.trans he
    rw [freeBytes_release, Nat.add_comm]

/-- A region's address is aligned, so it is not before the first aligned address of the heap. -/
theorem Ok.inside {a : LinkedListAllocator} {live : List Block} (h : a.Ok s n live) {r : Span}
    (hr : r ∈ a.head) : r.Inside (roundUp s nodeAlign) (s + n) := by
  obtain ⟨hal, -, hlo, hhi⟩ := h.inv.tracked r (List.mem_append_right _ hr)
  rw [h.start] at hlo
  rw [h.stop] at hhi
  exact ⟨roundUp_le hlo hal, hhi⟩

/-- **Recovery.** In every run over a heap that ends at or below `2 ^ 63` and that leaves no block
live: the free list is the single region that `init` made, with as many free bytes, if and only if
there was one and no `alloc` of the run has discarded a byte. -/
theorem recovers_iff (p : Profile) (s n : Nat) (hs : 0 < s) (hn : s + n ≤ 2 ^ 63)
    (a₀ : LinkedListAllocator) (hinit : init p s n = .ok a₀)
    (m : Api.State LinkedListAllocator × Nat)
    (h : ((api p s n).system.metered (Api.loss (discards p))).Reach m) (hlive : m.1.live = []) :
    (m.1.heap.head = a₀.head ∧ m.1.heap.freeRegionCount = 1 ∧
      m.1.heap.freeBytes = a₀.freeBytes) ↔
    minBlock ≤ s + n - roundUp s nodeAlign ∧ m.2 = 0 := by
  obtain ⟨a, ha, -, -, -, hhead⟩ := init_spec (p := p) hs hn
  cases ha.symm.trans hinit
  have hok := (keeps_ok hs hn).reach h.of_metered
  have hbalance : m.1.heap.freeBytes + m.2 = a₀.freeBytes := by
    have hworth := accounts.balance (keeps_ok hs hn) ha h
    simpa [Api.worth, hlive] using hworth
  constructor
  · rintro ⟨heq, hcount, hbytes⟩
    refine ⟨?_, by omega⟩
    -- A list of one region is not what `init` leaves of a heap without room.
    by_contra hroom
    have hcount : m.1.heap.head.length = 1 := hcount
    rw [heq, hhead] at hcount
    simp [initRegion, hroom] at hcount
  · rintro ⟨hroom, hzero⟩
    have hregion : initRegion s n = [⟨roundUp s nodeAlign, s + n - roundUp s nodeAlign⟩] := by
      simp [initRegion, hroom]
    have htotal : total m.1.heap.head = s + n - roundUp s nodeAlign := by
      have hfree : total m.1.heap.head = total a₀.head := by
        rw [hzero] at hbalance
        exact hbalance
      rw [hfree, hhead, hregion, total_cons, total_nil, Nat.add_zero]
    have hpos : 0 < minBlock := by decide
    have hsingle := hok.inv.gapped.eq_singleton (fun r hr => hok.inside hr) (by omega) htotal
    have heq : m.1.heap.head = a₀.head := by rw [hsingle, hhead, hregion]
    refine ⟨heq, ?_, ?_⟩
    · unfold freeRegionCount
      rw [hsingle]
      rfl
    · unfold freeBytes
      rw [heq]

/-- On the kernel's heap, after a block of 24 bytes aligned to 64 has come and gone between two
others: nothing was discarded, so the list is the region that `init` made. -/
theorem recovers_iff_kernelHeap :
    ∃ m, ((api .dev 0x444444440000 (100 * 1024)).system.metered
      (Api.loss (discards .dev))).Reach m ∧
      m.1.live = [] ∧ m.2 = 0 ∧ m.1.heap.head = [⟨0x444444440000, 102400⟩] := by
  have h0 : ((api .dev 0x444444440000 (100 * 1024)).system.metered (Api.loss (discards .dev))).Reach
      (⟨⟨[⟨0x444444440000, 102400⟩], 0x444444440000, 0x444444459000⟩, []⟩, 0) :=
    .init ⟨⟨rfl, rfl⟩, rfl⟩
  have h1 : ((api .dev 0x444444440000 (100 * 1024)).system.metered (Api.loss (discards .dev))).Reach
      (⟨⟨[⟨0x444444440010, 102384⟩], 0x444444440000, 0x444444459000⟩,
        [⟨0x444444440000, ⟨16, 8, ⟨3, rfl⟩, by decide⟩⟩]⟩, 0) :=
    h0.step ⟨.alloc (by decide) rfl (by decide), rfl⟩
  have h2 : ((api .dev 0x444444440000 (100 * 1024)).system.metered (Api.loss (discards .dev))).Reach
      (⟨⟨[⟨0x444444440010, 48⟩, ⟨0x444444440058, 102312⟩], 0x444444440000, 0x444444459000⟩,
        [⟨0x444444440040, ⟨24, 64, ⟨6, rfl⟩, by decide⟩⟩,
          ⟨0x444444440000, ⟨16, 8, ⟨3, rfl⟩, by decide⟩⟩]⟩, 0) :=
    h1.step ⟨.alloc (by decide) rfl (by decide), rfl⟩
  have h3 : ((api .dev 0x444444440000 (100 * 1024)).system.metered (Api.loss (discards .dev))).Reach
      (⟨⟨[⟨0x444444440000, 64⟩, ⟨0x444444440058, 102312⟩], 0x444444440000, 0x444444459000⟩,
        [⟨0x444444440040, ⟨24, 64, ⟨6, rfl⟩, by decide⟩⟩]⟩, 0) :=
    h2.step ⟨.dealloc (b := ⟨0x444444440000, ⟨16, 8, ⟨3, rfl⟩, by decide⟩⟩)
      (.tail _ (.head _)) rfl, rfl⟩
  have h4 : ((api .dev 0x444444440000 (100 * 1024)).system.metered (Api.loss (discards .dev))).Reach
      (⟨⟨[⟨0x444444440000, 102400⟩], 0x444444440000, 0x444444459000⟩, []⟩, 0) :=
    h3.step ⟨.dealloc (b := ⟨0x444444440040, ⟨24, 64, ⟨6, rfl⟩, by decide⟩⟩) (.head _) rfl, rfl⟩
  refine ⟨_, h4, rfl, rfl, ?_⟩
  exact ((recovers_iff .dev _ _ (by decide) (by decide) _ rfl _ h4 rfl).mpr ⟨by decide, rfl⟩).1

/-! ## The heap erodes -/

/-- A block that takes all but the last 8 bytes of the heap comes and goes, and the 8 bytes are
gone. -/
theorem erode (hs : 0 < s) (hn : s + n ≤ 2 ^ 63) (hal : nodeAlign ∣ s) {k : Nat}
    (hdvd : nodeAlign ∣ k) (hk : minBlock ≤ k)
    (h : (api p s n).system.Reach ⟨⟨[⟨s, k + 8⟩], s, s + n⟩, []⟩) :
    (api p s n).system.Reach ⟨⟨[⟨s, k⟩], s, s + n⟩, []⟩ := by
  have hinv := ((keeps_ok hs hn).reach h).inv
  have hin : s + (k + 8) ≤ s + n := (hinv.tracked ⟨s, k + 8⟩ (by simp)).inside.2
  obtain ⟨l, hsize, halign⟩ : ∃ l : Layout, l.size = k ∧ l.align = 8 :=
    ⟨⟨k, 8, ⟨3, rfl⟩, by omega⟩, rfl, rfl⟩
  have hl : 0 < l.size := by
    have : 0 < minBlock := by decide
    omega
  have hext : l.extent = k := by
    rw [Layout.extent, hsize, Nat.max_eq_left hk, roundUp_of_dvd (by decide) hdvd]
  have hround : roundUp s (allocationAlign l) = s := by
    rw [allocationAlign, halign]
    exact roundUp_of_dvd (by decide) hal
  have hroom : roundUp s (allocationAlign l) + l.extent ≤ stop ⟨s, k + 8⟩ := by
    rw [hround, hext]
    simp only [stop]
    omega
  let f : FirstFit ⟨[⟨s, k + 8⟩], s, s + n⟩ l.extent (allocationAlign l) :=
    ⟨[], ⟨s, k + 8⟩, [], rfl, by simp, hroom⟩
  have haddr : f.addr = s := hround
  have hfront : f.front.size = 0 := by
    show f.addr - s = 0
    omega
  have hback : f.back.size = 8 := by
    show s + (k + 8) - (f.addr + l.extent) = 8
    omega
  have hheap : f.heap = ⟨[], s, s + n⟩ := by
    simp only [FirstFit.heap, giveBack, hfront, hback]
    rfl
  obtain ⟨halloc, hne, hinv'⟩ := hinv.alloc_eq (p := p) hl f
  have h1 := h.step (.alloc hl halloc hne)
  have hdealloc := Inv.dealloc_eq (p := p) hinv'
  have h2 := h1.step (.dealloc (.head _) hdealloc)
  simp only [List.erase_cons_head] at h2
  rw [hheap, haddr, hext] at h2
  exact h2

/-- On the kernel's heap, `k` blocks that come and go one after the other leave `8 * k` bytes less,
down to the last 16. No block is live then. -/
theorem heap_erodes : ∃ a₀, init .dev 0x444444440000 (100 * 1024) = .ok a₀ ∧
    a₀.freeBytes = 102400 ∧
    ∀ k ≤ 12798, ∃ st, (api .dev 0x444444440000 (100 * 1024)).system.Reach st ∧
      st.live = [] ∧ st.heap.freeBytes = 102400 - 8 * k := by
  refine ⟨⟨[⟨0x444444440000, 102400⟩], 0x444444440000, 0x444444459000⟩, rfl, rfl, ?_⟩
  have herode : ∀ k ≤ 12798, (api .dev 0x444444440000 (100 * 1024)).system.Reach
      ⟨⟨[⟨0x444444440000, 8 * (12800 - k)⟩], 0x444444440000, 0x444444459000⟩, []⟩ := by
    intro k hk
    induction k with
    | zero => exact .init ⟨rfl, rfl⟩
    | succ k ih =>
      have hprev := ih (by omega)
      rw [show 8 * (12800 - k) = 8 * (12800 - (k + 1)) + 8 by omega] at hprev
      exact erode (by decide) (by decide) (by decide) (Nat.dvd_mul_right _ _)
        (by unfold minBlock; omega) hprev
  intro k hk
  refine ⟨_, herode k hk, rfl, ?_⟩
  show 8 * (12800 - k) + 0 = 102400 - 8 * k
  omega

end LinkedListAllocator

end Apogee
