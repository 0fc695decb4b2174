import Apogee.Allocator.Bump
import Apogee.Allocator.LinkedListSpec

/-!
# Where the allocators' arithmetic overflows

`checked_add` guards the end of a block, but `align_up` adds the alignment before that. Over a heap
that may end anywhere below `2 ^ 64`, the sum of an address and an alignment need not fit in a word.

* `findSlot_overflow`: in a `dev` build `find_region` panics at the first region whose address and
  alignment do not fit. So `Clear` is exactly when it computes without an overflow.
* `arithmetic_exact`: both allocators, over whole runs. As long as every call meets its condition,
  no call overflows, and every block handed out is aligned and lies in the heap.
* `wrapped_bump`: in a `release` build the bump cursor wraps to the bottom of the address space, and
  the next block lies outside the heap.
-/

namespace Apogee

open Verif Span

/-- Over the heap `[start, stop)`: `init` computes without an overflow exactly if `initClear` holds.
Then in every run, of either build, in which every `alloc` meets `clear`: an `alloc` computes
without an overflow exactly if it meets `clear`, no `dealloc` overflows, and every block is aligned
and in the heap. -/
structure Api.ExactRuns {H : Type} (A : Profile → Api H) (start stop : Nat) (initClear : Prop)
    (clear : H → Layout → Prop) : Prop where
  init : Exact (fun p => (A p).init) ↔ initClear
  alloc : initClear → ∀ p st, ((A p).clearRuns clear).Reach st → ∀ l : Layout, 0 < l.size →
    (Exact (fun q => (A q).alloc st.heap l) ↔ clear st.heap l)
  dealloc : initClear → ∀ p st, ((A p).clearRuns clear).Reach st → ∀ b ∈ st.live,
    Exact fun q => (A q).dealloc st.heap b.ptr b.layout
  block : initClear → ∀ p st, ((A p).clearRuns clear).Reach st → ∀ b ∈ st.live,
    b.layout.align ∣ b.ptr ∧ start ≤ b.ptr ∧ b.ptr + b.layout.size ≤ stop

/-! ## The bump allocator -/

namespace BumpAllocator

/-- The allocator over the heap `[s, s + n)`. -/
def api (p : Profile) (s n : Nat) : Api BumpAllocator where
  init := pure (init s n)
  alloc := alloc p
  dealloc b ptr l := pure (b.dealloc ptr l)

/-- `align_up` of the cursor does not overflow. -/
def ClearFor (b : BumpAllocator) (l : Layout) : Prop := b.next + l.align < 2 ^ 64

/-- The blocks lie in the heap, below the cursor. -/
structure Ok (s n : Nat) (b : BumpAllocator) (live : List Block) : Prop where
  inv : b.Inv
  start : b.heapStart = s
  stop : b.heapEnd = s + n
  block : ∀ c ∈ live, c.layout.align ∣ c.ptr ∧ s ≤ c.ptr ∧ c.ptr + c.layout.size ≤ s + n

theorem keeps_ok {p : Profile} {s n : Nat} (hs : 0 < s) (hn : s + n < 2 ^ 64) :
    (api p s n).KeepsWhen ClearFor (Ok s n) where
  init := ⟨_, rfl, init_inv hs hn, rfl, Word.satAdd_of_lt hn, by simp⟩
  perm h hp := ⟨h.inv, h.start, h.stop, fun c hc => h.block c (hp.mem_iff.mpr hc)⟩
  alloc := by
    intro b live l h _ hclear
    have he : b.alloc p l = .ok (b.take l) := h.inv.alloc_eq_take hclear
    obtain ⟨-, hnull⟩ | ⟨hroom, hsome, hne, hinv⟩ := h.inv.take_cases l
    · exact .inl (he.trans (congrArg _ hnull))
    · have hge := b.next_le_start l
      have hlo := h.inv.start_le
      have hstart := h.start
      have hmem : s ≤ b.start l := by omega
      refine .inr ⟨_, _, he.trans (congrArg _ hsome), hne, hinv, h.start, h.stop, ?_⟩
      refine List.forall_mem_cons.mpr ⟨⟨dvd_roundUp _ _, hmem, ?_⟩, h.block⟩
      rw [← h.stop]
      exact Nat.le_of_not_lt hroom
  dealloc h := ⟨_, rfl, h.inv, h.start, h.stop, fun c hc => h.block c (.tail _ hc)⟩

theorem Inv.alloc_exact_iff {b : BumpAllocator} (h : b.Inv) (l : Layout) :
    Exact (fun p => b.alloc p l) ↔ b.ClearFor l := by
  refine ⟨fun hexact => ?_, fun hclear => ⟨_, fun p => h.alloc_eq_take hclear⟩⟩
  by_contra hclear
  have hdev : b.alloc .dev l = .error "attempt to add with overflow" := by
    unfold alloc
    rw [alignUp_overflow (Nat.le_of_not_lt hclear)]
    rfl
  exact not_exact_of_dev hdev hexact

theorem exactRuns {s n : Nat} (hs : 0 < s) (hn : s + n < 2 ^ 64) :
    Api.ExactRuns (fun p => api p s n) s (s + n) True ClearFor where
  init := ⟨fun _ => trivial, fun _ => ⟨_, fun _ => rfl⟩⟩
  alloc _ _ _ h l _ := ((keeps_ok hs hn).reach h).inv.alloc_exact_iff l
  dealloc _ _ _ _ _ _ := ⟨_, fun _ => rfl⟩
  block _ _ _ h := ((keeps_ok hs hn).reach h).block

end BumpAllocator

/-! ## The linked-list allocator -/

namespace LinkedListAllocator

variable {p : Profile} {a : LinkedListAllocator}

theorem fit_overflow (size : Nat) {align : Nat} {r : ListNode} (hr : r.stop < 2 ^ 64)
    (h : 2 ^ 64 ≤ r.addr + align) :
    fit .dev size align r = .error "attempt to add with overflow" := by
  have hend : r.endAddr .dev = .ok r.stop := Word.add_of_lt hr
  unfold fit ListNode.startAddr
  rw [hend, Panics.bind_ok, alignUp_overflow h]
  rfl

/-- The first region that `align_up` overflows on, behind regions without room. -/
theorem findSlot_overflow {size align k : Nat} (hk : align = 2 ^ k) {l : List ListNode}
    (hstop : ∀ r ∈ l, r.stop < 2 ^ 64) (h : ¬ Clear size align l) :
    findSlot .dev size align l = .error "attempt to add with overflow" := by
  induction l with
  | nil => exact absurd trivial h
  | cons r rest ih =>
    have hr := hstop r (.head _)
    unfold findSlot
    by_cases hal : r.addr + align < 2 ^ 64
    · have hskip : Skips size align r ∧ ¬ Clear size align rest := by
        by_contra hno
        exact h ⟨hal, fun hs => by_contra fun hc => hno ⟨hs, hc⟩⟩
      have hfit := fit_eq (p := .dev) size hk hal hr
      rw [if_neg (Nat.not_le_of_lt hskip.1)] at hfit
      rw [hfit, Panics.bind_ok, ih (fun q hq => hstop q (.tail _ hq)) hskip.2]
      rfl
    · rw [fit_overflow size hr (Nat.le_of_not_lt hal)]
      rfl

/-- The live blocks own their extents and are aligned. -/
structure OkBelow (s n : Nat) (a : LinkedListAllocator) (live : List Block) : Prop where
  sound : a.Sound (live.map Block.span)
  start : a.heapStart = s
  stop : a.heapEnd = s + n
  aligned : ∀ b ∈ live, b.layout.align ∣ b.ptr

theorem keeps_okBelow {s n : Nat} (hs : 0 < s) (hn : s + n < 2 ^ 64)
    (hnode : s + nodeAlign < 2 ^ 64) : (api p s n).KeepsWhen ClearFor (OkBelow s n) where
  init := by
    obtain ⟨a, ha, hsound, hst, hend, -⟩ := init_sound (p := p) hs hn hnode
    exact ⟨a, ha, hsound, hst, hend, by simp⟩
  perm h hp := ⟨h.sound.perm (hp.map _), h.start, h.stop,
    fun b hb => h.aligned b (hp.mem_iff.mpr hb)⟩
  alloc := by
    intro a live l h _ hclear
    rcases skips_or_firstFit a l.extent (allocationAlign l) with hno | ⟨⟨f⟩⟩
    · exact .inl (h.sound.alloc_null hclear hno)
    · obtain ⟨e, hne, hsound⟩ := h.sound.alloc_eq (p := p) hclear f
      obtain ⟨hst, hend⟩ := f.heap_bounds
      refine .inr ⟨f.addr, f.heap, e, hne, hsound, hst.trans h.start, hend.trans h.stop, ?_⟩
      exact List.forall_mem_cons.mpr ⟨(align_dvd_allocationAlign l).trans f.align_dvd, h.aligned⟩
  dealloc h := ⟨_, h.sound.dealloc_eq, h.sound.release, h.start, h.stop,
    fun b hb => h.aligned b (.tail _ hb)⟩

theorem Sound.alloc_exact_iff {owned : List Span} (h : a.Sound owned) (l : Layout) :
    Exact (fun p => a.alloc p l) ↔ a.ClearFor l := by
  constructor
  · intro hexact
    by_contra hclear
    have hdev : a.alloc .dev l = .error "attempt to add with overflow" := by
      obtain ⟨k, hk⟩ := allocationAlign_eq l
      have hslot := findSlot_overflow hk (fun r hr => h.stop_lt (List.mem_append_right _ hr)) hclear
      have hfind : a.findRegion .dev l.extent (allocationAlign l) =
          .error "attempt to add with overflow" := by
        unfold LinkedListAllocator.findRegion
        rw [hslot]
        rfl
      unfold LinkedListAllocator.alloc
      simp only [allocationSize_eq, Panics.bind_ok]
      rw [hfind]
      rfl
    exact not_exact_of_dev hdev hexact
  · intro hclear
    rcases skips_or_firstFit a l.extent (allocationAlign l) with hno | ⟨⟨f⟩⟩
    · exact ⟨_, fun p => h.alloc_null hclear hno⟩
    · exact ⟨_, fun p => (h.alloc_eq hclear f).1⟩

/-- `init` aligns the start of the heap for a node. -/
theorem init_exact_iff {s n : Nat} (hs : 0 < s) (hn : s + n < 2 ^ 64) :
    Exact (fun p => init p s n) ↔ s + nodeAlign < 2 ^ 64 := by
  constructor
  · intro hexact
    by_contra hnode
    have hdev : init .dev s n = .error "attempt to add with overflow" := by
      unfold init
      rw [alignUp_overflow (Nat.le_of_not_lt hnode)]
      rfl
    exact not_exact_of_dev hdev hexact
  · intro hnode
    -- Both builds put the same region on the list.
    obtain ⟨a, ha, -, hst, hend, hhead⟩ := init_sound (p := .dev) hs hn hnode
    refine ⟨a, fun p => ?_⟩
    obtain ⟨a', ha', -, hst', hend', hhead'⟩ := init_sound (p := p) hs hn hnode
    have heq : a' = a := by
      cases a
      cases a'
      simp only at hst hend hhead hst' hend' hhead'
      rw [hst, hend, hhead, hst', hend', hhead']
    exact ha'.trans (congrArg _ heq)

theorem exactRuns {s n : Nat} (hs : 0 < s) (hn : s + n < 2 ^ 64) :
    Api.ExactRuns (fun p => api p s n) s (s + n) (s + nodeAlign < 2 ^ 64) ClearFor where
  init := init_exact_iff hs hn
  alloc hnode _ _ h l _ := ((keeps_okBelow hs hn hnode).reach h).sound.alloc_exact_iff l
  dealloc hnode _ _ h b hb := by
    have hok := (keeps_okBelow hs hn hnode).reach h
    have hperm := hok.sound.perm ((List.perm_cons_erase hb).map Block.span)
    exact ⟨_, fun q => hperm.dealloc_eq⟩
  block hnode _ _ h b hb := by
    have hok := (keeps_okBelow hs hn hnode).reach h
    have hin : (Block.span b).Inside _ _ :=
      (hok.sound.tracked _ (List.mem_append_left _ (List.mem_map_of_mem hb))).inside
    obtain ⟨hlo, hhi⟩ := hin
    have hsize := b.layout.size_le_extent
    have hstop : b.ptr + b.layout.extent ≤ s + n := hok.stop ▸ hhi
    exact ⟨hok.aligned b hb, hok.start ▸ hlo, by omega⟩

end LinkedListAllocator

/-- **No overflow, over whole runs.** For every heap `[s, s + n)` whose end is a word: in every run
of the bump allocator in which the cursor and the alignment fit in a word at each `alloc`, and in
every run of the linked-list allocator in which the address and the alignment fit at each region
that `find_region` looks at, nothing overflows and every block is aligned and in the heap. A call
that does not meet the condition overflows. -/
theorem arithmetic_exact (s n : Nat) (hs : 0 < s) (hn : s + n ≤ 2 ^ 64 - 1) :
    Api.ExactRuns (fun p => BumpAllocator.api p s n) s (s + n) True BumpAllocator.ClearFor ∧
    Api.ExactRuns (fun p => LinkedListAllocator.api p s n) s (s + n) (s + nodeAlign < 2 ^ 64)
      LinkedListAllocator.ClearFor :=
  ⟨BumpAllocator.exactRuns hs (by omega), LinkedListAllocator.exactRuns hs (by omega)⟩

/-- A heap of a megabyte at the end of the address space, with a block on a page of its own. -/
theorem arithmetic_exact_high :
    ∃ st, ((BumpAllocator.api .release 0xfffffffffff00000 0xfffff).clearRuns
        BumpAllocator.ClearFor).Reach st ∧
      st.live = [⟨0xfffffffffff00000, ⟨64, 4096, ⟨12, rfl⟩, by decide⟩⟩] ∧
      ∀ b ∈ st.live, b.layout.align ∣ b.ptr ∧ 0xfffffffffff00000 ≤ b.ptr ∧
        b.ptr + b.layout.size ≤ 0xfffffffffff00000 + 0xfffff := by
  have h0 : ((BumpAllocator.api .release 0xfffffffffff00000 0xfffff).clearRuns
      BumpAllocator.ClearFor).Reach ⟨.init 0xfffffffffff00000 0xfffff, []⟩ := .init ⟨rfl, rfl⟩
  have h1 : ((BumpAllocator.api .release 0xfffffffffff00000 0xfffff).clearRuns
      BumpAllocator.ClearFor).Reach
        ⟨⟨0xfffffffffff00000, 0xffffffffffffffff, 0xfffffffffff00040⟩,
          [⟨0xfffffffffff00000, ⟨64, 4096, ⟨12, rfl⟩, by decide⟩⟩]⟩ :=
    h0.step_restrict (.alloc (by decide) (by decide +kernel) (by decide))
      (by show _ + _ < _; decide)
  exact ⟨_, h1, rfl, (arithmetic_exact _ _ (by decide) (by decide)).1.block trivial _ _ h1⟩

/-- A heap of 31 bytes at the end of the address space. A `dev` build panics on a request aligned to
64. A `release` build answers null and moves the cursor to 8, and the next request gets the block
at 8, far below the heap. -/
theorem wrapped_bump :
    (BumpAllocator.init (2 ^ 64 - 32) 31).alloc .dev ⟨8, 64, ⟨6, rfl⟩, by decide⟩ =
      .error "attempt to add with overflow" ∧
    ∃ st, (BumpAllocator.api .release (2 ^ 64 - 32) 31).system.Reach st ∧
      st.live = [⟨8, ⟨8, 8, ⟨3, rfl⟩, by decide⟩⟩] ∧ ¬ 2 ^ 64 - 32 ≤ 8 := by
  have h0 : (BumpAllocator.api .release (2 ^ 64 - 32) 31).system.Reach
      ⟨.init (2 ^ 64 - 32) 31, []⟩ := .init ⟨rfl, rfl⟩
  have h1 := h0.step (@Api.Step.allocNull _ _ _ ⟨8, 64, ⟨6, rfl⟩, by decide⟩ _ (by decide) rfl)
  have h2 := h1.step (@Api.Step.alloc _ _ _ ⟨8, 8, ⟨3, rfl⟩, by decide⟩ _ _ (by decide) rfl
    (by decide))
  exact ⟨rfl, _, h2, rfl, by decide⟩

end Apogee
