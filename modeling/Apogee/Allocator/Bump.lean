import Apogee.Lib.Sys
import Apogee.Allocator.Runs

/-!
# The bump allocator (`src/allocator/bump.rs`)

A cursor that only moves up. `take` is what an `alloc` does when `align_up` does not wrap; over a
heap that ends at or below `2 ^ 63` every `alloc` that returns is a `take` (`Inv.alloc_eq_take`).

`BumpRun` is a run with its past: the blocks handed out, and the layouts that got null. A layout
that got null at some cursor has no room at a later one, and neither has a larger one, since
rounding up is monotone in both arguments (`NoRoom.mono`).
-/

namespace Apogee

open Verif

/-- `BumpAllocator`. -/
structure BumpAllocator where
  heapStart : Nat
  heapEnd : Nat
  next : Nat
  deriving DecidableEq, Repr

namespace BumpAllocator

/-- `empty`. -/
def empty : BumpAllocator := { heapStart := 0, heapEnd := 0, next := 0 }

/-- `init`. -/
def init (heapStart heapSize : Nat) : BumpAllocator where
  heapStart := heapStart
  heapEnd := Word.satAdd heapStart heapSize
  next := heapStart

def cursor (self : BumpAllocator) : Nat := self.next

def remaining (self : BumpAllocator) : Nat := self.heapEnd - self.next

def heapSize (self : BumpAllocator) : Nat := self.heapEnd - self.heapStart

/-- `alloc`. The null pointer is address `0`. -/
def alloc (p : Profile) (self : BumpAllocator) (layout : Layout) :
    Panics (Nat × BumpAllocator) := do
  let allocStart ← alignUp p self.next layout.align
  match Word.checkedAdd allocStart layout.size with
  | none => pure (0, self)
  | some allocEnd =>
    if self.heapEnd < allocEnd then
      pure (0, self)
    else
      pure (allocStart, { self with next := allocEnd })

/-- `dealloc` of the global allocator: nothing. -/
def dealloc (self : BumpAllocator) (_ptr : Nat) (_layout : Layout) : BumpAllocator := self

variable {p : Profile} {b : BumpAllocator} {l : Layout}

/-! ## One call -/

/-- Where the next block of the layout would start. -/
def start (b : BumpAllocator) (l : Layout) : Nat := roundUp b.next l.align

/-- The block would end past the heap. -/
def NoRoom (b : BumpAllocator) (l : Layout) : Prop := b.heapEnd < b.start l + l.size

instance (b : BumpAllocator) (l : Layout) : Decidable (b.NoRoom l) :=
  inferInstanceAs (Decidable (_ < _))

/-- The block at the cursor, rounded up, or null. -/
def take (b : BumpAllocator) (l : Layout) : Nat × BumpAllocator :=
  if b.NoRoom l then (0, b) else (b.start l, { b with next := b.start l + l.size })

theorem next_le_start (b : BumpAllocator) (l : Layout) : b.next ≤ b.start l :=
  le_roundUp _ l.align_pos

theorem alloc_eq_take (hend : b.heapEnd < 2 ^ 64)
    (h : alignUp p b.next l.align = .ok (b.start l)) : b.alloc p l = .ok (b.take l) := by
  unfold alloc take Word.checkedAdd
  rw [h, Panics.bind_ok]
  by_cases hno : b.NoRoom l
  · rw [if_pos hno]
    by_cases hlt : b.start l + l.size < 2 ^ 64
    · have hgt : b.heapEnd < b.start l + l.size := hno
      simp only [if_pos hlt, if_pos hgt]
      rfl
    · simp only [if_neg hlt]
      rfl
  · have hle : ¬ b.heapEnd < b.start l + l.size := hno
    have hlt : b.start l + l.size < 2 ^ 64 := by omega
    simp only [if_neg hno, if_pos hlt, if_neg hle]
    rfl

/-- The cursor is in the heap, which ends below `2 ^ 64`. -/
structure Inv (b : BumpAllocator) : Prop where
  start_pos : 0 < b.heapStart
  end_lt : b.heapEnd < 2 ^ 64
  start_le : b.heapStart ≤ b.next
  le_end : b.next ≤ b.heapEnd

theorem init_inv {s n : Nat} (hs : 0 < s) (hn : s + n < 2 ^ 64) : (init s n).Inv := by
  have hend : (init s n).heapEnd = s + n := Word.satAdd_of_lt hn
  refine ⟨hs, ?_, Nat.le_refl _, ?_⟩
  · omega
  · rw [hend]
    exact Nat.le_add_right s n

theorem Inv.alloc_eq_take (h : b.Inv) (hclear : b.next + l.align < 2 ^ 64) :
    b.alloc p l = .ok (b.take l) := by
  obtain ⟨k, hk⟩ := l.align_pow
  exact BumpAllocator.alloc_eq_take h.end_lt (alignUp_eq hk hclear)

/-- What a `take` does: it has no room and changes nothing, or the block is the span between the
rounded cursor and the new one. -/
theorem Inv.take_cases (h : b.Inv) (l : Layout) :
    b.NoRoom l ∧ b.take l = (0, b) ∨
    ¬ b.NoRoom l ∧ b.take l = (b.start l, { b with next := b.start l + l.size }) ∧
      b.start l ≠ 0 ∧ Inv { b with next := b.start l + l.size } := by
  have hge := b.next_le_start l
  have hpos := h.start_pos
  have hlo := h.start_le
  unfold take
  by_cases hno : b.NoRoom l
  · rw [if_pos hno]
    exact .inl ⟨hno, rfl⟩
  · rw [if_neg hno]
    refine .inr ⟨hno, rfl, by omega, hpos, h.end_lt, ?_, Nat.le_of_not_lt hno⟩
    show b.heapStart ≤ b.start l + l.size
    omega

/-- What has no room has none later, nor has a larger layout. -/
theorem NoRoom.mono {b' : BumpAllocator} {l' : Layout} (h : b.NoRoom l)
    (hend : b'.heapEnd = b.heapEnd) (hnext : b.next ≤ b'.next) (hsize : l.size ≤ l'.size)
    (halign : l.align ≤ l'.align) : b'.NoRoom l' := by
  have hstart : b.start l ≤ b'.start l' :=
    roundUp_mono hnext l'.align_pos (Layout.align_dvd halign)
  unfold NoRoom at *
  omega

/-! ## A heap that ends at or below `2 ^ 63` -/

/-- The one request whose `align_up` overflows there: an empty layout aligned to `2 ^ 63`, with the
cursor at `2 ^ 63`. -/
theorem Inv.overflow_cases (h : b.Inv) (hend : b.heapEnd ≤ 2 ^ 63) (l : Layout) :
    b.next + l.align < 2 ^ 64 ∨
    b.next + l.align = 2 ^ 64 ∧ b.next = 2 ^ 63 ∧ l.align = 2 ^ 63 ∧ l.size = 0 := by
  have hnext := h.le_end
  have hfits := l.fits
  omega

/-- An `alloc` that returns is a `take`. -/
theorem Inv.alloc_take_of_ok (h : b.Inv) (hend : b.heapEnd ≤ 2 ^ 63) {r : Nat × BumpAllocator}
    (he : b.alloc p l = .ok r) : r = b.take l := by
  obtain hclear | ⟨htop, -, halign, -⟩ := h.overflow_cases hend l
  · rw [h.alloc_eq_take hclear] at he
    exact (Except.ok.inj he).symm
  · cases p with
    | dev =>
      unfold BumpAllocator.alloc at he
      rw [alignUp_overflow htop.ge] at he
      cases he
    | release =>
      have hup : alignUp .release b.next l.align = .ok (b.start l) :=
        alignUp_top halign (by omega) htop
      rw [BumpAllocator.alloc_eq_take h.end_lt hup] at he
      exact (Except.ok.inj he).symm

/-- Without room an `alloc` does return. -/
theorem Inv.alloc_noRoom (h : b.Inv) (hend : b.heapEnd ≤ 2 ^ 63) (hno : b.NoRoom l) :
    b.alloc p l = .ok (0, b) := by
  have htake : b.take l = (0, b) := if_pos hno
  obtain hclear | ⟨-, hnext, halign, hsize⟩ := h.overflow_cases hend l
  · rw [h.alloc_eq_take hclear, htake]
  · -- The empty block at `2 ^ 63` has room.
    have hstart : b.start l = b.next := by
      unfold start
      exact roundUp_of_dvd l.align_pos (by rw [hnext, halign])
    have hle := h.le_end
    unfold NoRoom at hno
    omega

end BumpAllocator

/-! ## Whole runs -/

/-- A run with its past. -/
structure BumpRun where
  heap : BumpAllocator
  /-- The blocks handed out, last one first. -/
  blocks : List Block
  /-- The layouts that got null. -/
  failed : List Layout

inductive BumpOp where
  | alloc (layout : Layout)
  | dealloc (ptr : Nat) (layout : Layout)

namespace BumpRun

/-- One call that returns. Any layout may be asked for and anything deallocated. -/
inductive Step (p : Profile) : BumpRun → BumpOp → BumpRun → Prop
  | alloc {st : BumpRun} {l : Layout} {ptr : Nat} {heap : BumpAllocator} :
      st.heap.alloc p l = .ok (ptr, heap) → ptr ≠ 0 →
      Step p st (.alloc l) { st with heap := heap, blocks := ⟨ptr, l⟩ :: st.blocks }
  | allocNull {st : BumpRun} {l : Layout} {heap : BumpAllocator} :
      st.heap.alloc p l = .ok (0, heap) →
      Step p st (.alloc l) { st with heap := heap, failed := l :: st.failed }
  | dealloc {st : BumpRun} {ptr : Nat} {l : Layout} :
      Step p st (.dealloc ptr l) { st with heap := st.heap.dealloc ptr l }

/-- The runs from `init` over the heap `[s, s + n)`. -/
def system (p : Profile) (s n : Nat) : Sys BumpRun BumpOp where
  init st := st = ⟨.init s n, [], []⟩
  step := Step p

/-- The blocks lie in order below the cursor, and what failed has no room. -/
structure Inv (s n : Nat) (st : BumpRun) : Prop where
  heap : st.heap.Inv
  start : st.heap.heapStart = s
  stop : st.heap.heapEnd = s + n
  block : ∀ b ∈ st.blocks, b.layout.align ∣ b.ptr ∧ s ≤ b.ptr ∧
    b.ptr + b.layout.size ≤ st.heap.next
  ascending : st.blocks.Pairwise fun b a => a.ptr + a.layout.size ≤ b.ptr
  failed : ∀ l ∈ st.failed, st.heap.NoRoom l

variable {p : Profile} {s n : Nat} {st st' : BumpRun} {op : BumpOp}

theorem Inv.init (hs : 0 < s) (hn : s + n ≤ 2 ^ 63) : Inv s n ⟨.init s n, [], []⟩ := by
  have hlt : s + n < 2 ^ 64 := by omega
  exact ⟨BumpAllocator.init_inv hs hlt, rfl, Word.satAdd_of_lt hlt, by simp, .nil, by simp⟩

theorem Inv.step (h : Inv s n st) (hn : s + n ≤ 2 ^ 63) (hst : Step p st op st') :
    Inv s n st' ∧ st.heap.next ≤ st'.heap.next := by
  have hend : st.heap.heapEnd ≤ 2 ^ 63 := h.stop.trans_le hn
  cases hst with
  | @alloc l ptr heap he hne =>
    have htake := h.heap.alloc_take_of_ok hend he
    obtain ⟨-, hnull⟩ | ⟨-, hsome, -, hinv⟩ := h.heap.take_cases l
    · rw [hnull] at htake
      exact absurd (Prod.mk.inj htake).1 hne
    · obtain ⟨rfl, rfl⟩ := Prod.mk.inj (htake.trans hsome)
      have hge := st.heap.next_le_start l
      have hlo := h.heap.start_le
      have hstart := h.start
      have hmove : st.heap.next ≤ st.heap.start l + l.size := by omega
      have hmem : s ≤ st.heap.start l := by omega
      refine ⟨⟨hinv, h.start, h.stop, ?_, ?_, fun l' hl' => ?_⟩, hmove⟩
      · refine List.forall_mem_cons.mpr ⟨⟨dvd_roundUp _ _, hmem, Nat.le_refl _⟩, ?_⟩
        intro b hb
        obtain ⟨hdvd, hmem, hstop⟩ := h.block b hb
        exact ⟨hdvd, hmem, hstop.trans hmove⟩
      · refine List.pairwise_cons.mpr ⟨fun b hb => ?_, h.ascending⟩
        exact (h.block b hb).2.2.trans hge
      · exact (h.failed l' hl').mono rfl hmove (Nat.le_refl _) (Nat.le_refl _)
  | @allocNull l heap he =>
    have htake := h.heap.alloc_take_of_ok hend he
    obtain ⟨hno, hnull⟩ | ⟨-, hsome, hne, -⟩ := h.heap.take_cases l
    · obtain ⟨-, rfl⟩ := Prod.mk.inj (htake.trans hnull)
      exact ⟨⟨h.heap, h.start, h.stop, h.block, h.ascending,
        List.forall_mem_cons.mpr ⟨hno, h.failed⟩⟩, Nat.le_refl _⟩
    · rw [hsome] at htake
      exact absurd (Prod.mk.inj htake).1.symm hne
  | dealloc =>
    exact ⟨⟨h.heap, h.start, h.stop, h.block, h.ascending, h.failed⟩, Nat.le_refl _⟩

theorem inv_reach (hs : 0 < s) (hn : s + n ≤ 2 ^ 63) (h : (system p s n).Reach st) :
    Inv s n st := by
  refine Sys.Preserved.reach (I := Inv s n) ⟨?_, fun _ _ _ _ hi hst => (hi.step hn hst).1⟩ h
  rintro st rfl
  exact Inv.init hs hn

/-- What holds in every state of a run over the heap `[s, s + n)`. -/
structure Sound (p : Profile) (s n : Nat) (st : BumpRun) : Prop where
  /-- Every block is aligned and lies in the heap. -/
  block : ∀ b ∈ st.blocks, b.layout.align ∣ b.ptr ∧ s ≤ b.ptr ∧ b.ptr + b.layout.size ≤ s + n
  /-- A block starts at or after the end of every earlier one. -/
  ascending : st.blocks.Pairwise fun b a => a.ptr + a.layout.size ≤ b.ptr
  cursor_le : s ≤ st.heap.cursor ∧ st.heap.cursor ≤ s + n
  cursor_mono : ∀ op st', Step p st op st' → st.heap.cursor ≤ st'.heap.cursor
  null : ∀ l heap, st.heap.alloc p l = .ok (0, heap) → heap = st.heap
  /-- What got null once gets null again, and so does what is larger. -/
  permanent : ∀ l ∈ st.failed, ∀ l' : Layout, l.size ≤ l'.size → l.align ≤ l'.align →
    st.heap.alloc p l' = .ok (0, st.heap)
  /-- An `alloc` of a nonempty layout does not panic. -/
  returns : ∀ l : Layout, 0 < l.size → ∃ r, st.heap.alloc p l = .ok r

/-- Over every heap that ends at or below `2 ^ 63`, for every sequence of allocations and
deallocations. -/
theorem bump_sound (p : Profile) (s n : Nat) (hs : 0 < s) (hn : s + n ≤ 2 ^ 63) (st : BumpRun)
    (h : (system p s n).Reach st) : Sound p s n st := by
  have hi := inv_reach hs hn h
  have hend : st.heap.heapEnd ≤ 2 ^ 63 := hi.stop.trans_le hn
  have hstop : st.heap.next ≤ s + n := hi.heap.le_end.trans_eq hi.stop
  refine ⟨fun b hb => ?_, hi.ascending, ⟨hi.start ▸ hi.heap.start_le, hstop⟩,
    fun op st' hst => (hi.step hn hst).2, fun l heap he => ?_, fun l hl l' hsize halign => ?_,
    fun l hl => ?_⟩
  · obtain ⟨hdvd, hlo, hhi⟩ := hi.block b hb
    exact ⟨hdvd, hlo, hhi.trans hstop⟩
  · have htake := hi.heap.alloc_take_of_ok hend he
    obtain ⟨-, hnull⟩ | ⟨-, hsome, hne, -⟩ := hi.heap.take_cases l
    · exact (Prod.mk.inj (htake.trans hnull)).2
    · exact absurd (Prod.mk.inj (htake.trans hsome)).1.symm hne
  · exact hi.heap.alloc_noRoom hend ((hi.failed l hl).mono rfl (Nat.le_refl _) hsize halign)
  · obtain hclear | ⟨-, -, -, hzero⟩ := hi.heap.overflow_cases hend l
    · exact ⟨_, hi.heap.alloc_eq_take hclear⟩
    · omega

/-- A heap of 64 bytes that one block fills: eight more bytes get null, then and later. -/
theorem bump_sound_exhausted : ∃ st, (system .dev 0x1000 64).Reach st ∧
    st.blocks = [⟨0x1000, ⟨64, 8, ⟨3, rfl⟩, by decide⟩⟩] ∧
    st.failed = [⟨8, 8, ⟨3, rfl⟩, by decide⟩] ∧ Sound .dev 0x1000 64 st := by
  have h0 : (system .dev 0x1000 64).Reach ⟨.init 0x1000 64, [], []⟩ := .init rfl
  have h1 := h0.step (@Step.alloc _ _ ⟨64, 8, ⟨3, rfl⟩, by decide⟩ _ _ rfl (by decide))
  have h2 := h1.step (@Step.allocNull _ _ ⟨8, 8, ⟨3, rfl⟩, by decide⟩ _ rfl)
  exact ⟨_, h2, rfl, rfl, bump_sound _ _ _ (by decide) (by decide) _ h2⟩

end BumpRun

end Apogee
