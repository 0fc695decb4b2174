import Apogee.Lib.Word
import Apogee.User.Paging

/-!
# The frame allocator (`memory.rs`)

`MonotonicFrameAllocator` hands out the usable frames of the bootloader's memory map. Its cursor
has the ordinal of a usable region and an offset into it, and `nextFrame` counts through the map to
find the region again on each turn of its loop.

The ordinals and the offset are naturals: they stay below the length of the map and below the
frames of one region. The arithmetic on addresses is that of `u64`.

* `usableFrames`: the flattened sequence of usable frames.
* `remaining`: what a cursor has ahead of it. `allocateFrame_refines`: a call takes the first of it,
  as the allocator over a list of frames does.
* `allocateFrame_flattened`: the calls answer with the flattened sequence, in order.
-/

namespace Apogee

open Verif

/-- `MemoryRegionType` of the bootloader. -/
inductive MemoryRegionType where
  | usable
  | inUse
  | reserved
  | acpiReclaimable
  | acpiNvs
  | badMemory
  | kernel
  | kernelStack
  | pageTable
  | bootloader
  | frameZero
  | empty
  | bootInfo
  | package
  | nonExhaustive
  deriving DecidableEq

/-- `FrameRange` of the bootloader, by its addresses. It counts in frames, so both are multiples of
the frame size. -/
structure FrameRange where
  startAddr : Nat
  endAddr : Nat
  start_le_end : startAddr ≤ endAddr
  start_dvd : 4096 ∣ startAddr
  end_dvd : 4096 ∣ endAddr
  end_lt : endAddr < 2 ^ 52

/-- `MemoryRegion` of the bootloader. -/
structure MemoryRegion where
  range : FrameRange
  regionType : MemoryRegionType

/-- `PhysAddr::new`. -/
def PhysAddr.new (addr : Nat) : Panics UInt64 :=
  if addr < 2 ^ 52 then
    pure (UInt64.ofNat addr)
  else
    throw "physical addresses must not have any bits in the range 52 to 64 set"

/-- `PhysFrame::containing_address`. -/
def PhysFrame.containingAddress (addr : UInt64) : PhysFrame := ⟨addr / 4096 * 4096⟩

/-- `FrameCursor`. -/
structure FrameCursor where
  region : Nat
  offset : Nat
  deriving DecidableEq

/-- `FrameCursor::new`. -/
def FrameCursor.new : FrameCursor := ⟨0, 0⟩

/-- `MonotonicFrameAllocator`. -/
structure MonotonicFrameAllocator where
  memoryMap : List MemoryRegion
  cursor : FrameCursor

/-! ## The counting scan -/

/-- The regions of a map that the allocator uses. -/
def usable (regions : List MemoryRegion) : List MemoryRegion :=
  regions.filter fun r => r.regionType = .usable

/-- The inner loop of `next_frame`: the usable region with the ordinal `region`. -/
def selected (region : Nat) : List MemoryRegion → Nat → Option MemoryRegion
  | [], _ => none
  | candidate :: rest, usableOrdinal =>
    if candidate.regionType ≠ .usable then
      selected region rest usableOrdinal
    else if usableOrdinal = region then
      some candidate
    else
      selected region rest (usableOrdinal + 1)

theorem selected_eq {region usableOrdinal : Nat} (regions : List MemoryRegion)
    (h : usableOrdinal ≤ region) :
    selected region regions usableOrdinal = (usable regions)[region - usableOrdinal]? := by
  induction regions generalizing usableOrdinal with
  | nil => rfl
  | cons candidate rest ih =>
    unfold selected
    by_cases hu : candidate.regionType = .usable
    · rw [if_neg (not_not.mpr hu), usable, List.filter_cons_of_pos (by simpa using hu)]
      by_cases ho : usableOrdinal = region
      · rw [if_pos ho, ho, Nat.sub_self]
        rfl
      · obtain ⟨d, rfl⟩ : ∃ d, region = usableOrdinal + 1 + d :=
          ⟨region - usableOrdinal - 1, by omega⟩
        rw [if_neg ho, ih (by omega), Nat.add_sub_cancel_left, Nat.add_assoc,
          Nat.add_sub_cancel_left, Nat.add_comm 1 d, List.getElem?_cons_succ]
        rfl
    · rw [if_pos hu, usable, List.filter_cons_of_neg (by simpa using hu)]
      exact ih h

theorem selected_zero (region : Nat) (regions : List MemoryRegion) :
    selected region regions 0 = (usable regions)[region]? :=
  selected_eq regions (Nat.zero_le _)

theorem lt_of_selected {region : Nat} {regions : List MemoryRegion} {current : MemoryRegion}
    (h : selected region regions 0 = some current) : region < regions.length := by
  rw [selected_zero] at h
  obtain ⟨hlt, -⟩ := List.getElem?_eq_some_iff.mp h
  exact hlt.trans_le (List.length_filter_le _ _)

/-! ## Handing out a frame -/

/-- The frame at `offset` frames from `start`. -/
def frameAt (p : Profile) (start offset : Nat) : Panics PhysFrame := do
  let bytes ← Word.mul p offset 4096
  let addr ← PhysAddr.new (← Word.add p start bytes)
  pure (.containingAddress addr)

/-- The loop of `next_frame`, from a region and an offset: the frame and the cursor to write
back. -/
def nextFrameLoop (p : Profile) (regions : List MemoryRegion) (region offset : Nat) :
    Panics (Option (PhysFrame × FrameCursor)) :=
  match _h : selected region regions 0 with
  | none => pure none
  | some current => do
    let bytes ← Word.sub p current.range.endAddr current.range.startAddr
    let frameCount := bytes / 4096
    if offset < frameCount then
      let phys ← frameAt p current.range.startAddr offset
      pure (some (phys, ⟨region, offset + 1⟩))
    else
      -- The region is exhausted: on to the next usable one.
      nextFrameLoop p regions (region + 1) 0
  termination_by regions.length - region
  decreasing_by
    have := lt_of_selected _h
    omega

namespace MonotonicFrameAllocator

/-- `MonotonicFrameAllocator::init`. -/
def init (memoryMap : List MemoryRegion) : MonotonicFrameAllocator := ⟨memoryMap, .new⟩

/-- `MonotonicFrameAllocator::next_frame`. The cursor is written only with a frame. -/
def nextFrame (p : Profile) (a : MonotonicFrameAllocator) :
    Panics (Option PhysFrame × MonotonicFrameAllocator) := do
  match ← nextFrameLoop p a.memoryMap a.cursor.region a.cursor.offset with
  | none => pure (none, a)
  | some (phys, cursor) => pure (some phys, { a with cursor := cursor })

/-- `MonotonicFrameAllocator::allocate_frame`. -/
def allocateFrame (p : Profile) (a : MonotonicFrameAllocator) :
    Panics (Option PhysFrame × MonotonicFrameAllocator) :=
  a.nextFrame p

/-- `n` calls in a row, with their answers. -/
def allocateFrames (p : Profile) :
    Nat → MonotonicFrameAllocator → Panics (List (Option PhysFrame) × MonotonicFrameAllocator)
  | 0, a => pure ([], a)
  | n + 1, a => do
    let (frame, a) ← a.allocateFrame p
    let (frames, a) ← allocateFrames p n a
    pure (frame :: frames, a)

end MonotonicFrameAllocator

/-! ## The flattened sequence -/

/-- The frames of a range: `start`, `start + 4096`, … below `end`. -/
def FrameRange.frames (r : FrameRange) : List PhysFrame :=
  (List.range' r.startAddr ((r.endAddr - r.startAddr) / 4096) 4096).map fun a => ⟨UInt64.ofNat a⟩

/-- The usable frames in the order of the map. -/
def usableFrames (regions : List MemoryRegion) : List PhysFrame :=
  (usable regions).flatMap fun r => r.range.frames

namespace FrameRange

variable (r : FrameRange)

theorem length_frames : r.frames.length = (r.endAddr - r.startAddr) / 4096 := by
  simp [frames]

theorem getElem?_frames {offset : Nat} (h : offset < (r.endAddr - r.startAddr) / 4096) :
    r.frames[offset]? = some ⟨UInt64.ofNat (r.startAddr + 4096 * offset)⟩ := by
  rw [frames, List.getElem?_map, List.getElem?_range' h]
  rfl

/-- No step of the address computation overflows. -/
theorem frameAt_ok (p : Profile) {offset : Nat} (h : offset < (r.endAddr - r.startAddr) / 4096) :
    frameAt p r.startAddr offset = .ok ⟨UInt64.ofNat (r.startAddr + 4096 * offset)⟩ := by
  have hend := r.end_lt
  have hlt : r.startAddr + 4096 * offset < 2 ^ 52 := by omega
  obtain ⟨q, hq⟩ := r.start_dvd
  unfold frameAt PhysAddr.new
  rw [Word.mul_of_lt (by omega), Panics.bind_ok, Word.add_of_lt (by omega), Panics.bind_ok,
    Nat.mul_comm offset, if_pos hlt]
  -- The address is a multiple of the frame size, so rounding down keeps it.
  show Except.ok (PhysFrame.mk (UInt64.ofNat _ / 4096 * 4096)) = _
  congr 2
  rw [← UInt64.toNat_inj, UInt64.toNat_mul, UInt64.toNat_div, Word.toNat_ofNat (by omega)]
  show (r.startAddr + 4096 * offset) / 4096 * 4096 % 2 ^ 64 = _
  omega

theorem mem_frames {f : PhysFrame} : f ∈ r.frames ↔
    r.startAddr ≤ f.startAddress.toNat ∧ f.startAddress.toNat < r.endAddr ∧
      4096 ∣ f.startAddress.toNat := by
  have hend := r.end_lt
  have hsd := r.start_dvd
  have hed := r.end_dvd
  rw [frames, List.mem_map]
  constructor
  · rintro ⟨a, ha, rfl⟩
    obtain ⟨i, hi, rfl⟩ := List.mem_range'.mp ha
    rw [Word.toNat_ofNat (by omega)]
    omega
  · rintro ⟨hs, he, hd⟩
    refine ⟨f.startAddress.toNat, ?_, ?_⟩
    · refine List.mem_range'.mpr ⟨(f.startAddress.toNat - r.startAddr) / 4096, ?_, ?_⟩
      all_goals omega
    · rw [UInt64.ofNat_toNat]

theorem frames_pairwise :
    r.frames.Pairwise fun f g => f.startAddress.toNat < g.startAddress.toNat := by
  have hend := r.end_lt
  rw [frames, List.pairwise_map]
  have hp : (List.range' r.startAddr ((r.endAddr - r.startAddr) / 4096) 4096).Pairwise (· < ·) :=
    List.pairwise_lt_range' _ (by decide)
  apply hp.imp_of_mem
  intro a b ha hb hlt
  obtain ⟨i, hi, rfl⟩ := List.mem_range'.mp ha
  obtain ⟨j, hj, rfl⟩ := List.mem_range'.mp hb
  rw [Word.toNat_ofNat (by omega), Word.toNat_ofNat (by omega)]
  exact hlt

end FrameRange

theorem mem_usableFrames {regions : List MemoryRegion} {f : PhysFrame} :
    f ∈ usableFrames regions ↔ ∃ r ∈ regions, r.regionType = .usable ∧
      r.range.startAddr ≤ f.startAddress.toNat ∧ f.startAddress.toNat < r.range.endAddr ∧
      4096 ∣ f.startAddress.toNat := by
  simp only [usableFrames, usable, List.mem_flatMap, List.mem_filter, decide_eq_true_eq,
    FrameRange.mem_frames, and_assoc]

/-- The usable regions are in the order of their addresses and do not overlap. -/
def Sorted (regions : List MemoryRegion) : Prop :=
  (usable regions).Pairwise fun r s => r.range.endAddr ≤ s.range.startAddr

theorem usableFrames_pairwise {regions : List MemoryRegion} (h : Sorted regions) :
    (usableFrames regions).Pairwise fun f g => f.startAddress < g.startAddress := by
  rw [usableFrames, List.pairwise_flatMap]
  refine ⟨fun r _ => r.range.frames_pairwise, h.imp ?_⟩
  intro r s hrs f hf g hg
  have hf' := (r.range.mem_frames.mp hf).2.1
  have hg' := (s.range.mem_frames.mp hg).1
  rw [UInt64.lt_iff_toNat_lt]
  omega

/-! ## The allocator against the list -/

namespace MonotonicFrameAllocator

variable {p : Profile}

/-- The frames that a cursor has ahead of it: the rest of its region, then the regions after. -/
def ahead (regions : List MemoryRegion) (c : FrameCursor) : List PhysFrame :=
  match (usable regions).drop c.region with
  | [] => []
  | r :: rest => r.range.frames.drop c.offset ++ rest.flatMap fun r => r.range.frames

/-- The frames that the allocator will hand out. -/
def remaining (a : MonotonicFrameAllocator) : List PhysFrame := ahead a.memoryMap a.cursor

theorem ahead_none {regions : List MemoryRegion} {region : Nat} (offset : Nat)
    (h : selected region regions 0 = none) : ahead regions ⟨region, offset⟩ = [] := by
  rw [selected_zero, List.getElem?_eq_none_iff] at h
  rw [ahead, List.drop_eq_nil_of_le h]

theorem ahead_some {regions : List MemoryRegion} {region : Nat} {current : MemoryRegion}
    (offset : Nat) (h : selected region regions 0 = some current) :
    ahead regions ⟨region, offset⟩ =
      current.range.frames.drop offset ++ ahead regions ⟨region + 1, 0⟩ := by
  rw [selected_zero] at h
  obtain ⟨hlt, rfl⟩ := List.getElem?_eq_some_iff.mp h
  simp only [ahead, List.drop_eq_getElem_cons hlt]
  congr 1
  cases (usable regions).drop (region + 1) with
  | nil => rfl
  | cons r rest => rfl

/-- The loop finds the first frame ahead, past any regions with none left. -/
theorem nextFrameLoop_spec (regions : List MemoryRegion) (region offset : Nat) :
    ∃ found, nextFrameLoop p regions region offset = .ok found ∧
      match found with
      | none => ahead regions ⟨region, offset⟩ = []
      | some (phys, cursor) => ahead regions ⟨region, offset⟩ = phys :: ahead regions cursor := by
  fun_induction nextFrameLoop p regions region offset with
  | case1 region offset h => exact ⟨none, rfl, ahead_none offset h⟩
  | case2 region offset current h ih =>
    rw [Word.sub_of_le current.range.start_le_end, Panics.bind_ok, ahead_some offset h]
    by_cases hlt : offset < (current.range.endAddr - current.range.startAddr) / 4096
    · refine ⟨some (⟨UInt64.ofNat (current.range.startAddr + 4096 * offset)⟩,
        ⟨region, offset + 1⟩), ?_, ?_⟩
      · rw [if_pos hlt, current.range.frameAt_ok p hlt]
        rfl
      · obtain ⟨hl, hget⟩ := List.getElem?_eq_some_iff.mp (current.range.getElem?_frames hlt)
        show _ = _ :: ahead regions _
        rw [ahead_some (offset + 1) h, List.drop_eq_getElem_cons hl, hget, List.cons_append]
    · rw [if_neg hlt, List.drop_eq_nil_of_le (by rw [FrameRange.length_frames]; omega),
        List.nil_append]
      exact ih 0

/-- A call is a call of the allocator over the list of the frames ahead. -/
theorem allocateFrame_refines (a : MonotonicFrameAllocator) :
    ∃ a', a.allocateFrame p = .ok ((FrameAllocator.allocateFrame a.remaining).1, a') ∧
      a'.remaining = (FrameAllocator.allocateFrame a.remaining).2 := by
  obtain ⟨found, e, hf⟩ :=
    nextFrameLoop_spec (p := p) a.memoryMap a.cursor.region a.cursor.offset
  unfold allocateFrame nextFrame
  rw [e, Panics.bind_ok]
  cases found with
  | none =>
    have hr : a.remaining = [] := hf
    exact ⟨a, by rw [hr]; rfl, by rw [hr]; rfl⟩
  | some found =>
    have hr : a.remaining = found.1 :: ahead a.memoryMap found.2 := hf
    exact ⟨{ a with cursor := found.2 }, by rw [hr]; rfl, by rw [hr]; rfl⟩

/-- A run of calls answers with the frames ahead, and then with `None`. -/
theorem allocateFrames_eq (n : Nat) (a : MonotonicFrameAllocator) :
    ∃ a', allocateFrames p n a = .ok ((List.range n).map fun k => a.remaining[k]?, a') := by
  induction n generalizing a with
  | zero => exact ⟨a, rfl⟩
  | succ n ih =>
    obtain ⟨a1, e1, hr⟩ := a.allocateFrame_refines (p := p)
    obtain ⟨a2, e2⟩ := ih a1
    refine ⟨a2, ?_⟩
    simp only [allocateFrames, e1, e2, Panics.bind_ok, List.range_succ_eq_map, List.map_cons,
      List.map_map, hr]
    cases a.remaining with
    | nil => rfl
    | cons f fs => rfl

theorem remaining_init (regions : List MemoryRegion) :
    (init regions).remaining = usableFrames regions := by
  unfold remaining ahead init usableFrames FrameCursor.new
  cases h : usable regions with
  | nil => rfl
  | cons r rest => rfl

/-- The calls hand out the flattened sequence of usable frames and then `None`, for any number of
calls. Over a sorted map the frames ascend, so none comes twice. The sequence has each usable
frame. -/
theorem allocateFrame_flattened (p : Profile) (regions : List MemoryRegion) :
    (∀ n, ∃ a, allocateFrames p n (init regions) =
      .ok ((List.range n).map fun k => (usableFrames regions)[k]?, a)) ∧
    (Sorted regions →
      ((usableFrames regions).Pairwise fun f g => f.startAddress < g.startAddress) ∧
      (usableFrames regions).Nodup) ∧
    ∀ f, f ∈ usableFrames regions ↔ ∃ r ∈ regions, r.regionType = .usable ∧
      r.range.startAddr ≤ f.startAddress.toNat ∧ f.startAddress.toNat < r.range.endAddr ∧
      4096 ∣ f.startAddress.toNat := by
  refine ⟨fun n => ?_, fun h => ?_, fun f => mem_usableFrames⟩
  · rw [← remaining_init]
    exact allocateFrames_eq n _
  · have hp := usableFrames_pairwise h
    refine ⟨hp, hp.imp ?_⟩
    rintro f g hlt rfl
    exact UInt64.lt_irrefl _ hlt

/-- Two usable regions with an empty one and a reserved one between them. -/
def splitMap : List MemoryRegion :=
  [⟨⟨0, 0x1000, by decide, by decide, by decide, by decide⟩, .frameZero⟩,
    ⟨⟨0x1000, 0x3000, by decide, by decide, by decide, by decide⟩, .usable⟩,
    ⟨⟨0x3000, 0x3000, by decide, by decide, by decide, by decide⟩, .usable⟩,
    ⟨⟨0x3000, 0x8000, by decide, by decide, by decide, by decide⟩, .reserved⟩,
    ⟨⟨0x8000, 0x9000, by decide, by decide, by decide, by decide⟩, .usable⟩]

theorem allocateFrame_flattened_split : Sorted splitMap ∧
    (∃ a, allocateFrames .dev 5 (init splitMap) =
      .ok ([some ⟨0x1000⟩, some ⟨0x2000⟩, some ⟨0x8000⟩, none, none], a)) ∧
    (usableFrames splitMap).Nodup := by
  have hs : Sorted splitMap := by
    unfold Sorted splitMap usable
    decide
  obtain ⟨hn, hsorted, -⟩ := allocateFrame_flattened .dev splitMap
  exact ⟨hs, hn 5, (hsorted hs).2⟩

end MonotonicFrameAllocator

end Apogee
