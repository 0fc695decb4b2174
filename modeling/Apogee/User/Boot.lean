import Apogee.Allocator.BlocksInMemory
import Apogee.User.Frames
import Apogee.User.SetupSpec

/-!
# The kernel's own pages (`memory.rs`, `allocator/mod.rs`)

At boot the kernel maps one page to the text screen (`createExampleMapping`) and the pages of its
heap (`initHeap`). Both use `map_to`, which gives the tables above a page the flags of the page.

* `mapPages_spec`: the loop maps a first part of its pages, all of them if it succeeds. There is no
  way back from a page that was mapped.
* `mapPages_free`: with its pages free and four frames for each, the loop succeeds.
* `initHeap_sound`: after a success every byte of every block that the allocator will ever hand out
  is in a page that is mapped for the kernel only. After a failure the allocator has no heap, and
  the call cannot be repeated unless it failed on the first page.
-/

namespace Apogee

open Verif

/-- `HEAP_START`. -/
def heapStart : Nat := 0x444444440000

/-- `HEAP_SIZE`. -/
def heapSize : Nat := 100 * 1024

/-- `PRESENT | WRITABLE`. -/
def kernelFlags : PageTableFlags := ⟨true, true, false⟩

/-- `Page::range_inclusive`. -/
def Page.rangeInclusive (first last : Page) : List Page :=
  (List.range (last.number.toNat + 1 - first.number.toNat)).map fun i =>
    ⟨first.number + UInt64.ofNat i⟩

/-- The pages of the heap, as `init_heap` computes them. -/
def heapPages : List Page :=
  let start := UInt64.ofNat heapStart
  let stop := start + UInt64.ofNat heapSize - 1
  Page.rangeInclusive (.containingAddress start) (.containingAddress stop)

/-- `Mapper::map_to`: the tables above the page get its flags. -/
def Mapper.mapTo {M A : Type} [Mapper M A] (m : M) (a : A) (page : Page) (frame : PhysFrame)
    (flags : PageTableFlags) : Except MapToError Unit × M × A :=
  Mapper.mapToWithTableFlags m a page frame flags flags

namespace Setup

variable {M A : Type} [FrameAllocator A] [Mapper M A]

/-- `create_example_mapping`. -/
def createExampleMapping (page : Page) (s : Setup M A) : Panics (Setup M A) :=
  match Mapper.mapTo s.mapper s.frameAllocator page (.containingAddress 0xb8000) kernelFlags with
  | (.error _, _, _) => throw "map_to failed"
  | (.ok (), m, a) => pure { s with mapper := m, frameAllocator := a }

/-- The loop of `init_heap`. -/
def mapPages : List Page → Setup M A → Setup M A × Except MapToError Unit
  | [], s => (s, .ok ())
  | page :: rest, s =>
    match FrameAllocator.allocateFrame s.frameAllocator with
    | (none, a) => ({ s with frameAllocator := a }, .error .frameAllocationFailed)
    | (some frame, a) =>
      match Mapper.mapTo s.mapper a page frame kernelFlags with
      | (.error e, m, a) => ({ s with mapper := m, frameAllocator := a }, .error e)
      | (.ok (), m, a) => mapPages rest { s with mapper := m, frameAllocator := a }

/-- `init_heap`, with `ALLOCATOR` before and after it. -/
def initHeap (p : Profile) (s : Setup M A) (allocator : FixedSizeBlockAllocator) :
    Panics (Setup M A × FixedSizeBlockAllocator × Except MapToError Unit) :=
  match s.mapPages heapPages with
  | (s, .error e) => pure (s, allocator, .error e)
  | (s, .ok ()) => do
    let allocator ← allocator.init p heapStart heapSize
    pure (s, allocator, .ok ())

end Setup

/-! ## The pages of the heap -/

theorem mem_heapPages {page : Page} :
    page ∈ heapPages ↔ 0x444444440 ≤ page.number.toNat ∧ page.number.toNat < 0x444444459 := by
  have hlen : heapPages = (List.range 25).map fun i => ⟨0x444444440 + UInt64.ofNat i⟩ := rfl
  have hnumber : ∀ i < 25, (0x444444440 + UInt64.ofNat i).toNat = 0x444444440 + i := by
    intro i hi
    rw [UInt64.toNat_add, Word.toNat_ofNat (by omega)]
    exact Nat.mod_eq_of_lt (by show 0x444444440 + i < _; omega)
  rw [hlen, List.mem_map]
  constructor
  · rintro ⟨i, hi, rfl⟩
    have hi' := List.mem_range.mp hi
    rw [hnumber i hi']
    omega
  · rintro ⟨hlo, hhi⟩
    obtain ⟨i, hi⟩ := Nat.exists_eq_add_of_le hlo
    have hlt : i < 25 := by omega
    refine ⟨i, List.mem_range.mpr hlt, ?_⟩
    obtain ⟨number⟩ := page
    congr 1
    apply UInt64.toNat.inj
    rw [hnumber i hlt]
    exact hi.symm

theorem heapPages_nodup : heapPages.Nodup := by decide +kernel

/-- The page of an address in the heap. -/
theorem containingAddress_mem_heapPages {x : Nat} (hlo : heapStart ≤ x)
    (hhi : x < heapStart + heapSize) : Page.containingAddress (UInt64.ofNat x) ∈ heapPages := by
  unfold heapStart heapSize at *
  rw [mem_heapPages]
  show _ ≤ (UInt64.ofNat x / 4096).toNat ∧ (UInt64.ofNat x / 4096).toNat < _
  rw [UInt64.toNat_div, Word.toNat_ofNat (by omega)]
  show _ ≤ x / 4096 ∧ x / 4096 < _
  omega

/-- An allocator that has no heap yet. -/
theorem FixedSizeBlockAllocator.alloc_empty (p : Profile) (l : Layout) :
    FixedSizeBlockAllocator.empty.alloc p l = .ok (0, .empty) := by
  have hfallback : ∀ l, FixedSizeBlockAllocator.empty.fallbackAlloc p l = .ok (0, .empty) := by
    intro l
    unfold fallbackAlloc LinkedListAllocator.alloc
    rw [LinkedListAllocator.allocationSize_eq]
    rfl
  unfold alloc
  cases listIndex l with
  | none => exact hfallback l
  | some i =>
    simp only [FixedSizeBlockAllocator.empty, fromSizeAlign_class, expect_some, Panics.bind_ok]
    exact hfallback (classLayout i)

namespace Setup

variable {M A : Type} [FrameAllocator A] [Mapper M A] [PageWalk M] [LawfulMapper M A]
  {p : Profile} {s s' : Setup M A} {pages : List Page} {r : Except MapToError Unit}

/-- The pages `done` were free and are mapped for the kernel, and nothing else has changed. -/
structure MapsKernel (done : List Page) (s s' : Setup M A) : Prop where
  free : ∀ page ∈ done, s.mapping page = none
  mapped : ∀ page ∈ done, ∃ frame, s'.mapping page = some (frame, kernelFlags)
  others : ∀ page, page ∉ done → s'.mapping page = s.mapping page
  kernel : s'.kernel = s.kernel
  memory : s'.memory = s.memory

omit [FrameAllocator A] [Mapper M A] [LawfulMapper M A] in
theorem MapsKernel.nil {m : M} {a : A} (hm : PageWalk.mapping m = s.mapping) :
    MapsKernel [] s { s with mapper := m, frameAllocator := a } :=
  ⟨by simp, by simp, fun page _ => congrFun hm page, rfl, rfl⟩

/-- The loop maps a first part of its pages. -/
theorem mapPages_spec (hnodup : pages.Nodup) (h : s.mapPages pages = (s', r)) :
    ∃ done rest, pages = done ++ rest ∧ MapsKernel done s s' ∧ (r = .ok () ↔ rest = []) := by
  induction pages generalizing s with
  | nil =>
    obtain ⟨rfl, rfl⟩ := Prod.mk.inj h
    exact ⟨[], [], rfl, MapsKernel.nil rfl, by simp⟩
  | cons page pages ih =>
    obtain ⟨hpage, hnodup⟩ := List.nodup_cons.mp hnodup
    unfold mapPages at h
    split at h
    · obtain ⟨rfl, rfl⟩ := Prod.mk.inj h
      exact ⟨[], page :: pages, rfl, MapsKernel.nil rfl, by simp⟩
    · next frame a _ =>
      split at h
      · next hm =>
        obtain ⟨rfl, rfl⟩ := Prod.mk.inj h
        exact ⟨[], page :: pages, rfl, MapsKernel.nil (LawfulMapper.map_error hm), by simp⟩
      · next m a' hm =>
        obtain ⟨hfree, hm⟩ := LawfulMapper.map_ok hm
        obtain ⟨done, rest, rfl, hdone, hr⟩ := ih hnodup h
        have hsplit : page ∉ done := fun hmem => hpage (List.mem_append_left _ hmem)
        refine ⟨page :: done, rest, rfl, ⟨fun q hq => ?_, fun q hq => ?_, fun q hq => ?_,
          hdone.kernel, hdone.memory⟩, hr⟩
        · obtain rfl | hq' := List.mem_cons.mp hq
          · exact hfree
          · have hne : q ≠ page := fun heq => hsplit (heq ▸ hq')
            have hq0 : PageWalk.mapping m q = none := hdone.free q hq'
            rwa [hm, Function.update_of_ne hne] at hq0
        · obtain rfl | hq' := List.mem_cons.mp hq
          · refine ⟨frame, (hdone.others q hsplit).trans ?_⟩
            show PageWalk.mapping m q = _
            rw [hm, Function.update_self]
          · exact hdone.mapped q hq'
        · obtain ⟨hne, hq'⟩ := not_or.mp (mt List.mem_cons.mpr hq)
          refine (hdone.others q hq').trans ?_
          show PageWalk.mapping m q = _
          rw [hm, Function.update_of_ne hne]

/-- With its pages free and four frames for each, the loop succeeds. -/
theorem mapPages_free (hnodup : pages.Nodup) (hfree : ∀ page ∈ pages, s.mapping page = none)
    (ha : 4 * pages.length ≤ LawfulMapper.available M s.frameAllocator) :
    ∃ s', s.mapPages pages = (s', .ok ()) := by
  induction pages generalizing s with
  | nil => exact ⟨s, rfl⟩
  | cons page pages ih =>
    obtain ⟨hpage, hnodup⟩ := List.nodup_cons.mp hnodup
    rw [List.length_cons] at ha
    obtain ⟨f, a, hf, hle⟩ := LawfulMapper.allocateFrame_some (M := M) s.frameAllocator (by omega)
    obtain ⟨m, a', hm, hle'⟩ := LawfulMapper.map_free s.mapper a page f kernelFlags kernelFlags
      (hfree page (.head _)) (by omega)
    have hrest : ∀ q ∈ pages, PageWalk.mapping m q = none := by
      intro q hq
      have hne : q ≠ page := fun heq => hpage (heq ▸ hq)
      rw [(LawfulMapper.map_ok hm).2, Function.update_of_ne hne]
      exact hfree q (.tail _ hq)
    obtain ⟨s', hs'⟩ := @ih { s with mapper := m, frameAllocator := a' } hnodup hrest
      (by show _ ≤ LawfulMapper.available M a'; omega)
    refine ⟨s', ?_⟩
    simp only [mapPages, hf, Mapper.mapTo, hm]
    exact hs'

omit [FrameAllocator A] [Mapper M A] [LawfulMapper M A] in
/-- If any page was mapped, the first one was. -/
theorem MapsKernel.exists_mapped {done rest : List Page} (h : MapsKernel done s s')
    (hpages : pages = done ++ rest) (hdone : done ≠ []) :
    ∃ page ∈ pages, s'.mapping page ≠ none := by
  obtain ⟨page, hpage⟩ := List.exists_mem_of_ne_nil done hdone
  obtain ⟨frame, hm⟩ := h.mapped page hpage
  exact ⟨page, hpages ▸ List.mem_append_left _ hpage, by rw [hm]; exact Option.some_ne_none _⟩

/-- A call with a page of the heap mapped fails, whatever frames there are. -/
theorem initHeap_mapped {a : A} {allocator : FixedSizeBlockAllocator}
    (h : ∃ page ∈ heapPages, s.mapping page ≠ none) (s' : Setup M A)
    (allocator' : FixedSizeBlockAllocator) :
    { s with frameAllocator := a }.initHeap p allocator ≠ .ok (s', allocator', .ok ()) := by
  obtain ⟨page, hpage, hmapped⟩ := h
  intro hinit
  unfold initHeap at hinit
  split at hinit
  · cases (Prod.mk.inj (Prod.mk.inj (Except.ok.inj hinit)).2).2
  · next hmap =>
    obtain ⟨done, rest, hpages, hmaps, hr⟩ := mapPages_spec heapPages_nodup hmap
    rw [hr.mp rfl, List.append_nil] at hpages
    exact hmapped (hmaps.free page (hpages ▸ hpage))

/-- What `init_heap` has done when it returns. -/
structure HeapInit (p : Profile) (s s' : Setup M A) (allocator : FixedSizeBlockAllocator)
    (done rest : List Page) (r : Except MapToError Unit) : Prop where
  /-- It has mapped the pages in order, for the kernel only, as far as it got. -/
  pages : heapPages = done ++ rest
  maps : MapsKernel done s s'
  success : r = .ok () ↔ rest = []
  /-- After a success, whatever the clients of the allocator do, their blocks are mapped. -/
  backed : r = .ok () → FixedSizeBlockAllocator.init p .empty heapStart heapSize = .ok allocator ∧
    ∀ st, (FixedSizeBlockAllocator.api p heapStart heapSize).system.Reach st →
      ∀ b ∈ st.live, ∀ x ∈ b.reserved.bytes, ∃ frame,
        s'.mapping (.containingAddress (UInt64.ofNat x)) = some (frame, kernelFlags)
  /-- After a failure every allocation fails, and the call only works again if no page was mapped.
  -/
  failed : r ≠ .ok () → (∀ l, allocator.alloc p l = .ok (0, allocator)) ∧
    (done ≠ [] → ∀ (a : A) q s'' allocator',
      { s' with frameAllocator := a }.initHeap q allocator ≠ .ok (s'', allocator', .ok ()))

/-- `init_heap` does not panic. It maps a first part of the heap's pages and has the allocator use
the heap if and only if all of them are mapped. With the pages free and a hundred frames left it
succeeds. -/
theorem initHeap_sound (p : Profile) (s : Setup M A) :
    (∃ s' allocator r done rest, s.initHeap p .empty = .ok (s', allocator, r) ∧
      HeapInit p s s' allocator done rest r) ∧
    ((∀ page ∈ heapPages, s.mapping page = none) →
      100 ≤ LawfulMapper.available M s.frameAllocator →
      ∃ s' allocator, s.initHeap p .empty = .ok (s', allocator, .ok ())) := by
  obtain ⟨heap, hinit, -⟩ := FixedSizeBlockAllocator.init_spec (p := p) (s := heapStart)
    (n := heapSize) (by decide) (by decide)
  refine ⟨?_, fun hfree ha => ?_⟩
  · obtain ⟨⟨s', r⟩, hmap⟩ : ∃ out, s.mapPages heapPages = out := ⟨_, rfl⟩
    obtain ⟨done, rest, hpages, hmaps, hr⟩ := mapPages_spec heapPages_nodup hmap
    cases r with
    | ok u =>
      refine ⟨s', heap, .ok (), done, rest, ?_, hpages, hmaps, hr, fun _ => ⟨hinit, ?_⟩, nofun⟩
      · simp only [initHeap, hmap, hinit]
        rfl
      · intro st hst b hb x hx
        have hin := ((FixedSizeBlockAllocator.keeps_ok (by decide) (by decide)).reach hst).inside hb
        have hmem := containingAddress_mem_heapPages (hin.1.trans hx.1) (hx.2.trans_le hin.2)
        rw [hpages, hr.mp rfl, List.append_nil] at hmem
        exact hmaps.mapped _ hmem
    | error e =>
      refine ⟨s', .empty, .error e, done, rest, ?_, hpages, hmaps, hr, nofun,
        fun _ => ⟨FixedSizeBlockAllocator.alloc_empty p, fun hdone a q s'' allocator' => ?_⟩⟩
      · simp only [initHeap, hmap]
        rfl
      · exact initHeap_mapped (hmaps.exists_mapped hpages hdone) s'' allocator'
  · obtain ⟨s', hs'⟩ := mapPages_free heapPages_nodup hfree (by
      rw [show heapPages.length = 25 from rfl]; exact ha)
    refine ⟨s', heap, ?_⟩
    simp only [initHeap, hs', hinit]
    rfl

end Setup

/-- Empty page tables, a hundred and twenty frames and a kernel before boot. -/
def bootSetup : Setup PageTables (List PhysFrame) :=
  { freshSetup with frameAllocator := (List.range 120).map fun i => ⟨UInt64.ofNat (4096 * i)⟩ }

theorem initHeap_sound_boot : ∃ s' allocator done rest,
    bootSetup.initHeap .dev .empty = .ok (s', allocator, .ok ()) ∧
    Setup.HeapInit .dev bootSetup s' allocator done rest (.ok ()) := by
  obtain ⟨⟨s', allocator, r, done, rest, h, hinit⟩, hfree⟩ := Setup.initHeap_sound .dev bootSetup
  obtain ⟨s'', allocator', h'⟩ := hfree (fun _ _ => rfl) (by
    show 100 ≤ bootSetup.frameAllocator.length
    decide)
  obtain ⟨rfl, hrest⟩ := Prod.mk.inj (Except.ok.inj (h.symm.trans h'))
  obtain ⟨rfl, rfl⟩ := Prod.mk.inj hrest
  exact ⟨s', allocator, done, rest, h, hinit⟩

end Apogee
