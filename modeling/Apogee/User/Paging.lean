import Apogee.Kernel.Abi

/-!
# Page tables and frames, as the kernel uses them

The kernel maps pages through the `Mapper` and `FrameAllocator` traits of the `x86_64` crate and is
generic in both. So is this model: a mapper and an allocator are any types with the two operations.

* `PageWalk.mapping`: the frame and the flags that the CPU finds for a page.
* `LawfulMapper`: what is assumed of the crate. `map_to_with_table_flags` maps exactly its page or
  nothing, fails on a page that is mapped, and otherwise fails only for lack of frames.
* `PageTables` over a list of frames meets these laws.
-/

namespace Apogee

/-- `Page`: a 4 KiB page, by its number. -/
structure Page where
  number : UInt64
  deriving DecidableEq

/-- `Page::containing_address`. -/
def Page.containingAddress (addr : UInt64) : Page := ⟨addr / 4096⟩

/-- `PhysFrame`. -/
structure PhysFrame where
  startAddress : UInt64
  deriving DecidableEq

/-- The `PageTableFlags` that the kernel sets. -/
structure PageTableFlags where
  present : Bool
  writable : Bool
  userAccessible : Bool
  deriving DecidableEq

/-- `MapToError`. -/
inductive MapToError where
  | frameAllocationFailed
  | parentEntryHugePage
  | pageAlreadyMapped (frame : PhysFrame)

/-- `FrameAllocator`. -/
class FrameAllocator (A : Type) where
  allocateFrame : A → Option PhysFrame × A

/-- `Mapper`. -/
class Mapper (M A : Type) where
  mapToWithTableFlags : M → A → Page → PhysFrame → PageTableFlags → PageTableFlags →
    Except MapToError Unit × M × A

/-- What the CPU finds when it walks the tables. -/
class PageWalk (M : Type) where
  mapping : M → Page → Option (PhysFrame × PageTableFlags)

/-- What is assumed of the crate's mapper and of the frame allocator. -/
class LawfulMapper (M A : Type) [FrameAllocator A] [Mapper M A] [PageWalk M] where
  /-- A lower bound on the frames left. -/
  available : A → Nat
  allocateFrame_some : ∀ a, 0 < available a →
    ∃ f a', FrameAllocator.allocateFrame a = (some f, a') ∧ available a ≤ available a' + 1
  /-- Success maps the page, which was not mapped, and no other page. -/
  map_ok : ∀ {m m' : M} {a a' : A} {page frame flags parentFlags},
    Mapper.mapToWithTableFlags m a page frame flags parentFlags = (.ok (), m', a') →
    PageWalk.mapping m page = none ∧
      PageWalk.mapping m' = Function.update (PageWalk.mapping m) page (some (frame, flags))
  /-- Failure maps nothing. -/
  map_error : ∀ {m m' : M} {a a' : A} {page frame flags parentFlags e},
    Mapper.mapToWithTableFlags m a page frame flags parentFlags = (.error e, m', a') →
    PageWalk.mapping m' = PageWalk.mapping m
  /-- Failure is for the page or for lack of frames: a table for each of three levels. -/
  map_free : ∀ (m : M) (a : A) (page frame flags parentFlags), PageWalk.mapping m page = none →
    3 ≤ available a → ∃ m' a',
      Mapper.mapToWithTableFlags m a page frame flags parentFlags = (.ok (), m', a') ∧
      available a ≤ available a' + 3

/-! ## Page tables over a list of frames -/

instance : FrameAllocator (List PhysFrame) where
  allocateFrame
    | [] => (none, [])
    | f :: fs => (some f, fs)

/-- The tables below the root that exist, by level and the page-number bits that select them, and
the entries of the last level. -/
structure PageTables where
  tables : List (Nat × UInt64)
  entries : Page → Option (PhysFrame × PageTableFlags)

namespace PageTables

/-- The tables on the way to a page, from the root down. -/
def path (page : Page) : List (Nat × UInt64) :=
  [(3, page.number / 512 / 512 / 512), (2, page.number / 512 / 512), (1, page.number / 512)]

/-- Creates the tables that are missing, each in a frame of its own. -/
def createTables : List (Nat × UInt64) → List (Nat × UInt64) → List PhysFrame →
    Bool × List (Nat × UInt64) × List PhysFrame
  | [], ts, fs => (true, ts, fs)
  | t :: rest, ts, fs =>
    if t ∈ ts then createTables rest ts fs
    else
      match fs with
      | [] => (false, ts, [])
      | _ :: fs => createTables rest (t :: ts) fs

/-- Creates the tables, then writes the entry if it is unused. -/
def mapTo (m : PageTables) (fs : List PhysFrame) (page : Page) (frame : PhysFrame)
    (flags _parentFlags : PageTableFlags) :
    Except MapToError Unit × PageTables × List PhysFrame :=
  match createTables (path page) m.tables fs with
  | (false, ts, fs) => (.error .frameAllocationFailed, { m with tables := ts }, fs)
  | (true, ts, fs) =>
    match m.entries page with
    | some _ => (.error (.pageAlreadyMapped frame), { m with tables := ts }, fs)
    | none => (.ok (), ⟨ts, Function.update m.entries page (some (frame, flags))⟩, fs)

instance : Mapper PageTables (List PhysFrame) := ⟨mapTo⟩

instance : PageWalk PageTables := ⟨entries⟩

theorem createTables_ok (ps ts : List (Nat × UInt64)) (fs : List PhysFrame)
    (h : ps.length ≤ fs.length) : ∃ ts' fs', createTables ps ts fs = (true, ts', fs') ∧
      fs.length ≤ fs'.length + ps.length := by
  induction ps generalizing ts fs with
  | nil => exact ⟨ts, fs, rfl, Nat.le_refl _⟩
  | cons t rest ih =>
    unfold createTables
    by_cases ht : t ∈ ts
    · obtain ⟨ts', fs', e, hl⟩ := ih ts fs (Nat.le_of_succ_le h)
      exact ⟨ts', fs', by rw [if_pos ht, e], Nat.le_succ_of_le hl⟩
    · cases fs with
      | nil => simp at h
      | cons f fs =>
        obtain ⟨ts', fs', e, hl⟩ := ih (t :: ts) fs (Nat.le_of_succ_le_succ h)
        exact ⟨ts', fs', by rw [if_neg ht]; exact e, Nat.succ_le_succ hl⟩

theorem mapTo_ok {m m' : PageTables} {fs fs' : List PhysFrame} {page : Page} {frame : PhysFrame}
    {flags parentFlags : PageTableFlags}
    (h : mapTo m fs page frame flags parentFlags = (.ok (), m', fs')) :
    m.entries page = none ∧ m'.entries = Function.update m.entries page (some (frame, flags)) := by
  unfold mapTo at h
  split at h
  · cases (Prod.mk.inj h).1
  · split at h
    · cases (Prod.mk.inj h).1
    · next hm =>
      have hm' := (Prod.mk.inj (Prod.mk.inj h).2).1
      subst hm'
      exact ⟨hm, rfl⟩

theorem mapTo_error {m m' : PageTables} {fs fs' : List PhysFrame} {page : Page}
    {frame : PhysFrame} {flags parentFlags : PageTableFlags} {e : MapToError}
    (h : mapTo m fs page frame flags parentFlags = (.error e, m', fs')) :
    m'.entries = m.entries := by
  unfold mapTo at h
  split at h
  · have hm' := (Prod.mk.inj (Prod.mk.inj h).2).1
    subst hm'
    rfl
  · split at h
    · have hm' := (Prod.mk.inj (Prod.mk.inj h).2).1
      subst hm'
      rfl
    · cases (Prod.mk.inj h).1

theorem mapTo_free {m : PageTables} {fs : List PhysFrame} {page : Page} (frame : PhysFrame)
    (flags parentFlags : PageTableFlags) (hm : m.entries page = none) (h : 3 ≤ fs.length) :
    ∃ m' fs', mapTo m fs page frame flags parentFlags = (.ok (), m', fs') ∧
      fs.length ≤ fs'.length + 3 := by
  obtain ⟨ts, fs', e, hl⟩ := createTables_ok (path page) m.tables fs h
  refine ⟨⟨ts, Function.update m.entries page (some (frame, flags))⟩, fs', ?_, hl⟩
  simp only [mapTo, e, hm]

instance : LawfulMapper PageTables (List PhysFrame) where
  available := List.length
  allocateFrame_some a h := by
    cases a with
    | nil => simp at h
    | cons f fs => exact ⟨f, fs, rfl, Nat.le_refl _⟩
  map_ok h := mapTo_ok h
  map_error h := mapTo_error h
  map_free _ _ _ frame flags parentFlags hm h := mapTo_free frame flags parentFlags hm h

end PageTables

end Apogee
