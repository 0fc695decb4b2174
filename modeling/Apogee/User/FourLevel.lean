import Apogee.Lib.Radix
import Apogee.User.Boot

/-!
# Four levels of page tables

The mapper that the kernel runs with works on page tables of four levels. A walk that needs a right,
such as that of ring 3 to access a page, needs it in every table on the way.

* `TableMapper`: what is assumed of the `x86_64` crate's mapper. A call of
  `map_to_with_table_flags` only makes the edits of `Verif.Tables` on the way to its page, wherever
  it stops, and one that succeeds has written the page's entry.
* `FrameSource`: the allocator hands out the frames of a list from the front. The kernel's
  `MonotonicFrameAllocator` does (`allocateFrame_refines`).
* `PathTables`: a mapper that meets the assumptions.
-/

namespace Apogee

open Verif

/-- The flags in either. -/
def PageTableFlags.union (f g : PageTableFlags) : PageTableFlags :=
  ⟨f.present || g.present, f.writable || g.writable, f.userAccessible || g.userAccessible⟩

/-- The indices of a page from the root table down. The first one keeps the bits above the 48 of an
address, which repeat its top bit. -/
def Page.path (page : Page) : List Nat :=
  let n := page.number.toNat
  [n / 512 ^ 3, n / 512 ^ 2 % 512, n / 512 % 512, n % 512]

theorem Page.length_path (page : Page) : page.path.length = 4 := rfl

/-- A table on the way to a page is above the last level. -/
theorem Page.length_ne_of_prefix {q : List Nat} (page : Page) (hpre : q <+: page.path)
    (hne : q ≠ page.path) : q.length ≠ 4 :=
  fun h4 => hne (hpre.eq_of_length (h4.trans page.length_path.symm))

theorem Page.path_ne_nil (page : Page) : page.path ≠ [] := nofun

theorem Page.path_inj {page page' : Page} (h : page.path = page'.path) : page = page' := by
  obtain ⟨n⟩ := page
  obtain ⟨m⟩ := page'
  simp only [Page.path, List.cons.injEq, and_true] at h
  obtain ⟨h1, h2, h3, h4⟩ := h
  congr 1
  apply UInt64.toNat.inj
  omega

/-! ## The mapper -/

/-- The page tables that a mapper works on. No table is used in two places. -/
class TableWalk (M : Type) where
  entries : M → Tables Nat PhysFrame PageTableFlags

/-- The changes on the way to map a page. -/
abbrev PageEdit {A : Type} [FrameAllocator A] (frame : PhysFrame)
    (flags parentFlags : PageTableFlags) (page : Page) :
    Tables Nat PhysFrame PageTableFlags × A → Tables Nat PhysFrame PageTableFlags × A → Prop :=
  Tables.Edit FrameAllocator.allocateFrame .union frame flags parentFlags page.path

/-- What is assumed of `map_to_with_table_flags`. -/
class TableMapper (M A : Type) [FrameAllocator A] [Mapper M A] [TableWalk M] : Prop where
  /-- It creates tables that are missing, adds flags to those that are there and writes the entry of
  an unused page. Nothing else changes, however the call ends. -/
  map_edits : ∀ {m m' : M} {a a' : A} {page frame flags parentFlags r},
    Mapper.mapToWithTableFlags m a page frame flags parentFlags = (r, m', a') →
    Relation.ReflTransGen (PageEdit frame flags parentFlags page)
      (TableWalk.entries m, a) (TableWalk.entries m', a')
  /-- Success has written the entry. -/
  map_ok : ∀ {m m' : M} {a a' : A} {page frame flags parentFlags},
    Mapper.mapToWithTableFlags m a page frame flags parentFlags = (.ok (), m', a') →
    TableWalk.entries m' page.path = some ⟨frame, flags, false⟩

/-- What every edit keeps, the mapper keeps, however the call ends. -/
theorem TableMapper.mapTo_keeps {M A : Type} [FrameAllocator A] [Mapper M A] [TableWalk M]
    [TableMapper M A] {I : Tables Nat PhysFrame PageTableFlags × A → Prop} {m m' : M} {a a' : A}
    {page : Page} {frame : PhysFrame} {flags parentFlags : PageTableFlags}
    {r : Except MapToError Unit}
    (hI : ∀ x y, I x → PageEdit frame flags parentFlags page x y → I y)
    (h : Mapper.mapToWithTableFlags m a page frame flags parentFlags = (r, m', a'))
    (hm : I (TableWalk.entries m, a)) : I (TableWalk.entries m', a') :=
  Tables.Edits.keeps hI (TableMapper.map_edits h) hm

/-! ## Where frames come from -/

/-- The allocator hands out the frames of a list from the front. -/
class FrameSource (A : Type) [FrameAllocator A] where
  remaining : A → List PhysFrame
  allocateFrame_none : ∀ {a a' : A}, FrameAllocator.allocateFrame a = (none, a') →
    remaining a' = remaining a
  allocateFrame_some : ∀ {a a' : A} {f : PhysFrame},
    FrameAllocator.allocateFrame a = (some f, a') → remaining a = f :: remaining a'

instance : FrameSource (List PhysFrame) where
  remaining := id
  allocateFrame_none {a a'} h := by
    cases a with
    | nil => exact (Prod.mk.inj h).2.symm
    | cons f fs => cases (Prod.mk.inj h).1
  allocateFrame_some {a a' f} h := by
    cases a with
    | nil => cases (Prod.mk.inj h).1
    | cons g gs =>
      obtain ⟨hf, rfl⟩ := Prod.mk.inj h
      obtain rfl := Option.some.inj hf
      rfl

namespace MonotonicFrameAllocator

/-- `allocate_frame` without its panics: it has none (`allocateFrame_eq`). -/
instance : FrameAllocator MonotonicFrameAllocator where
  allocateFrame a :=
    match a.allocateFrame .release with
    | .ok r => r
    | .error _ => (none, a)

theorem allocateFrame_eq (p : Profile) (a : MonotonicFrameAllocator) :
    ∃ a', FrameAllocator.allocateFrame a = ((FrameAllocator.allocateFrame a.remaining).1, a') ∧
      a'.remaining = (FrameAllocator.allocateFrame a.remaining).2 ∧
      ∃ a'', a.allocateFrame p = .ok ((FrameAllocator.allocateFrame a.remaining).1, a'') ∧
        a''.remaining = a'.remaining := by
  obtain ⟨a', e, hr⟩ := a.allocateFrame_refines (p := .release)
  obtain ⟨a'', e', hr'⟩ := a.allocateFrame_refines (p := p)
  refine ⟨a', ?_, hr, a'', e', hr'.trans hr.symm⟩
  simp only [FrameAllocator.allocateFrame] at e ⊢
  rw [e]

instance : FrameSource MonotonicFrameAllocator where
  remaining := remaining
  allocateFrame_none {a a'} h := by
    obtain ⟨b, e, hr, -⟩ := a.allocateFrame_eq .release
    obtain ⟨hnone, rfl⟩ := Prod.mk.inj (e.symm.trans h)
    cases hrem : a.remaining with
    | nil => rw [hr, hrem]; rfl
    | cons f fs => rw [hrem] at hnone; cases hnone
  allocateFrame_some {a a' f} h := by
    obtain ⟨b, e, hr, -⟩ := a.allocateFrame_eq .release
    obtain ⟨hsome, rfl⟩ := Prod.mk.inj (e.symm.trans h)
    cases hrem : a.remaining with
    | nil => rw [hrem] at hsome; cases hsome
    | cons g gs =>
      rw [hrem] at hsome
      obtain rfl := Option.some.inj hsome
      rw [hr, hrem]
      rfl

end MonotonicFrameAllocator

/-! ## Tables by their paths -/

/-- A mapper that is nothing but its tables. It meets what is assumed of the crate's. -/
structure PathTables where
  entries : Tables Nat PhysFrame PageTableFlags

namespace PathTables

variable {A : Type} [FrameAllocator A]

/-- The error for a failure to map the frame. -/
def mapToError (frame : PhysFrame) : MapFailure → MapToError
  | .noFrame => .frameAllocationFailed
  | .large => .parentEntryHugePage
  | .used => .pageAlreadyMapped frame

instance : Mapper PathTables A where
  mapToWithTableFlags m a page frame flags parentFlags :=
    match m.entries.mapFrom FrameAllocator.allocateFrame .union frame flags parentFlags []
        page.path a with
    | (.ok (), t, a) => (.ok (), ⟨t⟩, a)
    | (.error e, t, a) => (.error (mapToError frame e), ⟨t⟩, a)

instance : TableWalk PathTables := ⟨entries⟩

/-- The walk begins at the root, with no table above. -/
theorem mapFrom_edits {t t' : Tables Nat PhysFrame PageTableFlags} {a a' : A} {page : Page}
    {frame : PhysFrame} {flags parentFlags : PageTableFlags} {res : Except MapFailure Unit}
    (h : t.mapFrom FrameAllocator.allocateFrame .union frame flags parentFlags [] page.path a =
      (res, t', a')) :
    Relation.ReflTransGen (PageEdit frame flags parentFlags page) (t, a) (t', a') ∧
      (res = .ok () → t' page.path = some ⟨frame, flags, false⟩) := by
  refine Tables.mapFrom_edits rfl page.path_ne_nil (fun i r hr hpre hne => ?_) h .refl
  obtain rfl | hpre := List.prefix_concat_iff.mp hpre
  · exact absurd rfl hne
  · exact absurd (List.prefix_nil.mp hpre) hr

instance : TableMapper PathTables A where
  map_edits h := by
    simp only [Mapper.mapToWithTableFlags] at h
    split at h
    · next hmap =>
      obtain ⟨-, hrest⟩ := Prod.mk.inj h
      obtain ⟨rfl, rfl⟩ := Prod.mk.inj hrest
      exact (mapFrom_edits hmap).1
    · next hmap =>
      obtain ⟨-, hrest⟩ := Prod.mk.inj h
      obtain ⟨rfl, rfl⟩ := Prod.mk.inj hrest
      exact (mapFrom_edits hmap).1
  map_ok h := by
    simp only [Mapper.mapToWithTableFlags] at h
    split at h
    · next hmap =>
      obtain ⟨-, hrest⟩ := Prod.mk.inj h
      obtain ⟨rfl, rfl⟩ := Prod.mk.inj hrest
      exact (mapFrom_edits hmap).2 rfl
    · cases (Prod.mk.inj h).1

end PathTables

end Apogee
