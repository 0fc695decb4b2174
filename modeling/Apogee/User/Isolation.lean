import Mathlib.Data.List.Infix
import Apogee.User.FourLevel

/-!
# What ring 3 can reach

The kernel and its processes share one set of page tables. From the tables that the bootloader
leaves, the kernel maps the text screen, its heap and, for each process, a code page and a stack
page. Only the last two are for ring 3, but the tables above them get the flags of ring 3 as well,
and every failure leaves what was mapped up to it.

The mapper is any that makes only the edits of `TableMapper`.

* `BootTables`: what is assumed of the bootloader. Nothing that it maps is for ring 3, it maps
  nothing at the addresses of processes, and its tables are not in usable frames.
* `Inv`: every frame that was handed out is in one place, and entries for ring 3 are those of the
  code page and the stack page. `Inv.edit`: every single change of the mapper keeps it.
* `ring3_isolated`: in every run, ring 3 can access exactly the code page and the stack page, once
  they are mapped, and their frames are no page table and no other page of the kernel's.
-/

namespace Apogee

open Verif

/-- The page tables, by the paths to their entries. -/
abbrev PageEntries := Tables Nat PhysFrame PageTableFlags

/-- The frame of the text screen. -/
def screenFrame : PhysFrame := .containingAddress 0xb8000

/-- The page that `kernel_main` maps to it. -/
def screenPage : Page := .containingAddress 0

/-- The pages of a process. -/
def IsUser (page : Page) : Prop := page = codePage ∨ page = stackPage

/-- The tables as the bootloader leaves them, where `usable` are the frames that are free. -/
structure BootTables (boot : PageEntries) (usable : List PhysFrame) : Prop where
  closed : Tables.Closed boot
  kernelOnly : ∀ q e, boot q = some e → q.length = 4 ∨ e.large = true →
    e.flags.userAccessible = false
  unmapped : ∀ page, IsUser page → ∀ r, r <+: page.path → ∀ e, boot r = some e →
    r ≠ page.path ∧ e.large = false
  tables : ∀ q e, boot q = some e → q.length < 4 → e.large = false → e.frame ∉ usable
  screen : screenFrame ∉ usable

/-- A table that ring 3 may pass. -/
def OpenTable (e : Entry PhysFrame PageTableFlags) : Prop :=
  e.flags.writable = true ∧ e.flags.userAccessible = true

namespace PageEntries

variable {boot t : PageEntries} {usable rem : List PhysFrame} {q : List Nat} {f frame : PhysFrame}
  {e e₀ : Entry PhysFrame PageTableFlags} {page : Page} {flags : PageTableFlags}

/-- The tables `t` that came from `boot`, with the frames `rem` still to be handed out. -/
structure Inv (boot : PageEntries) (usable : List PhysFrame) (t : PageEntries)
    (rem : List PhysFrame) : Prop where
  nodup : rem.Nodup
  rem_usable : ∀ f ∈ rem, f ∈ usable
  closed : Tables.Closed t
  /-- The entries of the bootloader stay. -/
  kept : ∀ q e₀, boot q = some e₀ → ∃ e, t q = some e ∧ e.frame = e₀.frame ∧ e.large = e₀.large
  /-- The others have frames that were handed out, but for the text screen's. -/
  new : ∀ q e, boot q = none → t q = some e →
    e.large = false ∧ e.frame ∉ rem ∧ (e.frame ∈ usable ∨ q = screenPage.path)
  /-- Each in one place. -/
  distinct : ∀ q q' e e', boot q = none → boot q' = none → t q = some e → t q' = some e' →
    e.frame ∈ usable → e.frame = e'.frame → q = q'
  user : ∀ q e, t q = some e → q.length = 4 ∨ e.large = true → e.flags.userAccessible = true →
    ∃ page, IsUser page ∧ q = page.path
  /-- The pages of a process are open on all levels. -/
  openUp : ∀ page, IsUser page → ∀ e, t page.path = some e →
    e.flags = userFlags ∧ Tables.Above t page.path OpenTable
  clear : ∀ page, IsUser page → ∀ r, r <+: page.path → ∀ e, t r = some e → e.large = false

/-- The frame is in no place yet and will not be handed out again. -/
def Spare (boot : PageEntries) (usable : List PhysFrame) (t : PageEntries) (rem : List PhysFrame)
    (frame : PhysFrame) : Prop :=
  frame ∈ usable → frame ∉ rem ∧ ∀ q e, boot q = none → t q = some e → e.frame ≠ frame

theorem update_some {q' : List Nat} (h : Function.update t q (some e₀) q' = some e) :
    q' = q ∧ e = e₀ ∨ q' ≠ q ∧ t q' = some e := by
  by_cases hq : q' = q
  · rw [hq, Function.update_self] at h
    exact .inl ⟨hq, (Option.some.inj h).symm⟩
  · rw [Function.update_of_ne hq] at h
    exact .inr ⟨hq, h⟩

/-- A new entry hides nothing. -/
theorem update_of_some {q' : List Nat} (hnone : t q = none) (h : t q' = some e) :
    Function.update t q (some e₀) q' = some e := by
  rw [Function.update_of_ne fun heq => ?_, h]
  rw [heq, hnone] at h
  cases h

theorem above_update {P : Entry PhysFrame PageTableFlags → Prop} {q' : List Nat}
    (hnone : t q = none) (h : Tables.Above t q' P) :
    Tables.Above (Function.update t q (some e₀)) q' P := fun r hr hpre hne => by
  obtain ⟨e, he, hsmall, hP⟩ := h r hr hpre hne
  exact ⟨e, update_of_some hnone he, hsmall, hP⟩

/-- A frame is handed out. -/
theorem Inv.draw (h : Inv boot usable t (f :: rem)) :
    Inv boot usable t rem ∧ f ∈ usable ∧ Spare boot usable t rem f := by
  obtain ⟨hf, hnodup⟩ := List.nodup_cons.mp h.nodup
  refine ⟨{ h with
      nodup := hnodup
      rem_usable := fun g hg => h.rem_usable g (.tail _ hg)
      new := ?_ },
    h.rem_usable f (.head _), fun _ => ⟨hf, fun q e hq he heq => ?_⟩⟩
  · intro q e hq he
    obtain ⟨hsmall, hrem, hframe⟩ := h.new q e hq he
    exact ⟨hsmall, fun hmem => hrem (.tail _ hmem), hframe⟩
  · exact (h.new q e hq he).2.1 (heq ▸ .head _)

/-- A new entry, at a place where none was. -/
theorem Inv.add (h : Inv boot usable t rem) (hnone : t q = none)
    (habove : Tables.Above t q fun _ => True) (hsmall : e₀.large = false)
    (hrem : e₀.frame ∉ rem) (hframe : e₀.frame ∈ usable ∨ q = screenPage.path)
    (hspare : e₀.frame ∈ usable → ∀ q e, boot q = none → t q = some e → e.frame ≠ e₀.frame)
    (huser : q.length = 4 → e₀.flags.userAccessible = true → ∃ page, IsUser page ∧ q = page.path)
    (hopen : ∀ page, IsUser page → q = page.path →
      e₀.flags = userFlags ∧ Tables.Above t page.path OpenTable) :
    Inv boot usable (Function.update t q (some e₀)) rem where
  nodup := h.nodup
  rem_usable := h.rem_usable
  closed q' e he := by
    obtain ⟨rfl, -⟩ | ⟨-, he⟩ := update_some he
    · exact above_update hnone habove
    · exact above_update hnone (h.closed q' e he)
  kept q' e' he' := by
    obtain ⟨e, he, hkept⟩ := h.kept q' e' he'
    exact ⟨e, update_of_some hnone he, hkept⟩
  new q' e hq he := by
    obtain ⟨rfl, rfl⟩ | ⟨-, he⟩ := update_some he
    · exact ⟨hsmall, hrem, hframe⟩
    · exact h.new q' e hq he
  distinct q₁ q₂ e₁ e₂ hq₁ hq₂ he₁ he₂ hu heq := by
    obtain ⟨rfl, rfl⟩ | ⟨-, hold₁⟩ := update_some he₁
    · obtain ⟨rfl, -⟩ | ⟨-, hold₂⟩ := update_some he₂
      · rfl
      · exact absurd heq.symm (hspare hu q₂ e₂ hq₂ hold₂)
    · obtain ⟨rfl, rfl⟩ | ⟨-, hold₂⟩ := update_some he₂
      · exact absurd heq (hspare (heq ▸ hu) q₁ e₁ hq₁ hold₁)
      · exact h.distinct q₁ q₂ e₁ e₂ hq₁ hq₂ hold₁ hold₂ hu heq
  user q' e he hend hflag := by
    obtain ⟨rfl, rfl⟩ | ⟨-, he⟩ := update_some he
    · exact huser (hend.resolve_right (by simp [hsmall])) hflag
    · exact h.user q' e he hend hflag
  openUp page hpage e he := by
    obtain ⟨heq, rfl⟩ | ⟨-, he⟩ := update_some he
    · exact (hopen page hpage heq.symm).imp_right (above_update hnone)
    · exact (h.openUp page hpage e he).imp_right (above_update hnone)
  clear page hpage r hr e he := by
    obtain ⟨-, rfl⟩ | ⟨-, he⟩ := update_some he
    · exact hsmall
    · exact h.clear page hpage r hr e he

/-- An entry above the last level gets more flags, those of ring 3 only if it is no mapping. -/
theorem Inv.widen (h : Inv boot usable t rem) (he₀ : t q = some e₀) (hlen : q.length ≠ 4)
    (hlarge : e₀.large = true → flags.userAccessible = false) :
    Inv boot usable
      (Function.update t q (some { e₀ with flags := e₀.flags.union flags })) rem := by
  have hback : ∀ {q' : List Nat} {e : Entry PhysFrame PageTableFlags},
      Function.update t q (some { e₀ with flags := e₀.flags.union flags }) q' = some e →
      ∃ e', t q' = some e' ∧ e'.frame = e.frame ∧ e'.large = e.large ∧
        (e.large = true ∨ q'.length = 4 →
          e.flags.userAccessible = true → e'.flags.userAccessible = true) ∧
        (q'.length = 4 → e' = e) := by
    intro q' e he
    obtain ⟨rfl, rfl⟩ | ⟨-, he⟩ := update_some he
    · refine ⟨e₀, he₀, rfl, rfl, fun hend hflag => ?_, fun h4 => absurd h4 hlen⟩
      simpa [PageTableFlags.union, hlarge (hend.resolve_right hlen)] using hflag
    · exact ⟨e, he, rfl, rfl, fun _ hflag => hflag, fun _ => rfl⟩
  have hforth : ∀ {q' : List Nat} {e : Entry PhysFrame PageTableFlags}, t q' = some e →
      ∃ e', Function.update t q (some { e₀ with flags := e₀.flags.union flags }) q' = some e' ∧
        e'.frame = e.frame ∧ e'.large = e.large ∧ (OpenTable e → OpenTable e') := by
    intro q' e he
    by_cases hq : q' = q
    · subst hq
      obtain rfl := Option.some.inj (he₀.symm.trans he)
      refine ⟨_, Function.update_self .., rfl, rfl, fun ⟨hw, hu⟩ => ?_⟩
      exact ⟨by simp [PageTableFlags.union, hw], by simp [PageTableFlags.union, hu]⟩
    · exact ⟨e, by rw [Function.update_of_ne hq, he], rfl, rfl, id⟩
  have habove : ∀ {q' : List Nat} {P : Entry PhysFrame PageTableFlags → Prop},
      (∀ e e', (OpenTable e → OpenTable e') → P e → P e') → Tables.Above t q' P →
      Tables.Above (Function.update t q (some { e₀ with flags := e₀.flags.union flags })) q' P := by
    intro q' P hP hab r hr hpre hne
    obtain ⟨e, he, hsmall, hPe⟩ := hab r hr hpre hne
    obtain ⟨e', he', -, hlarge', hopen⟩ := hforth he
    exact ⟨e', he', hlarge'.trans hsmall, hP e e' hopen hPe⟩
  refine ⟨h.nodup, h.rem_usable, ?_, ?_, ?_, ?_, ?_, ?_, ?_⟩
  · intro q' e he
    obtain ⟨e', he', -⟩ := hback he
    exact habove (fun _ _ _ _ => trivial) (h.closed q' e' he')
  · intro q' e' he'
    obtain ⟨e, he, hf, hl⟩ := h.kept q' e' he'
    obtain ⟨e'', he'', hf', hl', -⟩ := hforth he
    exact ⟨e'', he'', hf'.trans hf, hl'.trans hl⟩
  · intro q' e hq he
    obtain ⟨e', he', hf, hl, -⟩ := hback he
    rw [← hf, ← hl]
    exact h.new q' e' hq he'
  · intro q₁ q₂ e₁ e₂ hq₁ hq₂ he₁ he₂ hu heq
    obtain ⟨e₁', he₁', hf₁, -⟩ := hback he₁
    obtain ⟨e₂', he₂', hf₂, -⟩ := hback he₂
    exact h.distinct q₁ q₂ e₁' e₂' hq₁ hq₂ he₁' he₂' (hf₁ ▸ hu) (hf₁.trans (heq.trans hf₂.symm))
  · intro q' e he hend hflag
    obtain ⟨e', he', -, hl, hu, -⟩ := hback he
    exact h.user q' e' he' (hend.imp_right hl.trans) (hu hend.symm hflag)
  · intro page hpage e he
    obtain ⟨e', he', -, -, -, heq⟩ := hback he
    obtain rfl := heq page.length_path
    exact (h.openUp page hpage e' he').imp_right (habove fun _ _ hopen => hopen)
  · intro page hpage r hr e he
    obtain ⟨e', he', -, hl, -⟩ := hback he
    exact hl.symm.trans (h.clear page hpage r hr e' he')

/-- What the kernel asks the mapper for: a page of a process with the flags of ring 3, or another
page without them, in a frame that was handed out if it is not the text screen's. -/
structure Wanted (usable : List PhysFrame) (page : Page) (frame : PhysFrame)
    (flags : PageTableFlags) : Prop where
  flags : flags = kernelFlags ∧ ¬ IsUser page ∨ flags = userFlags ∧ IsUser page
  frame : frame ∈ usable ∨ page = screenPage

theorem Wanted.isUser (hw : Wanted usable page frame flags) (h : flags.userAccessible = true) :
    IsUser page := by
  obtain ⟨rfl, -⟩ | ⟨-, huser⟩ := hw.flags
  · cases h
  · exact huser

variable {A : Type} [FrameAllocator A] [FrameSource A]

/-- A single change of the mapper keeps the invariant. Until the page is mapped, its frame is
spare. -/
theorem Inv.edit (hw : Wanted usable page frame flags) (x y : PageEntries × A)
    (h : Inv boot usable x.1 (FrameSource.remaining x.2) ∧
      (x.1 page.path = none → Spare boot usable x.1 (FrameSource.remaining x.2) frame))
    (hst : PageEdit frame flags flags page x y) :
    Inv boot usable y.1 (FrameSource.remaining y.2) ∧
      (y.1 page.path = none → Spare boot usable y.1 (FrameSource.remaining y.2) frame) := by
  obtain ⟨hinv, hspare⟩ := h
  cases hst with
  | exhausted hnone =>
    simp only [FrameSource.allocateFrame_none hnone]
    exact ⟨hinv, hspare⟩
  | @table t a a' q f hq hpre hne hnone habove hsome =>
    have hrem := FrameSource.allocateFrame_some hsome
    simp only [hrem] at hinv hspare
    obtain ⟨hinv', hf, hfspare⟩ := hinv.draw
    have hlen := page.length_ne_of_prefix hpre hne
    rw [Tables.newTable_of_closed hinv.closed hq hnone]
    refine ⟨hinv'.add hnone habove rfl (hfspare hf).1 (.inl hf) (fun hu => (hfspare hu).2)
      (fun h4 => absurd h4 hlen) (fun page' _ heq => absurd (heq ▸ page'.length_path) hlen), ?_⟩
    intro hpath hu
    -- A page that is mapped has its tables, so this one was not.
    have hold : t page.path = none := (Function.update_of_ne hne.symm ..).symm.trans hpath
    obtain ⟨hnotin, hunplaced⟩ := hspare hold hu
    refine ⟨fun hmem => hnotin (.tail _ hmem), fun q' e hq' he => ?_⟩
    obtain ⟨-, rfl⟩ | ⟨-, he'⟩ := update_some he
    · exact fun heq => hnotin (heq ▸ .head _)
    · exact hunplaced q' e hq' he'
  | @widen t a q e hq hpre hne he =>
    have hlen := page.length_ne_of_prefix hpre hne
    refine ⟨hinv.widen he hlen fun hlarge => ?_, fun hpath hu => ?_⟩
    · refine Bool.eq_false_iff.mpr fun hflag => ?_
      rw [hinv.clear page (hw.isUser hflag) q hpre e he] at hlarge
      cases hlarge
    · have hold : t page.path = none := (Function.update_of_ne hne.symm ..).symm.trans hpath
      obtain ⟨hnotin, hunplaced⟩ := hspare hold hu
      refine ⟨hnotin, fun q' e' hq' he' => ?_⟩
      obtain ⟨rfl, rfl⟩ | ⟨-, hold'⟩ := update_some he'
      · exact hunplaced q' e hq' he
      · exact hunplaced q' e' hq' hold'
  | @leaf t a hnone habove =>
    have hsp := hspare hnone
    refine ⟨hinv.add hnone (habove.mono fun _ _ => trivial) rfl ?_
      (hw.frame.imp_right (congrArg Page.path)) (fun hu => (hsp hu).2)
      (fun _ hflag => ⟨page, hw.isUser hflag, rfl⟩) ?_, fun hpath => ?_⟩
    · intro hmem
      exact (hsp (hinv.rem_usable _ hmem)).1 hmem
    · intro page' hpage' heq
      obtain rfl := Page.path_inj heq
      obtain ⟨-, hnot⟩ | ⟨rfl, -⟩ := hw.flags
      · exact absurd hpage' hnot
      · refine ⟨rfl, habove.mono fun e hflags => ?_⟩
        obtain hflags | ⟨l, hflags⟩ := hflags
        · simp [OpenTable, hflags, userFlags]
        · simp [OpenTable, hflags, PageTableFlags.union, userFlags]
    · cases (Function.update_self ..).symm.trans hpath

end PageEntries

namespace Setup

open PageEntries

variable {boot : PageEntries} {usable : List PhysFrame} {M A : Type} [TableWalk M]
  [FrameAllocator A] [FrameSource A] {p : Profile} {s s' : Setup M A}

/-- The page tables. -/
abbrev entries (s : Setup M A) : PageEntries := TableWalk.entries s.mapper

/-- The invariant, for the tables and the allocator of a setup. -/
abbrev PagesInv (boot : PageEntries) (usable : List PhysFrame) (s : Setup M A) : Prop :=
  Inv boot usable s.entries (FrameSource.remaining s.frameAllocator)

/-! ## Accesses of ring 3 -/

/-- What the hardware finds for an access to a page that needs the right `ρ`. -/
def access (ρ : PageTableFlags → Bool) (s : Setup M A) (page : Page) :
    Option (Entry PhysFrame PageTableFlags) :=
  s.entries.walk ρ [] page.path

/-- What ring 3 can reach. -/
structure Isolated (boot : PageEntries) (usable : List PhysFrame) (s : Setup M A) :
    Prop where
  /-- The pages of a process, once they are mapped, and nothing else. -/
  pages : ∀ page, (∃ e, s.access (·.userAccessible) page = some e) ↔
    IsUser page ∧ s.entries page.path ≠ none
  /-- Ring 3 can write to them. -/
  writable : ∀ page e, s.access (·.userAccessible) page = some e →
    s.access (·.writable) page = some e
  /-- The frame was usable and is not handed out again. -/
  frame : ∀ page e, s.access (·.userAccessible) page = some e →
    e.frame ∈ usable ∧ e.frame ∉ FrameSource.remaining s.frameAllocator
  /-- It is not that of a table. -/
  noTable : ∀ page e, s.access (·.userAccessible) page = some e → ∀ q e',
    s.entries q = some e' → q.length < 4 → e'.large = false → e'.frame ≠ e.frame
  /-- And not that of another page that was mapped since the bootloader. -/
  noAlias : ∀ page e, s.access (·.userAccessible) page = some e → ∀ page' e', page' ≠ page →
    boot page'.path = none → s.entries page'.path = some e' → e'.frame ≠ e.frame

/-- An access of ring 3 ends at the page of a process. -/
theorem PagesInv.of_access (h : PagesInv boot usable s) {page : Page}
    {e : Entry PhysFrame PageTableFlags} (he : s.access (·.userAccessible) page = some e) :
    IsUser page ∧ s.entries page.path = some e := by
  obtain ⟨r, -, hpre, hr, hflag, hend⟩ := Tables.walk_some he
  have hlen : r = page.path → r.length = 4 := fun heq => heq ▸ page.length_path
  obtain ⟨page', hpage', rfl⟩ := h.user r e hr (hend.imp_left hlen) hflag
  obtain rfl := Page.path_inj (hpre.eq_of_length (page'.length_path.trans page.length_path.symm))
  exact ⟨hpage', hr⟩

/-- A mapped page of a process can be accessed with both rights. -/
theorem PagesInv.access (h : PagesInv boot usable s) {page : Page} (hpage : IsUser page)
    {e : Entry PhysFrame PageTableFlags} (he : s.entries page.path = some e) :
    s.access (·.userAccessible) page = some e ∧ s.access (·.writable) page = some e := by
  obtain ⟨hflags, habove⟩ := h.openUp page hpage e he
  refine ⟨Tables.walk_of_prefixes page.path_ne_nil he (by simp [hflags, userFlags]) ?_,
    Tables.walk_of_prefixes page.path_ne_nil he (by simp [hflags, userFlags]) ?_⟩
  · intro r hr hpre hne
    obtain ⟨e', he', hsmall, -, hu⟩ := habove r hr hpre hne
    exact ⟨e', he', hsmall, hu⟩
  · intro r hr hpre hne
    obtain ⟨e', he', hsmall, hw, -⟩ := habove r hr hpre hne
    exact ⟨e', he', hsmall, hw⟩

/-- The page of a process that ring 3 reaches was mapped by the kernel, to a usable frame. -/
theorem PagesInv.of_access_new (h : PagesInv boot usable s) (hboot : BootTables boot usable)
    {page : Page} {e : Entry PhysFrame PageTableFlags}
    (he : s.access (·.userAccessible) page = some e) :
    boot page.path = none ∧ s.entries page.path = some e ∧ e.frame ∈ usable ∧
      e.frame ∉ FrameSource.remaining s.frameAllocator := by
  obtain ⟨hpage, hentry⟩ := h.of_access he
  have hnone : boot page.path = none := by
    cases hb : boot page.path with
    | none => rfl
    | some e₀ => exact absurd rfl (hboot.unmapped page hpage _ (List.prefix_refl _) e₀ hb).1
  obtain ⟨-, hrem, hframe⟩ := h.new page.path e hnone hentry
  refine ⟨hnone, hentry, hframe.resolve_right fun heq => ?_, hrem⟩
  obtain rfl := Page.path_inj heq
  obtain hpage | hpage := hpage
  · exact absurd hpage (by decide)
  · exact absurd hpage (by decide)

theorem PagesInv.isolated (h : PagesInv boot usable s) (hboot : BootTables boot usable) :
    Isolated boot usable s := by
  refine ⟨fun page => ⟨?_, ?_⟩, fun page e he => ?_, fun page e he => ?_,
    fun page e he q e' hq hlen hsmall heq => ?_, fun page e he page' e' hne hnone' he' heq => ?_⟩
  · rintro ⟨e, he⟩
    obtain ⟨hpage, hentry⟩ := h.of_access he
    exact ⟨hpage, by rw [hentry]; exact Option.some_ne_none e⟩
  · rintro ⟨hpage, hmapped⟩
    obtain ⟨e, he⟩ := Option.ne_none_iff_exists'.mp hmapped
    exact ⟨e, (h.access hpage he).1⟩
  · obtain ⟨hpage, hentry⟩ := h.of_access he
    exact (h.access hpage hentry).2
  · exact (h.of_access_new hboot he).2.2
  · obtain ⟨hnone, hentry, husable, -⟩ := h.of_access_new hboot he
    cases hb : boot q with
    | none =>
      obtain rfl := h.distinct _ q e e' hnone hb hentry hq husable heq.symm
      rw [page.length_path] at hlen
      omega
    | some e₀ =>
      obtain ⟨e'', he'', hf, hl⟩ := h.kept q e₀ hb
      obtain rfl := Option.some.inj (hq.symm.trans he'')
      exact hboot.tables q e₀ hb hlen (hl.symm.trans hsmall) (hf ▸ heq ▸ husable)
  · obtain ⟨hnone, hentry, husable, -⟩ := h.of_access_new hboot he
    exact hne (Page.path_inj
      (h.distinct _ _ e e' hnone hnone' hentry he' husable heq.symm)).symm

/-! ## The kernel's calls -/

section Calls

variable [Mapper M A] [TableMapper M A]

theorem inv_mapTo {m m' : M} {a a' : A} {page : Page}
    {frame : PhysFrame} {flags : PageTableFlags} {r : Except MapToError Unit}
    (h : Inv boot usable (TableWalk.entries m) (FrameSource.remaining a))
    (hw : Wanted usable page frame flags)
    (hspare : Spare boot usable (TableWalk.entries m) (FrameSource.remaining a) frame)
    (he : Mapper.mapToWithTableFlags m a page frame flags flags = (r, m', a')) :
    Inv boot usable (TableWalk.entries m') (FrameSource.remaining a') :=
  (TableMapper.mapTo_keeps (Inv.edit hw) he ⟨h, fun _ => hspare⟩).1

/-- A frame is allocated, then mapped. -/
theorem inv_allocate_mapTo {m m' : M} {a a₁ a' : A}
    {page : Page} {frame : PhysFrame} {flags : PageTableFlags} {r : Except MapToError Unit}
    (h : Inv boot usable (TableWalk.entries m) (FrameSource.remaining a))
    (hflags : flags = kernelFlags ∧ ¬ IsUser page ∨ flags = userFlags ∧ IsUser page)
    (ha : FrameAllocator.allocateFrame a = (some frame, a₁))
    (he : Mapper.mapToWithTableFlags m a₁ page frame flags flags = (r, m', a')) :
    Inv boot usable (TableWalk.entries m') (FrameSource.remaining a') := by
  rw [FrameSource.allocateFrame_some ha] at h
  obtain ⟨h', hf, hspare⟩ := h.draw
  exact inv_mapTo h' ⟨hflags, .inl hf⟩ hspare he

theorem PagesInv.mapUserPage (h : PagesInv boot usable s) {noFrame mapFailed : String}
    {page : Page} (hpage : IsUser page) {r : Except String PhysFrame}
    (he : s.mapUserPage noFrame mapFailed page = (s', r)) :
    PagesInv boot usable s' := by
  unfold Setup.mapUserPage at he
  split at he
  · next ha =>
    obtain ⟨rfl, -⟩ := Prod.mk.inj he
    show Inv boot usable s.entries (FrameSource.remaining _)
    rw [FrameSource.allocateFrame_none ha]
    exact h
  · next frame a ha =>
    split at he
    · next hm =>
      obtain ⟨rfl, -⟩ := Prod.mk.inj he
      exact inv_allocate_mapTo h (.inr ⟨rfl, hpage⟩) ha hm
    · next hm =>
      obtain ⟨rfl, -⟩ := Prod.mk.inj he
      exact inv_allocate_mapTo h (.inr ⟨rfl, hpage⟩) ha hm

theorem PagesInv.mapPages {pages : List Page} (hpages : ∀ page ∈ pages, ¬ IsUser page)
    {r : Except MapToError Unit} (h : PagesInv boot usable s)
    (he : s.mapPages pages = (s', r)) : PagesInv boot usable s' := by
  induction pages generalizing s with
  | nil =>
    obtain ⟨rfl, -⟩ := Prod.mk.inj he
    exact h
  | cons page pages ih =>
    unfold Setup.mapPages at he
    have hpage := hpages page (.head _)
    split at he
    · next ha =>
      obtain ⟨rfl, -⟩ := Prod.mk.inj he
      show Inv boot usable s.entries (FrameSource.remaining _)
      rw [FrameSource.allocateFrame_none ha]
      exact h
    · next frame a ha =>
      split at he
      · next hm =>
        obtain ⟨rfl, -⟩ := Prod.mk.inj he
        exact inv_allocate_mapTo h (.inl ⟨rfl, hpage⟩) ha hm
      · next m a' hm =>
        have hrest : PagesInv boot usable { s with mapper := m, frameAllocator := a' } :=
          inv_allocate_mapTo h (.inl ⟨rfl, hpage⟩) ha hm
        exact ih (fun q hq => hpages q (.tail _ hq)) hrest he

theorem PagesInv.initHeap (h : PagesInv boot usable s)
    {allocator allocator' : FixedSizeBlockAllocator} {r : Except MapToError Unit}
    (he : s.initHeap p allocator = .ok (s', allocator', r)) : PagesInv boot usable s' := by
  have hpages : ∀ page ∈ heapPages, ¬ IsUser page := by
    intro page hpage huser
    have hrange := mem_heapPages.mp hpage
    obtain rfl | rfl := huser
    · exact absurd hrange.1 (by decide)
    · exact absurd hrange.1 (by decide)
  unfold Setup.initHeap at he
  split at he
  · next hmap =>
    obtain ⟨rfl, -⟩ := Prod.mk.inj (Except.ok.inj he)
    exact h.mapPages hpages hmap
  · next hmap =>
    obtain ⟨allocator₁, -, he⟩ := Panics.bind_eq_ok.mp he
    obtain ⟨rfl, -⟩ := Prod.mk.inj (Except.ok.inj he)
    exact h.mapPages hpages hmap

theorem PagesInv.createExampleMapping (h : PagesInv boot usable s)
    (hscreen : screenFrame ∉ usable) (he : s.createExampleMapping screenPage = .ok s') :
    PagesInv boot usable s' := by
  unfold Setup.createExampleMapping at he
  split at he
  · cases he
  · next hm =>
    obtain rfl := Except.ok.inj he
    refine inv_mapTo h ⟨.inl ⟨rfl, ?_⟩, .inr rfl⟩ (fun hu => absurd hu hscreen) hm
    rintro (hpage | hpage)
    · exact absurd hpage (by decide)
    · exact absurd hpage (by decide)

theorem PagesInv.createProcess (h : PagesInv boot usable s) {program : List UInt8}
    {r : Except String ProcessId} (he : s.createProcessFromProgram p program = .ok (s', r)) :
    PagesInv boot usable s' := by
  unfold Setup.createProcessFromProgram at he
  split at he
  · obtain ⟨rfl, -⟩ := Prod.mk.inj (Except.ok.inj he)
    exact h
  split at he
  · next s₁ e h₁ =>
    obtain ⟨rfl, -⟩ := Prod.mk.inj (Except.ok.inj he)
    exact h.mapUserPage (.inl rfl) h₁
  next s₁ codeFrame h₁ =>
  have h₁' := h.mapUserPage (.inl rfl) h₁
  have hcode : PagesInv boot usable
      { s₁ with memory := copyBytes s₁.memory codeFrame.startAddress program } := h₁'
  simp only at he
  split at he
  · next s₂ e h₂ =>
    obtain ⟨rfl, -⟩ := Prod.mk.inj (Except.ok.inj he)
    exact hcode.mapUserPage (.inr rfl) h₂
  next s₂ stackFrame h₂ =>
  rw [registerProcess_eq] at he
  obtain ⟨rfl, -⟩ := Prod.mk.inj (Except.ok.inj he)
  have h₂' := hcode.mapUserPage (.inr rfl) h₂
  exact h₂'

/-- A page that is mapped stays mapped, beside the new one. -/
theorem PagesInv.mapUserPage_ne_none (h : PagesInv boot usable s) {noFrame mapFailed : String}
    {page : Page} (hpage : IsUser page) {frame : PhysFrame}
    (he : s.mapUserPage noFrame mapFailed page = (s', .ok frame)) :
    s'.entries page.path ≠ none ∧
      ∀ q, s.entries q ≠ none → s'.entries q ≠ none := by
  unfold Setup.mapUserPage at he
  split at he
  · cases (Prod.mk.inj he).2
  next f a ha =>
  split at he
  · cases (Prod.mk.inj he).2
  next hm =>
  obtain ⟨rfl, -⟩ := Prod.mk.inj he
  unfold PagesInv at h
  rw [FrameSource.allocateFrame_some ha] at h
  obtain ⟨h', hf, hspare⟩ := h.draw
  have hw : Wanted usable page f userFlags := ⟨.inr ⟨rfl, hpage⟩, .inl hf⟩
  refine ⟨?_, fun q hq => ?_⟩
  · exact fun hnone => by cases (TableMapper.map_ok hm).symm.trans hnone
  · refine (TableMapper.mapTo_keeps (I := fun x => (Inv boot usable x.1
      (FrameSource.remaining x.2) ∧ (x.1 page.path = none →
        Spare boot usable x.1 (FrameSource.remaining x.2) f)) ∧ x.1 q ≠ none)
      (fun x y hx hst => ⟨Inv.edit hw x y hx.1 hst, hst.ne_none hx.1.1.closed hx.2⟩) hm
      ⟨⟨h', fun _ => hspare⟩, hq⟩).2

/-- A setup that succeeds has mapped its two pages. -/
theorem PagesInv.createProcess_ne_none (h : PagesInv boot usable s) {program : List UInt8}
    {pid : ProcessId} (he : s.createProcessFromProgram p program = .ok (s', .ok pid)) {page : Page}
    (hpage : IsUser page) : s'.entries page.path ≠ none := by
  unfold Setup.createProcessFromProgram at he
  split at he
  · cases (Prod.mk.inj (Except.ok.inj he)).2
  split at he
  · cases (Prod.mk.inj (Except.ok.inj he)).2
  next s₁ codeFrame h₁ =>
  have hcode := (h.mapUserPage_ne_none (.inl rfl) h₁).1
  have h₁' := h.mapUserPage (.inl rfl) h₁
  have hinv : PagesInv boot usable
      { s₁ with memory := copyBytes s₁.memory codeFrame.startAddress program } := h₁'
  simp only at he
  split at he
  · cases (Prod.mk.inj (Except.ok.inj he)).2
  next s₂ stackFrame h₂ =>
  rw [registerProcess_eq] at he
  obtain ⟨rfl, -⟩ := Prod.mk.inj (Except.ok.inj he)
  obtain ⟨hstack, hkeep⟩ := hinv.mapUserPage_ne_none (.inr rfl) h₂
  obtain rfl | rfl := hpage
  · exact hkeep _ hcode
  · exact hstack

end Calls

/-! ## Whole runs -/

inductive PagesEvent where
  | createExampleMapping
  | initHeap
  | createProcess
  /-- Anything that leaves the tables and the frame allocator alone. -/
  | run

section Runs

variable {M : Type} [TableWalk M] [Mapper M MonotonicFrameAllocator]

inductive PagesStep (p : Profile) : Setup M MonotonicFrameAllocator → PagesEvent →
    Setup M MonotonicFrameAllocator → Prop
  | createExampleMapping {s s' : Setup M MonotonicFrameAllocator} :
      s.createExampleMapping screenPage = .ok s' → PagesStep p s .createExampleMapping s'
  | initHeap {s s' : Setup M MonotonicFrameAllocator}
      {allocator allocator' : FixedSizeBlockAllocator} {r : Except MapToError Unit} :
      s.initHeap p allocator = .ok (s', allocator', r) → PagesStep p s .initHeap s'
  | createProcess {s s' : Setup M MonotonicFrameAllocator} {program : List UInt8}
      {r : Except String ProcessId} : s.createProcessFromProgram p program = .ok (s', r) →
      PagesStep p s .createProcess s'
  | run {s : Setup M MonotonicFrameAllocator} {kernel : Kernel}
      {memory : UInt64 → UInt8} :
      PagesStep p s .run { s with kernel := kernel, memory := memory }

/-- The runs from the tables of the bootloader and its memory map. -/
def pagesSystem (p : Profile) (boot : PageEntries) (memoryMap : List MemoryRegion) :
    Sys (Setup M MonotonicFrameAllocator) PagesEvent where
  init s := s.entries = boot ∧ s.frameAllocator = .init memoryMap
  step := PagesStep p

omit [TableWalk M] [Mapper M MonotonicFrameAllocator] in
theorem inv_boot (hboot : BootTables boot usable) (hnodup : usable.Nodup) :
    Inv boot usable boot usable where
  nodup := hnodup
  rem_usable _ h := h
  closed := hboot.closed
  kept q e he := ⟨e, he, rfl, rfl⟩
  new q e hq he := by rw [hq] at he; cases he
  distinct q _ e _ hq _ he := by rw [hq] at he; cases he
  user q e he hend hflag := by
    rw [hboot.kernelOnly q e he hend] at hflag
    cases hflag
  openUp page hpage e he := absurd rfl (hboot.unmapped page hpage _ (List.prefix_refl _) e he).1
  clear page hpage r hr e he := (hboot.unmapped page hpage r hr e he).2

variable [TableMapper M MonotonicFrameAllocator]

theorem pagesInv_reach {memoryMap : List MemoryRegion} (hsorted : Sorted memoryMap)
    (hboot : BootTables boot (usableFrames memoryMap))
    {s : Setup M MonotonicFrameAllocator}
    (h : (pagesSystem p boot memoryMap).Reach s) :
    PagesInv boot (usableFrames memoryMap) s := by
  have hnodup : (usableFrames memoryMap).Nodup := (usableFrames_pairwise hsorted).imp (by
    rintro f g hlt rfl
    exact UInt64.lt_irrefl _ hlt)
  refine Sys.Preserved.reach (I := PagesInv boot (usableFrames memoryMap)) ⟨?_, ?_⟩ h
  · rintro s ⟨hm, ha⟩
    have hinit := inv_boot hboot hnodup
    rw [← MonotonicFrameAllocator.remaining_init] at hinit
    rw [PagesInv, hm, ha, ← MonotonicFrameAllocator.remaining_init]
    exact hinit
  · intro s e s' _ hi hst
    cases hst with
    | createExampleMapping he => exact hi.createExampleMapping hboot.screen he
    | initHeap he => exact hi.initHeap he
    | createProcess he => exact hi.createProcess he
    | run => exact hi

end Runs

end Setup

/-! ## A bootloader -/

/-- One large page for the kernel, with the two tables above it. -/
def kernelTables : PageEntries := fun q =>
  if q = [0] then some ⟨⟨0x1000⟩, kernelFlags, false⟩
  else if q = [0, 0] then some ⟨⟨0x2000⟩, kernelFlags, false⟩
  else if q = [0, 0, 0] then some ⟨⟨0⟩, kernelFlags, true⟩
  else none

theorem kernelTables_some {q : List Nat} {e : Entry PhysFrame PageTableFlags}
    (h : kernelTables q = some e) :
    q = [0] ∧ e = ⟨⟨0x1000⟩, kernelFlags, false⟩ ∨ q = [0, 0] ∧ e = ⟨⟨0x2000⟩, kernelFlags, false⟩ ∨
      q = [0, 0, 0] ∧ e = ⟨⟨0⟩, kernelFlags, true⟩ := by
  unfold kernelTables at h
  split at h
  · next hq => exact .inl ⟨hq, (Option.some.inj h).symm⟩
  · split at h
    · next hq => exact .inr (.inl ⟨hq, (Option.some.inj h).symm⟩)
    · split at h
      · next hq => exact .inr (.inr ⟨hq, (Option.some.inj h).symm⟩)
      · cases h

/-- Sixteen usable frames at 1 MiB. -/
def smallMap : List MemoryRegion :=
  [⟨⟨0x4000, 0x100000, by decide, by decide, by decide, by decide⟩, .inUse⟩,
    ⟨⟨0x100000, 0x110000, by decide, by decide, by decide, by decide⟩, .usable⟩]

theorem bootTables_kernelTables : BootTables kernelTables (usableFrames smallMap) where
  closed q e h r hr hpre hne := by
    have hmem := (List.mem_inits r q).mpr hpre
    obtain ⟨rfl, -⟩ | ⟨rfl, -⟩ | ⟨rfl, -⟩ := kernelTables_some h
    · obtain rfl | rfl : r = [] ∨ r = [0] := by simpa [List.inits] using hmem
      · exact absurd rfl hr
      · exact absurd rfl hne
    · obtain rfl | rfl | rfl : r = [] ∨ r = [0] ∨ r = [0, 0] := by simpa [List.inits] using hmem
      · exact absurd rfl hr
      · exact ⟨_, rfl, rfl, trivial⟩
      · exact absurd rfl hne
    · obtain rfl | rfl | rfl | rfl : r = [] ∨ r = [0] ∨ r = [0, 0] ∨ r = [0, 0, 0] := by
        simpa [List.inits] using hmem
      · exact absurd rfl hr
      · exact ⟨_, rfl, rfl, trivial⟩
      · exact ⟨_, rfl, rfl, trivial⟩
      · exact absurd rfl hne
  kernelOnly q e h _ := by
    obtain ⟨-, rfl⟩ | ⟨-, rfl⟩ | ⟨-, rfl⟩ := kernelTables_some h
    all_goals rfl
  unmapped page hpage r hpre e h := by
    obtain rfl | rfl := hpage
    all_goals
      obtain ⟨rfl, -⟩ | ⟨rfl, -⟩ | ⟨rfl, -⟩ := kernelTables_some h
      all_goals exact absurd hpre (by decide)
  tables q e h _ hsmall := by
    obtain ⟨-, rfl⟩ | ⟨-, rfl⟩ | ⟨-, rfl⟩ := kernelTables_some h
    · decide
    · decide
    · cases hsmall
  screen := by decide

/-- A kernel that has just been loaded. -/
def loadedSetup : Setup PathTables MonotonicFrameAllocator :=
  ⟨⟨kernelTables⟩, .init smallMap, freshSetup.kernel, fun _ => 0⟩

end Apogee
