import Mathlib.Data.Set.Basic
import Mathlib.Data.List.Perm.Basic
import Mathlib.Algebra.BigOperators.Group.List.Basic
import Mathlib.Algebra.Order.Group.Nat
import Mathlib.Algebra.GroupWithZero.Nat
import Mathlib.Tactic.Common

/-!
# Spans of addresses and address-ordered lists of them

A span is a half-open range of addresses `[addr, addr + size)`. A list of spans stands for the
set of its bytes (`cover`).

* `Ordered l`: in address order, no two overlap. `Gapped l`: the same, and no two touch.
* `place a l` puts `a` in address order. If `a` is apart from the spans of `l`, the result is
  ordered (`Ordered.place`).
* `fuse l` joins touching neighbours in one pass from left to right. Of an ordered list it makes
  a gapped one with the same bytes (`Ordered.fuse_gapped`, `cover_fuse`).
* `apart_of_cover` moves "apart from every span of a list" to a list with fewer bytes.
* `Gapped.exists_of_window`: a run of bytes of a gapped list lies in one of its spans. So a gapped
  list is determined by its bytes (`Gapped.eq_of_cover`).
* `total l` counts the bytes. `fuse` and `place` keep count, a gapped list with as many bytes as its
  range is that range (`Gapped.eq_singleton`), and spans that are apart have at most the bytes of
  their range (`total_le_of_apart`).
-/

namespace Verif

/-- The addresses `[addr, addr + size)`. -/
@[ext] structure Span where
  addr : Nat
  size : Nat
  deriving DecidableEq, Repr

namespace Span

/-- One past the last address. -/
def stop (a : Span) : Nat := a.addr + a.size

/-- The addresses of a span. -/
def bytes (a : Span) : Set Nat := {x | a.addr ≤ x ∧ x < a.stop}

@[simp] theorem mem_bytes {a : Span} {x : Nat} : x ∈ a.bytes ↔ a.addr ≤ x ∧ x < a.stop := Iff.rfl

theorem bytes_eq_empty {a : Span} (h : a.size = 0) : a.bytes = ∅ := by
  ext x
  simp only [mem_bytes, stop, Set.mem_empty_iff_false, iff_false]
  omega

/-- Two spans do not overlap. -/
def Apart (a b : Span) : Prop := a.stop ≤ b.addr ∨ b.stop ≤ a.addr

theorem Apart.symm {a b : Span} (h : a.Apart b) : b.Apart a := Or.symm h

theorem Apart.not_mem {a b : Span} (h : a.Apart b) {x : Nat} (ha : x ∈ a.bytes) : x ∉ b.bytes := by
  simp only [Apart, mem_bytes] at *
  omega

/-- Nonempty spans without a common byte are apart. -/
theorem apart_of_disjoint {a b : Span} (ha : 0 < a.size) (hb : 0 < b.size)
    (h : ∀ x ∈ a.bytes, x ∉ b.bytes) : a.Apart b := by
  have hx := h (max a.addr b.addr)
  simp only [mem_bytes, Apart, stop] at *
  omega

/-- The span lies in `[lo, hi)`. -/
def Inside (lo hi : Nat) (a : Span) : Prop := lo ≤ a.addr ∧ a.stop ≤ hi

/-- The bytes of a list of spans. -/
def cover (l : List Span) : Set Nat := {x | ∃ a ∈ l, x ∈ a.bytes}

@[simp] theorem mem_cover {l : List Span} {x : Nat} : x ∈ cover l ↔ ∃ a ∈ l, x ∈ a.bytes := Iff.rfl

theorem cover_cons (a : Span) (l : List Span) : cover (a :: l) = a.bytes ∪ cover l := by
  ext x; simp

theorem cover_perm {l₁ l₂ : List Span} (h : l₁.Perm l₂) : cover l₁ = cover l₂ := by
  ext x; simp [h.mem_iff]

/-- A span that is apart from every span of `l` and from `c` is apart from every span of a list
whose bytes are among those of `l` and `c`. -/
theorem apart_of_cover {b c : Span} {l l' : List Span} (hb : 0 < b.size)
    (hpos : ∀ r ∈ l', 0 < r.size) (hl : ∀ r ∈ l, b.Apart r) (hc : b.Apart c)
    (hsub : cover l' ⊆ c.bytes ∪ cover l) : ∀ r ∈ l', b.Apart r := by
  intro r hr
  refine apart_of_disjoint hb (hpos r hr) fun x hx hxr => ?_
  rcases hsub ⟨r, hr, hxr⟩ with h | ⟨a, ha, hxa⟩
  · exact hc.not_mem hx h
  · exact (hl a ha).not_mem hx hxa

/-! ## Address order -/

/-- In address order, and no two overlap. -/
def Ordered (l : List Span) : Prop := l.Pairwise fun a b => a.stop ≤ b.addr

/-- In address order, and between any two there is a gap. -/
def Gapped (l : List Span) : Prop := l.Pairwise fun a b => a.stop < b.addr

theorem Gapped.ordered {l : List Span} (h : Gapped l) : Ordered l := h.imp Nat.le_of_lt

theorem Gapped.apart {l : List Span} (h : Gapped l) : l.Pairwise Apart :=
  h.imp fun h => .inl (Nat.le_of_lt h)

/-- `a` before the first span of the list that starts at or after it. -/
def place (a : Span) : List Span → List Span
  | [] => [a]
  | b :: l => if b.addr < a.addr then b :: place a l else a :: b :: l

theorem place_perm (a : Span) (l : List Span) : (place a l).Perm (a :: l) := by
  induction l with
  | nil => exact .refl _
  | cons b l ih =>
    unfold place
    split
    · exact (ih.cons b).trans (.swap a b l)
    · exact .refl _

@[simp] theorem mem_place {a x : Span} {l : List Span} : x ∈ place a l ↔ x = a ∨ x ∈ l := by
  rw [(place_perm a l).mem_iff, List.mem_cons]

/-- Where `a` is placed. -/
theorem exists_place (a : Span) (l : List Span) :
    ∃ pre post, l = pre ++ post ∧ place a l = pre ++ a :: post ∧ (∀ b ∈ pre, b.addr < a.addr) ∧
      ∀ b ∈ post.head?, a.addr ≤ b.addr := by
  induction l with
  | nil => exact ⟨[], [], rfl, rfl, by simp, by simp⟩
  | cons b l ih =>
    unfold place
    by_cases hlt : b.addr < a.addr
    · obtain ⟨pre, post, rfl, hplace, hpre, hpost⟩ := ih
      refine ⟨b :: pre, post, rfl, by rw [if_pos hlt, hplace]; rfl, fun c hc => ?_, hpost⟩
      rcases List.mem_cons.mp hc with rfl | hc
      · exact hlt
      · exact hpre c hc
    · refine ⟨[], b :: l, rfl, if_neg hlt, by simp, fun c hc => ?_⟩
      obtain rfl := Option.some.inj hc
      exact Nat.le_of_not_lt hlt

theorem cover_place (a : Span) (l : List Span) : cover (place a l) = a.bytes ∪ cover l := by
  rw [cover_perm (place_perm a l), cover_cons]

/-- A span apart from a nonempty one that starts before it lies after it. -/
theorem Apart.stop_le {a b : Span} (h : a.Apart b) (ha : 0 < a.size) (hlt : b.addr < a.addr) :
    b.stop ≤ a.addr := by
  rcases h with h | h
  · unfold stop at h; omega
  · exact h

theorem Ordered.place {a : Span} {l : List Span} (hl : Ordered l) (ha : 0 < a.size)
    (hpos : ∀ b ∈ l, 0 < b.size) (hap : ∀ b ∈ l, a.Apart b) : Ordered (place a l) := by
  induction l with
  | nil => exact List.pairwise_singleton _ _
  | cons b l ih =>
    obtain ⟨hb, hl'⟩ := List.pairwise_cons.mp hl
    unfold Span.place
    split
    · rename_i hlt
      refine List.pairwise_cons.mpr ⟨fun c hc => ?_, ih hl' (fun c hc => hpos c (.tail _ hc))
        fun c hc => hap c (.tail _ hc)⟩
      rcases mem_place.mp hc with rfl | hc
      · exact (hap b (.head _)).stop_le ha hlt
      · exact hb c hc
    · rename_i hge
      have hab : a.stop ≤ b.addr := by
        rcases hap b (.head _) with h | h
        · exact h
        · have := hpos b (.head _); unfold stop at h; omega
      refine List.pairwise_cons.mpr ⟨fun c hc => ?_, hl⟩
      rcases List.mem_cons.mp hc with rfl | hc
      · exact hab
      · have := hb c hc; unfold stop at *; omega

/-! ## Joining touching neighbours -/

/-- `a` and the spans after it, with touching neighbours joined. -/
def fuseFrom (a : Span) : List Span → List Span
  | [] => [a]
  | b :: l => if b.addr = a.stop then fuseFrom ⟨a.addr, a.size + b.size⟩ l else a :: fuseFrom b l

/-- The list with touching neighbours joined, in one pass. -/
def fuse : List Span → List Span
  | [] => []
  | a :: l => fuseFrom a l

theorem cover_fuseFrom (a : Span) (l : List Span) : cover (fuseFrom a l) = cover (a :: l) := by
  induction l generalizing a with
  | nil => rfl
  | cons b l ih =>
    unfold fuseFrom
    split
    · rename_i h
      rw [ih]
      ext x
      simp only [cover_cons, Set.mem_union, mem_bytes, stop] at *
      constructor
      · rintro (hx | hx)
        · omega
        · exact .inr (.inr hx)
      · rintro (hx | hx | hx)
        · left; omega
        · left; omega
        · exact .inr hx
    · rw [cover_cons, ih, ← cover_cons]

theorem cover_fuse (l : List Span) : cover (fuse l) = cover l := by
  cases l with
  | nil => rfl
  | cons a l => exact cover_fuseFrom a l

/-- Every span of the result starts where one of the list starts, and is at least as long. -/
theorem mem_fuseFrom {a c : Span} {l : List Span} (h : c ∈ fuseFrom a l) :
    ∃ b ∈ a :: l, c.addr = b.addr ∧ b.size ≤ c.size := by
  induction l generalizing a with
  | nil => exact ⟨a, .head _, by simp_all [fuseFrom]⟩
  | cons b l ih =>
    unfold fuseFrom at h
    split at h
    · obtain ⟨d, hd, h1, h2⟩ := ih h
      rcases List.mem_cons.mp hd with rfl | hd
      · exact ⟨a, .head _, h1, by simp only at h2; omega⟩
      · exact ⟨d, .tail _ (.tail _ hd), h1, h2⟩
    · rcases List.mem_cons.mp h with rfl | h
      · exact ⟨c, .head _, rfl, Nat.le_refl _⟩
      · obtain ⟨d, hd, h1, h2⟩ := ih h
        exact ⟨d, .tail _ hd, h1, h2⟩

theorem mem_fuse {c : Span} {l : List Span} (h : c ∈ fuse l) :
    ∃ b ∈ l, c.addr = b.addr ∧ b.size ≤ c.size := by
  cases l with
  | nil => simp [fuse] at h
  | cons a l => exact mem_fuseFrom h

theorem Ordered.fuseFrom_gapped {a : Span} {l : List Span} (h : Ordered (a :: l))
    (hpos : ∀ b ∈ l, 0 < b.size) : Gapped (fuseFrom a l) := by
  induction l generalizing a with
  | nil => exact List.pairwise_singleton _ _
  | cons b l ih =>
    obtain ⟨ha, hbl⟩ := List.pairwise_cons.mp h
    obtain ⟨hb, hl⟩ := List.pairwise_cons.mp hbl
    have hab := ha b (.head _)
    have hbpos := hpos b (.head _)
    have hpos' : ∀ c ∈ l, 0 < c.size := fun c hc => hpos c (.tail _ hc)
    unfold fuseFrom
    split
    · rename_i htouch
      refine ih (List.pairwise_cons.mpr ⟨fun c hc => ?_, hl⟩) hpos'
      have := hb c hc
      simp only [stop] at *
      omega
    · rename_i hgap
      refine List.pairwise_cons.mpr ⟨fun c hc => ?_, ih hbl hpos'⟩
      -- `c` starts at `b` or later, and `b` starts after a gap.
      obtain ⟨d, hd, hcd, -⟩ := mem_fuseFrom hc
      rcases List.mem_cons.mp hd with rfl | hd
      · omega
      · have := hb d hd
        simp only [stop] at *
        omega

theorem Ordered.fuse_gapped {l : List Span} (h : Ordered l) (hpos : ∀ b ∈ l, 0 < b.size) :
    Gapped (fuse l) := by
  cases l with
  | nil => exact .nil
  | cons a l => exact h.fuseFrom_gapped fun b hb => hpos b (.tail _ hb)

/-! ## Runs of bytes -/

theorem Gapped.eq_or_gap {l : List Span} (h : Gapped l) {a b : Span} (ha : a ∈ l) (hb : b ∈ l) :
    a = b ∨ a.stop < b.addr ∨ b.stop < a.addr := by
  induction l with
  | nil => cases ha
  | cons c l ih =>
    obtain ⟨hc, hl⟩ := List.pairwise_cons.mp h
    rcases List.mem_cons.mp ha with rfl | ha' <;> rcases List.mem_cons.mp hb with rfl | hb'
    · exact .inl rfl
    · exact .inr (.inl (hc b hb'))
    · exact .inr (.inr (hc a ha'))
    · exact ih hl ha' hb'

/-- No run of free bytes spreads over two spans. -/
theorem Gapped.exists_of_window {l : List Span} (h : Gapped l) {w : Span} (hw : 0 < w.size)
    (hsub : w.bytes ⊆ cover l) : ∃ r ∈ l, r.addr ≤ w.addr ∧ w.stop ≤ r.stop := by
  obtain ⟨r, hr, hlo, hhi⟩ := hsub (show w.addr ∈ w.bytes by simp only [mem_bytes, stop]; omega)
  refine ⟨r, hr, hlo, Nat.le_of_not_lt fun hlt => ?_⟩
  -- The first byte after `r` is in the window, so it is in a span that touches `r`.
  obtain ⟨q, hq, hqlo, hqhi⟩ := hsub (show r.stop ∈ w.bytes from ⟨hhi.le, hlt⟩)
  rcases h.eq_or_gap hr hq with rfl | hgap | hgap
  · omega
  · omega
  · unfold stop at *
    omega

theorem Gapped.subset_of_cover {l₁ l₂ : List Span} (h₁ : Gapped l₁) (h₂ : Gapped l₂)
    (hpos₁ : ∀ r ∈ l₁, 0 < r.size) (hpos₂ : ∀ r ∈ l₂, 0 < r.size) (hc : cover l₁ = cover l₂) :
    l₁ ⊆ l₂ := by
  intro a ha
  have hapos := hpos₁ a ha
  obtain ⟨b, hb, hlo, hhi⟩ := h₂.exists_of_window hapos fun x hx => hc ▸ ⟨a, ha, hx⟩
  obtain ⟨c, hc', hlo', hhi'⟩ := h₁.exists_of_window (hpos₂ b hb) fun x hx => hc ▸ ⟨b, hb, hx⟩
  rcases h₁.eq_or_gap ha hc' with rfl | hgap | hgap
  · obtain rfl : a = b := Span.ext (by omega) (by unfold stop at *; omega)
    exact hb
  · unfold stop at *
    omega
  · unfold stop at *
    omega

theorem Gapped.nodup {l : List Span} (h : Gapped l) : l.Nodup := by
  refine h.imp fun {a b} hab heq => ?_
  subst heq
  unfold stop at hab
  omega

/-- A gapped list of nonempty spans is determined by its bytes. -/
theorem Gapped.eq_of_cover {l₁ l₂ : List Span} (h₁ : Gapped l₁) (h₂ : Gapped l₂)
    (hpos₁ : ∀ r ∈ l₁, 0 < r.size) (hpos₂ : ∀ r ∈ l₂, 0 < r.size) (hc : cover l₁ = cover l₂) :
    l₁ = l₂ := by
  have hperm : l₁.Perm l₂ := (List.perm_ext_iff_of_nodup h₁.nodup h₂.nodup).mpr fun a =>
    ⟨fun ha => h₁.subset_of_cover h₂ hpos₁ hpos₂ hc ha,
      fun ha => h₂.subset_of_cover h₁ hpos₂ hpos₁ hc.symm ha⟩
  refine hperm.eq_of_pairwise ?_ h₁ h₂
  intro a b _ _ hab hba
  unfold stop at *
  omega

/-! ## Counting bytes -/

/-- The number of bytes of spans that are apart. -/
def total (l : List Span) : Nat := (l.map size).sum

@[simp] theorem total_nil : total [] = 0 := rfl

@[simp] theorem total_cons (a : Span) (l : List Span) : total (a :: l) = a.size + total l := by
  simp [total]

@[simp] theorem total_append (l₁ l₂ : List Span) : total (l₁ ++ l₂) = total l₁ + total l₂ := by
  simp [total]

theorem total_flatMap {ι : Type} (f : ι → List Span) (is : List ι) :
    total (is.flatMap f) = (is.map fun i => total (f i)).sum := by
  induction is with
  | nil => rfl
  | cons i is ih => rw [List.flatMap_cons, total_append, ih, List.map_cons, List.sum_cons]

theorem total_perm {l₁ l₂ : List Span} (h : l₁.Perm l₂) : total l₁ = total l₂ :=
  (h.map size).sum_eq

theorem total_fuseFrom (a : Span) (l : List Span) : total (fuseFrom a l) = total (a :: l) := by
  induction l generalizing a with
  | nil => rfl
  | cons b l ih =>
    unfold fuseFrom
    split
    · rw [ih]
      simp only [total_cons]
      omega
    · rw [total_cons, ih, ← total_cons]

theorem total_fuse (l : List Span) : total (fuse l) = total l := by
  cases l with
  | nil => rfl
  | cons a l => exact total_fuseFrom a l

theorem total_place (a : Span) (l : List Span) : total (place a l) = a.size + total l := by
  rw [total_perm (place_perm a l), total_cons]

/-- Every gap takes a byte of the range. -/
theorem Gapped.total_le {lo hi : Nat} {a : Span} {l : List Span} (h : Gapped (a :: l))
    (hin : ∀ r ∈ a :: l, r.Inside lo hi) : total (a :: l) + l.length ≤ hi - lo := by
  induction l generalizing a lo with
  | nil =>
    obtain ⟨hlo, hhi⟩ := hin a (.head _)
    simp only [total_cons, total_nil, List.length_nil, stop] at *
    omega
  | cons b l ih =>
    obtain ⟨ha, hl⟩ := List.pairwise_cons.mp h
    obtain ⟨hlo, hhi⟩ := hin a (.head _)
    -- The spans after `a` lie in what is left of the range behind the gap.
    have hrest : ∀ r ∈ b :: l, r.Inside (a.stop + 1) hi := fun r hr =>
      ⟨ha r hr, (hin r (.tail _ hr)).2⟩
    have hb := (hin b (.tail _ (.head _))).2
    have hab := ha b (.head _)
    have hle := ih hl hrest
    simp only [total_cons, List.length_cons, stop] at *
    omega

theorem Ordered.total_le {lo hi : Nat} {l : List Span} (h : Ordered l)
    (hin : ∀ r ∈ l, r.Inside lo hi) : total l ≤ hi - lo := by
  induction l generalizing lo with
  | nil => exact Nat.zero_le _
  | cons a l ih =>
    obtain ⟨ha, hl⟩ := List.pairwise_cons.mp h
    obtain ⟨hlo, hhi⟩ := hin a (.head _)
    have hle := ih hl fun r hr => ⟨ha r hr, (hin r (.tail _ hr)).2⟩
    rw [total_cons]
    unfold stop at *
    omega

/-- Spans that are apart can be put in address order. -/
theorem exists_ordered {l : List Span} (h : l.Pairwise Apart) (hpos : ∀ r ∈ l, 0 < r.size) :
    ∃ l', l'.Perm l ∧ Ordered l' := by
  induction l with
  | nil => exact ⟨[], .refl _, .nil⟩
  | cons a l ih =>
    obtain ⟨ha, hl⟩ := List.pairwise_cons.mp h
    obtain ⟨l', hperm, hord⟩ := ih hl fun r hr => hpos r (.tail _ hr)
    refine ⟨place a l', (place_perm a l').trans (hperm.cons a), hord.place (hpos a (.head _)) ?_ ?_⟩
    · exact fun r hr => hpos r (.tail _ (hperm.mem_iff.mp hr))
    · exact fun r hr => ha r (hperm.mem_iff.mp hr)

/-- Spans that are apart have no more bytes than the range they lie in. -/
theorem total_le_of_apart {lo hi : Nat} {l : List Span} (h : l.Pairwise Apart)
    (hpos : ∀ r ∈ l, 0 < r.size) (hin : ∀ r ∈ l, r.Inside lo hi) : total l ≤ hi - lo := by
  obtain ⟨l', hperm, hord⟩ := exists_ordered h hpos
  rw [← total_perm hperm]
  exact hord.total_le fun r hr => hin r (hperm.mem_iff.mp hr)

/-- A gapped list that has as many bytes as its range is one span, the range. -/
theorem Gapped.eq_singleton {lo hi : Nat} {l : List Span} (h : Gapped l)
    (hin : ∀ r ∈ l, r.Inside lo hi) (hlt : lo < hi) (htotal : total l = hi - lo) :
    l = [⟨lo, hi - lo⟩] := by
  cases l with
  | nil =>
    rw [total_nil] at htotal
    omega
  | cons a l =>
    have hle := h.total_le hin
    obtain rfl : l = [] := List.eq_nil_of_length_eq_zero (by omega)
    obtain ⟨hlo, hhi⟩ := hin a (.head _)
    simp only [total_cons, total_nil, stop] at *
    have ha : a = ⟨lo, hi - lo⟩ := Span.ext (show a.addr = lo by omega) htotal
    rw [ha]

end Span

end Verif
