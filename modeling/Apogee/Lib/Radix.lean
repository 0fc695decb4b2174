import Mathlib.Logic.Function.Basic
import Mathlib.Logic.Relation

/-!
# Multi-level translation tables

Tables of tables, as hardware walks them. A path of indices from the root leads to an entry, which
is another table, or a mapping at the last level, or a large mapping above it. Entries have flags,
and an access needs its right in every entry on the way.

* `walk ρ`: what the hardware finds for an access that needs the right `ρ`. `walk_some` and
  `walk_of_prefixes` describe it by the entries on the way.
* `Edit`: the single changes on the way to map a path. A table that is missing is created in a frame
  from an allocator, the flags for tables are added to one that is there, and at the end the mapping
  is written. `Edits` are any number of them, and `Edits.keeps` is the rule for invariants: what
  every edit keeps, they keep.
* `mapFrom`: maps one path with these edits (`mapFrom_edits`), however it ends.
-/

namespace Verif

/-- An entry with its frame. `large` tells a mapping above the last level from a table. -/
structure Entry (Φ Λ : Type) where
  frame : Φ
  flags : Λ
  large : Bool

/-- The entry that a path from the root leads to. -/
abbrev Tables (ι Φ Λ : Type) := List ι → Option (Entry Φ Λ)

/-- Why a path was not mapped. -/
inductive MapFailure where
  | noFrame
  | large
  | used

namespace Tables

variable {ι Φ Λ A : Type} {t : Tables ι Φ Λ} {q r rest : List ι} {e : Entry Φ Λ} {ρ : Λ → Bool}

/-- The entry that maps `q ++ rest`, where `q` is the way so far and every entry after it must have
the right `ρ`. -/
def walk (ρ : Λ → Bool) (t : Tables ι Φ Λ) (q : List ι) : List ι → Option (Entry Φ Λ)
  | [] => none
  | i :: rest =>
    match t (q ++ [i]) with
    | none => none
    | some e =>
      if ρ e.flags then
        if rest.isEmpty || e.large then some e else walk ρ t (q ++ [i]) rest
      else none

/-- A walk ends in an entry with the right, at the end of the path or at a large one before. -/
theorem walk_some (h : walk ρ t q rest = some e) : ∃ r, r ≠ [] ∧ r <+: rest ∧
    t (q ++ r) = some e ∧ ρ e.flags = true ∧ (r = rest ∨ e.large = true) := by
  induction rest generalizing q with
  | nil => cases h
  | cons i rest ih =>
    unfold walk at h
    split at h
    · cases h
    · next e' he' =>
      split at h
      · next hρ =>
        split at h
        · next hend =>
          obtain rfl := Option.some.inj h
          refine ⟨[i], nofun, by simp, he', hρ, ?_⟩
          simpa using hend
        · obtain ⟨r, -, hr, he, hright, hend⟩ := ih h
          refine ⟨i :: r, nofun, by simpa using hr, ?_, hright, hend.imp_left (congrArg (i :: ·))⟩
          rwa [List.append_assoc] at he
      · cases h

/-- A walk along tables that have the right gets to the end. -/
theorem walk_of_prefixes (hne : rest ≠ []) (he : t (q ++ rest) = some e) (hρ : ρ e.flags = true)
    (h : ∀ r, r ≠ [] → r <+: rest → r ≠ rest →
      ∃ e, t (q ++ r) = some e ∧ e.large = false ∧ ρ e.flags = true) :
    walk ρ t q rest = some e := by
  induction rest generalizing q with
  | nil => exact absurd rfl hne
  | cons i rest ih =>
    unfold walk
    cases rest with
    | nil => simp [he, hρ]
    | cons j rest =>
      obtain ⟨e', he', hsmall, hright⟩ := h [i] nofun (by simp) (by simp)
      simp only [he', hright, hsmall, if_true, List.isEmpty_cons, Bool.or_self,
        Bool.false_eq_true, if_false]
      refine ih nofun (by rwa [List.append_assoc]) fun r hr hpre hlt => ?_
      rw [List.append_assoc]
      exact h (i :: r) nofun (by simpa using hpre) (by simpa using hlt)

/-- The tables on the way to `q`, without `q`, are there. -/
def Above (t : Tables ι Φ Λ) (q : List ι) (P : Entry Φ Λ → Prop) : Prop :=
  ∀ r, r ≠ [] → r <+: q → r ≠ q → ∃ e, t r = some e ∧ e.large = false ∧ P e

/-- Every entry is in a table. -/
def Closed (t : Tables ι Φ Λ) : Prop := ∀ q e, t q = some e → Above t q fun _ => True

/-- An entry at a longer path is no change to a shorter one. -/
theorem ne_concat {i : ι} (h : r <+: q) : r ≠ q ++ [i] := fun heq => by
  have hlen := h.length_le
  rw [heq, List.length_append, List.length_singleton] at hlen
  omega

theorem Above.mono {P Q : Entry Φ Λ → Prop} (h : Above t q P) (hPQ : ∀ e, P e → Q e) :
    Above t q Q := fun r hr hpre hne => by
  obtain ⟨e, he, hsmall, hP⟩ := h r hr hpre hne
  exact ⟨e, he, hsmall, hPQ e hP⟩

/-- The next level, with a table at `q ++ [i]` and the tables above as they were. -/
theorem Above.next {P : Entry Φ Λ → Prop} {t' : Tables ι Φ Λ} {i j : ι} (h : Above t (q ++ [i]) P)
    (hkeep : ∀ r, r <+: q → t' r = t r) {e : Entry Φ Λ} (he : t' (q ++ [i]) = some e)
    (hsmall : e.large = false) (hP : P e) : Above t' (q ++ [i] ++ [j]) P := by
  intro r hr hpre hne
  obtain rfl | hpre := List.prefix_concat_iff.mp hpre
  · exact absurd rfl hne
  · obtain rfl | hpre := List.prefix_concat_iff.mp hpre
    · exact ⟨e, he, hsmall, hP⟩
    · obtain ⟨e', he', hs', hP'⟩ := h r hr (hpre.trans (List.prefix_append _ _)) (ne_concat hpre)
      exact ⟨e', (hkeep r hpre).trans he', hs', hP'⟩

variable [DecidableEq ι]

/-- The tables with a new, empty table at `q`. -/
def newTable (t : Tables ι Φ Λ) (q : List ι) (e : Entry Φ Λ) : Tables ι Φ Λ := fun r =>
  if r = q then some e else if q <+: r then none else t r

theorem newTable_of_closed (ht : Closed t) (hq : q ≠ []) (h : t q = none) (e : Entry Φ Λ) :
    t.newTable q e = Function.update t q (some e) := by
  funext r
  by_cases hr : r = q
  · rw [hr, Function.update_self]
    exact if_pos rfl
  · rw [Function.update_of_ne hr]
    unfold newTable
    rw [if_neg hr]
    split
    · next hpre =>
      cases he : t r with
      | none => rfl
      | some e' =>
        obtain ⟨e'', he'', -⟩ := ht r e' he q hq hpre fun heq => hr heq.symm
        rw [h] at he''
        cases he''
    · rfl

/-- The tables on the way to the new one are as they were. -/
theorem newTable_of_prefix {i : ι} (h : r <+: q) : t.newTable (q ++ [i]) e r = t r := by
  unfold newTable
  rw [if_neg (ne_concat h), if_neg]
  intro hpre
  have hlen := (hpre.trans h).length_le
  rw [List.length_append, List.length_singleton] at hlen
  omega

section Map

variable (alloc : A → Option Φ × A) (join : Λ → Λ → Λ) (frame : Φ) (flags parent : Λ)

/-- The table has the flags that tables get. -/
def HasFlags (e : Entry Φ Λ) : Prop := e.flags = parent ∨ ∃ l, e.flags = join l parent

/-- A single change on the way to map `path`. -/
inductive Edit (path : List ι) : Tables ι Φ Λ × A → Tables ι Φ Λ × A → Prop
  | exhausted {t : Tables ι Φ Λ} {a a' : A} : alloc a = (none, a') → Edit path (t, a) (t, a')
  | table {t : Tables ι Φ Λ} {a a' : A} {q : List ι} {f : Φ} : q ≠ [] → q <+: path → q ≠ path →
      t q = none → Above t q (fun _ => True) → alloc a = (some f, a') →
      Edit path (t, a) (t.newTable q ⟨f, parent, false⟩, a')
  | widen {t : Tables ι Φ Λ} {a : A} {q : List ι} {e : Entry Φ Λ} : q ≠ [] → q <+: path →
      q ≠ path → t q = some e →
      Edit path (t, a) (Function.update t q (some { e with flags := join e.flags parent }), a)
  | leaf {t : Tables ι Φ Λ} {a : A} : t path = none → Above t path (HasFlags join parent) →
      Edit path (t, a) (Function.update t path (some ⟨frame, flags, false⟩), a)

/-- Any number of edits. -/
abbrev Edits (path : List ι) : Tables ι Φ Λ × A → Tables ι Φ Λ × A → Prop :=
  Relation.ReflTransGen (Edit alloc join frame flags parent path)

/-- Maps `q ++ rest` to the frame, where the tables up to `q` are there. -/
def mapFrom : List ι → List ι → Tables ι Φ Λ → A →
    Except MapFailure Unit × Tables ι Φ Λ × A
  | _, [], t, a => (.ok (), t, a)
  | q, [i], t, a =>
    match t (q ++ [i]) with
    | some _ => (.error .used, t, a)
    | none => (.ok (), Function.update t (q ++ [i]) (some ⟨frame, flags, false⟩), a)
  | q, i :: j :: rest, t, a =>
    match t (q ++ [i]) with
    | none =>
      match alloc a with
      | (none, a) => (.error .noFrame, t, a)
      | (some f, a) => mapFrom (q ++ [i]) (j :: rest) (t.newTable (q ++ [i]) ⟨f, parent, false⟩) a
    | some e =>
      let t := Function.update t (q ++ [i]) (some { e with flags := join e.flags parent })
      if e.large then (.error .large, t, a) else mapFrom (q ++ [i]) (j :: rest) t a

variable {alloc join frame flags parent}

/-- What every edit keeps, edits keep. -/
theorem Edits.keeps {I : Tables ι Φ Λ × A → Prop} {path : List ι} {x y : Tables ι Φ Λ × A}
    (hI : ∀ x y, I x → Edit alloc join frame flags parent path x y → I y)
    (h : Edits alloc join frame flags parent path x y) (hx : I x) : I y := by
  induction h with
  | refl => exact hx
  | tail _ hst ih => exact hI _ _ ih hst

/-- An edit of closed tables removes no entry. -/
theorem Edit.ne_none {path : List ι} {x y : Tables ι Φ Λ × A}
    (h : Edit alloc join frame flags parent path x y) (ht : Closed x.1) (hr : x.1 r ≠ none) :
    y.1 r ≠ none := by
  have hupdate : ∀ (q : List ι) (e : Entry Φ Λ), Function.update x.1 q (some e) r ≠ none := by
    intro q e
    by_cases hq : r = q
    · rw [hq, Function.update_self]
      exact Option.some_ne_none e
    · rwa [Function.update_of_ne hq]
  cases h with
  | exhausted => exact hr
  | table hq _ _ hnone =>
    rw [newTable_of_closed ht hq hnone]
    exact hupdate _ _
  | widen => exact hupdate _ _
  | leaf => exact hupdate _ _

/-- `mapFrom` makes edits only, and its success has mapped the path. -/
theorem mapFrom_edits {x : Tables ι Φ Λ × A} {path : List ι} {a a' : A} {t' : Tables ι Φ Λ}
    {res : Except MapFailure Unit} (hpath : q ++ rest = path) (hne : rest ≠ [])
    (habove : ∀ i, Above t (q ++ [i]) (HasFlags join parent))
    (h : mapFrom alloc join frame flags parent q rest t a = (res, t', a'))
    (hx : Edits alloc join frame flags parent path x (t, a)) :
    Edits alloc join frame flags parent path x (t', a') ∧
      (res = .ok () → t' path = some ⟨frame, flags, false⟩) := by
  induction rest generalizing q t a with
  | nil => exact absurd rfl hne
  | cons i rest ih =>
    cases rest with
    | nil =>
      have hleaf := habove i
      rw [hpath] at hleaf
      unfold mapFrom at h
      rw [hpath] at h
      split at h
      · cases h
        exact ⟨hx, nofun⟩
      · next hnone =>
        cases h
        exact ⟨hx.tail (.leaf hnone hleaf), fun _ => Function.update_self ..⟩
    | cons j rest =>
      have hpre : q ++ [i] <+: path := ⟨j :: rest, by rw [← hpath]; simp⟩
      have hlt : q ++ [i] ≠ path := fun heq => by
        rw [← hpath] at heq
        simp at heq
      have hnil : q ++ [i] ≠ [] := by simp
      have hpath' : q ++ [i] ++ j :: rest = path := by rw [← hpath]; simp
      unfold mapFrom at h
      split at h
      · next hnone =>
        split at h
        · next a₁ hfail =>
          cases h
          exact ⟨hx.tail (.exhausted hfail), nofun⟩
        · next f a₁ hf =>
          have hnew := hx.tail (.table hnil hpre hlt hnone
            ((habove i).mono fun _ _ => trivial) hf)
          refine ih hpath' nofun (fun k => ?_) h hnew
          exact (habove i).next (fun r hr => newTable_of_prefix hr) (if_pos rfl) rfl (.inl rfl)
      · next e he =>
        simp only at h
        have hwide := hx.tail (.widen hnil hpre hlt he)
        split at h
        · cases h
          exact ⟨hwide, nofun⟩
        · next hsmall =>
          refine ih hpath' nofun (fun k => ?_) h hwide
          exact (habove i).next
            (fun r hr => Function.update_of_ne (ne_concat hr) ..)
            (Function.update_self ..) (by simpa using hsmall) (.inr ⟨_, rfl⟩)

end Map

end Tables

end Verif
