import Mathlib.Init

/-!
# Bounded queues

A first-in first-out queue with a fixed capacity. `push` fails on a full queue and gives no new
queue; `pop` fails on an empty one. The capacity bound is part of the type.

`Served` is the order of service of a queue without a bound: what a queue had at some time is the
start of what it served since and still has. `Served.eq_of_first`: an element that goes to the back
comes to the front after exactly those that were before it.
-/

namespace Verif

/-- A queue of at most `cap` elements, oldest first. -/
structure BQueue (α : Type) (cap : Nat) where
  elems : List α
  length_le : elems.length ≤ cap
  deriving DecidableEq

namespace BQueue

variable {α : Type} {cap : Nat} {q q' : BQueue α cap} {x y : α}

def empty : BQueue α cap := ⟨[], Nat.zero_le _⟩

/-- The queue with `x` at its end, if there is room. -/
def push (q : BQueue α cap) (x : α) : Option (BQueue α cap) :=
  if h : q.elems.length < cap then
    some ⟨q.elems ++ [x], by rw [List.length_append]; exact h⟩
  else
    none

/-- The oldest element and the queue without it. -/
def pop (q : BQueue α cap) : Option (α × BQueue α cap) :=
  match q with
  | ⟨[], _⟩ => none
  | ⟨x :: xs, h⟩ => some (x, ⟨xs, Nat.le_of_succ_le h⟩)

def isEmpty (q : BQueue α cap) : Bool := q.elems.isEmpty

theorem push_elems (h : q.push x = some q') : q'.elems = q.elems ++ [x] := by
  unfold push at h
  split at h
  · rw [← Option.some.inj h]
  · cases h

theorem push_of_lt (q : BQueue α cap) (x : α) (h : q.elems.length < cap) :
    ∃ q', q.push x = some q' :=
  ⟨_, dif_pos h⟩

theorem push_eq_none (h : q.elems.length = cap) : q.push x = none :=
  dif_neg (by omega)

/-- A push that is dropped on a full queue. -/
theorem getD_push_elems (q : BQueue α cap) (x : α) :
    ((q.push x).getD q).elems = q.elems ++ if q.elems.length = cap then [] else [x] := by
  have hle := q.length_le
  unfold push
  split
  · next hlt => rw [if_neg (by omega)]; rfl
  · next hge => rw [if_pos (by omega), List.append_nil]; rfl

theorem pop_elems (h : q.pop = some (x, q')) : q.elems = x :: q'.elems := by
  unfold pop at h
  split at h
  · cases h
  · obtain ⟨rfl, rfl⟩ := Prod.mk.inj (Option.some.inj h)
    rfl

theorem pop_eq_none : q.pop = none ↔ q.elems = [] := by
  unfold pop
  split <;> simp

theorem isEmpty_iff : q.isEmpty = true ↔ q.elems = [] := List.isEmpty_iff

theorem mem_push (h : q.push x = some q') : y ∈ q'.elems ↔ y ∈ q.elems ∨ y = x := by
  rw [push_elems h, List.mem_append, List.mem_singleton]

/-- A pop takes out one element. -/
theorem mem_of_pop (h : q.pop = some (x, q')) (hy : y ∈ q.elems) (hne : y ≠ x) :
    y ∈ q'.elems := by
  rw [pop_elems h] at hy
  exact (List.mem_cons.mp hy).resolve_left hne

end BQueue

/-! ## Order of service -/

/-- A queue that had `q₀` served `served` since then and now has `q`. -/
def Served {α : Type} (q₀ served q : List α) : Prop := q₀ <+: served ++ q

namespace Served

variable {α : Type} {q₀ served q : List α} {x : α}

theorem refl (q : List α) : Served q [] q := List.prefix_refl q

theorem push (h : Served q₀ served q) (x : α) : Served q₀ served (q ++ [x]) := by
  unfold Served
  rw [← List.append_assoc]
  exact h.trans (List.prefix_append _ _)

theorem pop (h : Served q₀ served (x :: q)) : Served q₀ (served ++ [x]) q := by
  unfold Served
  rw [List.append_assoc]
  exact h

/-- An element served at once, before what follows. -/
theorem cons (h : Served q₀ served q) (x : α) : Served (x :: q₀) (x :: served) q :=
  (List.prefix_cons_inj x).mpr h

/-- The elements are served in their order. -/
theorem getElem?_eq (h : Served q₀ served q) {k : Nat} (hq : k < q₀.length)
    (hs : k < served.length) : served[k]? = q₀[k]? := by
  have hk := List.prefix_iff_getElem?.mp h k hq
  rw [List.getElem?_append_left hs] at hk
  rw [hk, List.getElem?_eq_getElem hq]

/-- The first service of the last element comes after exactly the elements before it. -/
theorem eq_of_first {before later : List α} (h : Served (q₀ ++ [x]) (before ++ x :: later) q)
    (hq : x ∉ q₀) (hb : x ∉ before) : before = q₀ := by
  induction q₀ generalizing before with
  | nil =>
    cases before with
    | nil => rfl
    | cons y before =>
      obtain ⟨rfl, -⟩ := List.cons_prefix_cons.mp h
      exact absurd (.head _) hb
  | cons y q₀ ih =>
    cases before with
    | nil =>
      obtain ⟨rfl, -⟩ := List.cons_prefix_cons.mp h
      exact absurd (.head _) hq
    | cons z before =>
      obtain ⟨rfl, h'⟩ := List.cons_prefix_cons.mp h
      rw [ih h' (fun hm => hq (.tail _ hm)) fun hm => hb (.tail _ hm)]

end Served

end Verif
