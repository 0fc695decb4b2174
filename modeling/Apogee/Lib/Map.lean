import Mathlib.Data.Finmap
import Mathlib.Tactic.Common

/-!
# Ordered maps

A map from keys to values of one type, as Mathlib's `Finmap`. The order of the keys is not
observed, so a `BTreeMap` is one.

* `get?` with `get?_insert`, `get?_erase`: a lookup after an update, at any key. Its type does not
  depend on the key, unlike that of `Finmap.lookup`.
* `size`: the number of entries, and what `insert` and `erase` do to it.
* `adjust k f m`: the map after a change of the value at `k` through a mutable reference.
-/

namespace Verif

/-- A finite map from `κ` to `ν`. -/
abbrev FMap (κ ν : Type) := Finmap fun _ : κ => ν

namespace FMap

variable {κ ν : Type} [DecidableEq κ] {m : FMap κ ν} {k a : κ} {v : ν}

/-- `m.get(&k)`. -/
def get? (m : FMap κ ν) (k : κ) : Option ν := Finmap.lookup k m

theorem mem_iff : k ∈ m ↔ ∃ v, m.get? k = some v := Finmap.mem_iff

theorem mem_of_get? (h : m.get? k = some v) : k ∈ m := Finmap.mem_of_lookup_eq_some h

theorem get?_eq_none : m.get? k = none ↔ k ∉ m := Finmap.lookup_eq_none

theorem get?_insert (m : FMap κ ν) (k : κ) (v : ν) (a : κ) :
    get? (m.insert k v) a = if a = k then some v else m.get? a := by
  by_cases h : a = k
  · subst h; rw [if_pos rfl]; exact Finmap.lookup_insert m
  · rw [if_neg h]; exact Finmap.lookup_insert_of_ne m h

theorem get?_erase (m : FMap κ ν) (k a : κ) :
    get? (m.erase k) a = if a = k then none else m.get? a := by
  by_cases h : a = k
  · subst h; rw [if_pos rfl]; exact Finmap.lookup_erase a m
  · rw [if_neg h]; exact Finmap.lookup_erase_ne h

@[simp] theorem get?_empty (a : κ) : get? (∅ : FMap κ ν) a = none := Finmap.lookup_empty a

theorem erase_insert (m : FMap κ ν) (k : κ) (v : ν) : (m.insert k v).erase k = m.erase k := by
  refine Finmap.ext_lookup fun a => ?_
  show get? ((m.insert k v).erase k) a = get? (m.erase k) a
  rw [get?_erase, get?_erase, get?_insert]
  by_cases h : a = k
  · rw [if_pos h, if_pos h]
  · rw [if_neg h, if_neg h, if_neg h]

/-- `m.len()`. -/
def size (m : FMap κ ν) : Nat := m.keys.card

theorem keys_insert (m : FMap κ ν) (k : κ) (v : ν) :
    (m.insert k v).keys = Insert.insert k m.keys := by
  ext a
  simp [Finmap.mem_keys, Finmap.mem_insert]

theorem size_insert (v : ν) (h : k ∉ m) : size (m.insert k v) = size m + 1 := by
  unfold size
  rw [keys_insert, Finset.card_insert_of_notMem (by rwa [Finmap.mem_keys])]

theorem size_insert_of_mem (v : ν) (h : k ∈ m) : size (m.insert k v) = size m := by
  unfold size
  rw [keys_insert, Finset.insert_eq_self.mpr (by rwa [Finmap.mem_keys])]

theorem size_erase (h : k ∈ m) : size (m.erase k) + 1 = size m := by
  unfold size
  rw [Finmap.keys_erase]
  exact Finset.card_erase_add_one (by rwa [Finmap.mem_keys])

/-- A list of different keys is no longer than the map. -/
theorem length_le_size {l : List κ} (hn : l.Nodup) (h : ∀ k ∈ l, k ∈ m) : l.length ≤ size m := by
  unfold size
  rw [← List.toFinset_card_of_nodup hn]
  apply Finset.card_le_card
  intro k hk
  rw [Finmap.mem_keys]
  exact h k (List.mem_toFinset.mp hk)

/-- `if let Some(v) = m.get_mut(&k) { *v = f(*v) }`. -/
def adjust (k : κ) (f : ν → ν) (m : FMap κ ν) : FMap κ ν :=
  match m.get? k with
  | some v => m.insert k (f v)
  | none => m

theorem get?_adjust (k : κ) (f : ν → ν) (m : FMap κ ν) (a : κ) :
    (adjust k f m).get? a = if a = k then (m.get? a).map f else m.get? a := by
  unfold adjust
  cases h : m.get? k with
  | none =>
    by_cases ha : a = k
    · subst ha; simp [h]
    · simp [ha]
  | some v =>
    show get? (m.insert k (f v)) a = _
    rw [get?_insert]
    by_cases ha : a = k
    · subst ha; simp [h]
    · simp [ha]

@[simp] theorem mem_adjust (f : ν → ν) : a ∈ adjust k f m ↔ a ∈ m := by
  rw [mem_iff, mem_iff, get?_adjust]
  by_cases ha : a = k <;> simp [ha]

@[simp] theorem size_adjust (f : ν → ν) : size (adjust k f m) = size m := by
  unfold size
  congr 1
  ext a
  rw [Finmap.mem_keys, Finmap.mem_keys, mem_adjust]

end FMap

end Verif
