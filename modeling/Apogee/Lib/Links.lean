import Mathlib.Logic.Function.Basic
import Mathlib.Tactic.Common

/-!
# Singly linked nodes in memory

A node lies at an address, and has a content and a link to the next node. A `Slot` is a place that
holds a link: the head, or the link field of a node. Code that walks such a list with a pointer to a
slot can rewire it where it stands.

* `Chain m link l`: the link leads through the nodes of `l`, in order, to an empty link.
* `Seg m s l t`: from the slot `s` the links lead through the nodes of `l` to the slot `t`.
* `Chain.frame`, `Seg.frame`: a write outside the nodes of a chain or a segment keeps it.
-/

namespace Verif

/-- A node: its content, and the address of the next one. -/
structure Cell (α : Type) where
  val : α
  next : Option Nat

/-- Where a link is stored. -/
inductive Slot where
  | head
  | next (addr : Nat)
  deriving DecidableEq

/-- The head, and the nodes by address. -/
structure Links (α : Type) where
  head : Option Nat
  cell : Nat → Cell α

namespace Links

variable {α : Type} {m m' : Links α} {s t u : Slot} {a b : Nat} {l l₁ l₂ : List (Nat × α)}

/-- The link that a slot holds. -/
def read (m : Links α) : Slot → Option Nat
  | .head => m.head
  | .next a => (m.cell a).next

def set (m : Links α) (a : Nat) (c : Cell α) : Links α :=
  { m with cell := Function.update m.cell a c }

def setVal (m : Links α) (a : Nat) (v : α) : Links α := m.set a { m.cell a with val := v }

def setNext (m : Links α) (a : Nat) (next : Option Nat) : Links α :=
  m.set a { m.cell a with next := next }

@[simp] theorem set_cell (m : Links α) (a : Nat) (c : Cell α) : (m.set a c).cell a = c :=
  Function.update_self ..

theorem set_cell_of_ne (m : Links α) (c : Cell α) (h : b ≠ a) : (m.set a c).cell b = m.cell b :=
  Function.update_of_ne h ..

/-- From the link through the nodes of `l` to an empty link. -/
def Chain (m : Links α) : Option Nat → List (Nat × α) → Prop
  | link, [] => link = none
  | link, (a, v) :: l => link = some a ∧ (m.cell a).val = v ∧ m.Chain (m.cell a).next l

theorem Chain.frame {link : Option Nat} (h : m.Chain link l)
    (hcell : ∀ x ∈ l, m'.cell x.1 = m.cell x.1) : m'.Chain link l := by
  induction l generalizing link with
  | nil => exact h
  | cons x l ih =>
    obtain ⟨hlink, hval, hrest⟩ := h
    have hx := hcell x (.head _)
    refine ⟨hlink, ?_, ?_⟩
    · rw [hx, hval]
    · rw [hx]
      exact ih hrest fun y hy => hcell y (.tail _ hy)

/-- From the slot `s` through the nodes of `l` to the slot `t`. The link in `t` is not looked at. -/
def Seg (m : Links α) : Slot → List (Nat × α) → Slot → Prop
  | s, [], t => s = t
  | s, (a, v) :: l, t => m.read s = some a ∧ (m.cell a).val = v ∧ m.Seg (.next a) l t

theorem Seg.append (h₁ : m.Seg s l₁ t) (h₂ : m.Seg t l₂ u) : m.Seg s (l₁ ++ l₂) u := by
  induction l₁ generalizing s with
  | nil =>
    obtain rfl : s = t := h₁
    exact h₂
  | cons x l₁ ih =>
    obtain ⟨hread, hval, hrest⟩ := h₁
    exact ⟨hread, hval, ih hrest⟩

/-- A segment leads to the chain behind it. -/
theorem Seg.chain (h : m.Seg s l₁ t) (hrest : m.Chain (m.read t) l₂) :
    m.Chain (m.read s) (l₁ ++ l₂) := by
  induction l₁ generalizing s with
  | nil =>
    obtain rfl : s = t := h
    exact hrest
  | cons x l₁ ih =>
    obtain ⟨hread, hval, hseg⟩ := h
    exact ⟨hread, hval, ih hseg⟩

/-- A segment depends on its first slot and its own nodes. -/
theorem Seg.frame (h : m.Seg s l t) (hs : m'.read s = m.read s)
    (hcell : ∀ x ∈ l, m'.cell x.1 = m.cell x.1) : m'.Seg s l t := by
  induction l generalizing s with
  | nil => exact h
  | cons x l ih =>
    obtain ⟨hread, hval, hrest⟩ := h
    have hx := hcell x (.head _)
    refine ⟨hs.trans hread, ?_, ih hrest ?_ fun y hy => hcell y (.tail _ hy)⟩
    · rw [hx, hval]
    · show (m'.cell x.1).next = (m.cell x.1).next
      rw [hx]

/-- A segment with a last node ends in its link. -/
theorem Seg.last {x : Nat × α} (h : m.Seg s (l ++ [x]) t) :
    ∃ u, m.Seg s l u ∧ m.read u = some x.1 ∧ (m.cell x.1).val = x.2 ∧ t = .next x.1 := by
  induction l generalizing s with
  | nil =>
    obtain ⟨hread, hval, rfl⟩ := h
    exact ⟨s, rfl, hread, hval, rfl⟩
  | cons y l ih =>
    obtain ⟨hread, hval, hrest⟩ := h
    obtain ⟨u, hseg, hlast⟩ := ih hrest
    exact ⟨u, ⟨hread, hval, hseg⟩, hlast⟩

/-- The slot at the end of a segment is its first one, or the link of its last node. -/
theorem Seg.read_end (h : m.Seg s l t) (hs : m'.read s = m.read s)
    (hcell : ∀ x ∈ l, m'.cell x.1 = m.cell x.1) : m'.read t = m.read t := by
  induction l generalizing s with
  | nil =>
    obtain rfl : s = t := h
    exact hs
  | cons x l ih =>
    refine ih h.2.2 ?_ fun y hy => hcell y (.tail _ hy)
    show (m'.cell x.1).next = (m.cell x.1).next
    rw [hcell x (.head _)]

end Links

end Verif
