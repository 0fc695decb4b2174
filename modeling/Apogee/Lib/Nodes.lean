import Mathlib.Data.Set.Basic
import Apogee.Lib.Links
import Apogee.Lib.Stack
import Apogee.Lib.Word

/-!
# Linked nodes as words of memory

A node at the address `a` is two words: its content at `a` and its link at `a + 8`. The null pointer
is no link. Nodes in memory have the cells of a `Links` (`Nodes.links`), but a store to one node is
a store to memory: it keeps the cells of another node only if the two have no word in common.

* `cell_setVal`, `cell_setNext`: a store changes the cell it is for. `cell_setVal_of_spaced`,
  `cell_setNext_of_spaced`: and no cell of a node apart from it.
* `Seg.write`: a segment of nodes that are apart survives a store to the slot it ends in.
* `Mem.ChangesIn S`: memory changes only in words that start in `S`. `cell_of_changesIn`: a node
  outside `S` is kept.
* `Nodes.walk`: a loop over the nodes, equal to the fold over the list they hold (`walk_eq`).
-/

namespace Verif

namespace Mem

variable {S T : Set Nat} {m m₁ m₂ : Mem}

/-- Only words that start in `S` differ. -/
def ChangesIn (S : Set Nat) (m m' : Mem) : Prop := ∀ a, a ∉ S → m' a = m a

theorem ChangesIn.refl (S : Set Nat) (m : Mem) : ChangesIn S m m := fun _ _ => rfl

theorem ChangesIn.trans (h₁ : ChangesIn S m m₁) (h₂ : ChangesIn S m₁ m₂) : ChangesIn S m m₂ :=
  fun a ha => (h₂ a ha).trans (h₁ a ha)

theorem ChangesIn.mono (h : ChangesIn S m m₁) (hST : S ⊆ T) : ChangesIn T m m₁ :=
  fun a ha => h a fun hx => ha (hST hx)

/-- A store changes the word it is to. -/
theorem changesIn_store {a : Nat} (m : Mem) (v : UInt64) (h : a ∈ S) :
    ChangesIn S m (m.store a v) := by
  intro b hb
  refine store_of_ne m v fun hab => ?_
  subst hab
  exact hb h

end Mem

/-- A loop has used up its body runs. -/
def outOfFuel {α : Type} : Panics α := throw "out of fuel"

/-- The link in a word. -/
def linkOf (w : UInt64) : Option Nat := if w = 0 then none else some w.toNat

/-- The word of a link. -/
def wordOf : Option Nat → UInt64
  | none => 0
  | some a => UInt64.ofNat a

/-- The link fits a word, and is not the null pointer. -/
def LinkFits (link : Option Nat) : Prop := ∀ a ∈ link, 0 < a ∧ a < 2 ^ 64

theorem linkFits_none : LinkFits none := fun _ h => nomatch h

theorem linkFits_some {a : Nat} (h0 : 0 < a) (h : a < 2 ^ 64) : LinkFits (some a) := by
  intro b hb
  obtain rfl := Option.some.inj hb
  exact ⟨h0, h⟩

theorem linkOf_wordOf {link : Option Nat} (h : LinkFits link) : linkOf (wordOf link) = link := by
  cases link with
  | none => rfl
  | some a =>
    obtain ⟨h0, hlt⟩ := h a rfl
    have hne : UInt64.ofNat a ≠ 0 := by
      intro he
      have := congrArg UInt64.toNat he
      rw [Word.toNat_ofNat hlt] at this
      simp at this
      omega
    unfold linkOf wordOf
    rw [if_neg hne, Word.toNat_ofNat hlt]

/-- Nodes at these addresses have no word in common. -/
def Spaced (a b : Nat) : Prop := a + 16 ≤ b ∨ b + 16 ≤ a

theorem Spaced.symm {a b : Nat} (h : Spaced a b) : Spaced b a := Or.symm h

/-- A head, and the memory that its nodes lie in. -/
structure Nodes where
  head : Option Nat
  mem : Mem

namespace Nodes

variable {n : Nodes} {a b v : Nat} {link : Option Nat} {slot : Slot} {l : List (Nat × Nat)}
  {S : Set Nat}

/-- The content of the node at `a`. -/
def val (n : Nodes) (a : Nat) : Nat := (n.mem a).toNat

/-- The link of the node at `a`. -/
def next (n : Nodes) (a : Nat) : Option Nat := linkOf (n.mem (a + 8))

def setVal (n : Nodes) (a v : Nat) : Nodes := { n with mem := n.mem.store a (UInt64.ofNat v) }

def setNext (n : Nodes) (a : Nat) (link : Option Nat) : Nodes :=
  { n with mem := n.mem.store (a + 8) (wordOf link) }

def read (n : Nodes) : Slot → Option Nat
  | .head => n.head
  | .next a => n.next a

def write (n : Nodes) (slot : Slot) (link : Option Nat) : Nodes :=
  match slot with
  | .head => { n with head := link }
  | .next a => n.setNext a link

/-- The nodes, by address. -/
def links (n : Nodes) : Links Nat := ⟨n.head, fun a => ⟨n.val a, n.next a⟩⟩

theorem links_read (n : Nodes) (slot : Slot) : n.links.read slot = n.read slot := by
  cases slot <;> rfl

/-! ## What a store changes -/

theorem cell_setVal (n : Nodes) (a : Nat) (hv : v < 2 ^ 64) :
    (n.setVal a v).links.cell a = ⟨v, n.next a⟩ := by
  simp only [links, val, next, setVal, Mem.store_self, Word.toNat_ofNat hv]
  rw [Mem.store_of_ne _ _ (by omega)]

theorem cell_setNext (n : Nodes) (a : Nat) (h : LinkFits link) :
    (n.setNext a link).links.cell a = ⟨n.val a, link⟩ := by
  simp only [links, val, next, setNext, Mem.store_self, linkOf_wordOf h]
  rw [Mem.store_of_ne _ _ (by omega)]

theorem cell_setVal_of_spaced (n : Nodes) (v : Nat) (h : Spaced b a) :
    (n.setVal a v).links.cell b = n.links.cell b := by
  unfold Spaced at h
  simp only [links, val, next, setVal]
  rw [Mem.store_of_ne _ _ (by omega), Mem.store_of_ne _ _ (by omega)]

theorem cell_setNext_of_spaced (n : Nodes) (link : Option Nat) (h : Spaced b a) :
    (n.setNext a link).links.cell b = n.links.cell b := by
  unfold Spaced at h
  simp only [links, val, next, setNext]
  rw [Mem.store_of_ne _ _ (by omega), Mem.store_of_ne _ _ (by omega)]

/-- A node outside the bytes that change is kept. -/
theorem cell_of_changesIn {n' : Nodes} (h : Mem.ChangesIn S n.mem n'.mem)
    (ha : ∀ x, a ≤ x → x < a + 16 → x ∉ S) : n'.links.cell a = n.links.cell a := by
  simp only [links, val, next]
  rw [h a (ha a (Nat.le_refl _) (by omega)), h (a + 8) (ha (a + 8) (by omega) (by omega))]

/-! ## Stores to a slot -/

theorem read_write (n : Nodes) (slot : Slot) (h : LinkFits link) :
    (n.write slot link).read slot = link := by
  cases slot with
  | head => rfl
  | next a => exact congrArg Cell.next (cell_setNext n a h)

/-- From the head, a segment ends in the head or in the link of one of its nodes. -/
theorem slot_of_seg (h : n.links.Seg .head l slot) : slot = .head ∨ ∃ x ∈ l, slot = .next x.1 := by
  rcases List.eq_nil_or_concat l with rfl | ⟨pre, x, rfl⟩
  · exact .inl (Eq.symm h)
  · rw [List.concat_eq_append] at h ⊢
    obtain ⟨-, -, -, -, rfl⟩ := h.last
    exact .inr ⟨x, by simp, rfl⟩

theorem cell_write (h : n.links.Seg .head l slot) (link : Option Nat)
    (hb : ∀ x ∈ l, Spaced b x.1) : (n.write slot link).links.cell b = n.links.cell b := by
  rcases slot_of_seg h with rfl | ⟨x, hx, rfl⟩
  · rfl
  · exact cell_setNext_of_spaced n link (hb x hx)

theorem changesIn_write (h : n.links.Seg .head l slot) (link : Option Nat)
    (hS : ∀ x ∈ l, x.1 + 8 ∈ S) : Mem.ChangesIn S n.mem (n.write slot link).mem := by
  rcases slot_of_seg h with rfl | ⟨x, hx, rfl⟩
  · exact .refl S n.mem
  · exact Mem.changesIn_store _ _ (hS x hx)

/-- A segment does not depend on the link it ends in. -/
theorem Seg.write (h : n.links.Seg .head l slot) (hl : l.Pairwise fun x y => Spaced x.1 y.1)
    (hlink : LinkFits link) : (n.write slot link).links.Seg .head l slot := by
  rcases List.eq_nil_or_concat l with rfl | ⟨pre, x, rfl⟩
  · exact h
  · rw [List.concat_eq_append] at h hl ⊢
    obtain ⟨u, hpre, hread, hval, rfl⟩ := h.last
    obtain ⟨-, -, hcross⟩ := List.pairwise_append.mp hl
    have hcell : ∀ y ∈ pre, (n.setNext x.1 link).links.cell y.1 = n.links.cell y.1 :=
      fun y hy => cell_setNext_of_spaced n link (hcross y hy x (.head _))
    have hx : (n.setNext x.1 link).links.cell x.1 = ⟨n.val x.1, link⟩ := cell_setNext n x.1 hlink
    have hhead : (n.setNext x.1 link).links.read .head = n.links.read .head := rfl
    refine (hpre.frame hhead hcell).append ⟨?_, ?_, rfl⟩
    · exact (hpre.read_end hhead hcell).trans hread
    · exact (congrArg Cell.val hx).trans hval

/-! ## A loop over the nodes -/

/-- `while let Some(node) = current`, with `current = node.next` at the end of the body. -/
def walk {β : Type} (n : Nodes) (body : β → Nat → Panics β) : Nat → Option Nat → β → Panics β
  | _, none, acc => pure acc
  | 0, some _, _ => outOfFuel
  | fuel + 1, some node, acc => do
    let acc ← body acc node
    walk n body fuel (n.next node) acc

theorem walk_eq {β : Type} (body : β → Nat → Panics β) (h : n.links.Chain link l) {fuel : Nat}
    (hfuel : l.length ≤ fuel) (acc : β) :
    n.walk body fuel link acc = l.foldlM (fun acc x => body acc x.1) acc := by
  induction l generalizing link fuel acc with
  | nil =>
    obtain rfl : link = none := h
    unfold walk
    rfl
  | cons x l ih =>
    obtain ⟨rfl, -, hrest⟩ := h
    cases fuel with
    | zero => simp at hfuel
    | succ fuel =>
      unfold walk
      rw [List.foldlM_cons]
      congr 1
      funext acc
      exact ih hrest (Nat.le_of_succ_le_succ hfuel) acc

end Nodes

end Verif
