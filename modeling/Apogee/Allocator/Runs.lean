import Mathlib.Algebra.BigOperators.Group.List.Basic
import Apogee.Lib.Sys
import Apogee.Allocator.Layout

/-!
# Runs of an allocator and its client

An allocator is its three entry points (`Api`). Its client may allocate any nonempty layout, and
may deallocate a block that is live, with the layout it was allocated with, once: the contract of
`GlobalAlloc`. `Api.system` has all such runs; a call that panics ends a run.

`Api.Keeps Ok` says that the three entry points keep an invariant `Ok` of the allocator and the
live blocks, and that they do not panic. `Keeps.reach` is the induction over runs. `KeepsWhen` is
the same where it is known only for some calls of `alloc`, for the runs that make no others.

`Api.Accounts` says what the calls do to a count of free bytes: an `alloc` takes the block's extent
and what it discards, a `dealloc` gives the extent back. `Accounts.balance` is the account of a run.
-/

namespace Apogee

open Verif

/-- A block handed out: its pointer, and the layout it was allocated with. -/
structure Block where
  ptr : Nat
  layout : Layout
  deriving DecidableEq

/-- The entry points of an allocator with the state `H`. The null pointer is `0`. -/
structure Api (H : Type) where
  init : Panics H
  alloc : H → Layout → Panics (Nat × H)
  dealloc : H → Nat → Layout → Panics H

namespace Api

variable {H : Type} {A : Api H}

/-- A call by the client. -/
inductive Op where
  | alloc (layout : Layout)
  | dealloc (b : Block)

/-- The allocator, and the blocks it has handed out and not got back. -/
structure State (H : Type) where
  heap : H
  live : List Block

/-- One call that returns. -/
inductive Step (A : Api H) : State H → Op → State H → Prop
  | alloc {st : State H} {l : Layout} {ptr : Nat} {heap : H} : 0 < l.size →
      A.alloc st.heap l = .ok (ptr, heap) → ptr ≠ 0 →
      Step A st (.alloc l) ⟨heap, ⟨ptr, l⟩ :: st.live⟩
  | allocNull {st : State H} {l : Layout} {heap : H} : 0 < l.size →
      A.alloc st.heap l = .ok (0, heap) → Step A st (.alloc l) ⟨heap, st.live⟩
  | dealloc {st : State H} {b : Block} {heap : H} : b ∈ st.live →
      A.dealloc st.heap b.ptr b.layout = .ok heap →
      Step A st (.dealloc b) ⟨heap, st.live.erase b⟩

/-- The runs from `init`, with no block live. -/
def system (A : Api H) : Sys (State H) Op where
  init st := A.init = .ok st.heap ∧ st.live = []
  step := A.Step

/-- The entry points keep `Ok`, and none panics. An `alloc` that returns null changes nothing. -/
structure Keeps (A : Api H) (Ok : H → List Block → Prop) : Prop where
  init : ∃ h, A.init = .ok h ∧ Ok h []
  perm : ∀ {h live live'}, Ok h live → live.Perm live' → Ok h live'
  alloc : ∀ {h live l}, Ok h live → 0 < l.size → A.alloc h l = .ok (0, h) ∨
    ∃ ptr h', A.alloc h l = .ok (ptr, h') ∧ ptr ≠ 0 ∧ Ok h' (⟨ptr, l⟩ :: live)
  dealloc : ∀ {h live b}, Ok h (b :: live) →
    ∃ h', A.dealloc h b.ptr b.layout = .ok h' ∧ Ok h' live

variable {Ok : H → List Block → Prop} {st st' : State H} {op : Op}

/-- The same for the calls of `alloc` that meet `clear`. -/
structure KeepsWhen (A : Api H) (clear : H → Layout → Prop) (Ok : H → List Block → Prop) :
    Prop where
  init : ∃ h, A.init = .ok h ∧ Ok h []
  perm : ∀ {h live live'}, Ok h live → live.Perm live' → Ok h live'
  alloc : ∀ {h live l}, Ok h live → 0 < l.size → clear h l → A.alloc h l = .ok (0, h) ∨
    ∃ ptr h', A.alloc h l = .ok (ptr, h') ∧ ptr ≠ 0 ∧ Ok h' (⟨ptr, l⟩ :: live)
  dealloc : ∀ {h live b}, Ok h (b :: live) →
    ∃ h', A.dealloc h b.ptr b.layout = .ok h' ∧ Ok h' live

/-- The call meets `clear` if it is an `alloc`. -/
def ClearOp (clear : H → Layout → Prop) (st : State H) : Op → Prop
  | .alloc l => clear st.heap l
  | .dealloc _ => True

/-- The runs in which every `alloc` meets `clear`. -/
def clearRuns (A : Api H) (clear : H → Layout → Prop) : Sys (State H) Op :=
  A.system.restrict (ClearOp clear)

variable {clear : H → Layout → Prop}

theorem KeepsWhen.step (k : A.KeepsWhen clear Ok) (h : Ok st.heap st.live)
    (hclear : ClearOp clear st op) (hst : A.Step st op st') : Ok st'.heap st'.live := by
  cases hst with
  | alloc hl he hne =>
    rcases k.alloc h hl hclear with h0 | ⟨ptr, heap, e, -, hok⟩
    · rw [h0] at he
      cases he
      exact absurd rfl hne
    · rw [e] at he
      cases he
      exact hok
  | allocNull hl he =>
    rcases k.alloc h hl hclear with h0 | ⟨ptr, heap, e, hne, -⟩
    · rw [h0] at he
      cases he
      exact h
    · rw [e] at he
      cases he
      exact absurd rfl hne
  | dealloc hb he =>
    obtain ⟨heap, e, hok⟩ := k.dealloc (k.perm h (List.perm_cons_erase hb))
    rw [e] at he
    cases he
    exact hok

theorem KeepsWhen.init_ok (k : A.KeepsWhen clear Ok) (hi : A.system.init st) :
    Ok st.heap st.live := by
  obtain ⟨h0, e, hok⟩ := k.init
  obtain ⟨h1, h2⟩ := hi
  rw [e] at h1
  cases h1
  rw [h2]
  exact hok

theorem KeepsWhen.reach (k : A.KeepsWhen clear Ok) (h : (A.clearRuns clear).Reach st) :
    Ok st.heap st.live := by
  refine Sys.Preserved.reach (I := fun st => Ok st.heap st.live) ⟨?_, ?_⟩ h
  · intro st hi
    exact k.init_ok hi
  · intro st op st' _ hok hst
    exact k.step hok hst.1 hst.2

theorem Keeps.when (k : A.Keeps Ok) : A.KeepsWhen (fun _ _ => True) Ok :=
  ⟨k.init, k.perm, fun h hl _ => k.alloc h hl, k.dealloc⟩

theorem Keeps.step (k : A.Keeps Ok) (h : Ok st.heap st.live) (hst : A.Step st op st') :
    Ok st'.heap st'.live := by
  refine k.when.step h ?_ hst
  cases op <;> exact trivial

theorem Keeps.reach (k : A.Keeps Ok) (h : A.system.Reach st) : Ok st.heap st.live :=
  Sys.Preserved.reach (I := fun st => Ok st.heap st.live)
    ⟨fun _ hi => k.when.init_ok hi, fun _ _ _ _ hok hst => k.step hok hst⟩ h

/-- No deallocation of a live block panics. -/
theorem Keeps.dealloc_ok (k : A.Keeps Ok) (h : Ok st.heap st.live) {b : Block} (hb : b ∈ st.live) :
    ∃ heap, A.dealloc st.heap b.ptr b.layout = .ok heap := by
  obtain ⟨heap, e, -⟩ := k.dealloc (k.perm h (List.perm_cons_erase hb))
  exact ⟨heap, e⟩

/-! ## Accounts -/

/-- What a call loses for good, where `discards` is the loss of an `alloc`. -/
def loss (discards : H → Layout → Nat) (st : State H) : Op → Nat
  | .alloc layout => discards st.heap layout
  | .dealloc _ => 0

/-- The calls keep account of the free bytes `free`, where a block has the extent `extent`. -/
structure Accounts (A : Api H) (Ok : H → List Block → Prop) (free : H → Nat)
    (extent : Layout → Nat) (discards : H → Layout → Nat) : Prop where
  alloc : ∀ {h live l ptr h'}, Ok h live → 0 < l.size → A.alloc h l = .ok (ptr, h') → ptr ≠ 0 →
    free h' + extent l + discards h l = free h
  allocNull : ∀ {h live l h'}, Ok h live → 0 < l.size → A.alloc h l = .ok (0, h') →
    free h' = free h ∧ discards h l = 0
  dealloc : ∀ {h live b h'}, Ok h (b :: live) → A.dealloc h b.ptr b.layout = .ok h' →
    free h' = free h + extent b.layout

/-- The free bytes and the extents of the live blocks. -/
def worth (free : H → Nat) (extent : Layout → Nat) (st : State H) : Nat :=
  free st.heap + (st.live.map fun b => extent b.layout).sum

variable {free : H → Nat} {extent : Layout → Nat} {discards : H → Layout → Nat}

theorem Accounts.step (c : A.Accounts Ok free extent discards) (k : A.Keeps Ok)
    (h : Ok st.heap st.live) (hst : A.Step st op st') :
    worth free extent st' + loss discards st op = worth free extent st := by
  unfold worth loss
  cases hst with
  | alloc hl he hne =>
    have hbytes := c.alloc h hl he hne
    simp only [List.map_cons, List.sum_cons]
    omega
  | allocNull hl he =>
    obtain ⟨hfree, hlost⟩ := c.allocNull h hl he
    simp only [hfree, hlost, Nat.add_zero]
  | @dealloc b heap hb he =>
    have hperm := List.perm_cons_erase hb
    have hbytes := c.dealloc (k.perm h hperm) he
    have hsum := (hperm.map fun b => extent b.layout).sum_eq
    rw [List.map_cons, List.sum_cons] at hsum
    simp only [hbytes, hsum]
    omega

/-- Free bytes, extents of live blocks and losses add up to the free bytes after `init`. -/
theorem Accounts.balance (c : A.Accounts Ok free extent discards) (k : A.Keeps Ok) {h₀ : H}
    (hinit : A.init = .ok h₀) {m : State H × Nat}
    (h : (A.system.metered (loss discards)).Reach m) :
    worth free extent m.1 + m.2 = free h₀ := by
  refine h.balance ?_ fun st op st' hr hst => c.step k (k.reach hr) hst
  rintro st ⟨hst, hnil⟩
  cases hinit.symm.trans hst
  simp [worth, hnil]

end Api

end Apogee
