import Mathlib.Init

/-!
# Transition systems and their invariants

A system is a type of states, its initial states and its labelled steps. Every result about
"whole runs" in this development is an invariant of such a system.

* `Sys.Reach`: the states that a run from an initial state reaches.
* `Sys.Preserved I`: `I` holds initially and every step keeps it. `Preserved.reach` is the
  induction over runs, done once.
* `Sys.restrict C`: the same system with only the steps that meet `C` in the state before them.
  A result about "runs whose steps all meet `C`" is an invariant of the restricted system.
* `Reach.map`: a map of states that takes each step to a step of another system, or to no step,
  takes reachable states to reachable states. With it an invariant of the other system transfers.
* `Sys.metered cost`: runs with the sum of what their steps cost. If every step takes its cost from
  the worth of the state, worth and sum together stay the same (`Reach.balance`).
* `Sys.peaked f`: runs with the highest value that each measure of the state has had so far. A size
  that grows only to make room for its measure is that highest value (`Reach.eq_peak`).
-/

namespace Verif

/-- A transition system: the initial states, and the steps with their labels. -/
structure Sys (σ ε : Type) where
  init : σ → Prop
  step : σ → ε → σ → Prop

namespace Sys

variable {σ ε : Type} {S : Sys σ ε} {I P : σ → Prop}

/-- The states that a run from an initial state reaches. -/
inductive Reach (S : Sys σ ε) : σ → Prop
  | init {s : σ} : S.init s → Reach S s
  | step {s s' : σ} {e : ε} : Reach S s → S.step s e s' → Reach S s'

/-- `I` holds initially and every step keeps it. The step may use that it starts in a reachable
state. -/
structure Preserved (S : Sys σ ε) (I : σ → Prop) : Prop where
  init : ∀ s, S.init s → I s
  step : ∀ s e s', S.Reach s → I s → S.step s e s' → I s'

theorem Preserved.reach (h : S.Preserved I) {s : σ} (hs : S.Reach s) : I s := by
  induction hs with
  | init hi => exact h.init _ hi
  | step hr hst ih => exact h.step _ _ _ hr ih hst

/-- The system with only the steps that meet `C` in the state before them. -/
def restrict (S : Sys σ ε) (C : σ → ε → Prop) : Sys σ ε where
  init := S.init
  step s e s' := C s e ∧ S.step s e s'

theorem Reach.of_restrict {C : σ → ε → Prop} {s : σ} (h : (S.restrict C).Reach s) : S.Reach s := by
  induction h with
  | init hi => exact .init hi
  | step _ hst ih => exact .step ih hst.2

theorem Reach.step_restrict {C : σ → ε → Prop} {s s' : σ} {e : ε} (h : (S.restrict C).Reach s)
    (hst : S.step s e s') (hC : C s e) : (S.restrict C).Reach s' :=
  h.step ⟨hC, hst⟩

/-- A map that takes each step to a step of `T` or leaves the state of `T` as it is. -/
theorem Reach.map {τ ε' : Type} {T : Sys τ ε'} (f : σ → τ) (hinit : ∀ s, S.init s → T.init (f s))
    (hstep : ∀ s e s', S.Reach s → S.step s e s' → f s' = f s ∨ ∃ e', T.step (f s) e' (f s'))
    {s : σ} (h : S.Reach s) : T.Reach (f s) := by
  induction h with
  | init hi => exact .init (hinit _ hi)
  | step hr hst ih =>
    obtain heq | ⟨e', hst'⟩ := hstep _ _ _ hr hst
    · rw [heq]
      exact ih
    · exact .step ih hst'

/-- The runs with the sum of what each step costs. -/
def metered (S : Sys σ ε) (cost : σ → ε → Nat) : Sys (σ × Nat) ε where
  init m := S.init m.1 ∧ m.2 = 0
  step m e m' := S.step m.1 e m'.1 ∧ m'.2 = m.2 + cost m.1 e

variable {cost : σ → ε → Nat} {m : σ × Nat}

theorem Reach.of_metered (h : (S.metered cost).Reach m) : S.Reach m.1 := by
  induction h with
  | init hi => exact .init hi.1
  | step _ hst ih => exact .step ih hst.1

/-- Every step takes its cost from the worth of the state. -/
theorem Reach.balance {worth : σ → Nat} {total : Nat} (hinit : ∀ s, S.init s → worth s = total)
    (hstep : ∀ s e s', S.Reach s → S.step s e s' → worth s' + cost s e = worth s)
    (h : (S.metered cost).Reach m) : worth m.1 + m.2 = total := by
  induction h with
  | init hi => rw [hinit _ hi.1, hi.2, Nat.add_zero]
  | step hr hst ih =>
    have hworth := hstep _ _ _ hr.of_metered hst.1
    rw [hst.2]
    omega

/-- The runs with the highest value so far of each measure. -/
def peaked {ι : Type} (S : Sys σ ε) (f : σ → ι → Nat) : Sys (σ × (ι → Nat)) ε where
  init m := S.init m.1 ∧ m.2 = f m.1
  step m e m' := S.step m.1 e m'.1 ∧ ∀ i, m'.2 i = max (m.2 i) (f m'.1 i)

variable {ι : Type} {f : σ → ι → Nat} {w : σ × (ι → Nat)}

theorem Reach.of_peaked (h : (S.peaked f).Reach w) : S.Reach w.1 := by
  induction h with
  | init hi => exact .init hi.1
  | step _ hst ih => exact .step ih hst.1

/-- A size that starts as the measure, is never below it, and changes only by growing to it. -/
theorem Reach.eq_peak {i : ι} {size : σ → Nat} (hinit : ∀ s, S.init s → size s = f s i)
    (hle : ∀ s, f s i ≤ size s)
    (hstep : ∀ s e s', S.Reach s → S.step s e s' →
      size s' = size s ∨ size s ≤ size s' ∧ size s' = f s' i)
    (h : (S.peaked f).Reach w) : size w.1 = w.2 i := by
  induction h with
  | init hi => rw [hinit _ hi.1, hi.2]
  | @step w w' e hr hst ih =>
    have hle' := hle w'.1
    rw [hst.2 i]
    obtain hsame | ⟨hgrow, hpeak⟩ := hstep _ _ _ hr.of_peaked hst.1 <;> omega

end Sys

end Verif
