import Apogee.Lib.Sys

/-!
# Progress

What a run must come to, where `Sys.Preserved` says what it never leaves.

* `Within R Done n s`: on every path of `R` from `s`, `Done` holds after `n` steps at most. A path
  that ends earlier does not count: there is always a next step until `Done`.
* `Within.of_rank`: the rule for it. Each step lowers a rank, and only a state with `Done` has no
  step.
* `Inevitably R Done s`: the same with no bound on the number of steps.
* `Sys.Run`: a run with its labels. `Run.amortised`: if a system's own steps lower a potential and
  its environment raises it by `gain` at most, then the own steps of a run are paid for.
-/

namespace Verif

variable {σ ε : Type}

/-- On every path of `R` from the state, `Done` holds after that many steps at most. -/
inductive Within (R : σ → σ → Prop) (Done : σ → Prop) : Nat → σ → Prop
  | done {n : Nat} {s : σ} : Done s → Within R Done n s
  | step {n : Nat} {s : σ} : (∃ s', R s s') → (∀ s', R s s' → Within R Done n s') →
      Within R Done (n + 1) s

theorem Within.of_rank {R : σ → σ → Prop} {Done I : σ → Prop} (rank : σ → Nat)
    (hkeep : ∀ s s', I s → R s s' → I s') (hrank : ∀ s s', I s → R s s' → rank s' < rank s)
    (hnext : ∀ s, I s → ¬ Done s → ∃ s', R s s') {n : Nat} {s : σ} (hs : I s) (hn : rank s ≤ n) :
    Within R Done n s := by
  induction n generalizing s with
  | zero =>
    refine .done (Classical.not_not.mp fun hdone => ?_)
    obtain ⟨s', hst⟩ := hnext s hs hdone
    have hlt := hrank s s' hs hst
    omega
  | succ n ih =>
    by_cases hdone : Done s
    · exact .done hdone
    · refine .step (hnext s hs hdone) fun s' hst => ih (hkeep s s' hs hst) ?_
      have hlt := hrank s s' hs hst
      omega

/-- On every path of `R` from the state, `Done` holds after some number of steps. -/
inductive Inevitably (R : σ → σ → Prop) (Done : σ → Prop) : σ → Prop
  | done {s : σ} : Done s → Inevitably R Done s
  | step {s : σ} : (∃ s', R s s') → (∀ s', R s s' → Inevitably R Done s') → Inevitably R Done s

namespace Sys

variable {S : Sys σ ε}

/-- A run with the labels of its steps. -/
inductive Run (S : Sys σ ε) : σ → List ε → σ → Prop
  | nil {s : σ} : Run S s [] s
  | cons {s s' s'' : σ} {e : ε} {es : List ε} : S.step s e s' → Run S s' es s'' →
      Run S s (e :: es) s''

/-- What the environment puts in pays for the system's own steps. -/
theorem Run.amortised (own : ε → Bool) (potential : σ → Nat) (gain : Nat)
    (hown : ∀ s e s', S.Reach s → S.step s e s' → own e = true → potential s' < potential s)
    (hother : ∀ s e s', S.Reach s → S.step s e s' → own e = false →
      potential s' ≤ potential s + gain)
    {s s' : σ} {es : List ε} (h : S.Run s es s') (hs : S.Reach s) :
    es.countP own + potential s' ≤ potential s + gain * es.countP (!own ·) := by
  induction h with
  | nil => simp
  | @cons s s₁ s' e es hst _ ih =>
    have hrest := ih (hs.step hst)
    cases he : own e with
    | true =>
      have hlt := hown s e s₁ hs hst he
      simp only [List.countP_cons, he, Bool.not_true, Bool.false_eq_true, if_true, if_false,
        Nat.add_zero]
      omega
    | false =>
      have hle := hother s e s₁ hs hst he
      simp only [List.countP_cons, he, Bool.not_false, Bool.false_eq_true, if_true, if_false,
        Nat.mul_add]
      omega

end Sys

end Verif
