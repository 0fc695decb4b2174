import Apogee.Lib.Sys

/-!
# A mailbox with a registered waker

Producers add items at any moment. One consumer takes them out when it runs, and when it finds
nothing it registers for a signal and goes idle. An item that arrives while the consumer is
registered signals it and clears the registration.

The consumer looks a second time after it has registered, since an item may arrive between its look
and the registration. It then withdraws the registration if it finds one.

* `Step`: each access to the mailbox is one step, so a producer can come between any two of them.
  Signals can also come from elsewhere.
* `idle_signalled`: an idle consumer with an item in its mailbox has been signalled since it last
  started. `idle_armed`: one that has not been signalled is registered.
-/

namespace Verif

/-- Where the consumer is. -/
inductive MailboxPhase where
  /-- It does not run. -/
  | idle
  /-- Before the first look. -/
  | first
  | register
  /-- Before the second look. -/
  | second
  /-- Before it withdraws the registration. -/
  | withdraw
  /-- It found nothing and will go idle. -/
  | pending
  deriving DecidableEq

/-- A mailbox for items in `α`. -/
structure Mailbox (α : Type) where
  items : List α
  /-- The consumer is registered. -/
  armed : Bool
  /-- The consumer was signalled since it last started. -/
  signalled : Bool
  phase : MailboxPhase

namespace Mailbox

variable {α : Type} {m m' : Mailbox α}

inductive Step : Mailbox α → Unit → Mailbox α → Prop
  | send {m : Mailbox α} (x : α) : Step m () { m with
      items := m.items ++ [x], armed := false, signalled := m.signalled || m.armed }
  | signal {m : Mailbox α} : Step m () { m with signalled := true }
  | start {m : Mailbox α} : m.phase = .idle →
      Step m () { m with signalled := false, phase := .first }
  | receive {m : Mailbox α} {x : α} {xs : List α} : m.phase = .first → m.items = x :: xs →
      Step m () { m with items := xs }
  | foundNone {m : Mailbox α} : m.phase = .first → m.items = [] →
      Step m () { m with phase := .register }
  | register {m : Mailbox α} : m.phase = .register →
      Step m () { m with armed := true, phase := .second }
  | receiveLate {m : Mailbox α} {x : α} {xs : List α} : m.phase = .second → m.items = x :: xs →
      Step m () { m with items := xs, phase := .withdraw }
  | stillNone {m : Mailbox α} : m.phase = .second → m.items = [] →
      Step m () { m with phase := .pending }
  | withdraw {m : Mailbox α} : m.phase = .withdraw →
      Step m () { m with armed := false, phase := .first }
  | goIdle {m : Mailbox α} : m.phase = .pending → Step m () { m with phase := .idle }

/-- The consumer runs, nothing is there and it is not registered. -/
def system (α : Type) : Sys (Mailbox α) Unit where
  init m := m.items = [] ∧ m.armed = false ∧ m.phase = .first
  step := Step

/-- After the registration, the consumer is still registered or has been signalled. After the second
look, an item in the mailbox has signalled it. -/
structure Inv (m : Mailbox α) : Prop where
  armed : m.phase = .second ∨ m.phase = .pending ∨ m.phase = .idle →
    m.armed = true ∨ m.signalled = true
  seen : m.phase = .pending ∨ m.phase = .idle → m.items = [] ∨ m.signalled = true

theorem Inv.step (h : Inv m) (hst : Step m () m') : Inv m' := by
  obtain ⟨harmed, hseen⟩ := h
  cases hst with
  | send x => constructor <;> grind
  | signal => exact ⟨fun _ => .inr rfl, fun _ => .inr rfl⟩
  | stillNone hphase hnone => exact ⟨fun _ => harmed (.inl hphase), fun _ => .inl hnone⟩
  | goIdle hphase => exact ⟨fun _ => harmed (.inr (.inl hphase)), fun _ => hseen (.inl hphase)⟩
  | register => exact ⟨fun _ => .inl rfl, by simp⟩
  | start | receive | foundNone | receiveLate | withdraw => constructor <;> simp_all

theorem inv_reach (h : (system α).Reach m) : Inv m := by
  refine Sys.Preserved.reach (I := Inv) ⟨?_, ?_⟩ h
  · rintro m ⟨-, -, hphase⟩
    constructor <;> simp [hphase]
  · intro m e m' _ hi hst
    exact hi.step hst

/-- An idle consumer with an item in its mailbox has been signalled since it last started. -/
theorem idle_signalled (h : (system α).Reach m) (hidle : m.phase = .idle) (hitems : m.items ≠ []) :
    m.signalled = true :=
  ((inv_reach h).seen (.inr hidle)).resolve_left hitems

/-- An idle consumer that has not been signalled is registered. -/
theorem idle_armed (h : (system α).Reach m) (hidle : m.phase = .idle) (hsig : m.signalled = false) :
    m.armed = true := by
  refine ((inv_reach h).armed (.inr (.inr hidle))).resolve_right ?_
  rw [hsig]
  exact Bool.false_ne_true

end Mailbox

end Verif
