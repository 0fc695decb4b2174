import Mathlib.Init

/-!
# Interrupt delivery of an x86-64 CPU

An interrupt descriptor table has a gate for each vector that is present. `Idt.deliver` is what the
CPU does with a trap:

* `int n` needs a gate that its privilege level may use; otherwise it is a general-protection fault
  (13). That is checked first, for a gate that is not present too (its privilege level is 0).
* A trap whose gate is not present raises a segment-not-present fault (11). If the trap was itself a
  contributory exception or a page fault, the two make a double fault (8); otherwise the second one
  is delivered in place of the first.
* A double fault whose gate is not present shuts the CPU down.

The handler's stack is always there: faults of the delivery itself other than these are left out.
-/

namespace Verif

/-- What takes the CPU away from the running code: an `int` instruction, an exception of the
instruction, or an interrupt request from outside. -/
inductive Trap where
  | int (n : UInt8)
  | exception (v : UInt8)
  | external (v : UInt8)
  deriving DecidableEq

structure Gate (H : Type) where
  handler : H
  /-- The lowest privilege whose `int` may use the gate. -/
  dpl : Nat

abbrev Idt (H : Type) := UInt8 → Option (Gate H)

/-- The handler that runs, with the vector that it was found at. -/
inductive Delivery (H : Type) where
  | runs (v : UInt8) (handler : H)
  | shutdown

namespace Idt

variable {H : Type} (t : Idt H) {v n : UInt8} {cpl : Nat}

/-- The contributory exceptions, and the page fault: with a segment-not-present fault on top they
are a double fault. -/
def escalates (v : UInt8) : Bool := [0, 10, 11, 12, 13, 14].contains v

def doubleFault : Delivery H :=
  match t 8 with
  | some g => .runs 8 g.handler
  | none => .shutdown

def exception (v : UInt8) : Delivery H :=
  match t v with
  | some g => .runs v g.handler
  | none =>
    if v = 8 then .shutdown
    else if escalates v then t.doubleFault
    else
      match t 11 with
      | some g => .runs 11 g.handler
      | none => t.doubleFault

def deliver (cpl : Nat) : Trap → Delivery H
  | .int n =>
    if (t n).elim 0 Gate.dpl < cpl then t.exception 13
    else
      match t n with
      | some g => .runs n g.handler
      | none => t.exception 11
  | .exception v => t.exception v
  | .external v =>
    match t v with
    | some g => .runs v g.handler
    | none => t.exception 11

variable {t}

/-- Without a gate for the segment-not-present fault, an exception that has no gate is a double
fault. -/
theorem exception_of_absent {g : Gate H} (h : t v = none) (hnp : t 11 = none) (hdf : t 8 = some g) :
    t.exception v = .runs 8 g.handler := by
  have hv : v ≠ 8 := by
    rintro rfl
    rw [h] at hdf
    cases hdf
  have hdouble : t.doubleFault = .runs 8 g.handler := by simp only [doubleFault, hdf]
  simp only [exception, h, if_neg hv, hnp, hdouble, ite_self]

theorem int_denied (h : (t n).elim 0 Gate.dpl < cpl) : t.deliver cpl (.int n) = t.exception 13 :=
  if_pos h

theorem int_of_some {g : Gate H} (h : t n = some g) (hdpl : cpl ≤ g.dpl) :
    t.deliver cpl (.int n) = .runs n g.handler := by
  simp only [deliver, h, Option.elim_some, if_neg (Nat.not_lt.mpr hdpl)]

theorem external_of_absent (h : t v = none) : t.deliver cpl (.external v) = t.exception 11 := by
  simp only [deliver, h]

end Idt

end Verif
