import Apogee.Lib.Sys
import Mathlib.Logic.Function.Basic

/-!
# Locks, interrupts and threads on one CPU

What code does with locks, the interrupt flag and the CPU, without its data. On one CPU a spinning
`lock` on a taken lock never ends: either the thread itself holds the lock, or a thread that is
switched out does, or the code that an interrupt handler stopped.

* `LockFlow L`: the code. `masked body` runs `body` with interrupts off and puts the flag back;
  `trap body` is an entry from user mode, where interrupts are on; `stop` never goes on.
* `Cpu L`: the frames still to run, the frames of the threads that are switched out, the taken
  locks and the interrupt flag. `Exec` is one step of the running code; `Program.Step` adds
  interrupts (while the flag is on) and new threads, at any time. `Cpu.ahead` runs the code with one
  way to decide its choices.
* `LockFlow.ok`: the check. No lock is taken twice. A thread holds a lock of `irq` only with
  interrupts off. It holds no lock at a `switch`. A handler spins only on locks of `irq`.
* `Program.safe`: if all code of the program passes, then no run gets to a `lock` on a taken lock.
-/

namespace Verif

/-- What code does with locks, the interrupt flag and the CPU. -/
inductive LockFlow (L : Type)
  | skip
  | seq (a b : LockFlow L)
  | choice (a b : LockFlow L)
  | loop (body : LockFlow L)
  /-- Spins until `l` is free, holds it for `body`. -/
  | lock (l : L) (body : LockFlow L)
  /-- Skips `body` if `l` is taken. -/
  | tryLock (l : L) (body : LockFlow L)
  | masked (body : LockFlow L)
  /-- Turns interrupts on. -/
  | unmask
  /-- Gives the CPU to another thread, if there is one. -/
  | switch
  | trap (body : LockFlow L)
  | stop

/-- What the CPU still has to do: code, the release of a lock, or the end of a `masked`, of a `trap`
or of a handler, which turns interrupts on if they were on at its start. -/
inductive Frame (L : Type)
  | run (f : LockFlow L)
  | unlock (l : L)
  | restore (on : Bool)

structure Cpu (L : Type) where
  stack : List (Frame L)
  parked : List (List (Frame L))
  held : L → Bool
  enabled : Bool

/-- Where code runs: on a thread, where `masked` says that interrupts are off for certain, or in an
interrupt handler. -/
inductive Context
  | thread (masked : Bool)
  | handler
  deriving DecidableEq

namespace Context

/-- Interrupts are off for certain. -/
def off : Context → Bool
  | thread m => m
  | handler => true

/-- The context of the body of a `masked`. -/
def mask : Context → Context
  | thread _ => thread true
  | handler => handler

@[simp] theorem off_mask (c : Context) : c.mask.off = true := by
  cases c <;> rfl

theorem eq_thread_of_off {c : Context} (h : c.off = false) : c = thread false := by
  cases c with
  | thread m => exact congrArg thread h
  | handler => cases h

end Context

namespace LockFlow

variable {L : Type}

/-- The flows one after the other. -/
def block : List (LockFlow L) → LockFlow L
  | [] => skip
  | f :: fs => seq f (block fs)

/-- One of the flows, or none. -/
def oneOf : List (LockFlow L) → LockFlow L
  | [] => skip
  | f :: fs => choice f (oneOf fs)

/-- The check, for code that runs in `c` and holds `own`. -/
def ok [DecidableEq L] (irq : L → Bool) : Context → List L → LockFlow L → Bool
  | _, _, skip | _, _, stop => true
  | c, own, seq a b | c, own, choice a b => ok irq c own a && ok irq c own b
  | c, own, loop body => ok irq c own body
  | c, own, lock l body =>
    -- A handler may have stopped the holder of any lock that is not in `irq`.
    !own.contains l && (!irq l || c.off) && (irq l || c != .handler) && ok irq c (l :: own) body
  | c, own, tryLock l body =>
    !own.contains l && (!irq l || c.off) && ok irq c (l :: own) body
  | c, own, masked body => ok irq c.mask own body
  | c, _, unmask => c == .thread false
  | c, own, switch => c == .thread false && own.isEmpty
  | c, own, trap body => c == .thread false && own.isEmpty && ok irq (.thread false) [] body

end LockFlow

/-- `held` are the locks of the list. -/
def Holds {L : Type} (held : L → Bool) (ls : List L) : Prop :=
  ∀ l, held l = true ↔ l ∈ ls

namespace Holds

variable {L : Type} {held : L → Bool} {ls : List L} {l : L}

theorem not_mem (h : Holds held ls) (hl : held l = false) : l ∉ ls := by
  intro hmem
  rw [(h l).mpr hmem] at hl
  cases hl

theorem free (h : Holds held ls) (hl : l ∉ ls) : held l = false :=
  Bool.eq_false_iff.mpr fun ht => hl ((h l).mp ht)

theorem take [DecidableEq L] (h : Holds held ls) (l : L) :
    Holds (Function.update held l true) (l :: ls) := by
  intro l'
  by_cases hl : l' = l
  · simp [hl]
  · simp [hl, h l']

theorem drop [DecidableEq L] (h : Holds held (l :: ls)) (hl : l ∉ ls) :
    Holds (Function.update held l false) ls := by
  intro l'
  by_cases heq : l' = l
  · simp [heq, hl]
  · simp [heq, h l']

end Holds

section Machine

variable {L : Type} [DecidableEq L]

/-- One step of the running code. -/
inductive Exec : Cpu L → Cpu L → Prop
  | skip {c : Cpu L} {k : List (Frame L)} : c.stack = .run .skip :: k → Exec c { c with stack := k }
  | seq {c : Cpu L} {k : List (Frame L)} {a b : LockFlow L} : c.stack = .run (.seq a b) :: k →
      Exec c { c with stack := .run a :: .run b :: k }
  | left {c : Cpu L} {k : List (Frame L)} {a b : LockFlow L} : c.stack = .run (.choice a b) :: k →
      Exec c { c with stack := .run a :: k }
  | right {c : Cpu L} {k : List (Frame L)} {a b : LockFlow L} : c.stack = .run (.choice a b) :: k →
      Exec c { c with stack := .run b :: k }
  | leave {c : Cpu L} {k : List (Frame L)} {f : LockFlow L} : c.stack = .run (.loop f) :: k →
      Exec c { c with stack := k }
  | again {c : Cpu L} {k : List (Frame L)} {f : LockFlow L} : c.stack = .run (.loop f) :: k →
      Exec c { c with stack := .run f :: .run (.loop f) :: k }
  | lock {c : Cpu L} {k : List (Frame L)} {l : L} {f : LockFlow L} :
      c.stack = .run (.lock l f) :: k → c.held l = false →
      Exec c { c with stack := .run f :: .unlock l :: k, held := Function.update c.held l true }
  | tryLock {c : Cpu L} {k : List (Frame L)} {l : L} {f : LockFlow L} :
      c.stack = .run (.tryLock l f) :: k → c.held l = false →
      Exec c { c with stack := .run f :: .unlock l :: k, held := Function.update c.held l true }
  | busy {c : Cpu L} {k : List (Frame L)} {l : L} {f : LockFlow L} :
      c.stack = .run (.tryLock l f) :: k → c.held l = true → Exec c { c with stack := k }
  | unlock {c : Cpu L} {k : List (Frame L)} {l : L} : c.stack = .unlock l :: k →
      Exec c { c with stack := k, held := Function.update c.held l false }
  | masked {c : Cpu L} {k : List (Frame L)} {f : LockFlow L} : c.stack = .run (.masked f) :: k →
      Exec c { c with stack := .run f :: .restore c.enabled :: k, enabled := false }
  | restore {c : Cpu L} {k : List (Frame L)} {on : Bool} : c.stack = .restore on :: k →
      Exec c { c with stack := k, enabled := c.enabled || on }
  | unmask {c : Cpu L} {k : List (Frame L)} : c.stack = .run .unmask :: k →
      Exec c { c with stack := k, enabled := true }
  | stay {c : Cpu L} {k : List (Frame L)} : c.stack = .run .switch :: k →
      Exec c { c with stack := k }
  | switch {c : Cpu L} {k k' : List (Frame L)} {before after : List (List (Frame L))} :
      c.stack = .run .switch :: k → c.parked = before ++ k' :: after →
      Exec c { c with stack := k', parked := before ++ k :: after }
  | trap {c : Cpu L} {k : List (Frame L)} {f : LockFlow L} : c.stack = .run (.trap f) :: k →
      Exec c { c with stack := .run f :: .restore true :: k, enabled := false }

/-- The step of code that takes the second of two ways, leaves its loops and keeps the CPU. -/
def Cpu.next? (c : Cpu L) : Option (Cpu L) :=
  match c.stack with
  | [] => none
  | .unlock l :: k => some { c with stack := k, held := Function.update c.held l false }
  | .restore on :: k => some { c with stack := k, enabled := c.enabled || on }
  | .run f :: k =>
    match f with
    | .stop => none
    | .skip | .loop _ | .switch => some { c with stack := k }
    | .seq a b => some { c with stack := .run a :: .run b :: k }
    | .choice _ b => some { c with stack := .run b :: k }
    | .lock l f =>
      if c.held l then none
      else some { c with stack := .run f :: .unlock l :: k, held := Function.update c.held l true }
    | .tryLock l f =>
      if c.held l then some { c with stack := k }
      else some { c with stack := .run f :: .unlock l :: k, held := Function.update c.held l true }
    | .masked f => some { c with stack := .run f :: .restore c.enabled :: k, enabled := false }
    | .unmask => some { c with stack := k, enabled := true }
    | .trap f => some { c with stack := .run f :: .restore true :: k, enabled := false }

/-- Such code runs for some steps, or until it ends or waits. -/
def Cpu.ahead : Nat → Cpu L → Cpu L
  | 0, c => c
  | n + 1, c => c.next?.elim c (ahead n)

theorem exec_of_next? {c c' : Cpu L} (h : c.next? = some c') : Exec c c' := by
  unfold Cpu.next? at h
  rcases hs : c.stack with - | ⟨fr, k⟩ <;> rw [hs] at h
  · cases h
  cases fr with
  | unlock l => exact Option.some.inj h ▸ .unlock hs
  | restore on => exact Option.some.inj h ▸ .restore hs
  | run f =>
    cases f with
    | stop => cases h
    | skip => exact Option.some.inj h ▸ .skip hs
    | seq a b => exact Option.some.inj h ▸ .seq hs
    | choice a b => exact Option.some.inj h ▸ .right hs
    | loop f => exact Option.some.inj h ▸ .leave hs
    | masked f => exact Option.some.inj h ▸ .masked hs
    | unmask => exact Option.some.inj h ▸ .unmask hs
    | switch => exact Option.some.inj h ▸ .stay hs
    | trap f => exact Option.some.inj h ▸ .trap hs
    | lock l f =>
      cases hl : c.held l with
      | true => simp only [hl, if_true] at h; cases h
      | false =>
        simp only [hl, Bool.false_eq_true, if_false] at h
        exact Option.some.inj h ▸ .lock hs hl
    | tryLock l f =>
      cases hl : c.held l with
      | true =>
        simp only [hl, if_true] at h
        exact Option.some.inj h ▸ .busy hs hl
      | false =>
        simp only [hl, Bool.false_eq_true, if_false] at h
        exact Option.some.inj h ▸ .tryLock hs hl

/-- The code of a system: `boot` runs with interrupts off, then interrupts go on and `main` runs;
`handlers` are the interrupt handlers, `entries` what new threads run. -/
structure Program (L : Type) where
  boot : LockFlow L
  main : LockFlow L
  handlers : List (LockFlow L)
  entries : List (LockFlow L)

inductive CpuEvent
  | code
  | interrupt
  | spawn

namespace Program

/-- One step of the system. -/
inductive Step (p : Program L) : Cpu L → CpuEvent → Cpu L → Prop
  | code {c c' : Cpu L} : Exec c c' → Step p c .code c'
  | interrupt {c : Cpu L} {f : LockFlow L} : c.enabled = true → f ∈ p.handlers →
      Step p c .interrupt { c with stack := .run f :: .restore true :: c.stack, enabled := false }
  | spawn {c : Cpu L} {f : LockFlow L} : f ∈ p.entries →
      Step p c .spawn { c with parked := [.run f] :: c.parked }

/-- The CPU at boot. -/
def start (p : Program L) : Cpu L where
  stack := [.run p.boot, .restore true, .run p.main]
  parked := []
  held _ := false
  enabled := false

def system (p : Program L) : Sys (Cpu L) CpuEvent where
  init c := c = p.start
  step := Step p

theorem reach_ahead {p : Program L} (n : Nat) {c : Cpu L} (h : p.system.Reach c) :
    p.system.Reach (c.ahead n) := by
  induction n generalizing c with
  | zero => exact h
  | succ n ih =>
    unfold Cpu.ahead
    cases hnext : c.next? with
    | none => exact h
    | some c' => exact ih (h.step (.code (exec_of_next? hnext)))

/-- All code of the system passes the check. -/
def ok (irq : L → Bool) (p : Program L) : Bool :=
  p.boot.ok irq (.thread true) [] && p.main.ok irq (.thread false) [] &&
    p.handlers.all (LockFlow.ok irq .handler []) &&
    p.entries.all (LockFlow.ok irq (.thread false) [])

end Program

/-! ## The invariant -/

/-- The frames fit the check. The locks that they release are `own`; below the frames of a handler
are those of the thread that it stopped, which release `base`. -/
inductive Fits (irq : L → Bool) : Context → List L → List L → List (Frame L) → Prop
  | nil : Fits irq (.thread false) [] [] []
  | run {c : Context} {own base : List L} {f : LockFlow L} {k : List (Frame L)} :
      f.ok irq c own = true → Fits irq c own base k → Fits irq c own base (.run f :: k)
  | unlock {c : Context} {own base : List L} {l : L} {k : List (Frame L)} :
      l ∉ own ++ base → (irq l = true → c.off = true) → Fits irq c own base k →
      Fits irq c (l :: own) base (.unlock l :: k)
  | restore {c : Context} {own base : List L} {on : Bool} {k : List (Frame L)} :
      (c.off = true → on = false) → Fits irq c own base k →
      Fits irq c.mask own base (.restore on :: k)
  | trap {k : List (Frame L)} : Fits irq (.thread false) [] [] k →
      Fits irq (.thread false) [] [] (.restore true :: k)
  | handler {own : List L} {k : List (Frame L)} : Fits irq (.thread false) own [] k →
      Fits irq .handler [] own (.restore true :: k)

variable {irq : L → Bool} {x : Context} {own base : List L} {k : List (Frame L)} {f : LockFlow L}
  {l : L}

namespace Fits

/-- Only with interrupts off does the running code hold a lock of `irq`. -/
theorem off_of_mem (h : Fits irq x own base k) (hl : l ∈ own) (hi : irq l = true) :
    x.off = true := by
  induction h with
  | nil | trap | handler => cases hl
  | run _ _ ih => exact ih hl
  | unlock _ hoff _ ih =>
    obtain rfl | hl := List.mem_cons.mp hl
    · exact hoff hi
    · exact ih hl
  | restore => exact Context.off_mask _

/-- The code that a handler stopped holds no lock of `irq`. -/
theorem base_irq (h : Fits irq x own base k) (hl : l ∈ base) : irq l = false := by
  induction h with
  | nil | trap => cases hl
  | run _ _ ih | unlock _ _ _ ih | restore _ _ ih => exact ih hl
  | handler hk =>
    refine Bool.eq_false_iff.mpr fun hi => ?_
    cases hk.off_of_mem hl hi

theorem base_nil {m : Bool} (h : Fits irq (.thread m) own base k) : base = [] := by
  generalize hx : Context.thread m = x at h
  induction h generalizing m with
  | nil | trap => rfl
  | run _ _ ih | unlock _ _ _ ih => exact ih hx
  | @restore c _ _ _ _ _ _ ih =>
    cases c with
    | thread m' => exact ih rfl
    | handler => cases hx
  | handler => cases hx

end Fits

/-- The invariant: the frames of the running code and of each thread that is switched out fit, the
taken locks are the ones that the running code and the code it stopped will release, and where the
check counts on interrupts being off they are. -/
def Cpu.Inv (irq : L → Bool) (c : Cpu L) : Prop :=
  (∃ x own base, Fits irq x own base c.stack ∧ Holds c.held (own ++ base) ∧
    (x.off = true → c.enabled = false)) ∧
  ∀ k ∈ c.parked, Fits irq (.thread false) [] [] k

/-- What the check is for. -/
structure Cpu.Safe (irq : L → Bool) (c : Cpu L) : Prop where
  /-- A `lock` finds its lock free. -/
  granted : ∀ l f k, c.stack = .run (.lock l f) :: k → c.held l = false
  /-- No lock is taken at a switch. -/
  released : ∀ k, c.stack = .run .switch :: k → ∀ l, c.held l = false
  /-- No interrupt comes while a lock of `irq` is taken. -/
  masked : ∀ l, irq l = true → c.held l = true → c.enabled = false
  /-- The running code goes on, unless it has ended or is at a `stop`. -/
  goes : c.stack = [] ∨ (∃ k, c.stack = .run .stop :: k) ∨ ∃ c', Exec c c'

theorem Fits.run_inv (h : Fits irq x own base (.run f :: k)) :
    f.ok irq x own = true ∧ Fits irq x own base k := by
  cases h with
  | run hf hk => exact ⟨hf, hk⟩

theorem Fits.unlock_inv (h : Fits irq x own base (.unlock l :: k)) :
    ∃ own', own = l :: own' ∧ l ∉ own' ++ base ∧ Fits irq x own' base k := by
  cases h with
  | unlock hl _ hk => exact ⟨_, rfl, hl, hk⟩

/-- The lock of a `lock` that passes the check is free. -/
theorem Fits.lock_free (h : Fits irq x own base (.run (.lock l f) :: k)) : l ∉ own ++ base := by
  have hok := h.run_inv.1
  simp only [LockFlow.ok, Bool.and_eq_true, Bool.not_eq_true', List.contains_eq_mem,
    decide_eq_false_iff_not, Bool.or_eq_true, bne_iff_ne, ne_eq] at hok
  intro hmem
  obtain hmem | hmem := List.mem_append.mp hmem
  · exact hok.1.1.1 hmem
  · have hirq := h.base_irq hmem
    -- `base` is not empty, so this is a handler, and it spins only on locks of `irq`.
    cases x with
    | thread m => rw [h.base_nil] at hmem; cases hmem
    | handler => simp [hirq] at hok

namespace Cpu.Inv

variable {c c' : Cpu L}

theorem safe (h : c.Inv irq) : c.Safe irq := by
  obtain ⟨⟨x, own, base, hfit, hheld, hoff⟩, -⟩ := h
  refine ⟨?_, ?_, ?_, ?_⟩
  · intro l f k hs
    rw [hs] at hfit
    exact hheld.free hfit.lock_free
  · intro k hs l
    rw [hs] at hfit
    obtain ⟨hok, hk⟩ := hfit.run_inv
    simp only [LockFlow.ok, Bool.and_eq_true, beq_iff_eq, List.isEmpty_iff] at hok
    obtain ⟨rfl, rfl⟩ := hok
    obtain rfl := hk.base_nil
    exact hheld.free (by simp)
  · intro l hi hl
    obtain hmem | hmem := List.mem_append.mp ((hheld l).mp hl)
    · exact hoff (hfit.off_of_mem hmem hi)
    · rw [hfit.base_irq hmem] at hi
      cases hi
  · rcases hs : c.stack with - | ⟨fr, k⟩
    · exact .inl rfl
    · rw [hs] at hfit
      cases fr with
      | unlock l => exact .inr (.inr ⟨_, .unlock hs⟩)
      | restore on => exact .inr (.inr ⟨_, .restore hs⟩)
      | run f =>
        cases f with
        | stop => exact .inr (.inl ⟨k, rfl⟩)
        | skip => exact .inr (.inr ⟨_, .skip hs⟩)
        | seq a b => exact .inr (.inr ⟨_, .seq hs⟩)
        | choice a b => exact .inr (.inr ⟨_, .left hs⟩)
        | loop f => exact .inr (.inr ⟨_, .leave hs⟩)
        | lock l f => exact .inr (.inr ⟨_, .lock hs (hheld.free hfit.lock_free)⟩)
        | tryLock l f =>
          cases hl : c.held l with
          | false => exact .inr (.inr ⟨_, .tryLock hs hl⟩)
          | true => exact .inr (.inr ⟨_, .busy hs hl⟩)
        | masked f => exact .inr (.inr ⟨_, .masked hs⟩)
        | unmask => exact .inr (.inr ⟨_, .unmask hs⟩)
        | switch => exact .inr (.inr ⟨_, .stay hs⟩)
        | trap f => exact .inr (.inr ⟨_, .trap hs⟩)

/-- The running code keeps the invariant. -/
theorem exec (h : c.Inv irq) (hx : Exec c c') : c'.Inv irq := by
  obtain ⟨⟨x, own, base, hfit, hheld, hoff⟩, hparked⟩ := h
  cases hx with
  | skip hs | leave hs | stay hs | busy hs _ =>
    rw [hs] at hfit
    exact ⟨⟨x, own, base, hfit.run_inv.2, hheld, hoff⟩, hparked⟩
  | seq hs =>
    rw [hs] at hfit
    obtain ⟨hok, hk⟩ := hfit.run_inv
    obtain ⟨ha, hb⟩ := Bool.and_eq_true_iff.mp hok
    exact ⟨⟨x, own, base, .run ha (.run hb hk), hheld, hoff⟩, hparked⟩
  | left hs =>
    rw [hs] at hfit
    obtain ⟨hok, hk⟩ := hfit.run_inv
    exact ⟨⟨x, own, base, .run (Bool.and_eq_true_iff.mp hok).1 hk, hheld, hoff⟩, hparked⟩
  | right hs =>
    rw [hs] at hfit
    obtain ⟨hok, hk⟩ := hfit.run_inv
    exact ⟨⟨x, own, base, .run (Bool.and_eq_true_iff.mp hok).2 hk, hheld, hoff⟩, hparked⟩
  | again hs =>
    rw [hs] at hfit
    obtain ⟨hok, hk⟩ := hfit.run_inv
    exact ⟨⟨x, own, base, .run hok (.run hok hk), hheld, hoff⟩, hparked⟩
  | @lock k l f hs hl =>
    rw [hs] at hfit
    obtain ⟨hok, hk⟩ := hfit.run_inv
    simp only [LockFlow.ok, Bool.and_eq_true, Bool.or_eq_true, Bool.not_eq_true'] at hok
    have hirq : irq l = true → x.off = true := fun hi => hok.1.1.2.resolve_left (by simp [hi])
    exact ⟨⟨x, l :: own, base, .run hok.2 (.unlock (hheld.not_mem hl) hirq hk),
      hheld.take l, hoff⟩, hparked⟩
  | @tryLock k l f hs hl =>
    rw [hs] at hfit
    obtain ⟨hok, hk⟩ := hfit.run_inv
    simp only [LockFlow.ok, Bool.and_eq_true, Bool.or_eq_true, Bool.not_eq_true'] at hok
    have hirq : irq l = true → x.off = true := fun hi => hok.1.2.resolve_left (by simp [hi])
    exact ⟨⟨x, l :: own, base, .run hok.2 (.unlock (hheld.not_mem hl) hirq hk),
      hheld.take l, hoff⟩, hparked⟩
  | unlock hs =>
    rw [hs] at hfit
    obtain ⟨own', rfl, hl, hk⟩ := hfit.unlock_inv
    exact ⟨⟨x, own', base, hk, hheld.drop hl, hoff⟩, hparked⟩
  | masked hs =>
    rw [hs] at hfit
    obtain ⟨hok, hk⟩ := hfit.run_inv
    exact ⟨⟨x.mask, own, base, .run hok (.restore hoff hk), hheld, fun _ => rfl⟩, hparked⟩
  | @restore k on hs =>
    rw [hs] at hfit
    cases hfit with
    | @restore y _ _ _ _ hon hk =>
      refine ⟨⟨y, own, base, hk, hheld, fun hy => ?_⟩, hparked⟩
      show (c.enabled || on) = false
      rw [hoff (Context.off_mask y), hon hy, Bool.or_self]
    | trap hk => exact ⟨⟨_, [], [], hk, hheld, nofun⟩, hparked⟩
    | handler hk =>
      exact ⟨⟨_, base, [], hk, by simpa using hheld, nofun⟩, hparked⟩
  | unmask hs =>
    rw [hs] at hfit
    obtain ⟨hok, hk⟩ := hfit.run_inv
    obtain rfl : x = .thread false := eq_of_beq hok
    exact ⟨⟨_, own, base, hk, hheld, nofun⟩, hparked⟩
  | @switch k k' before after hs hp =>
    rw [hs] at hfit
    obtain ⟨hok, hk⟩ := hfit.run_inv
    simp only [LockFlow.ok, Bool.and_eq_true, beq_iff_eq, List.isEmpty_iff] at hok
    obtain ⟨rfl, rfl⟩ := hok
    obtain rfl := hk.base_nil
    rw [hp] at hparked
    refine ⟨⟨_, [], [], hparked k' (by simp), hheld, nofun⟩, fun k₁ hk₁ => ?_⟩
    obtain hk₁ | hk₁ := List.mem_append.mp hk₁
    · exact hparked k₁ (List.mem_append_left _ hk₁)
    · obtain rfl | hk₁ := List.mem_cons.mp hk₁
      · exact hk
      · exact hparked k₁ (List.mem_append_right _ (List.mem_cons_of_mem _ hk₁))
  | trap hs =>
    rw [hs] at hfit
    obtain ⟨hok, hk⟩ := hfit.run_inv
    simp only [LockFlow.ok, Bool.and_eq_true, beq_iff_eq, List.isEmpty_iff] at hok
    obtain ⟨⟨rfl, rfl⟩, hbody⟩ := hok
    obtain rfl := hk.base_nil
    exact ⟨⟨_, [], [], .run hbody (.trap hk), hheld, nofun⟩, hparked⟩

/-- An interrupt keeps the invariant: interrupts are on, so the stopped code is that of a thread
and holds no lock of `irq`. -/
theorem interrupt (h : c.Inv irq) (hon : c.enabled = true) (hf : f.ok irq .handler [] = true) :
    Inv irq { c with stack := .run f :: .restore true :: c.stack, enabled := false } := by
  obtain ⟨⟨x, own, base, hfit, hheld, hoff⟩, hparked⟩ := h
  have hx : x.off = false := Bool.eq_false_iff.mpr fun hx => by simp [hoff hx] at hon
  obtain rfl := Context.eq_thread_of_off hx
  obtain rfl := hfit.base_nil
  exact ⟨⟨.handler, [], own, .run hf (.handler hfit), by simpa using hheld, fun _ => rfl⟩, hparked⟩

end Cpu.Inv

theorem Program.start_inv {p : Program L} (h : p.ok irq = true) : p.start.Inv irq := by
  simp only [Program.ok, Bool.and_eq_true] at h
  have hmain : Fits irq (.thread false) [] [] [.run p.main] := .run h.1.1.2 .nil
  have hboot : Fits irq (.thread true) [] [] p.start.stack :=
    .run h.1.1.1 (Fits.restore (c := .thread false) nofun hmain)
  exact ⟨⟨_, [], [], hboot, fun l => by simp [start], fun _ => rfl⟩, nofun⟩

/-- If all code passes the check, no run of the system spins on a taken lock. -/
theorem Program.safe {p : Program L} (h : p.ok irq = true) {c : Cpu L} (hc : p.system.Reach c) :
    c.Safe irq := by
  refine Cpu.Inv.safe (Sys.Preserved.reach (I := Cpu.Inv irq) ⟨?_, ?_⟩ hc)
  · rintro c rfl
    exact start_inv h
  · intro c e c' _ hinv hst
    simp only [Program.ok, Bool.and_eq_true, List.all_eq_true] at h
    cases hst with
    | code hx => exact hinv.exec hx
    | interrupt hon hf => exact hinv.interrupt hon (h.1.2 _ hf)
    | spawn hf =>
      refine ⟨hinv.1, fun k hk => ?_⟩
      obtain rfl | hk := List.mem_cons.mp hk
      · exact .run (h.2 _ hf) .nil
      · exact hinv.2 k hk

end Machine

end Verif
