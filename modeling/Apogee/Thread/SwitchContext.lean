import Apogee.Lib.Span
import Apogee.Lib.Stack
import Apogee.Thread.Operations

/-!
# Context switches (`switch_context`)

A thread that calls `switch_context` leaves seven words on its own stack: the return address, which
the call pushes, and the six callee-saved registers. The stack pointer below them goes to the
thread's `Context`. The incoming thread's words are popped in the opposite order, and `ret` takes
the return address. `KernelThread::new` builds the same seven words on a new stack.

* `Registers.pushes`, `Registers.pop`: the two instruction sequences, each in the source's order.
  `pop_pushes`: they fit.
* `Cpu.Step`: the current thread does anything that leaves the other threads' stacks alone, spawns a
  thread on a stack of its own, yields or exits.
* `Inv`: every parked thread's words lie on its stack, at the stack pointer in its `Context`.
* `switch_restores`: a switch gives the incoming thread the registers that it called
  `switch_context` with.
-/

namespace Apogee

open Verif

/-- The registers that a call of `switch_context` keeps: the stack pointer before the call, the
address to return to, and the callee-saved registers. -/
structure Registers where
  rsp : UInt64
  rip : UInt64
  rbx : UInt64
  rbp : UInt64
  r12 : UInt64
  r13 : UInt64
  r14 : UInt64
  r15 : UInt64
  deriving DecidableEq

namespace Registers

/-- The pushes of the call and of `switch_context`. -/
def pushes (r : Registers) : List UInt64 := [r.rip, r.rbp, r.rbx, r.r12, r.r13, r.r14, r.r15]

/-- The stack pointer below the pushed words: what `switch_context` stores. -/
def saved (r : Registers) : UInt64 := r.rsp - 56

/-- The pops of `switch_context` and its `ret`, from the stack pointer it has loaded. -/
def pop (m : Mem) (rsp : UInt64) : Registers where
  r15 := m rsp.toNat
  r14 := m (rsp.toNat + 8)
  r13 := m (rsp.toNat + 16)
  r12 := m (rsp.toNat + 24)
  rbx := m (rsp.toNat + 32)
  rbp := m (rsp.toNat + 40)
  rip := m (rsp.toNat + 48)
  rsp := rsp + 56

variable {m m' : Mem} {r : Registers} {rsp : UInt64}

theorem toNat_saved (h : 56 ≤ r.rsp.toNat) : r.saved.toNat = r.rsp.toNat - 56 :=
  UInt64.toNat_sub_of_le _ _ (UInt64.le_iff_toNat_le.mpr h)

theorem pop_congr (h : ∀ a, rsp.toNat ≤ a → a < rsp.toNat + 56 → m' a = m a) :
    pop m' rsp = pop m rsp := by
  simp only [pop, mk.injEq, true_and]
  refine ⟨h _ ?_ ?_, h _ ?_ ?_, h _ ?_ ?_, h _ ?_ ?_, h _ ?_ ?_, h _ ?_ ?_, h _ ?_ ?_⟩ <;> omega

/-- What is popped from the stored stack pointer is what was pushed. -/
theorem pop_pushes (m : Mem) (h : 56 ≤ r.rsp.toNat) :
    pop (m.pushAll r.rsp.toNat r.pushes) r.saved = r := by
  have hw : (m.pushAll r.rsp.toNat r.pushes).words (r.rsp.toNat - 8 * r.pushes.length)
      r.pushes.length = r.pushes.reverse := Mem.words_pushAll m h
  rw [show r.rsp.toNat - 8 * r.pushes.length = r.saved.toNat from (toNat_saved h).symm] at hw
  simp only [pushes, List.length_cons, List.length_nil, List.reverse_cons, List.reverse_nil,
    List.nil_append, List.cons_append, Mem.words, List.cons.injEq, Nat.add_assoc] at hw
  obtain ⟨h15, h14, h13, h12, hbx, hbp, hip, -⟩ := hw
  have hsp : r.saved + 56 = r.rsp := UInt64.sub_add_cancel _ _
  cases r
  simp only [pop, mk.injEq]
  exact ⟨hsp, hip, hbx, hbp, h12, h13, h14, h15⟩

/-- The stack pointer is in the stack `s`, with room for a call of `switch_context`. -/
def Fits (r : Registers) (s : Span) : Prop := s.addr + 56 ≤ r.rsp.toNat ∧ r.rsp.toNat ≤ s.stop

/-- The pushes touch no memory outside the stack. -/
theorem Fits.frame {s : Span} (h : r.Fits s) (m : Mem) {a : Nat} (ha : a ∉ s.bytes) :
    m.pushAll r.rsp.toNat r.pushes a = m a := by
  obtain ⟨hlo, hhi⟩ := h
  have hlen : 8 * r.pushes.length = 56 := rfl
  rw [Span.mem_bytes] at ha
  exact Mem.pushAll_frame (by omega) (by omega)

end Registers

/-- One CPU with the threads' stacks. -/
structure Cpu where
  threads : Threads
  mem : Mem
  /-- The registers of the thread that runs. -/
  regs : Registers
  /-- The memory of each thread's stack. -/
  stack : ThreadId → Span
  /-- The registers of the threads that are inside `switch_context`: those at the call, or for a
  thread that has not run, those that `KernelThread::new` prepared. -/
  parked : ThreadId → Option Registers

inductive CpuEvent where
  | run
  | spawn
  /-- A `yield_now` with nothing ready: no call of `switch_context`. -/
  | stay
  | yieldNow (next : ThreadId)
  | exitThread (next : ThreadId)

/-- The thread that a step switches to. -/
def CpuEvent.next : CpuEvent → Option ThreadId
  | yieldNow next | exitThread next => some next
  | run | spawn | stay => none

/-- The memory of the stack buffer at `stack`. -/
def stackSpan (stack : UInt64) : Span := ⟨stack.toNat, stackSize.toNat⟩

/-- The registers that a new thread starts with. -/
def startRegisters (stack entry : UInt64) : Registers := ⟨stackTop stack, entry, 0, 0, 0, 0, 0, 0⟩

namespace Cpu

/-- The thread that runs. -/
abbrev current (st : Cpu) : ThreadId := st.threads.sched.current

/-- The thread runs or can be switched to, so its stack is in use. -/
def Live (st : Cpu) (id : ThreadId) : Prop :=
  id = st.current ∨ (st.threads.sched.contextAt id).isSome

/-- Memory after the running thread's call of `switch_context` has pushed its registers. -/
def pushed (st : Cpu) : Mem := st.mem.pushAll st.regs.rsp.toNat st.regs.pushes

/-- The threads inside `switch_context` once the step has called it. An exiting thread's call does
not return. -/
def calling (st : Cpu) : CpuEvent → ThreadId → Option Registers
  | .yieldNow _ => Function.update st.parked st.current (some st.regs)
  | .exitThread _ => Function.update st.parked st.current none
  | .run | .spawn | .stay => st.parked

inductive Step (p : Profile) : Cpu → CpuEvent → Cpu → Prop
  /-- The current thread changes its registers and any memory but the other threads' stacks. -/
  | run {st : Cpu} {m : Mem} {regs : Registers} :
      (∀ id, st.Live id → id ≠ st.current → ∀ a ∈ (st.stack id).bytes, m a = st.mem a) →
      Step p st .run { st with mem := m, regs := regs }
  | spawn {st : Cpu} {process : ProcessId} {stack entry : UInt64} {t : Threads} {id : ThreadId} :
      (stackSpan stack).stop < 2 ^ 64 →
      (∀ id, st.Live id → (stackSpan stack).Apart (st.stack id)) →
      st.threads.spawn p process stack = .ok (t, id) →
      Step p st .spawn { st with
        threads := t
        mem := st.mem.pushAll (stackTop stack).toNat (startRegisters stack entry).pushes
        -- An id that wrapped around to the current or the bootstrap thread keeps its stack.
        stack := if id = bootstrapId ∨ id = st.current then st.stack
          else Function.update st.stack id (stackSpan stack)
        parked := if id = bootstrapId ∨ id = st.current then st.parked
          else Function.update st.parked id (some (startRegisters stack entry)) }
  | stay {st : Cpu} {t : Threads} : st.threads.yieldNow st.regs.saved = .ok (t, none) →
      Step p st .stay { st with threads := t }
  | yieldNow {st : Cpu} {t : Threads} {loaded : UInt64} :
      st.regs.Fits (st.stack st.current) →
      st.threads.yieldNow st.regs.saved = .ok (t, some loaded) →
      Step p st (.yieldNow t.sched.current) { st with
        threads := t
        mem := st.pushed
        regs := .pop st.pushed loaded
        parked := Function.update (st.calling (.yieldNow t.sched.current)) t.sched.current none }
  /-- `scratch` is the throwaway `Context` in the exiting thread's own frame. -/
  | exitThread {st : Cpu} {t : Threads} {loaded : UInt64} {scratch : Nat} :
      st.regs.Fits (st.stack st.current) →
      scratch ∈ (st.stack st.current).bytes → st.threads.exitThread p = .ok (t, loaded) →
      Step p st (.exitThread t.sched.current) { st with
        threads := t
        mem := st.pushed.store scratch st.regs.saved
        regs := .pop (st.pushed.store scratch st.regs.saved) loaded
        parked := Function.update (st.calling (.exitThread t.sched.current)) t.sched.current none }

/-- The runs from boot, on any bootstrap stack. -/
def system (p : Profile) : Sys Cpu CpuEvent where
  init st := st.threads = .boot ∧ st.parked = fun _ => none
  step := Step p

/-- The words of a parked thread lie on its stack `s`, from the stack pointer in its `Context`. -/
def Holds (m : Mem) (s : Span) (c : Context) (r : Registers) : Prop :=
  s.addr ≤ c.rsp.toNat ∧ c.rsp.toNat + 56 ≤ s.stop ∧ Registers.pop m c.rsp = r

theorem Holds.congr {m m' : Mem} {s : Span} {c : Context} {r : Registers} (h : Holds m s c r)
    (hm : ∀ a ∈ s.bytes, m' a = m a) : Holds m' s c r := by
  obtain ⟨hlo, hhi, hpop⟩ := h
  refine ⟨hlo, hhi, (Registers.pop_congr fun a h1 h2 => ?_).trans hpop⟩
  exact hm a ⟨by omega, by omega⟩

/-- The registers that a call has pushed. -/
theorem holds_pushAll {s : Span} {r : Registers} (h : r.Fits s) (m : Mem) :
    Holds (m.pushAll r.rsp.toNat r.pushes) s ⟨r.saved⟩ r := by
  obtain ⟨hlo, hhi⟩ := h
  have hsaved : r.saved.toNat = r.rsp.toNat - 56 := Registers.toNat_saved (by omega)
  refine ⟨?_, ?_, Registers.pop_pushes m (by omega)⟩
  · simp only [hsaved]
    omega
  · simp only [hsaved]
    omega

/-- What the steps keep. -/
structure Inv (st : Cpu) : Prop where
  /-- Stacks in use are disjoint. -/
  apart : ∀ a b, st.Live a → st.Live b → a ≠ b → (st.stack a).Apart (st.stack b)
  /-- A parked thread's words are intact. -/
  parked : ∀ id r, st.parked id = some r → id ≠ st.current ∧
    ∃ c, st.threads.sched.contextAt id = some c ∧ Holds st.mem (st.stack id) c r
  /-- A thread that can be switched to is parked. -/
  covered : ∀ id, id ≠ st.current → id ≠ bootstrapId →
    (st.threads.sched.contextAt id).isSome → (st.parked id).isSome

variable {p : Profile} {st st' : Cpu} {e : CpuEvent}

theorem Inv.boot (ht : st.threads = .boot) (hp : st.parked = fun _ => none) : Inv st := by
  have hctx : ∀ id, st.Live id → id = bootstrapId := by
    intro id hid
    by_contra hne
    simp [Live, current, ht, Threads.boot, ThreadScheduler.new, ThreadScheduler.contextAt, hne]
      at hid
  refine ⟨fun a b ha hb hne => ?_, fun id r h => ?_, fun id _ hne hctx' => ?_⟩
  · exact absurd ((hctx a ha).trans (hctx b hb).symm) hne
  · rw [hp] at h
    cases h
  · exact absurd (hctx id (.inr hctx')) hne

theorem stackTop_toNat {stack : UInt64} (h : (stackSpan stack).stop < 2 ^ 64) :
    (stackTop stack).toNat = (stack.toNat + stackSize.toNat) / 16 * 16 := by
  have hstop : stack.toNat + stackSize.toNat < 2 ^ 64 := h
  have hadd : (stack + stackSize).toNat = stack.toNat + stackSize.toNat := by
    rw [UInt64.toNat_add, Nat.mod_eq_of_lt hstop]
  have hmask : (~~~(0xF : UInt64)).toNat = 2 ^ 64 - 1 - (2 ^ 4 - 1) := rfl
  unfold stackTop
  rw [UInt64.toNat_and, hadd, hmask]
  exact Word.andNot_two_pow hstop (by decide)

/-- The top of a new stack lies in its buffer, with room for the seven words. -/
theorem fits_start {stack : UInt64} (entry : UInt64) (h : (stackSpan stack).stop < 2 ^ 64) :
    (startRegisters stack entry).Fits (stackSpan stack) := by
  have hsize : stackSize.toNat = 16384 := rfl
  have htop := stackTop_toNat h
  simp only [Registers.Fits, startRegisters, Span.stop, stackSpan]
  omega

theorem startRegisters_saved (id : ThreadId) (process : ProcessId) (stack entry : UInt64) :
    (KernelThread.new id process stack).context = ⟨(startRegisters stack entry).saved⟩ := by
  have hsub : stackTop stack - 8 - 6 * 8 = stackTop stack - 56 := by grind
  exact congrArg Context.mk hsub

/-! ## The steps keep the invariant -/

theorem Inv.live (h : Inv st) {id : ThreadId} {r : Registers} (hid : st.parked id = some r) :
    st.Live id := by
  obtain ⟨-, c, hc, -⟩ := h.parked id r hid
  exact .inr (Option.isSome_iff_exists.mpr ⟨c, hc⟩)

theorem Inv.spawn {process : ProcessId} {stack entry : UInt64} {t : Threads} {id : ThreadId}
    (h : Inv st) (hstop : (stackSpan stack).stop < 2 ^ 64)
    (hapart : ∀ id, st.Live id → (stackSpan stack).Apart (st.stack id))
    (he : st.threads.spawn p process stack = .ok (t, id)) :
    Inv { st with
      threads := t
      mem := st.mem.pushAll (stackTop stack).toNat (startRegisters stack entry).pushes
      stack := if id = bootstrapId ∨ id = st.current then st.stack
        else Function.update st.stack id (stackSpan stack)
      parked := if id = bootstrapId ∨ id = st.current then st.parked
        else Function.update st.parked id (some (startRegisters stack entry)) } := by
  have hctx := Threads.contextAt_spawn he
  have hcur : t.sched.current = st.current := by
    obtain ⟨-, rfl⟩ := Threads.spawn_cases he
    rfl
  -- The words of the threads that are parked already are not on the new stack.
  have hold : ∀ {a r}, st.parked a = some r → ∀ {c}, Holds st.mem (st.stack a) c r →
      Holds (st.mem.pushAll (stackTop stack).toNat (startRegisters stack entry).pushes)
        (st.stack a) c r := fun ha _ hc =>
    hc.congr fun x hx => (fits_start entry hstop).frame st.mem fun hx' =>
      (hapart _ (h.live ha)).not_mem hx' hx
  by_cases hnew : id = bootstrapId ∨ id = st.current
  · have hlive : ∀ a, Live { st with threads := t } a → st.Live a := by
      rintro a (ha | ha)
      · exact .inl (ha.trans hcur)
      · rw [hctx] at ha
        split at ha
        · next hid => exact .inl (hid.1.trans (hnew.resolve_left fun hb => hid.2 (hid.1.trans hb)))
        · exact .inr ha
    simp only [if_pos hnew]
    refine ⟨fun a b ha hb hne => h.apart a b (hlive a ha) (hlive b hb) hne, fun a r ha => ?_,
      fun a hac hab ha => ?_⟩
    · obtain ⟨hne, c, hc, hh⟩ := h.parked a r ha
      refine ⟨fun hac => hne (hac.trans hcur), c, ?_, hold ha hh⟩
      refine (hctx a).trans ((if_neg ?_).trans hc)
      rintro ⟨rfl, hab⟩
      exact hnew.elim hab hne
    · have hac : a ≠ st.current := fun hx => hac (hx.trans hcur.symm)
      have ha : (t.sched.contextAt a).isSome := ha
      rw [hctx, if_neg] at ha
      · exact h.covered a hac hab ha
      · rintro ⟨rfl, hab⟩
        exact hnew.elim hab hac
  · obtain ⟨hnb, hnc⟩ := not_or.mp hnew
    have hlive : ∀ a, Live { st with threads := t } a → a = id ∨ st.Live a := by
      rintro a (ha | ha)
      · exact .inr (.inl (ha.trans hcur))
      · rw [hctx] at ha
        split at ha
        · next hid => exact .inl hid.1
        · exact .inr (.inr ha)
    simp only [if_neg hnew]
    refine ⟨fun a b ha hb hne => ?_, fun a r ha => ?_, fun a hac hab ha => ?_⟩
    · simp only [Function.update_apply]
      split
      · next hid =>
        obtain rfl | hb := hlive b hb
        · exact absurd hid hne
        · rw [if_neg fun hx => hne (hid.trans hx.symm)]
          exact hapart b hb
      · next hid =>
        have ha := (hlive a ha).resolve_left hid
        split
        · exact (hapart a ha).symm
        · next hid' => exact h.apart a b ha ((hlive b hb).resolve_left hid') hne
    · simp only [Function.update_apply] at ha ⊢
      split at ha
      · next hid =>
        obtain rfl := Option.some.inj ha
        subst hid
        refine ⟨fun hac => hnc (hac.trans hcur), ⟨(startRegisters stack entry).saved⟩, ?_, ?_⟩
        · rw [hctx, if_pos ⟨rfl, hnb⟩, startRegisters_saved]
        · rw [if_pos rfl]
          exact holds_pushAll (fits_start entry hstop) st.mem
      · next hid =>
        obtain ⟨hne, c, hc, hh⟩ := h.parked a r ha
        refine ⟨fun hac => hne (hac.trans hcur), c, ?_, ?_⟩
        · rw [hctx, if_neg fun hx => hid hx.1, hc]
        · rw [if_neg hid]
          exact hold ha hh
    · simp only [Function.update_apply]
      split
      · rfl
      · next hid =>
        have ha : (t.sched.contextAt a).isSome := ha
        rw [hctx, if_neg fun hx => hid hx.1] at ha
        exact h.covered a (fun hx => hac (hx.trans hcur.symm)) hab ha

/-- A switch from the current thread to `next`: the threads, memory and records after it. -/
structure Switches (st : Cpu) (t : Threads) (m : Mem) (calling : ThreadId → Option Registers) :
    Prop where
  live : ∀ id, id = t.sched.current ∨ (t.sched.contextAt id).isSome → st.Live id
  parked : ∀ id r, calling id = some r →
    ∃ c, t.sched.contextAt id = some c ∧ Holds m (st.stack id) c r
  covered : ∀ id, id ≠ bootstrapId → (t.sched.contextAt id).isSome → (calling id).isSome

theorem Inv.switch {t : Threads} {m : Mem} {calling : ThreadId → Option Registers}
    {regs : Registers} (h : Inv st) (hs : Switches st t m calling) :
    Inv { st with
      threads := t
      mem := m
      regs := regs
      parked := Function.update calling t.sched.current none } := by
  refine ⟨fun a b ha hb hne => h.apart a b (hs.live a ha) (hs.live b hb) hne, fun id r hid => ?_,
    fun id hne hb hc => ?_⟩
  · simp only [Function.update_apply] at hid
    split at hid
    · cases hid
    · next hne => exact ⟨hne, hs.parked id r hid⟩
  · simp only [Function.update_apply, if_neg hne]
    exact hs.covered id hb hc

/-- The words of the other parked threads survive what the current thread does on its stack. -/
theorem Inv.holds_other (h : Inv st) {m : Mem}
    (hm : ∀ a, a ∉ (st.stack st.current).bytes → m a = st.mem a) {id : ThreadId} {r : Registers}
    {c : Context} (hid : st.parked id = some r) (hh : Holds st.mem (st.stack id) c r) :
    Holds m (st.stack id) c r := by
  have hne := (h.parked id r hid).1
  have hapart := h.apart id st.current (h.live hid) (.inl rfl) hne
  exact hh.congr fun a ha => hm a (hapart.not_mem ha)

theorem Inv.switches_yieldNow {t : Threads} {loaded : UInt64} (h : Inv st) (next : ThreadId)
    (hfit : st.regs.Fits (st.stack st.current))
    (he : st.threads.yieldNow st.regs.saved = .ok (t, some loaded)) :
    Switches st t st.pushed (st.calling (.yieldNow next)) := by
  obtain ⟨hprev, hctx, hnext⟩ := Threads.contextAt_yieldNow he
  have hsome : ∀ id, (t.sched.contextAt id).isSome → (st.threads.sched.contextAt id).isSome := by
    intro id hid
    rw [hctx] at hid
    split at hid
    · next hc => rwa [hc]
    · exact hid
  refine ⟨?_, fun id r hid => ?_, fun id hb hid => ?_⟩
  · rintro id (rfl | hid)
    · exact .inr (hsome _ (by rw [hnext]; rfl))
    · exact .inr (hsome id hid)
  · simp only [calling, Function.update_apply] at hid
    rw [hctx]
    split at hid
    · next hc =>
      obtain rfl := Option.some.inj hid
      rw [hc, if_pos rfl]
      exact ⟨_, rfl, holds_pushAll hfit st.mem⟩
    · next hc =>
      obtain ⟨-, c, hcc, hh⟩ := h.parked id r hid
      rw [if_neg hc]
      exact ⟨c, hcc, h.holds_other (fun a ha => hfit.frame st.mem ha) hid hh⟩
  · simp only [calling, Function.update_apply]
    split
    · rfl
    · next hc => exact h.covered id hc hb (hsome id hid)

theorem Inv.switches_exitThread {t : Threads} {loaded : UInt64} {scratch : Nat} (h : Inv st)
    (next : ThreadId) (hfit : st.regs.Fits (st.stack st.current))
    (hscratch : scratch ∈ (st.stack st.current).bytes)
    (he : st.threads.exitThread p = .ok (t, loaded)) :
    Switches st t (st.pushed.store scratch st.regs.saved) (st.calling (.exitThread next)) := by
  obtain ⟨hctx, hnext⟩ := Threads.contextAt_exitThread he
  have hsome : ∀ id, (t.sched.contextAt id).isSome →
      (st.threads.sched.contextAt id).isSome ∧ (id ≠ bootstrapId → id ≠ st.current) := by
    intro id hid
    rw [hctx] at hid
    split at hid
    · cases hid
    · next hc => exact ⟨hid, fun hb hx => hc ⟨hx, hb⟩⟩
  have hmem : ∀ a, a ∉ (st.stack st.current).bytes →
      st.pushed.store scratch st.regs.saved a = st.mem a := by
    intro a ha
    have hne : a ≠ scratch := fun hx => ha (by rwa [hx])
    exact (Mem.store_of_ne _ _ hne).trans (hfit.frame st.mem ha)
  refine ⟨?_, fun id r hid => ?_, fun id hb hid => ?_⟩
  · rintro id (rfl | hid)
    · exact .inr (hsome _ (by rw [hnext]; rfl)).1
    · exact .inr (hsome id hid).1
  · simp only [calling, Function.update_apply] at hid
    split at hid
    · cases hid
    · next hc =>
      obtain ⟨-, c, hcc, hh⟩ := h.parked id r hid
      rw [hctx, if_neg fun hx => hc hx.1]
      exact ⟨c, hcc, h.holds_other hmem hid hh⟩
  · obtain ⟨hctx', hne⟩ := hsome id hid
    simp only [calling, Function.update_apply, if_neg (hne hb)]
    exact h.covered id (hne hb) hb hctx'

theorem Inv.step (h : Inv st) (hst : Step p st e st') : Inv st' := by
  cases hst with
  | run hm =>
    refine ⟨h.apart, fun id r hid => ?_, h.covered⟩
    obtain ⟨hne, c, hc, hh⟩ := h.parked id r hid
    exact ⟨hne, c, hc, hh.congr (hm id (h.live hid) hne)⟩
  | spawn hstop hapart he => exact h.spawn hstop hapart he
  | stay he =>
    obtain ⟨-, rfl, -⟩ | ⟨_, _, _, _, _, _, _, hloaded⟩ := Threads.yieldNow_cases he
    · refine ⟨fun a b ha hb hne => h.apart a b ?_ ?_ hne, fun id r hid => ?_,
        fun id hne hb hc => ?_⟩
      · simpa [Live, current] using ha
      · simpa [Live, current] using hb
      · simpa [current] using h.parked id r hid
      · exact h.covered id (by simpa [current] using hne) hb (by simpa using hc)
    · cases hloaded
  | yieldNow hfit he => exact h.switch (h.switches_yieldNow _ hfit he)
  | exitThread hfit hscratch he => exact h.switch (h.switches_exitThread _ hfit hscratch he)

theorem inv_reach (h : (system p).Reach st) : Inv st := by
  refine Sys.Preserved.reach (I := Inv) ⟨?_, ?_⟩ h
  · rintro st ⟨ht, hp⟩
    exact Inv.boot ht hp
  · intro st e st' _ hi hst
    exact hi.step hst

/-- The thread that is switched to gets back what it was parked with. -/
theorem Switches.pop_eq {t : Threads} {m : Mem} {calling : ThreadId → Option Registers}
    {loaded : UInt64} (hs : Switches st t m calling)
    (hnext : t.sched.contextAt t.sched.current = some ⟨loaded⟩) {r : Registers}
    (hr : calling t.sched.current = some r) : Registers.pop m loaded = r := by
  obtain ⟨c, hc, -, -, hpop⟩ := hs.parked _ r hr
  obtain rfl : (⟨loaded⟩ : Context) = c := Option.some.inj (hnext.symm.trans hc)
  exact hpop

/-- In every run: a switch to a thread that is inside `switch_context` leaves the CPU with the
registers of that thread's call, and every thread but the bootstrap thread is inside it when it is
switched to. -/
theorem switch_restores (p : Profile) (st : Cpu) (e : CpuEvent) (st' : Cpu) (n : ThreadId)
    (h : (system p).Reach st) (hst : (system p).step st e st') (hn : e.next = some n) :
    (∀ r, st.calling e n = some r → st'.regs = r) ∧
      (n ≠ bootstrapId → ∃ r, st.calling e n = some r) := by
  have hi := inv_reach h
  cases hst with
  | run | spawn | stay => cases hn
  | @yieldNow t loaded hfit he =>
    obtain rfl := Option.some.inj hn
    have hs := hi.switches_yieldNow t.sched.current hfit he
    obtain ⟨-, -, hnext⟩ := Threads.contextAt_yieldNow he
    refine ⟨fun r hr => hs.pop_eq hnext hr, fun hb => ?_⟩
    exact Option.isSome_iff_exists.mp (hs.covered _ hb (by rw [hnext]; rfl))
  | @exitThread t loaded scratch hfit hscratch he =>
    obtain rfl := Option.some.inj hn
    have hs := hi.switches_exitThread t.sched.current hfit hscratch he
    obtain ⟨-, hnext⟩ := Threads.contextAt_exitThread he
    refine ⟨fun r hr => hs.pop_eq hnext hr, fun hb => ?_⟩
    exact Option.isSome_iff_exists.mp (hs.covered _ hb (by rw [hnext]; rfl))

/-- A run goes on with a yield that switches. -/
theorem reach_yieldNow (h : (system p).Reach st)
    (hlo : (st.stack st.current).addr + 56 ≤ st.regs.rsp.toNat)
    (hhi : st.regs.rsp.toNat ≤ (st.stack st.current).stop) {t : Threads} {loaded : UInt64}
    (e : st.threads.yieldNow st.regs.saved = .ok (t, some loaded)) :
    ∃ st', (system p).step st (.yieldNow t.sched.current) st' ∧ (system p).Reach st' ∧
      st' = { st with
        threads := t
        mem := st.pushed
        regs := .pop st.pushed loaded
        parked := Function.update (st.calling (.yieldNow t.sched.current)) t.sched.current none } :=
  ⟨_, Step.yieldNow ⟨hlo, hhi⟩ e, h.step (Step.yieldNow ⟨hlo, hhi⟩ e), rfl⟩

/-- The bootstrap thread yields to a new thread, which changes every register and yields back. -/
theorem switch_restores_round_trip : ∃ st st', (system .dev).Reach st ∧
    (system .dev).step st (.yieldNow bootstrapId) st' ∧
    st'.regs = ⟨0x1800, 0x2000, 1, 2, 3, 4, 5, 6⟩ := by
  have h0 : (system .dev).Reach ⟨.boot, fun _ => 0, ⟨0x1800, 0x2000, 1, 2, 3, 4, 5, 6⟩,
    fun _ => ⟨0x1000, 0x1000⟩, fun _ => none⟩ := .init ⟨rfl, rfl⟩
  have h1 := h0.step (@Step.spawn .dev _ .kernel 0x444444440000 0x3000 _ _ (by decide)
    (fun _ _ => .inr (show 0x2000 ≤ 0x444444440000 by decide)) rfl)
  obtain ⟨st2, -, h2, rfl⟩ := reach_yieldNow h1 (by decide) (by decide) rfl
  have h3 := h2.step (@Step.run _ _ _ ⟨0x444444441000, 0x3100, 7, 7, 7, 7, 7, 7⟩
    fun _ _ _ _ _ => rfl)
  obtain ⟨st', hst, -⟩ := reach_yieldNow h3 (by decide) (by decide) rfl
  exact ⟨_, st', h3, hst, (switch_restores _ _ _ _ _ h3 hst rfl).1 _ rfl⟩

end Cpu

end Apogee
