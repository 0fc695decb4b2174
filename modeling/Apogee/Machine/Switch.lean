import Apogee.Thread.Operations
import Apogee.Machine.Machine

/-!
# Which thread runs after a step

`yield_now` and `exit_thread` switch to the head of the ready queue. Every other part of the kernel
leaves the current thread alone. So the thread in the label of a machine's step is the one that runs
after it (`Step.current_eq`).

* `yieldNow_current`, `exitThread_head`: the two operations that switch.
* `call_sched`: a request to another service does not touch the scheduler.
* `syscallDispatch_cases`: a syscall returns, yields or exits.
-/

namespace Apogee

open Verif

namespace Threads

variable {p : Profile} {t t' : Threads}

/-- After `yield_now` the head of the ready queue runs, if there is one. -/
theorem yieldNow_current {rsp : UInt64} {loaded : Option UInt64}
    (h : t.yieldNow rsp = .ok (t', loaded)) :
    t'.sched.current = t.sched.ready.head?.getD t.sched.current := by
  obtain ⟨hr, rfl, -⟩ | ⟨nextId, ready, c, hr, -, -, rfl, -⟩ := yieldNow_cases h
  · simp [hr]
  · simp [hr, ThreadScheduler.setCurrent]

/-- After `exit_thread` the head of the ready queue runs, and there is one. -/
theorem exitThread_head {loaded : UInt64} (h : t.exitThread p = .ok (t', loaded)) :
    t.sched.ready.head? = some t'.sched.current := by
  obtain ⟨nextId, ready, hr, rfl, -⟩ := exitThread_cases h
  rw [hr]
  rfl

theorem spawn_current {process : ProcessId} {stack : UInt64} {id : ThreadId}
    (h : t.spawn p process stack = .ok (t', id)) : t'.sched.current = t.sched.current := by
  obtain ⟨-, rfl⟩ := spawn_cases h
  rfl

end Threads

namespace Kernel

variable {p : Profile} {env : Env} {caller : Caller} {k k' : Kernel} {r : Option Response}
  {load : UInt64 → Panics UInt8} {frame : SyscallFrame}

/-- A request to a service other than the threads' leaves the scheduler alone. -/
theorem call_sched {request : Request} (h : k.call p env caller request = .ok (k', r))
    (hreq : Machine.ServiceRequest request) : k'.threads.sched = k.threads.sched := by
  cases called_of_call h with
  | spawned | yielded | threadExited => cases hreq
  | failed | created | exited | snapshot | count | stats | memory | ticks | byteRead | written =>
    rfl

theorem sysWrite_sched {rax : UInt64} (h : k.sysWrite p load caller frame = .ok (k', rax)) :
    k'.threads.sched = k.threads.sched := by
  unfold sysWrite at h
  split at h
  · obtain ⟨rfl, -⟩ := Prod.mk.inj (Except.ok.inj h)
    rfl
  · split at h
    · obtain ⟨rfl, -⟩ := Prod.mk.inj (Except.ok.inj h)
      rfl
    · obtain ⟨bytes, -, h⟩ := Panics.bind_eq_ok.mp h
      obtain ⟨⟨k₁, response⟩, hcall, h⟩ := Panics.bind_eq_ok.mp h
      obtain rfl : k₁ = k' := by
        simp only at h
        split at h <;> exact (Prod.mk.inj (Except.ok.inj h)).1
      exact call_sched hcall trivial

theorem sysRead_sched {rax : UInt64} (h : k.sysRead p caller = .ok (k', rax)) :
    k'.threads.sched = k.threads.sched := by
  obtain ⟨⟨k₁, response⟩, hcall, h⟩ := Panics.bind_eq_ok.mp h
  have hk : k₁ = k' := by
    cases response with
    | none => exact (Prod.mk.inj (Except.ok.inj h)).1
    | some r =>
      cases r with
      | byte b => cases b <;> exact (Prod.mk.inj (Except.ok.inj h)).1
      | _ => exact (Prod.mk.inj (Except.ok.inj h)).1
  rw [← hk]
  exact call_sched hcall trivial

theorem sysYield_current {rax : UInt64} (h : k.sysYield p env caller = .ok (k', rax)) :
    k'.threads.sched.current = k.threads.sched.ready.head?.getD k.threads.sched.current := by
  obtain ⟨⟨k₁, response⟩, hcall, h⟩ := Panics.bind_eq_ok.mp h
  obtain rfl : k₁ = k' := by
    simp only at h
    split at h <;> exact (Prod.mk.inj (Except.ok.inj h)).1
  obtain ⟨⟨threads, loaded⟩, hyield, h⟩ := Panics.bind_eq_ok.mp hcall
  obtain ⟨rfl, -⟩ := Prod.mk.inj (Except.ok.inj h)
  exact Threads.yieldNow_current hyield

/-- A process is taken out of the registry and the current thread exits. -/
theorem exit_head {pid : ProcessId} {code : Int32}
    (h : (do
      let (k, _) ← k.call p env caller (.processExit pid code)
      let (threads, _) ← k.threads.exitThread p
      pure { k with threads := threads }) = (.ok k' : Panics Kernel)) :
    k.threads.sched.ready.head? = some k'.threads.sched.current := by
  obtain ⟨⟨k₁, response⟩, hcall, h⟩ := Panics.bind_eq_ok.mp h
  obtain ⟨⟨threads, loaded⟩, hexit, h⟩ := Panics.bind_eq_ok.mp h
  rw [← Except.ok.inj h, ← call_sched hcall trivial]
  exact Threads.exitThread_head hexit

theorem sysExit_head {code : Int32} (h : k.sysExit p caller code = .ok k') :
    k.threads.sched.ready.head? = some k'.threads.sched.current := by
  cases caller with
  | user pid => exact exit_head h
  | kernel | irq => cases h

theorem killFaultingProcess_head {reason : String} (h : k.killFaultingProcess p reason = .ok k') :
    k.threads.sched.ready.head? = some k'.threads.sched.current := by
  unfold killFaultingProcess at h
  simp only at h
  split at h
  · cases h
  · exact exit_head h

/-- The outcomes of a syscall: its thread has exited, it returns and leaves the scheduler alone, or
it has yielded. -/
theorem syscallDispatch_cases {result : Option SyscallFrame}
    (h : k.syscallDispatch p env load frame = .ok (k', result)) :
    (result = none ∧ k.threads.sched.ready.head? = some k'.threads.sched.current) ∨
    (result.isSome ∧ frame.rax ≠ sysYieldNumber ∧ k'.threads.sched = k.threads.sched) ∨
    (result.isSome ∧ frame.rax = sysYieldNumber ∧
      k'.threads.sched.current = k.threads.sched.ready.head?.getD k.threads.sched.current) := by
  unfold syscallDispatch at h
  simp only at h
  split at h
  · obtain ⟨k₁, hexit, h⟩ := Panics.bind_eq_ok.mp h
    obtain ⟨rfl, rfl⟩ := Prod.mk.inj (Except.ok.inj h)
    exact .inl ⟨rfl, sysExit_head hexit⟩
  · split at h
    · next hw =>
      obtain ⟨⟨k₁, rax⟩, hwrite, h⟩ := Panics.bind_eq_ok.mp h
      obtain ⟨rfl, rfl⟩ := Prod.mk.inj (Except.ok.inj h)
      exact .inr (.inl ⟨rfl, by rw [hw]; decide, sysWrite_sched hwrite⟩)
    · split at h
      · next hr =>
        obtain ⟨⟨k₁, rax⟩, hread, h⟩ := Panics.bind_eq_ok.mp h
        obtain ⟨rfl, rfl⟩ := Prod.mk.inj (Except.ok.inj h)
        exact .inr (.inl ⟨rfl, by rw [hr]; decide, sysRead_sched hread⟩)
      · split at h
        · next hy =>
          obtain ⟨⟨k₁, rax⟩, hyield, h⟩ := Panics.bind_eq_ok.mp h
          obtain ⟨rfl, rfl⟩ := Prod.mk.inj (Except.ok.inj h)
          exact .inr (.inr ⟨rfl, hy, sysYield_current hyield⟩)
        · next hy =>
          obtain ⟨rfl, rfl⟩ := Prod.mk.inj (Except.ok.inj h)
          exact .inr (.inl ⟨rfl, hy, rfl⟩)

end Kernel

/-- The thread in the label of a step runs after it; with none there, the same thread as before. -/
theorem Machine.Step.current_eq {p : Profile} {s : PrivilegeStack} {st st' : Machine}
    {e : MachineEvent} (hst : Step p s st e st') : st'.current = e.next.getD st.current := by
  cases hst with
  | compute _ hb | interrupt _ _ _ hb => exact congrArg ThreadScheduler.current hb.sched
  | call _ hreq hcall => exact congrArg ThreadScheduler.current (Kernel.call_sched hcall hreq)
  | spawn _ hspawn => exact Threads.spawn_current hspawn
  | yieldNow _ hyield => exact Threads.yieldNow_current hyield
  | exitThread _ _ hexit => simp [MachineEvent.next, head, current, Threads.exitThread_head hexit]
  | sleepIfIdle | enterUserland | exec | trap | sysReturn => rfl
  | dispatch _ _ hrax hcall =>
    obtain ⟨hnone, -⟩ | ⟨-, -, hsched⟩ | ⟨-, hy, -⟩ := Kernel.syscallDispatch_cases hcall
    · cases hnone
    · exact congrArg ThreadScheduler.current hsched
    · exact absurd hy hrax
  | dispatchYield _ _ hrax hcall =>
    obtain ⟨hnone, -⟩ | ⟨-, hy, -⟩ | ⟨-, -, hcur⟩ := Kernel.syscallDispatch_cases hcall
    · cases hnone
    · exact absurd hrax hy
    · exact hcur
  | dispatchExit _ _ hcall =>
    obtain ⟨-, hhead⟩ | ⟨hsome, -⟩ | ⟨hsome, -⟩ := Kernel.syscallDispatch_cases hcall
    · simp [MachineEvent.next, head, current, hhead]
    · cases hsome
    · cases hsome
  | fault _ _ hkill =>
    simp [MachineEvent.next, head, current, Kernel.killFaultingProcess_head hkill]

end Apogee
