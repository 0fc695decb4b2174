import Apogee.Kernel.Authorization

/-!
# What a process learns of the others

Two kernels that a process cannot tell apart by its own business: they agree on its registry entry,
the threads, the heap, the timer, the input and the console. The other processes, the pid counter
and the counters of processes may differ (`Agree`).

* `answer_congr`: every request but `SchedulerStats` has the same answer in both. `ProcessCount`,
  creations and requests about other pids are denied, and the rest does not look at the registry.
* `answer_eq_iff`: `SchedulerStats` is open to every caller, and its answer has the counters of
  processes. So the answers agree exactly if that is not asked, or the counters agree.
-/

namespace Apogee

open Verif

namespace Kernel

/-- The counters of `SCHEDULER` without those of processes. -/
def otherCounters (s : Scheduler) : Scheduler :=
  { s with processesAlive := 0, processesSpawned := 0 }

/-- The kernels differ at most in the processes other than `q`. -/
structure Agree (q : ProcessId) (k k' : Kernel) : Prop where
  process : k'.processes.get? q = k.processes.get? q
  sched : k'.threads.sched = k.threads.sched
  nextId : k'.threads.nextId = k.threads.nextId
  counters : otherCounters k'.threads.scheduler = otherCounters k.threads.scheduler
  heap : k'.heap = k.heap
  keyQueue : k'.keyQueue = k.keyQueue
  console : k'.console = k.console

/-- The answer of a call, without the state after it. -/
def answer (p : Profile) (env : Env) (caller : Caller) (request : Request) (k : Kernel) :
    Panics (Option Response) :=
  (k.call p env caller request).map Prod.snd

variable {p : Profile} {env : Env} {q : ProcessId} {request : Request} {k k' : Kernel}

theorem drainReaper_sched {t t' : Threads} (h : t'.sched = t.sched) :
    t'.drainReaper.sched = t.drainReaper.sched := by
  unfold Threads.drainReaper
  rw [h]
  split
  · rfl
  · exact h

/-- Whether a yield panics depends on the scheduler's own state only. -/
theorem yieldNow_congr {t t' : Threads} (h : t'.sched = t.sched) (rsp : UInt64) {β : Type} (b : β) :
    (t'.yieldNow rsp).map (fun _ => b) = (t.yieldNow rsp).map (fun _ => b) := by
  have hd := drainReaper_sched h
  simp only [Threads.yieldNow, hd]
  split
  · rfl
  · next nextId ready _ =>
    cases expect ((t.drainReaper.sched.setCurrent nextId
        (ready ++ [t.drainReaper.sched.current])).contextAt t.drainReaper.sched.current)
        "yield_now: current thread missing from map" with
    | error e => rfl
    | ok c =>
      simp only [Panics.bind_ok]
      cases expect ((t.drainReaper.sched.setCurrent nextId
        (ready ++ [t.drainReaper.sched.current])).contextAt nextId)
        "yield_now: next ready thread missing from map" <;> rfl

/-- Whether an exit panics depends on the scheduler's own state only. -/
theorem exitThread_congr {t t' : Threads} (h : t'.sched = t.sched) {β : Type} (b : β) :
    (t'.exitThread p).map (fun _ => b) = (t.exitThread p).map (fun _ => b) := by
  have hd := drainReaper_sched h
  simp only [Threads.exitThread, hd]
  cases Threads.parkCurrent p t.drainReaper.sched with
  | error e => rfl
  | ok s =>
    simp only [Panics.bind_ok]
    split
    · rfl
    · next nextId ready _ =>
      cases expect ((s.setCurrent nextId ready).contextAt nextId)
        "exit_thread: next ready thread missing from map" <;> rfl

/-- The answer of a call that ends with an operation on the threads. -/
theorem map_bind_threads {α : Type} (x : Panics (Threads × α)) (r : Option Response) (k : Kernel) :
    (x >>= fun y => (pure ({ k with threads := y.1 }, r) : Panics (Kernel × Option Response))).map
      Prod.snd = x.map fun _ => r := by
  cases x <;> rfl

/-- A request of a process that is not about the counters has the same answer. -/
theorem answer_congr (h : Agree q k k') (hreq : request ≠ .schedulerStats) :
    k'.answer p env (.user q) request = k.answer p env (.user q) request := by
  unfold answer
  cases request with
  | processCreate | processCount | threadSpawn => rfl
  | processExit pid code =>
    unfold call
    simp only
    by_cases hf : (Caller.user q).isForeign pid = true
    · simp only [if_pos hf]
      rfl
    · obtain rfl : q = pid := by simpa [Caller.isForeign] using hf
      simp only [if_neg hf, exit, h.process]
      cases k.processes.get? q <;> rfl
  | processSnapshot pid =>
    unfold call
    simp only
    by_cases hf : (Caller.user q).isForeign pid = true
    · simp only [if_pos hf]
      rfl
    · obtain rfl : q = pid := by simpa [Caller.isForeign] using hf
      simp only [if_neg hf, snapshot, h.process]
      rfl
  | threadYield =>
    exact (map_bind_threads _ _ _).trans
      ((yieldNow_congr h.sched env.rsp (some .ok)).trans (map_bind_threads _ _ _).symm)
  | threadExit =>
    exact (map_bind_threads _ _ _).trans
      ((exitThread_congr h.sched none).trans (map_bind_threads _ _ _).symm)
  | schedulerStats => exact absurd rfl hreq
  | memoryStats =>
    simp only [call, memoryStats, h.heap]
    rfl
  | timerTicks =>
    have hc := h.counters
    simp only [otherCounters, Scheduler.mk.injEq] at hc
    simp only [call, hc.1]
    rfl
  | inputReadByte =>
    simp only [call, readByte, h.keyQueue]
    cases k.keyQueue.bind (·.pop) <;> rfl
  | consoleWrite bytes =>
    simp only [call, h.console]
    cases k.console.writeBytes bytes <;> rfl

/-- The counters of processes. -/
def processCounters (k : Kernel) : UInt64 × UInt64 :=
  (k.threads.scheduler.processesAlive, k.threads.scheduler.processesSpawned)

/-- The answers of a process's request in two kernels that differ only in the other processes are
the same exactly if the request is not `SchedulerStats`, or the counters of processes agree. -/
theorem answer_eq_iff (p : Profile) (env : Env) (q : ProcessId) (request : Request) (k k' : Kernel)
    (h : Agree q k k') :
    k'.answer p env (.user q) request = k.answer p env (.user q) request ↔
      request ≠ .schedulerStats ∨ k'.processCounters = k.processCounters := by
  by_cases hreq : request = .schedulerStats
  · subst hreq
    have hc := h.counters
    simp only [otherCounters, Scheduler.mk.injEq] at hc
    simp [answer, call, schedulerStats, processCounters, Except.map, hc]
  · exact ⟨fun _ => .inl hreq, fun _ => answer_congr h hreq⟩

end Kernel

namespace Booted

/-- A process is registered, and then another one. -/
theorem reach_one_and_two : ∃ st₁ st₂ : Booted, (system .dev).Reach st₁ ∧ (system .dev).Reach st₂ ∧
    Kernel.Agree ⟨1⟩ st₁.kernel st₂.kernel ∧ ⟨1⟩ ∈ st₁.kernel.processes ∧
    st₁.kernel.processCounters = (1, 1) ∧ st₂.kernel.processCounters = (2, 2) := by
  have h0 : (system .dev).Reach ⟨.boot .empty ⟨0, 7, fun _ _ => ⟨0x20, 7⟩⟩, []⟩ :=
    .init ⟨_, _, rfl⟩
  obtain ⟨-, h1⟩ := reach_call h0 ⟨0, 0⟩ .kernel
    (.processCreate ⟨0x400000000000, by decide⟩ ⟨0x400000003000, by decide⟩) rfl
  obtain ⟨-, h2⟩ := reach_call h1 ⟨0, 0⟩ .kernel
    (.processCreate ⟨0x400000000000, by decide⟩ ⟨0x400000003000, by decide⟩) rfl
  refine ⟨_, _, h1, h2, ⟨?_, rfl, rfl, rfl, rfl, rfl, rfl⟩, by decide, rfl, rfl⟩
  exact (FMap.get?_insert _ _ _ _).trans (if_neg (by decide))

end Booted

namespace Kernel

/-- `ProcessCount` is denied in both kernels. -/
theorem answer_eq_iff_count : ∃ k k' : Kernel, Agree ⟨1⟩ k k' ∧
    k'.processCounters ≠ k.processCounters ∧
    k'.answer .dev default (.user ⟨1⟩) .processCount =
      k.answer .dev default (.user ⟨1⟩) .processCount := by
  obtain ⟨st₁, st₂, -, -, h, -, h1, h2⟩ := Booted.reach_one_and_two
  refine ⟨st₁.kernel, st₂.kernel, h, by rw [h1, h2]; decide, ?_⟩
  exact (answer_eq_iff .dev default ⟨1⟩ .processCount _ _ h).mpr (.inl nofun)

/-- `SchedulerStats` tells a process that another one was registered. -/
theorem schedulerStats_tells : ∃ st₁ st₂ : Booted, (Booted.system .dev).Reach st₁ ∧
    (Booted.system .dev).Reach st₂ ∧ Agree ⟨1⟩ st₁.kernel st₂.kernel ∧
    st₂.kernel.answer .dev default (.user ⟨1⟩) .schedulerStats ≠
      st₁.kernel.answer .dev default (.user ⟨1⟩) .schedulerStats := by
  obtain ⟨st₁, st₂, hr1, hr2, h, -, h1, h2⟩ := Booted.reach_one_and_two
  refine ⟨st₁, st₂, hr1, hr2, h, fun he => ?_⟩
  have hstats : st₂.kernel.schedulerStats = st₁.kernel.schedulerStats :=
    Response.stats.inj (Option.some.inj (Except.ok.inj he))
  have halive := congrArg SchedulerStats.processesAlive hstats
  simp only [processCounters, Prod.mk.injEq] at h1 h2
  simp only [schedulerStats, h1, h2] at halive
  exact absurd halive (by decide)

end Kernel

end Apogee
