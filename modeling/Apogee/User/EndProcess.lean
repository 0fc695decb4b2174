import Apogee.Kernel.Ledger
import Apogee.Thread.Consistency
import Apogee.User.Syscall

/-!
# Ending a process

`sys_exit` and `kill_faulting_process` take the process out of the registry through the call
boundary, as the pid that the scheduler names, and then exit its thread. The states are those of the
runs of `Ledger`: the two paths are themselves a call and an exit (`reach_exit`).

* `Kernel.call_threads`: a call leaves the threads alone, or is one of their operations.
* `threads_inv`: so the scheduler's invariant holds while fewer than `2 ^ 64` threads were spawned.
* `ends_exactly`: both paths then end without a panic, in exactly the state that `Ended` describes.
* `not_ends_exactly_after_wrap`: in a `release` build a thread id can come round while its thread
  still runs. Its exit then finds its own id at the head of the queue and panics, after the process
  has left the registry.
-/

namespace Apogee

open Verif

theorem Traced.Inv.congr {t t' : Threads} {tags : ThreadId → ProcessId} {n : Nat}
    (h : Traced.Inv ⟨t, tags, n⟩) (hs : t'.sched = t.sched) (hn : t'.nextId = t.nextId)
    (ha : t'.scheduler.threadsAlive = t.scheduler.threadsAlive) : Traced.Inv ⟨t', tags, n⟩ := by
  obtain ⟨sched, nextId, scheduler⟩ := t
  obtain ⟨sched', nextId', scheduler'⟩ := t'
  obtain rfl : sched' = sched := hs
  obtain rfl : nextId' = nextId := hn
  exact { h with alive := (congrArg UInt64.toNat ha).trans h.alive }

namespace Kernel

variable {p : Profile} {env : Env} {caller : Caller} {request : Request} {k k' : Kernel}
  {r : Option Response} {pid : ProcessId} {code : Int32}

/-- The scheduler, the id counter and the thread counter are as before. -/
structure KeepsThreads (k k' : Kernel) : Prop where
  sched : k'.threads.sched = k.threads.sched
  nextId : k'.threads.nextId = k.threads.nextId
  alive : k'.threads.scheduler.threadsAlive = k.threads.scheduler.threadsAlive

/-- What one call can do to the threads. -/
inductive ThreadsEffect (p : Profile) (request : Request) (k k' : Kernel) (r : Option Response) :
    Prop
  | kept : (∀ id, r ≠ some (.thread id)) → KeepsThreads k k' → ThreadsEffect p request k k' r
  | spawned (process : ProcessId) (stack : UInt64) (id : ThreadId) : r = some (.thread id) →
      k.threads.spawn p process stack = .ok (k'.threads, id) → ThreadsEffect p request k k' r
  | yielded (rsp : UInt64) (loaded : Option UInt64) : (∀ id, r ≠ some (.thread id)) →
      k.threads.yieldNow rsp = .ok (k'.threads, loaded) → ThreadsEffect p request k k' r
  | exited (loaded : UInt64) : request = .threadExit → (∀ id, r ≠ some (.thread id)) →
      k.threads.exitThread p = .ok (k'.threads, loaded) → ThreadsEffect p request k k' r

theorem call_threads (h : k.call p env caller request = .ok (k', r)) :
    ThreadsEffect p request k k' r := by
  cases called_of_call h with
  | spawned entry process hspawn => exact .spawned process env.stack _ rfl hspawn
  | yielded hyield => exact .yielded env.rsp _ (by simp) hyield
  | threadExited hexit => exact .exited _ rfl (by simp) hexit
  | failed | created | exited | snapshot | count | stats | memory | ticks | byteRead | written =>
    exact .kept (by simp) ⟨rfl, rfl, rfl⟩

/-- The state after the process `pid` and its current thread ended. -/
structure Ended (k k' : Kernel) (pid : ProcessId) : Prop where
  /-- No other entry of the registry changes. -/
  processes : k'.processes = k.processes.erase pid
  processesAlive : k'.processesAlive.toNat + 1 = k.processesAlive.toNat
  /-- The current thread's entry, and no other, has moved to the reaper slot. -/
  reaper : ∃ th, k.threads.sched.threads.get? k.threads.sched.current = some th ∧
    k'.threads.sched.reaper = some th ∧
    k'.threads.sched.threads = k.threads.sched.threads.erase k.threads.sched.current
  /-- A thread that waited in the slot is dropped. -/
  threadsAlive : k'.threads.scheduler.threadsAlive.toNat + k.threads.sched.reaperCount =
    k.threads.scheduler.threadsAlive.toNat
  /-- The head of the queue runs and the rest of the queue stays. -/
  ready : k.threads.sched.ready = k'.threads.sched.current :: k'.threads.sched.ready
  contexts : ∀ id, id ≠ k.threads.sched.current →
    k'.threads.sched.contextAt id = k.threads.sched.contextAt id

/-- Both ways to end the current thread's process, `pid`, end in that state. -/
def EndsExactly (p : Profile) (k : Kernel) (pid : ProcessId) : Prop :=
  (∀ code, ∃ k', k.sysExit p (.user k.threads.currentProcess) code = .ok k' ∧ Ended k k' pid) ∧
    ∀ reason, ∃ k', k.killFaultingProcess p reason = .ok k' ∧ Ended k k' pid

/-- The current thread has a process other than the kernel, so it is not the bootstrap thread. -/
theorem current_ne_bootstrapId (h : k.threads.currentProcess ≠ .kernel) :
    k.threads.sched.current ≠ bootstrapId := by
  intro hc
  exact h (if_pos hc)

/-- The exit request of a process for itself. -/
theorem call_processExit (env : Env) (code : Int32) (h : pid ∈ k.processes) :
    k.call p env (.user pid) (.processExit pid code) =
      .ok (note { k with processes := k.processes.erase pid } .noteProcessExited, some .ok) := by
  obtain ⟨process, hp⟩ := FMap.mem_iff.mp h
  simp [call, Caller.isForeign, exit, hp]

/-- The registration and the exit of the thread, in a state that the scheduler's invariant
describes. -/
theorem exit_ended {tags : ThreadId → ProcessId} {n : Nat} (env : Env) (code : Int32)
    (hi : Traced.Inv ⟨k.threads, tags, n⟩) (hc : k.threads.sched.current ≠ bootstrapId)
    (hp : pid ∈ k.processes) (ha : 0 < k.processesAlive.toNat) :
    ∃ k', (do
      let (k, _) ← k.call p env (.user pid) (.processExit pid code)
      let (threads, _) ← k.threads.exitThread p
      pure { k with threads := threads }) = (.ok k' : Panics Kernel) ∧ Ended k k' pid := by
  rw [call_processExit env code hp, Panics.bind_ok]
  obtain ⟨th, nextId, ready, hth, hr⟩ := hi.exit_cases hc
  have hi' : Traced.Inv ⟨(note { k with processes := k.processes.erase pid }
    .noteProcessExited).threads, tags, n⟩ := hi.congr rfl rfl rfl
  obtain ⟨loaded, e⟩ := hi'.exitThread_eq (p := p) hc hth hr
  have hctx := (Threads.contextAt_exitThread e).1
  simp only [e, Panics.bind_ok]
  refine ⟨_, rfl, rfl, ?_, ⟨th, hth, rfl, rfl⟩, ?_, hr, fun id hid => ?_⟩
  · show (Threads.drainReaper _).scheduler.processesAlive.toNat + 1 = _
    rw [(drainReaper_processes _).1]
    show (k.processesAlive - 1).toNat + 1 = _
    rw [UInt64.toNat_sub_of_le _ _ (by rw [UInt64.le_iff_toNat_le]; exact ha)]
    exact Nat.sub_add_cancel ha
  · have hd : (Threads.drainReaper _).scheduler.threadsAlive.toNat = _ := hi'.drain.alive
    simp only [Threads.drainReaper_threads, ThreadScheduler.reaperCount,
      Threads.drainReaper_reaper, Option.isSome_none] at hd
    rw [hi.alive]
    exact congrArg (· + k.threads.sched.reaperCount) hd
  · exact (hctx id).trans (if_neg fun h => hid h.1)

end Kernel

/-! ## Runs -/

namespace Ledger

variable {p : Profile} {st st' : Ledger} {e : LedgerEvent} {k : Kernel} {pid : ProcessId}
  {code : Int32}

theorem answered_kernel (st : Ledger) (k : Kernel) (request : Request) (r : Option Response) :
    (st.answered k request r).kernel = k := by
  unfold answered
  split <;> rfl

theorem answered_spawns (st : Ledger) (k : Kernel) (request : Request) {r : Option Response}
    (hr : ∀ id, r ≠ some (.thread id)) : (st.answered k request r).spawns = st.spawns := by
  unfold answered
  split
  · rfl
  · rfl
  · exact absurd rfl (hr _)
  · rfl

/-- The scheduler's invariant, for some record of the tags. -/
def ThreadsInv (st : Ledger) : Prop :=
  ∃ tags, Traced.Inv ⟨st.kernel.threads, tags, st.spawns⟩

theorem ThreadsInv.keeps (h : ThreadsInv st) (hk : Kernel.KeepsThreads st.kernel st'.kernel)
    (hs : st'.spawns = st.spawns) : ThreadsInv st' := by
  obtain ⟨tags, hi⟩ := h
  refine ⟨tags, ?_⟩
  rw [hs]
  exact hi.congr hk.sched hk.nextId hk.alive

theorem ThreadsInv.call {env : Env} {caller : Caller} {request : Request} {r : Option Response}
    (h : ThreadsInv st)
    (hexit : request = .threadExit → st.kernel.threads.sched.current ≠ bootstrapId)
    (hcall : st.kernel.call p env caller request = .ok (k, r))
    (hn : (st.answered k request r).spawns < 2 ^ 64) : ThreadsInv (st.answered k request r) := by
  have hk := answered_kernel st k request r
  cases Kernel.call_threads hcall with
  | kept hr hkeep => exact h.keeps (by rw [hk]; exact hkeep) (answered_spawns st k request hr)
  | spawned process stack id hr hs =>
    obtain ⟨tags, hi⟩ := h
    have hspawns : (st.answered k request r).spawns = st.spawns + 1 := by
      subst hr
      unfold answered
      split <;> simp_all
    rw [hspawns] at hn
    refine ⟨Function.update tags id process, ?_⟩
    rw [hk, hspawns]
    exact hi.spawn hn hs
  | yielded rsp loaded hr hy =>
    obtain ⟨tags, hi⟩ := h
    refine ⟨tags, ?_⟩
    rw [hk, answered_spawns st k request hr]
    exact hi.yieldNow hy
  | exited loaded hreq hr he =>
    obtain ⟨tags, hi⟩ := h
    refine ⟨tags, ?_⟩
    rw [hk, answered_spawns st k request hr]
    exact hi.exitThread (hexit hreq) he

theorem ThreadsInv.step (h : ThreadsInv st) (hst : Step p st e st') (hn : st'.spawns < 2 ^ 64) :
    ThreadsInv st' := by
  cases hst with
  | call hexit hcall => exact h.call hexit hcall hn
  | newProcess => exact h.keeps ⟨rfl, rfl, rfl⟩ rfl
  | registerProcess process => exact h.keeps ⟨rfl, rfl, rfl⟩ rfl
  | exitProcess pid code =>
    unfold Kernel.exit
    cases st.kernel.processes.get? pid with
    | none => exact h
    | some process => exact h.keeps ⟨rfl, rfl, rfl⟩ rfl
  | background hb => exact h.keeps ⟨hb.sched, hb.nextId, hb.threadsAlive⟩ rfl

theorem Step.spawns_le (hst : Step p st e st') : st.spawns ≤ st'.spawns := by
  cases hst with
  | call _ hcall =>
    unfold answered
    split
    · exact Nat.le_refl _
    · exact Nat.le_refl _
    · exact Nat.le_succ _
    · exact Nat.le_refl _
  | exitProcess pid code =>
    split
    · exact Nat.le_refl _
    · exact Nat.le_refl _
  | newProcess | registerProcess | background => exact Nat.le_refl _

theorem threads_inv (h : (system p).Reach st) : st.spawns < 2 ^ 64 → ThreadsInv st := by
  refine Sys.Preserved.reach (I := fun st => st.spawns < 2 ^ 64 → ThreadsInv st) ⟨?_, ?_⟩ h
  · rintro st ⟨heap, console, rfl⟩ -
    exact ⟨fun _ => .kernel, Traced.Inv.boot⟩
  · intro st e st' _ ih hst hn
    exact (ih (Nat.lt_of_le_of_lt (Step.spawns_le hst) hn)).step hst hn

/-- `sys_exit` and `kill_faulting_process` are a call and an exit, so their states are reached. -/
theorem reach_exit {env : Env} (h : (system p).Reach st)
    (hc : st.kernel.threads.sched.current ≠ bootstrapId)
    (he : (do
      let (k, _) ← st.kernel.call p env (.user pid) (.processExit pid code)
      let (threads, _) ← k.threads.exitThread p
      pure { k with threads := threads }) = (.ok k : Panics Kernel)) :
    ∃ st', (system p).Reach st' ∧ st'.kernel = k := by
  obtain ⟨⟨k₁, r⟩, hcall, he⟩ := Panics.bind_eq_ok.mp he
  obtain ⟨⟨t, loaded⟩, hexit, he⟩ := Panics.bind_eq_ok.mp he
  obtain rfl := Except.ok.inj he
  have hsched : k₁.threads.sched = st.kernel.threads.sched := by
    cases Kernel.called_of_call hcall with
    | failed => rfl
    | exited => rfl
  have h₁ := h.step (Step.call (fun hreq => by cases hreq) hcall)
  have hk := answered_kernel st k₁ (.processExit pid code) r
  have hcall' : (st.answered k₁ (.processExit pid code) r).kernel.call p env (.user pid)
      .threadExit = .ok ({ k₁ with threads := t }, none) := by
    rw [hk]
    simp only [Kernel.call, hexit, Panics.bind_ok]
    rfl
  have h₂ := h₁.step (Step.call (fun _ => by rw [hk, hsched]; exact hc) hcall')
  exact ⟨_, h₂, answered_kernel _ _ _ _⟩

/-- In every run with fewer than `2 ^ 64` spawns and as many registrations: when the current thread
has a registered process, `sys_exit` with any code and a ring-3 fault with any reason end the
process and the thread, and nothing else. -/
theorem ends_exactly (p : Profile) (st : Ledger) (h : (system p).Reach st)
    (hs : st.spawns < 2 ^ 64) (hn : st.registrations < 2 ^ 64) (pid : ProcessId)
    (htag : st.kernel.threads.currentProcess = pid) (hpid : pid ≠ .kernel)
    (hreg : pid ∈ st.kernel.processes) : st.kernel.EndsExactly p pid := by
  subst htag
  obtain ⟨tags, hi⟩ := threads_inv h hs
  have hc := Kernel.current_ne_bootstrapId hpid
  have halive : 0 < st.kernel.processesAlive.toNat := by
    have hsize := FMap.size_erase hreg
    have hcount : st.kernel.count = FMap.size st.kernel.processes := rfl
    rw [(inv_reach h).alive_toNat hn]
    omega
  refine ⟨fun code => ?_, fun reason => ?_⟩
  · exact Kernel.exit_ended default code hi hc hreg halive
  · unfold Kernel.killFaultingProcess
    simp only [if_neg hpid]
    exact Kernel.exit_ended default (-1) hi hc hreg halive

/-- A process with one host thread, which runs. -/
theorem ends_exactly_demo : ∃ st, (system .dev).Reach st ∧ ⟨1⟩ ∈ st.kernel.processes ∧
    st.kernel.threads.currentProcess = ⟨1⟩ ∧ st.kernel.EndsExactly .dev ⟨1⟩ := by
  have h0 : (system .dev).Reach ⟨.boot .empty ⟨0, 7, fun _ _ => ⟨0x20, 7⟩⟩, 0, 0, 0, 0⟩ :=
    .init ⟨_, _, rfl⟩
  have h1 := h0.step (Step.registerProcess (demoProcess ⟨1⟩))
  have h2 := h1.step (@Step.call _ _ ⟨0x444444440000, 0⟩ .kernel (.threadSpawn 0 ⟨1⟩) _ _
    (fun hreq => by cases hreq) rfl)
  have h3 := h2.step (@Step.call _ _ ⟨0, 0x8000⟩ .kernel .threadYield _ _
    (fun hreq => by cases hreq) rfl)
  exact ⟨_, h3, by decide, rfl,
    ends_exactly _ _ h3 (by decide) (by decide) ⟨1⟩ rfl (by decide) (by decide)⟩

/-! ## A thread id that comes round -/

/-- The states that the threads reach by themselves. -/
theorem reach_of_traced {t : Traced} (h : (Traced.system p).Reach t) :
    ∃ st, (system p).Reach st ∧ st.kernel.threads = t.threads := by
  induction h with
  | init hi =>
    subst hi
    exact ⟨_, .init ⟨.empty, ⟨0, 7, fun _ _ => ⟨0x20, 7⟩⟩, rfl⟩, rfl⟩
  | step _ hst ih =>
    obtain ⟨st, hr, hthreads⟩ := ih
    have hkernel : ∀ {env : Env} {request : Request} {t' : Threads} {r : Option Response},
        (request = .threadExit → st.kernel.threads.sched.current ≠ bootstrapId) →
        st.kernel.call p env .kernel request = .ok ({ st.kernel with threads := t' }, r) →
        ∃ st', (system p).Reach st' ∧ st'.kernel.threads = t' := by
      intro env request t' r hexit hcall
      exact ⟨_, hr.step (Step.call hexit hcall), by rw [answered_kernel]⟩
    cases hst with
    | @spawn process stack t' id e =>
      rw [← hthreads] at e
      apply @hkernel ⟨stack, 0⟩ (.threadSpawn 0 process) t' (some (.thread id))
      · exact fun hreq => by cases hreq
      · simp [Kernel.call, e]
    | @yieldNow rsp t' loaded e =>
      rw [← hthreads] at e
      apply @hkernel ⟨0, rsp⟩ .threadYield t' (some .ok)
      · exact fun hreq => by cases hreq
      · simp [Kernel.call, e]
    | @exitThread t' loaded hc e =>
      rw [← hthreads] at e hc
      apply @hkernel ⟨0, 0⟩ .threadExit t' none
      · exact fun _ => hc
      · simp [Kernel.call, e]

end Ledger

namespace Traced

variable {p : Profile} {st : Traced} {n : Nat}

/-- One cycle with the thread 1 waiting: spawn a thread, yield to it past the thread 1, let it
exit. -/
theorem At.cycle_held (h : At p bootstrapId [⟨1⟩] n st) (hn : 0 < n) (hlt : n + 1 < 2 ^ 64) :
    ∃ st', At p bootstrapId [⟨1⟩] (n + 1) st' := by
  have hb := ofNat_ne_bootstrapId hlt
  have hone : (⟨UInt64.ofNat (n + 1)⟩ : ThreadId) ≠ ⟨1⟩ := by
    intro he
    have := congrArg (·.asU64.toNat) he
    simp only [Word.toNat_ofNat hlt] at this
    exact absurd this (by simp; omega)
  have hf : (⟨UInt64.ofNat (n + 1)⟩ : ThreadId) ∉ st.threads.sched.threads := by
    rw [h.tracked _ hb, List.mem_pair]
    exact not_or.mpr ⟨hb, hone⟩
  obtain ⟨st₁, h₁, -⟩ := h.spawn .kernel (.inr hf)
  obtain ⟨st₂, h₂, -⟩ := h₁.yieldNow
  obtain ⟨st₃, h₃, -⟩ := h₂.yieldNow
  exact h₃.exitThread hb fun hm => (List.mem_pair.mp hm).elim hb hone

theorem held_after (p : Profile) (n : Nat) (hn : 0 < n) (hlt : n < 2 ^ 64) :
    ∃ st, At p bootstrapId [⟨1⟩] n st := by
  induction n with
  | zero => cases hn
  | succ n ih =>
    by_cases h0 : n = 0
    · subst h0
      obtain ⟨st, h, -⟩ := (At.boot p).spawn ⟨1⟩ (.inr Finmap.notMem_empty)
      exact ⟨st, h⟩
    · obtain ⟨st, h⟩ := ih (by omega) (by omega)
      exact h.cycle_held (by omega) hlt

/-- In a `release` build the thread with the id 1 runs, and a second thread with this id is next. -/
theorem id_comes_round : ∃ st, (system .release).Reach st ∧ st.threads.sched.current = ⟨1⟩ ∧
    st.threads.sched.ready = [⟨1⟩, bootstrapId, bootstrapId] ∧
    st.threads.sched.tag ⟨1⟩ = some ⟨1⟩ := by
  obtain ⟨st, h⟩ := held_after .release (2 ^ 64 - 1) (by decide) (by decide)
  -- The ids of the next two threads are 0 and 1.
  obtain ⟨st₁, h₁, -⟩ := h.spawn .kernel (.inl rfl)
  obtain ⟨st₂, h₂, -⟩ := h₁.yieldNow
  obtain ⟨st₃, h₃, -⟩ := h₂.yieldNow
  obtain ⟨st₄, h₄, htag⟩ := h₃.spawn ⟨1⟩ (.inl rfl)
  obtain ⟨st₅, h₅, htag₅⟩ := h₄.yieldNow
  obtain ⟨st₆, h₆, htag₆⟩ := h₅.yieldNow
  exact ⟨st₆, h₆.reach, h₆.current, h₆.ready, by rw [htag₆, htag₅]; exact htag⟩

end Traced

/-- An exit of a thread whose id is the first in the queue panics: its entry is gone when the next
thread is looked up. -/
theorem Threads.exitThread_self {p : Profile} {t t' : Threads} {rest : List ThreadId}
    {loaded : UInt64} (hc : t.sched.current ≠ bootstrapId)
    (hr : t.sched.ready = t.sched.current :: rest) : t.exitThread p ≠ .ok (t', loaded) := by
  intro e
  obtain ⟨hctx, hcur⟩ := Threads.contextAt_exitThread e
  obtain ⟨nextId, ready, hr', rfl, -⟩ := Threads.exitThread_cases e
  rw [hr] at hr'
  obtain ⟨hhead, -⟩ := List.cons.inj hr'
  rw [hctx, if_pos ⟨hhead.symm, hhead ▸ hc⟩] at hcur
  cases hcur

/-- The process has left the registry when the exit of its thread panics. -/
theorem Ledger.not_ends_exactly_after_wrap : ¬ ∀ (p : Profile) (st : Ledger),
    (system p).Reach st → ∀ pid, st.kernel.threads.currentProcess = pid → pid ≠ .kernel →
    pid ∈ st.kernel.processes → st.kernel.EndsExactly p pid := by
  intro hall
  obtain ⟨t, ht, hcur, hready, htag⟩ := Traced.id_comes_round
  obtain ⟨st, h, hthreads⟩ := reach_of_traced ht
  obtain ⟨st₁, h₁, hsched, hreg⟩ : ∃ st₁, (system .release).Reach st₁ ∧
      st₁.kernel.threads.sched = st.kernel.threads.sched ∧ ⟨1⟩ ∈ st₁.kernel.processes := by
    refine ⟨_, h.step (Step.registerProcess (demoProcess ⟨1⟩)), rfl, ?_⟩
    exact Finmap.mem_insert.mpr (.inl rfl)
  rw [hthreads] at hsched
  rw [← hsched] at hcur hready htag
  have hne : st₁.kernel.threads.sched.current ≠ bootstrapId := by
    rw [hcur]
    decide
  have hproc : st₁.kernel.threads.currentProcess = ⟨1⟩ := by
    unfold Threads.currentProcess
    rw [if_neg hne, hcur]
    exact congrArg (·.getD ProcessId.kernel) htag
  obtain ⟨k', e, -⟩ := (hall _ _ h₁ ⟨1⟩ hproc (by decide) hreg).1 0
  rw [hproc] at e
  unfold Kernel.sysExit at e
  simp only [Kernel.call_processExit default 0 hreg, Panics.bind_ok] at e
  obtain ⟨⟨t', loaded⟩, hexit, -⟩ := Panics.bind_eq_ok.mp e
  exact Threads.exitThread_self (t := (Kernel.note { st₁.kernel with
    processes := st₁.kernel.processes.erase ⟨1⟩ } .noteProcessExited).threads) hne
    (by rw [← hcur] at hready; exact hready) hexit

end Apogee
