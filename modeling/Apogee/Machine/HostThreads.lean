import Apogee.Thread.Operations
import Apogee.Machine.Switch

/-!
# Host threads that have not run yet

`spawn_user_thread` puts a thread into the ready queue with the pid as its tag. The registry is
looked at only when that thread first runs, in `user_thread_entry`, which panics if the pid is gone.
Until then any caller may end the process: the registry does not know of the thread.

A run is any sequence of calls by any callers, `spawn_user_thread` for registered processes,
`SYS_EXIT`s and ring-3 faults. Beside the kernel, it records the host threads that have not run.

* `Kernel.call_tag`, `Kernel.call_registered`: what a call leaves of the tags and the registry.
* `Inv`: a waiting host thread has its pid as its tag, and the pid is registered. It holds while no
  process is ended that a host thread waits for.
* `registered_at_first_run`: in such runs `user_thread_entry` finds its process.
* `sibling_exit`: two host threads of one process. The first one's `SYS_EXIT` switches to the
  second, which panics.
-/

namespace Apogee

open Verif

namespace Kernel

variable {p : Profile} {env : Env} {caller : Caller} {request : Request} {k k' : Kernel}
  {r : Option Response} {pid q : ProcessId} {code : Int32} {id : ThreadId}

/-- A call changes the tag of no thread but the one that makes it and the one it spawns. The call
that spawns does not switch. -/
theorem call_tag (h : k.call p env caller request = .ok (k', r))
    (hid : id ≠ k.threads.sched.current) :
    k'.threads.sched.tag id = k.threads.sched.tag id ∨
      (r = some (.thread id) ∧ k'.threads.sched.current = k.threads.sched.current) := by
  cases called_of_call h with
  | @spawned entry process t new hspawn =>
    by_cases hnew : id = new
    · exact .inr ⟨by rw [hnew], Threads.spawn_current hspawn⟩
    · exact .inl ((Threads.tag_spawn hspawn id).trans (if_neg hnew))
  | yielded hyield => exact .inl (Threads.tag_yieldNow hyield id)
  | threadExited hexit => exact .inl (Threads.tag_exitThread hexit hid)
  | failed | created | exited | snapshot | count | stats | memory | ticks | byteRead | written =>
    exact .inl rfl

/-- The processes that a request asks to end and may end. -/
def Ends (caller : Caller) (request : Request) (pid : ProcessId) : Prop :=
  ∃ code, request = .processExit pid code ∧ caller.isForeign pid = false

/-- A process that a call does not end stays registered. -/
theorem call_registered (h : k.call p env caller request = .ok (k', r)) (hq : q ∈ k.processes)
    (hne : ¬ Ends caller request q) : q ∈ k'.processes := by
  cases call_cases h with
  | failed e hr hk => rwa [hk]
  | created entry stackTop hc hreq hr hk =>
    rw [hk, create_processes]
    exact Finmap.mem_insert.mpr (.inr hq)
  | exited pid code hc hreq hp hr hproc hnext =>
    rw [hproc, Finmap.mem_erase]
    refine ⟨?_, hq⟩
    rintro rfl
    refine hne ⟨code, hreq, ?_⟩
    obtain rfl | rfl | rfl := hc
    · rfl
    · rfl
    · simp [Caller.isForeign]
  | other he hr hproc hnext => rwa [hproc]

/-- The end of `sys_exit` and of `kill_faulting_process`: a process ends and its thread exits. -/
theorem exit_keeps
    (h : (do
      let (k, _) ← k.call p env caller (.processExit pid code)
      let (threads, _) ← k.threads.exitThread p
      pure { k with threads := threads }) = (.ok k' : Panics Kernel)) :
    (∀ id, id ≠ k.threads.sched.current → k'.threads.sched.tag id = k.threads.sched.tag id) ∧
      (∀ q ∈ k.processes, q ≠ pid → q ∈ k'.processes) := by
  obtain ⟨⟨k₁, response⟩, hcall, h⟩ := Panics.bind_eq_ok.mp h
  obtain ⟨⟨threads, loaded⟩, hexit, h⟩ := Panics.bind_eq_ok.mp h
  obtain rfl := Except.ok.inj h
  have hsched := call_sched hcall trivial
  refine ⟨fun id hid => ?_, fun q hq hne => ?_⟩
  · refine (Threads.tag_exitThread hexit ?_).trans ?_
    · rw [hsched]
      exact hid
    · rw [hsched]
  · have hends : ¬ Ends caller (.processExit pid code) q := by
      rintro ⟨code', hreq, -⟩
      obtain ⟨rfl, -⟩ := Request.processExit.inj hreq
      exact hne rfl
    have hmem : q ∈ k₁.processes := call_registered hcall hq hends
    exact hmem

/-- `user_thread_entry` enters ring 3 if the current thread's process is registered. -/
theorem userThreadEntry_ok (p : Profile) (h : k.threads.currentProcess ∈ k.processes) :
    ∃ entry, k.userThreadEntry p = .ok entry := by
  obtain ⟨process, hget⟩ := FMap.mem_iff.mp h
  refine ⟨(process.userEntry.asU64, process.userStackTop.asU64), ?_⟩
  simp [userThreadEntry, call, Caller.isForeign, snapshot, hget]

end Kernel

/-- The kernel, with the host threads that have not run and the process each was started for. -/
structure Hosted where
  kernel : Kernel
  waiting : ThreadId → Option ProcessId

inductive HostedEvent where
  | call (caller : Caller) (request : Request)
  | spawnUserThread (pid : ProcessId)
  | sysExit (code : Int32)
  | fault (reason : String)
  | background

namespace Hosted

/-- The thread that runs. -/
abbrev current (st : Hosted) : ThreadId := st.kernel.threads.sched.current

/-- The state after a step that leaves the kernel in `k`: the current thread has run. -/
def run (waiting : ThreadId → Option ProcessId) (k : Kernel) : Hosted :=
  ⟨k, Function.update waiting k.threads.sched.current none⟩

/-- The waiting host threads after a call with this answer. A kernel thread may take over an id that
wrapped around. -/
def replaced (waiting : ThreadId → Option ProcessId) : Option Response →
    ThreadId → Option ProcessId
  | some (.thread id) => Function.update waiting id none
  | _ => waiting

inductive Step (p : Profile) : Hosted → HostedEvent → Hosted → Prop
  | call {st : Hosted} {env : Env} {caller : Caller} {request : Request} {k : Kernel}
      {r : Option Response} : st.kernel.call p env caller request = .ok (k, r) →
      Step p st (.call caller request) (run (replaced st.waiting r) k)
  | spawnUserThread {st : Hosted} {env : Env} {pid : ProcessId} {k : Kernel} :
      pid ∈ st.kernel.processes → st.kernel.spawnUserThread p env pid = .ok k →
      Step p st (.spawnUserThread pid) ⟨k,
        -- An id that wrapped around to the current or the bootstrap thread keeps its context.
        if ⟨st.kernel.threads.nextId⟩ = bootstrapId ∨ ⟨st.kernel.threads.nextId⟩ = st.current
        then st.waiting
        else Function.update st.waiting ⟨st.kernel.threads.nextId⟩ (some pid)⟩
  | sysExit {st : Hosted} {code : Int32} {k : Kernel} :
      st.kernel.sysExit p (.user st.kernel.threads.currentProcess) code = .ok k →
      Step p st (.sysExit code) (run st.waiting k)
  | fault {st : Hosted} {reason : String} {k : Kernel} :
      st.kernel.killFaultingProcess p reason = .ok k →
      Step p st (.fault reason) (run st.waiting k)
  | background {st : Hosted} {k : Kernel} : Booted.Background st.kernel k →
      Step p st .background ⟨k, st.waiting⟩

/-- The runs from boot. -/
def system (p : Profile) : Sys Hosted HostedEvent where
  init st := ∃ heap console, st = ⟨.boot heap console, fun _ => none⟩
  step := Step p

/-- If the step first switches a host thread in, its process is registered, and it enters ring 3. -/
def FirstRunRegistered (p : Profile) (st st' : Hosted) : Prop :=
  ∀ pid, st.waiting st'.current = some pid →
    pid ∈ st'.kernel.processes ∧ ∃ entry, st'.kernel.userThreadEntry p = .ok entry

/-- The step ends no process that a host thread waits to run for. -/
def EndsNoneWaiting (st : Hosted) : HostedEvent → Prop
  | .call caller request => ∀ pid, Kernel.Ends caller request pid → ∀ id, st.waiting id ≠ some pid
  | .sysExit _ | .fault _ => ∀ id, st.waiting id ≠ some st.kernel.threads.currentProcess
  | .spawnUserThread _ | .background => True

/-- What the waiting host threads rely on. -/
structure Inv (st : Hosted) : Prop where
  current : st.waiting st.current = none
  bootstrap : st.waiting bootstrapId = none
  tag : ∀ id pid, st.waiting id = some pid → st.kernel.threads.sched.tag id = some pid
  registered : ∀ id pid, st.waiting id = some pid → pid ∈ st.kernel.processes

variable {p : Profile} {st st' : Hosted} {e : HostedEvent} {k : Kernel}

theorem Inv.boot (heap : FixedSizeBlockAllocator) (console : Writer) :
    Inv ⟨.boot heap console, fun _ => none⟩ :=
  ⟨rfl, rfl, fun _ _ h => absurd h (by simp), fun _ _ h => absurd h (by simp)⟩

/-- A step of the running thread leaves the kernel in `k` and these threads waiting. -/
structure Keeps (st : Hosted) (waiting : ThreadId → Option ProcessId) (k : Kernel) : Prop where
  sub : ∀ id pid, waiting id = some pid → st.waiting id = some pid
  tag : ∀ id pid, waiting id = some pid ∨ st.waiting id = some pid ∧ id = k.threads.sched.current →
    k.threads.sched.tag id = some pid
  registered : ∀ id pid, st.waiting id = some pid → pid ∈ k.processes

/-- A thread that waits is not the current one. -/
theorem Inv.ne_current (h : Inv st) {id : ThreadId} {pid : ProcessId}
    (hid : st.waiting id = some pid) : id ≠ st.current := by
  rintro rfl
  rw [h.current] at hid
  cases hid

theorem Inv.ne_bootstrapId (h : Inv st) {id : ThreadId} {pid : ProcessId}
    (hid : st.waiting id = some pid) : id ≠ bootstrapId := by
  rintro rfl
  rw [h.bootstrap] at hid
  cases hid

theorem Inv.run {waiting : ThreadId → Option ProcessId} (h : Inv st) (hk : Keeps st waiting k) :
    Inv (run waiting k) := by
  have hsub : ∀ id pid, (Hosted.run waiting k).waiting id = some pid → waiting id = some pid := by
    intro id pid hid
    simp only [Hosted.run, Function.update_apply] at hid
    split at hid
    · cases hid
    · exact hid
  refine ⟨Function.update_self .., ?_, fun id pid hid => ?_, fun id pid hid => ?_⟩
  · by_contra hb
    obtain ⟨pid, hpid⟩ := Option.ne_none_iff_exists'.mp hb
    exact h.ne_bootstrapId (hk.sub _ _ (hsub _ _ hpid)) rfl
  · exact hk.tag id pid (.inl (hsub id pid hid))
  · exact hk.registered id pid (hk.sub id pid (hsub id pid hid))

/-- The host thread that such a step first switches in finds its process. -/
theorem Inv.firstRun {waiting : ThreadId → Option ProcessId} (h : Inv st)
    (hk : Keeps st waiting k) : FirstRunRegistered p st (Hosted.run waiting k) := by
  intro pid hpid
  have hpid : st.waiting k.threads.sched.current = some pid := hpid
  have htag := hk.tag _ pid (.inr ⟨hpid, rfl⟩)
  have hproc : k.threads.currentProcess = pid := by
    unfold ThreadScheduler.tag at htag
    unfold Threads.currentProcess
    rw [if_neg (h.ne_bootstrapId hpid), htag]
    rfl
  have hreg := hk.registered _ pid hpid
  exact ⟨hreg, k.userThreadEntry_ok p (hproc ▸ hreg)⟩

/-- A step that does not switch starts no thread. -/
theorem Inv.firstRun_of_current_eq (h : Inv st) (hcur : st'.current = st.current) :
    FirstRunRegistered p st st' := by
  intro pid hpid
  rw [hcur, h.current] at hpid
  cases hpid

theorem Inv.keeps_call {env : Env} {caller : Caller} {request : Request} {r : Option Response}
    (h : Inv st) (hC : EndsNoneWaiting st (.call caller request))
    (hcall : st.kernel.call p env caller request = .ok (k, r)) :
    Keeps st (replaced st.waiting r) k := by
  have hsub : ∀ id pid, replaced st.waiting r id = some pid →
      st.waiting id = some pid ∧ r ≠ some (.thread id) := by
    intro id pid hid
    unfold replaced at hid
    split at hid
    · rw [Function.update_apply] at hid
      split at hid
      · cases hid
      · next hne => exact ⟨hid, fun hr => hne (Response.thread.inj (Option.some.inj hr)).symm⟩
    · next hr => exact ⟨hid, hr id⟩
  refine ⟨fun id pid hid => (hsub id pid hid).1, fun id pid hid => ?_, fun id pid hid => ?_⟩
  · have hw : st.waiting id = some pid := hid.elim (fun hid => (hsub id pid hid).1) And.left
    obtain htag | ⟨hr, hcur⟩ := Kernel.call_tag hcall (h.ne_current hw)
    · exact htag.trans (h.tag id pid hw)
    · obtain hid | ⟨-, hid⟩ := hid
      · exact absurd hr (hsub id pid hid).2
      · exact absurd (hid.trans hcur) (h.ne_current hw)
  · exact Kernel.call_registered hcall (h.registered id pid hid) fun hends => hC pid hends id hid

theorem Inv.keeps_exit {env : Env} {caller : Caller} {code : Int32} (h : Inv st)
    (hC : ∀ id, st.waiting id ≠ some st.kernel.threads.currentProcess)
    (he : (do
      let (k, _) ← st.kernel.call p env caller
        (.processExit st.kernel.threads.currentProcess code)
      let (threads, _) ← k.threads.exitThread p
      pure { k with threads := threads }) = (.ok k : Panics Kernel)) : Keeps st st.waiting k := by
  obtain ⟨htag, hreg⟩ := Kernel.exit_keeps he
  refine ⟨fun _ _ hid => hid, fun id pid hid => ?_, fun id pid hid => ?_⟩
  · have hw : st.waiting id = some pid := hid.elim (fun hid => hid) And.left
    exact (htag id (h.ne_current hw)).trans (h.tag id pid hw)
  · refine hreg pid (h.registered id pid hid) ?_
    rintro rfl
    exact hC id hid

theorem Inv.spawnUserThread {env : Env} {pid : ProcessId} (h : Inv st)
    (hpid : pid ∈ st.kernel.processes) (he : st.kernel.spawnUserThread p env pid = .ok k) :
    k.threads.sched.current = st.current ∧
    Inv ⟨k, if ⟨st.kernel.threads.nextId⟩ = bootstrapId ∨ ⟨st.kernel.threads.nextId⟩ = st.current
      then st.waiting else Function.update st.waiting ⟨st.kernel.threads.nextId⟩ (some pid)⟩ := by
  obtain ⟨⟨threads, new⟩, hspawn, he⟩ := Panics.bind_eq_ok.mp he
  obtain rfl := Except.ok.inj he
  have htag := Threads.tag_spawn hspawn
  have hcur := Threads.spawn_current hspawn
  obtain ⟨rfl, -⟩ := Threads.spawn_cases hspawn
  refine ⟨hcur, ?_⟩
  by_cases hnew : (⟨st.kernel.threads.nextId⟩ : ThreadId) = bootstrapId ∨
      (⟨st.kernel.threads.nextId⟩ : ThreadId) = st.current
  · -- The new entry is one that no thread waits under.
    rw [if_pos hnew]
    refine ⟨?_, h.bootstrap, fun id q hid => ?_, h.registered⟩
    · show st.waiting threads.sched.current = none
      rw [hcur, h.current]
    · refine (htag id).trans ((if_neg ?_).trans (h.tag id q hid))
      rintro rfl
      exact hnew.elim (h.ne_bootstrapId hid) (h.ne_current hid)
  · rw [if_neg hnew]
    obtain ⟨hb, hc⟩ := not_or.mp hnew
    refine ⟨?_, ?_, fun id q hid => ?_, fun id q hid => ?_⟩
    · show Function.update st.waiting _ _ threads.sched.current = none
      rw [hcur, Function.update_of_ne (Ne.symm hc), h.current]
    · show Function.update st.waiting _ _ bootstrapId = none
      rw [Function.update_of_ne (Ne.symm hb), h.bootstrap]
    · simp only [Function.update_apply] at hid
      split at hid
      · next hid' => exact (htag id).trans ((if_pos hid').trans hid)
      · next hid' => exact (htag id).trans ((if_neg hid').trans (h.tag id q hid))
    · simp only [Function.update_apply] at hid
      split at hid
      · rwa [← Option.some.inj hid]
      · exact h.registered id q hid

/-- A step that ends no process with a waiting host thread keeps the invariant, and a host thread
that it first switches in finds its process. -/
theorem Inv.step (h : Inv st) (hC : EndsNoneWaiting st e) (hst : Step p st e st') :
    Inv st' ∧ FirstRunRegistered p st st' := by
  cases hst with
  | call hcall =>
    have hk := h.keeps_call hC hcall
    exact ⟨h.run hk, h.firstRun hk⟩
  | spawnUserThread hpid he =>
    obtain ⟨hcur, hi⟩ := h.spawnUserThread hpid he
    exact ⟨hi, h.firstRun_of_current_eq hcur⟩
  | sysExit he =>
    have hk := h.keeps_exit hC he
    exact ⟨h.run hk, h.firstRun hk⟩
  | fault he =>
    unfold Kernel.killFaultingProcess at he
    simp only at he
    split at he
    · cases he
    · have hk := h.keeps_exit hC he
      exact ⟨h.run hk, h.firstRun hk⟩
  | @background k hb =>
    have hcur : k.threads.sched.current = st.current := congrArg (·.current) hb.sched
    refine ⟨⟨?_, h.bootstrap, fun id pid hid => ?_, fun id pid hid => ?_⟩,
      h.firstRun_of_current_eq hcur⟩
    · show st.waiting k.threads.sched.current = none
      rw [hcur, h.current]
    · show k.threads.sched.tag id = some pid
      rw [hb.sched, h.tag id pid hid]
    · show pid ∈ k.processes
      rw [hb.processes]
      exact h.registered id pid hid

/-- The runs in which no process is ended while a host thread waits to run for it. -/
abbrev orderly (p : Profile) : Sys Hosted HostedEvent := (system p).restrict EndsNoneWaiting

theorem inv_reach (h : (orderly p).Reach st) : Inv st := by
  refine Sys.Preserved.reach (I := Inv) ⟨?_, ?_⟩ h
  · rintro st ⟨heap, console, rfl⟩
    exact Inv.boot heap console
  · intro st e st' _ hi hst
    exact (hi.step hst.1 hst.2).1

/-- In every run that ends no process with a waiting host thread: when a host thread is first
switched in, its process is registered and it enters ring 3. -/
theorem registered_at_first_run (p : Profile) (st : Hosted) (e : HostedEvent) (st' : Hosted)
    (h : (orderly p).Reach st) (hst : (orderly p).step st e st') : FirstRunRegistered p st st' :=
  ((inv_reach h).step hst.1 hst.2).2

/-! ## Two host threads of one process -/

theorem reach_call {C : Hosted → HostedEvent → Prop} (h : ((system p).restrict C).Reach st)
    (env : Env) (caller : Caller) (request : Request) (hC : C st (.call caller request))
    {r : Kernel × Option Response} (e : st.kernel.call p env caller request = .ok r) :
    ((system p).restrict C).step st (.call caller request) (run (replaced st.waiting r.2) r.1) ∧
      ((system p).restrict C).Reach (run (replaced st.waiting r.2) r.1) :=
  ⟨⟨hC, Step.call e⟩, h.step ⟨hC, Step.call e⟩⟩

/-- A request that is no exit request ends no process. -/
theorem endsNoneWaiting_of_ne {caller : Caller} {request : Request}
    (h : ∀ pid code, request ≠ .processExit pid code) : EndsNoneWaiting st (.call caller request) :=
  fun pid ⟨code, hreq, _⟩ => absurd hreq (h pid code)

theorem reach_spawnUserThread {C : Hosted → HostedEvent → Prop}
    (h : ((system p).restrict C).Reach st) (env : Env) (pid : ProcessId)
    (hC : C st (.spawnUserThread pid)) (hpid : pid ∈ st.kernel.processes)
    (e : st.kernel.spawnUserThread p env pid = .ok k) :
    ((system p).restrict C).Reach ⟨k,
      if ⟨st.kernel.threads.nextId⟩ = bootstrapId ∨ ⟨st.kernel.threads.nextId⟩ = st.current
      then st.waiting else Function.update st.waiting ⟨st.kernel.threads.nextId⟩ (some pid)⟩ :=
  h.step ⟨hC, Step.spawnUserThread hpid e⟩

/-- The request that registers the demo process. -/
def demoCreate : Request :=
  .processCreate ⟨0x400000000000, by decide⟩ ⟨0x400000003000, by decide⟩

/-- A process with one host thread, up to the yield that first runs it. -/
theorem registered_at_first_run_demo : ∃ st e st', (orderly .dev).Reach st ∧
    (orderly .dev).step st e st' ∧ st.waiting st'.current = some ⟨1⟩ ∧
    FirstRunRegistered .dev st st' := by
  have h0 : (orderly .dev).Reach ⟨.boot .empty ⟨0, 7, fun _ _ => ⟨0x20, 7⟩⟩, fun _ => none⟩ :=
    .init ⟨_, _, rfl⟩
  obtain ⟨-, h1⟩ := reach_call h0 ⟨0, 0⟩ .kernel demoCreate
    (endsNoneWaiting_of_ne fun _ _ => Request.noConfusion) rfl
  have h2 := reach_spawnUserThread h1 ⟨0x444444440000, 0⟩ ⟨1⟩ trivial (by decide) rfl
  obtain ⟨hst, -⟩ := reach_call h2 ⟨0, 0x8000⟩ .kernel .threadYield
    (endsNoneWaiting_of_ne fun _ _ => Request.noConfusion) rfl
  exact ⟨_, _, _, h2, hst, rfl, registered_at_first_run _ _ _ _ h2 hst⟩

/-- Two host threads of one process: the first one's `SYS_EXIT` takes the process out of the
registry and switches to the second, whose entry panics. -/
theorem sibling_exit : ∃ st st', (system .dev).Reach st ∧
    (system .dev).step st (.sysExit 0) st' ∧ st.waiting st'.current = some ⟨1⟩ ∧
    ⟨1⟩ ∉ st'.kernel.processes ∧
    st'.kernel.userThreadEntry .dev = .error "user_thread_entry: pid missing from registry" := by
  have h0 : ((system .dev).restrict fun _ _ => True).Reach
      ⟨.boot .empty ⟨0, 7, fun _ _ => ⟨0x20, 7⟩⟩, fun _ => none⟩ := .init ⟨_, _, rfl⟩
  obtain ⟨-, h1⟩ := reach_call h0 ⟨0, 0⟩ .kernel demoCreate trivial rfl
  have h2 := reach_spawnUserThread h1 ⟨0x444444440000, 0⟩ ⟨1⟩ trivial (by decide) rfl
  have h3 := reach_spawnUserThread h2 ⟨0x444444450000, 0⟩ ⟨1⟩ trivial (by decide) rfl
  obtain ⟨-, h4⟩ := reach_call h3 ⟨0, 0x8000⟩ .kernel .threadYield trivial rfl
  exact ⟨_, _, h4.of_restrict, Step.sysExit rfl, rfl, by decide, rfl⟩

end Hosted

end Apogee
