import Apogee.Lib.Sys
import Apogee.Kernel.Kernel

/-!
# Who may create and end processes

A run is any sequence of calls by any callers, with anything the interrupts and the rest of the
kernel do in between to the heap, the input, the console, the tick counter and the task counters.
Beside the kernel, it records the creations that were answered, newest first.

* `called_of_call`: what a call that is answered has done, request by request. Every other fact
  about a call's effect follows from it.
* `call_cases`: what one call can do to the registry and the pid counter.
* `Inv`: the n-th creation got pid n, and a registered process still has the coordinates it was
  created with.
* `process_authorization`: the steps that end or register a process, and what a denied or failed
  request leaves.
-/

namespace Apogee

open Verif

namespace Kernel

variable {p : Profile} {env : Env} {caller : Caller} {request : Request} {k k' : Kernel}
  {r : Option Response} {pid q : ProcessId} {entry stackTop : VirtAddr} {code : Int32}

theorem isForeign_eq_false (h : ¬ caller.isForeign pid = true) :
    caller = .kernel ∨ caller = .irq ∨ caller = .user pid := by
  unfold Caller.isForeign at h
  split at h
  · simp only [ne_eq, decide_not, Bool.not_eq_true', decide_eq_false_iff_not, not_not] at h
    exact .inr (.inr (by rw [h]))
  · exact .inl rfl
  · exact .inr (.inl rfl)

theorem create_processes : (k.create entry stackTop).1.processes =
    k.processes.insert ⟨k.nextPid⟩ (.new ⟨k.nextPid⟩ entry stackTop) := rfl

/-- What one call that is answered can do. -/
inductive Effect (caller : Caller) (request : Request) (k k' : Kernel) (r : Option Response) : Prop
  | failed (e : SysError) : r = some (.err e) → k' = k → Effect caller request k k' r
  | created (entry stackTop : VirtAddr) : caller = .kernel →
      request = .processCreate entry stackTop → r = some (.process ⟨k.nextPid⟩) →
      k' = (k.create entry stackTop).1 → Effect caller request k k' r
  | exited (pid : ProcessId) (code : Int32) :
      caller = .kernel ∨ caller = .irq ∨ caller = .user pid → request = .processExit pid code →
      pid ∈ k.processes → r = some .ok → k'.processes = k.processes.erase pid →
      k'.nextPid = k.nextPid → Effect caller request k k' r
  /-- Neither the registry nor the pid counter changes. -/
  | other : (∀ e, r ≠ some (.err e)) → (∀ pid, r ≠ some (.process pid)) →
      k'.processes = k.processes → k'.nextPid = k.nextPid → Effect caller request k k' r

/-- A request with a check in front: either the check fails and nothing changes, or the rest
runs. -/
theorem guard_cases {c : Prop} [Decidable c] {e : SysError} {x : Panics (Kernel × Option Response)}
    (h : (if c then pure (k, some (.err e)) else x) = .ok (k', r)) :
    (k' = k ∧ r = some (.err e)) ∨ (¬ c ∧ x = .ok (k', r)) := by
  split at h
  · obtain ⟨rfl, rfl⟩ := Prod.mk.inj (Except.ok.inj h)
    exact .inl ⟨rfl, rfl⟩
  · next hc => exact .inr ⟨hc, h⟩

theorem exit_cases (h : (match k.exit pid code with
      | (k, true) => pure (k, some .ok)
      | (k, false) => pure (k, some (.err .badHandle))) = (.ok (k', r) : Panics _)) :
    (k' = k ∧ r = some (.err .badHandle)) ∨
    (pid ∈ k.processes ∧ r = some .ok ∧
      k' = note { k with processes := k.processes.erase pid } .noteProcessExited) := by
  unfold exit at h
  cases hp : k.processes.get? pid with
  | none =>
    simp only [hp] at h
    obtain ⟨rfl, rfl⟩ := Prod.mk.inj (Except.ok.inj h)
    exact .inl ⟨rfl, rfl⟩
  | some process =>
    simp only [hp] at h
    obtain ⟨rfl, rfl⟩ := Prod.mk.inj (Except.ok.inj h)
    exact .inr ⟨FMap.mem_of_get? hp, rfl, rfl⟩

theorem readByte_eq (k : Kernel) :
    ∃ queue byte, k.readByte = ({ k with keyQueue := queue }, byte) := by
  unfold readByte
  split
  · exact ⟨_, _, rfl⟩
  · exact ⟨k.keyQueue, _, rfl⟩

/-- What a call that is answered has done, request by request. -/
inductive Called (p : Profile) (env : Env) (caller : Caller) (k : Kernel) :
    Request → Kernel → Option Response → Prop
  | failed {request : Request} (e : SysError) : Called p env caller k request k (some (.err e))
  | created (entry stackTop : VirtAddr) : caller = .kernel →
      Called p env caller k (.processCreate entry stackTop) (k.create entry stackTop).1
        (some (.process ⟨k.nextPid⟩))
  | exited (pid : ProcessId) (code : Int32) :
      caller = .kernel ∨ caller = .irq ∨ caller = .user pid → pid ∈ k.processes →
      Called p env caller k (.processExit pid code)
        (note { k with processes := k.processes.erase pid } .noteProcessExited) (some .ok)
  | snapshot (pid : ProcessId) :
      Called p env caller k (.processSnapshot pid) k (some (.snapshot (k.snapshot pid)))
  | count : Called p env caller k .processCount k (some (.count k.count))
  | spawned (entry : UInt64) (process : ProcessId) {t : Threads} {id : ThreadId} :
      k.threads.spawn p process env.stack = .ok (t, id) →
      Called p env caller k (.threadSpawn entry process) { k with threads := t } (some (.thread id))
  | yielded {t : Threads} {loaded : Option UInt64} : k.threads.yieldNow env.rsp = .ok (t, loaded) →
      Called p env caller k .threadYield { k with threads := t } (some .ok)
  | threadExited {t : Threads} {loaded : UInt64} : k.threads.exitThread p = .ok (t, loaded) →
      Called p env caller k .threadExit { k with threads := t } none
  | stats : Called p env caller k .schedulerStats k (some (.stats k.schedulerStats))
  | memory : Called p env caller k .memoryStats k (some (.memory k.memoryStats))
  | ticks : Called p env caller k .timerTicks k (some (.ticks k.threads.scheduler.tickCount))
  | byteRead (queue : Option (BQueue UInt8 keyQueueCapacity)) (byte : Option UInt8) :
      Called p env caller k .inputReadByte { k with keyQueue := queue } (some (.byte byte))
  | written (bytes : List UInt8) {console : Writer} : k.console.writeBytes bytes = .ok console →
      Called p env caller k (.consoleWrite bytes) { k with console := console }
        (some (.written bytes.length))

theorem called_of_call (h : k.call p env caller request = .ok (k', r)) :
    Called p env caller k request k' r := by
  cases request with
  | processCreate entry stackTop =>
    obtain ⟨rfl, rfl⟩ | ⟨hc, h⟩ := guard_cases h
    · exact .failed _
    · obtain ⟨rfl, rfl⟩ := Prod.mk.inj (Except.ok.inj h)
      exact .created entry stackTop (not_not.mp hc)
  | processExit pid code =>
    obtain ⟨rfl, rfl⟩ | ⟨hc, h⟩ := guard_cases h
    · exact .failed _
    · obtain ⟨rfl, rfl⟩ | ⟨hp, rfl, rfl⟩ := exit_cases h
      · exact .failed _
      · exact .exited pid code (isForeign_eq_false hc) hp
  | processSnapshot pid =>
    obtain ⟨rfl, rfl⟩ | ⟨-, h⟩ := guard_cases h
    · exact .failed _
    · obtain ⟨rfl, rfl⟩ := Prod.mk.inj (Except.ok.inj h)
      exact .snapshot pid
  | processCount =>
    obtain ⟨rfl, rfl⟩ | ⟨-, h⟩ := guard_cases h
    · exact .failed _
    · obtain ⟨rfl, rfl⟩ := Prod.mk.inj (Except.ok.inj h)
      exact .count
  | threadSpawn entry process =>
    obtain ⟨rfl, rfl⟩ | ⟨-, h⟩ := guard_cases h
    · exact .failed _
    · obtain ⟨⟨threads, id⟩, hspawn, h⟩ := Panics.bind_eq_ok.mp h
      obtain ⟨rfl, rfl⟩ := Prod.mk.inj (Except.ok.inj h)
      exact .spawned entry process hspawn
  | threadYield =>
    obtain ⟨⟨threads, loaded⟩, hyield, h⟩ := Panics.bind_eq_ok.mp h
    obtain ⟨rfl, rfl⟩ := Prod.mk.inj (Except.ok.inj h)
    exact .yielded hyield
  | threadExit =>
    obtain ⟨⟨threads, loaded⟩, hexit, h⟩ := Panics.bind_eq_ok.mp h
    obtain ⟨rfl, rfl⟩ := Prod.mk.inj (Except.ok.inj h)
    exact .threadExited hexit
  | schedulerStats =>
    obtain ⟨rfl, rfl⟩ := Prod.mk.inj (Except.ok.inj h)
    exact .stats
  | memoryStats =>
    obtain ⟨rfl, rfl⟩ := Prod.mk.inj (Except.ok.inj h)
    exact .memory
  | timerTicks =>
    obtain ⟨rfl, rfl⟩ := Prod.mk.inj (Except.ok.inj h)
    exact .ticks
  | inputReadByte =>
    obtain ⟨queue, byte, hread⟩ := k.readByte_eq
    have h : (.ok (k.readByte.1, some (.byte k.readByte.2)) : Panics _) = .ok (k', r) := h
    rw [hread] at h
    obtain ⟨rfl, rfl⟩ := Prod.mk.inj (Except.ok.inj h)
    exact .byteRead queue byte
  | consoleWrite bytes =>
    obtain ⟨console, hwrite, h⟩ := Panics.bind_eq_ok.mp h
    obtain ⟨rfl, rfl⟩ := Prod.mk.inj (Except.ok.inj h)
    exact .written bytes hwrite

theorem call_cases (h : k.call p env caller request = .ok (k', r)) :
    Effect caller request k k' r := by
  cases called_of_call h with
  | failed e => exact .failed e rfl rfl
  | created entry stackTop hc => exact .created entry stackTop hc rfl rfl rfl
  | exited pid code hc hp => exact .exited pid code hc rfl hp rfl rfl rfl
  | snapshot | count | spawned | yielded | threadExited | stats | memory | ticks | byteRead
  | written => exact .other (by simp) (by simp) rfl rfl

end Kernel

/-! ## Runs -/

/-- A creation that was answered. -/
structure Creation where
  pid : ProcessId
  entry : VirtAddr
  stackTop : VirtAddr

/-- What `ProcessSnapshot` answers while the process is registered. -/
def Creation.snapshot (c : Creation) : ProcessSnapshot := ⟨c.pid, c.entry, c.stackTop, .ready⟩

/-- A kernel with the creations so far, newest first. -/
structure Booted where
  kernel : Kernel
  created : List Creation

/-- A step of a run: a call with its answer, or anything else the machine does. -/
inductive KernelEvent where
  | call (caller : Caller) (request : Request) (response : Option Response)
  | background

namespace Booted

/-- The creations after a call with this request and answer. -/
def record (created : List Creation) : Request → Option Response → List Creation
  | .processCreate entry stackTop, some (.process pid) => ⟨pid, entry, stackTop⟩ :: created
  | _, _ => created

/-- Interrupts, the executor and the allocator change neither the registry nor the threads, nor
the counters of either. -/
structure Background (k k' : Kernel) : Prop where
  processes : k'.processes = k.processes
  nextPid : k'.nextPid = k.nextPid
  sched : k'.threads.sched = k.threads.sched
  nextId : k'.threads.nextId = k.threads.nextId
  threadsAlive : k'.threads.scheduler.threadsAlive = k.threads.scheduler.threadsAlive
  threadsSpawned : k'.threads.scheduler.threadsSpawned = k.threads.scheduler.threadsSpawned
  processesAlive : k'.threads.scheduler.processesAlive = k.threads.scheduler.processesAlive
  processesSpawned : k'.threads.scheduler.processesSpawned = k.threads.scheduler.processesSpawned

inductive Step (p : Profile) : Booted → KernelEvent → Booted → Prop
  | call {st : Booted} {env : Env} {caller : Caller} {request : Request} {k' : Kernel}
      {r : Option Response} : st.kernel.call p env caller request = .ok (k', r) →
      Step p st (.call caller request r) ⟨k', record st.created request r⟩
  | background {st : Booted} {k' : Kernel} : Background st.kernel k' →
      Step p st .background ⟨k', st.created⟩

/-- The runs from boot, over any heap and console. -/
def system (p : Profile) : Sys Booted KernelEvent where
  init st := ∃ heap console, st = ⟨.boot heap console, []⟩
  step := Step p

/-- The n-th creation got pid n, and a registered process has the coordinates it was created
with. -/
structure Inv (st : Booted) : Prop where
  next : st.kernel.nextPid.toNat = (st.created.length + 1) % 2 ^ 64
  created_le : ∀ c ∈ st.created, 0 < c.pid.asU64.toNat ∧ c.pid.asU64.toNat ≤ st.created.length
  nodup : (st.created.map (·.pid)).Nodup
  registered : ∀ pid process, st.kernel.processes.get? pid = some process →
    ∃ c ∈ st.created, c.pid = pid ∧ process = .new c.pid c.entry c.stackTop

variable {p : Profile} {st st' : Booted} {e : KernelEvent}

theorem Inv.boot (heap : FixedSizeBlockAllocator) (console : Writer) :
    Inv ⟨.boot heap console, []⟩ where
  next := rfl
  created_le := by simp
  nodup := List.nodup_nil
  registered pid process h := by simp [Kernel.boot] at h

/-- The pid of the next creation is new. -/
theorem Inv.fresh (h : Inv st) (hn : st.created.length + 1 < 2 ^ 64) :
    st.kernel.nextPid.toNat = st.created.length + 1 ∧
      ∀ c ∈ st.created, c.pid ≠ ⟨st.kernel.nextPid⟩ := by
  have hnext : st.kernel.nextPid.toNat = st.created.length + 1 := by
    rw [h.next, Nat.mod_eq_of_lt hn]
  refine ⟨hnext, fun c hc he => ?_⟩
  have hle := (h.created_le c hc).2
  rw [he] at hle
  simp only [hnext] at hle
  omega

theorem Inv.create (h : Inv st) (hn : st.created.length + 1 < 2 ^ 64) (entry stackTop : VirtAddr) :
    Inv ⟨(st.kernel.create entry stackTop).1,
      ⟨⟨st.kernel.nextPid⟩, entry, stackTop⟩ :: st.created⟩ := by
  obtain ⟨hnext, hfresh⟩ := h.fresh hn
  refine ⟨?_, ?_, ?_, ?_⟩
  · show (st.kernel.nextPid + 1).toNat = _
    rw [UInt64.toNat_add, hnext, List.length_cons]
    rfl
  · intro c hc
    rcases List.mem_cons.mp hc with rfl | hc
    · simp only [hnext, List.length_cons]
      omega
    · obtain ⟨h1, h2⟩ := h.created_le c hc
      exact ⟨h1, Nat.le_succ_of_le h2⟩
  · refine List.nodup_cons.mpr ⟨?_, h.nodup⟩
    intro hm
    obtain ⟨c, hc, he⟩ := List.mem_map.mp hm
    exact hfresh c hc he
  · intro pid process hp
    simp only [Kernel.create_processes, FMap.get?_insert] at hp
    split at hp
    · obtain rfl := Option.some.inj hp
      next he => exact ⟨_, .head _, he.symm, rfl⟩
    · obtain ⟨c, hc, h1, h2⟩ := h.registered pid process hp
      exact ⟨c, .tail _ hc, h1, h2⟩

theorem record_length_le (created : List Creation) (request : Request) (r : Option Response) :
    created.length ≤ (record created request r).length := by
  unfold record
  split
  · exact Nat.le_succ _
  · exact Nat.le_refl _

theorem record_of_not_process {created : List Creation} {request : Request} {r : Option Response}
    (h : ∀ pid, r ≠ some (.process pid)) : record created request r = created := by
  unfold record
  split
  · exact absurd rfl (h _)
  · rfl

/-- The registry after a step has no process that it did not have. -/
theorem Inv.shrink (h : Inv st) {k' : Kernel} (hn : k'.nextPid = st.kernel.nextPid)
    (hp : ∀ pid process, k'.processes.get? pid = some process →
      st.kernel.processes.get? pid = some process) : Inv ⟨k', st.created⟩ :=
  ⟨by rw [hn]; exact h.next, h.created_le, h.nodup, fun pid process hl =>
    h.registered pid process (hp pid process hl)⟩

theorem Inv.step (h : Inv st) (hst : Step p st e st') (hn : st'.created.length < 2 ^ 64) :
    Inv st' := by
  cases hst with
  | background hb => exact h.shrink hb.nextPid fun pid process hl => by rwa [hb.processes] at hl
  | call hcall =>
    cases Kernel.call_cases hcall with
    | failed e hr hk =>
      subst hr hk
      rw [record_of_not_process (by simp)]
      exact h
    | created entry stackTop hc hreq hr hk =>
      subst hreq hr hk
      exact h.create hn entry stackTop
    | exited pid code hc hreq hp hr hproc hnext =>
      subst hreq hr
      refine h.shrink hnext fun pid' process hl => ?_
      rw [hproc, FMap.get?_erase] at hl
      split at hl
      · cases hl
      · exact hl
    | other he hr hproc hnext =>
      rw [record_of_not_process hr]
      exact h.shrink hnext fun pid process hl => by rwa [hproc] at hl

theorem Step.created_le (hst : Step p st e st') : st.created.length ≤ st'.created.length := by
  cases hst with
  | background => exact Nat.le_refl _
  | call => exact record_length_le _ _ _

theorem inv_reach (h : (system p).Reach st) : st.created.length < 2 ^ 64 → Inv st := by
  refine Sys.Preserved.reach (I := fun st => st.created.length < 2 ^ 64 → Inv st) ⟨?_, ?_⟩ h
  · rintro st ⟨heap, console, rfl⟩ -
    exact Inv.boot heap console
  · intro st e st' _ ih hst hn
    exact (ih (Nat.lt_of_le_of_lt (Step.created_le hst) hn)).step hst hn

/-! ## The authorization theorem -/

/-- What a step from `st` to `st'` may do to the processes. -/
structure Authorized (st : Booted) (e : KernelEvent) (st' : Booted) : Prop where
  /-- A process ends by an exit request of the kernel, an interrupt handler or itself. -/
  ends : ∀ q ∈ st.kernel.processes, q ∉ st'.kernel.processes →
    ∃ caller code r, e = .call caller (.processExit q code) r ∧
      (caller = .kernel ∨ caller = .irq ∨ caller = .user q)
  /-- A process is registered by a creation request of the kernel, under a new pid. -/
  registers : ∀ q, q ∉ st.kernel.processes → q ∈ st'.kernel.processes →
    ∃ entry stackTop, e = .call .kernel (.processCreate entry stackTop) (some (.process q)) ∧
      st'.created = ⟨q, entry, stackTop⟩ :: st.created ∧
      (st'.created.length < 2 ^ 64 → q ≠ .kernel ∧ q ∉ st.created.map (·.pid))
  /-- A registered process has the coordinates it was created with. -/
  snapshots : st'.created.length < 2 ^ 64 → ∀ c ∈ st'.created, c.pid ∈ st'.kernel.processes →
    st'.kernel.snapshot c.pid = some c.snapshot
  /-- A request answered with an error changes no process, thread or counter. -/
  failed : ∀ caller request x, e = .call caller request (some (.err x)) →
    st'.kernel.processes = st.kernel.processes ∧ st'.kernel.threads = st.kernel.threads

/-- Every registered process was created once, and its entry is the one made then. -/
theorem Inv.snapshot (h : Inv st) {c : Creation} (hc : c ∈ st.created)
    (hp : c.pid ∈ st.kernel.processes) : st.kernel.snapshot c.pid = some c.snapshot := by
  obtain ⟨process, hl⟩ := FMap.mem_iff.mp hp
  obtain ⟨c', hc', he, rfl⟩ := h.registered c.pid process hl
  have hcc : c' = c := List.inj_on_of_nodup_map h.nodup hc' hc he
  unfold Kernel.snapshot
  rw [hl, hcc]
  rfl

theorem Inv.new_pid (h : Inv st) (hn : st.created.length + 1 < 2 ^ 64) :
    (⟨st.kernel.nextPid⟩ : ProcessId) ≠ .kernel ∧
      ⟨st.kernel.nextPid⟩ ∉ st.created.map (·.pid) := by
  obtain ⟨hnext, hfresh⟩ := h.fresh hn
  refine ⟨fun he => ?_, fun hm => ?_⟩
  · have := congrArg (·.asU64.toNat) he
    simp only [ProcessId.kernel, hnext] at this
    exact absurd this (by simp)
  · obtain ⟨c, hc, he⟩ := List.mem_map.mp hm
    exact hfresh c hc he

/-- In every run from boot: which steps end and register processes, what their snapshots say, and
what a failed request leaves. -/
theorem process_authorization (p : Profile) (st : Booted) (e : KernelEvent) (st' : Booted)
    (h : (system p).Reach st) (hst : (system p).step st e st') : Authorized st e st' := by
  have hsnap : st'.created.length < 2 ^ 64 → ∀ c ∈ st'.created, c.pid ∈ st'.kernel.processes →
      st'.kernel.snapshot c.pid = some c.snapshot := fun hn c hc hp =>
    (inv_reach (h.step hst) hn).snapshot hc hp
  cases hst with
  | background hb =>
    refine ⟨fun q hq hq' => ?_, fun q hq hq' => ?_, hsnap, by simp⟩
    · exact absurd (hb.processes ▸ hq) hq'
    · exact absurd (hb.processes ▸ hq') hq
  | call hcall =>
    cases Kernel.call_cases hcall with
    | failed x hr hk =>
      subst hk
      exact ⟨fun q hq hq' => absurd hq hq', fun q hq hq' => absurd hq' hq, hsnap,
        fun _ _ _ _ => ⟨rfl, rfl⟩⟩
    | created entry stackTop hc hreq hr hk =>
      subst hc hreq hr hk
      refine ⟨fun q hq hq' => ?_, fun q hq hq' => ?_, hsnap, by simp⟩
      · exact absurd (Finmap.mem_insert.mpr (.inr hq)) hq'
      · obtain rfl | hm := Finmap.mem_insert.mp hq'
        · refine ⟨entry, stackTop, rfl, rfl, fun hn => ?_⟩
          exact (inv_reach h (Nat.lt_of_le_of_lt (Nat.le_succ _) hn)).new_pid hn
        · exact absurd hm hq
    | exited pid code hc hreq hp hr hproc hnext =>
      subst hreq hr
      refine ⟨fun q hq hq' => ?_, fun q hq hq' => ?_, hsnap, by simp⟩
      · rw [hproc, Finmap.mem_erase] at hq'
        obtain rfl : q = pid := by
          by_contra hne
          exact hq' ⟨hne, hq⟩
        exact ⟨_, code, _, rfl, hc⟩
      · rw [hproc, Finmap.mem_erase] at hq'
        exact absurd hq'.2 hq
    | other he hr hproc hnext =>
      refine ⟨fun q hq hq' => ?_, fun q hq hq' => ?_, hsnap, fun _ _ x hx => ?_⟩
      · exact absurd (hproc ▸ hq) hq'
      · exact absurd (hproc ▸ hq') hq
      · cases hx
        exact absurd rfl (he x)

/-- A run goes on with a call. -/
theorem reach_call (h : (system p).Reach st) (env : Env) (caller : Caller) (request : Request)
    {r : Kernel × Option Response} (e : st.kernel.call p env caller request = .ok r) :
    (system p).step st (.call caller request r.2) ⟨r.1, record st.created request r.2⟩ ∧
      (system p).Reach ⟨r.1, record st.created request r.2⟩ :=
  ⟨Step.call e, h.step (Step.call e)⟩

/-- The kernel creates a process, another process fails to end it, and it ends itself. -/
theorem process_authorization_lifecycle : ∃ st e st', (system .dev).Reach st ∧
    (system .dev).step st e st' ∧ ⟨1⟩ ∈ st.kernel.processes ∧ ⟨1⟩ ∉ st'.kernel.processes ∧
    Authorized st e st' := by
  have h0 : (system .dev).Reach ⟨.boot .empty ⟨0, 7, fun _ _ => ⟨0x20, 7⟩⟩, []⟩ :=
    .init ⟨_, _, rfl⟩
  obtain ⟨-, h1⟩ := reach_call h0 ⟨0, 0⟩ .kernel
    (.processCreate ⟨0x400000000000, by decide⟩ ⟨0x400000003000, by decide⟩) rfl
  obtain ⟨-, h2⟩ := reach_call h1 ⟨0, 0⟩ (.user ⟨2⟩) (.processExit ⟨1⟩ 0) rfl
  obtain ⟨hst, -⟩ := reach_call h2 ⟨0, 0⟩ (.user ⟨1⟩) (.processExit ⟨1⟩ 7) rfl
  exact ⟨_, _, _, h2, hst, by decide, by decide, process_authorization _ _ _ _ h2 hst⟩

end Booted

end Apogee
