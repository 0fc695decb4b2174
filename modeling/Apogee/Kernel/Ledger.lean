import Apogee.Kernel.Authorization
import Apogee.Thread.Operations

/-!
# The process counters against the registry

A run is any sequence of calls by any callers, of the kernel's own `register_process` and
`exit_process`, and of what the rest of the machine does. The bootstrap thread does not exit. Beside
the kernel, a run has the history that the counters speak of: the threads spawned, the processes
registered, the registrations that replaced an entry, and the exits that succeeded.

* `Kernel.call_registry`: what a call does to the registry and its counters.
* `Inv`: `processes_alive` is the number of entries plus the entries replaced. This holds in every
  run, up to the width of the counter.
* `counters_match_iff`: so the counters match the registry if and only if no registration replaced
  an entry. `register` counts a process up even when its pid was registered.
-/

namespace Apogee

open Verif

namespace Kernel

variable {p : Profile} {env : Env} {caller : Caller} {request : Request} {k k' : Kernel}
  {r : Option Response}

/-- `processes_alive()`. -/
abbrev processesAlive (k : Kernel) : UInt64 := k.threads.scheduler.processesAlive

/-- `processes_spawned()`. -/
abbrev processesSpawned (k : Kernel) : UInt64 := k.threads.scheduler.processesSpawned

/-- The registry and the process counters are as before. -/
structure KeepsProcesses (k k' : Kernel) : Prop where
  processes : k'.processes = k.processes
  alive : k'.processesAlive = k.processesAlive
  spawned : k'.processesSpawned = k.processesSpawned

/-- What one call can do to the registry and its counters. -/
inductive RegistryEffect (request : Request) (k k' : Kernel) (r : Option Response) : Prop
  | created (entry stackTop : VirtAddr) : request = .processCreate entry stackTop →
      r = some (.process ⟨k.nextPid⟩) → k' = (k.create entry stackTop).1 →
      RegistryEffect request k k' r
  | exited (pid : ProcessId) (code : Int32) : request = .processExit pid code → r = some .ok →
      pid ∈ k.processes → k' = note { k with processes := k.processes.erase pid }
        .noteProcessExited → RegistryEffect request k k' r
  | kept : (∀ pid, r ≠ some (.process pid)) →
      (∀ pid code, request = .processExit pid code → r ≠ some .ok) → KeepsProcesses k k' →
      RegistryEffect request k k' r

/-- The threads' operations leave the process counters alone. -/
theorem drainReaper_processes (t : Threads) :
    t.drainReaper.scheduler.processesAlive = t.scheduler.processesAlive ∧
      t.drainReaper.scheduler.processesSpawned = t.scheduler.processesSpawned := by
  unfold Threads.drainReaper
  split
  · exact ⟨rfl, rfl⟩
  · exact ⟨rfl, rfl⟩

theorem keepsProcesses_spawn {process : ProcessId} {stack : UInt64} {t : Threads} {id : ThreadId}
    (h : k.threads.spawn p process stack = .ok (t, id)) :
    KeepsProcesses k { k with threads := t } := by
  obtain ⟨-, rfl⟩ := Threads.spawn_cases h
  exact ⟨rfl, rfl, rfl⟩

theorem keepsProcesses_yieldNow {rsp : UInt64} {t : Threads} {loaded : Option UInt64}
    (h : k.threads.yieldNow rsp = .ok (t, loaded)) : KeepsProcesses k { k with threads := t } := by
  obtain ⟨ha, hs⟩ := drainReaper_processes k.threads
  obtain ⟨-, rfl, -⟩ | ⟨_, _, _, -, -, -, rfl, -⟩ := Threads.yieldNow_cases h
  · exact ⟨rfl, ha, hs⟩
  · exact ⟨rfl, ha, hs⟩

theorem keepsProcesses_exitThread {t : Threads} {loaded : UInt64}
    (h : k.threads.exitThread p = .ok (t, loaded)) : KeepsProcesses k { k with threads := t } := by
  obtain ⟨ha, hs⟩ := drainReaper_processes k.threads
  obtain ⟨s, -, h⟩ := Panics.bind_eq_ok.mp h
  split at h
  · cases h
  · obtain ⟨c, -, h⟩ := Panics.bind_eq_ok.mp h
    obtain ⟨rfl, -⟩ := Prod.mk.inj (Except.ok.inj h)
    exact ⟨rfl, ha, hs⟩

theorem call_registry (h : k.call p env caller request = .ok (k', r)) :
    RegistryEffect request k k' r := by
  cases called_of_call h with
  | created entry stackTop => exact .created entry stackTop rfl rfl rfl
  | exited pid code _ hp => exact .exited pid code rfl rfl hp rfl
  | spawned _ _ hspawn => exact .kept (by simp) (by simp) (keepsProcesses_spawn hspawn)
  | yielded hyield => exact .kept (by simp) (by simp) (keepsProcesses_yieldNow hyield)
  | threadExited hexit => exact .kept (by simp) (by simp) (keepsProcesses_exitThread hexit)
  | failed | snapshot | count | stats | memory | ticks | byteRead | written =>
    exact .kept (by simp) (by simp) ⟨rfl, rfl, rfl⟩

end Kernel

/-! ## Runs -/

/-- The kernel with the history that its counters speak of. -/
structure Ledger where
  kernel : Kernel
  /-- How many threads were spawned. -/
  spawns : Nat
  /-- How many times a process was registered. -/
  registrations : Nat
  /-- How many of these replaced an entry of the registry. -/
  replaced : Nat
  /-- How many exits found their process. -/
  exits : Nat

inductive LedgerEvent where
  | call (caller : Caller) (request : Request)
  | newProcess
  | registerProcess (process : Process)
  | exitProcess (pid : ProcessId) (code : Int32)
  | background

namespace Ledger

/-- The record after a registration of `pid` that leaves the kernel in `k`. -/
def registered (st : Ledger) (k : Kernel) (pid : ProcessId) : Ledger :=
  { st with
    kernel := k
    registrations := st.registrations + 1
    replaced := st.replaced + if pid ∈ st.kernel.processes then 1 else 0 }

/-- The record after an exit that leaves the kernel in `k`. -/
def exited (st : Ledger) (k : Kernel) : Ledger := { st with kernel := k, exits := st.exits + 1 }

/-- The record after a call with this answer. -/
def answered (st : Ledger) (k : Kernel) : Request → Option Response → Ledger
  | _, some (.process pid) => st.registered k pid
  | .processExit _ _, some .ok => st.exited k
  | _, some (.thread _) => { st with kernel := k, spawns := st.spawns + 1 }
  | _, _ => { st with kernel := k }

inductive Step (p : Profile) : Ledger → LedgerEvent → Ledger → Prop
  | call {st : Ledger} {env : Env} {caller : Caller} {request : Request} {k : Kernel}
      {r : Option Response} :
      (request = .threadExit → st.kernel.threads.sched.current ≠ bootstrapId) →
      st.kernel.call p env caller request = .ok (k, r) →
      Step p st (.call caller request) (st.answered k request r)
  /-- `Process::new` takes a pid without registering it. -/
  | newProcess {st : Ledger} : Step p st .newProcess
      { st with kernel := { st.kernel with nextPid := st.kernel.nextPid + 1 } }
  /-- `Kernel::register_process`. -/
  | registerProcess {st : Ledger} (process : Process) :
      Step p st (.registerProcess process)
        (st.registered (st.kernel.register process).1 process.pid)
  /-- `Kernel::exit_process`. -/
  | exitProcess {st : Ledger} (pid : ProcessId) (code : Int32) :
      Step p st (.exitProcess pid code)
        (match st.kernel.exit pid code with
        | (k, true) => st.exited k
        | (k, false) => { st with kernel := k })
  | background {st : Ledger} {k : Kernel} : Booted.Background st.kernel k →
      Step p st .background { st with kernel := k }

/-- The runs from boot. -/
def system (p : Profile) : Sys Ledger LedgerEvent where
  init st := ∃ heap console, st = ⟨.boot heap console, 0, 0, 0, 0⟩
  step := Step p

/-- The counters follow the history. -/
structure Inv (st : Ledger) : Prop where
  alive : st.kernel.processesAlive = UInt64.ofNat (st.kernel.count + st.replaced)
  spawned : st.kernel.processesSpawned = UInt64.ofNat st.registrations
  balance : st.registrations = st.kernel.count + st.replaced + st.exits

variable {p : Profile} {st st' : Ledger} {e : LedgerEvent} {k : Kernel}

theorem Inv.kept (h : Inv st) (hk : Kernel.KeepsProcesses st.kernel k) (spawns : Nat) :
    Inv ⟨k, spawns, st.registrations, st.replaced, st.exits⟩ := by
  have hcount : k.count = st.kernel.count := congrArg FMap.size hk.processes
  refine ⟨?_, ?_, ?_⟩
  · show k.processesAlive = _
    rw [hk.alive, h.alive, hcount]
  · show k.processesSpawned = _
    rw [hk.spawned, h.spawned]
  · show st.registrations = k.count + _ + _
    rw [hcount, h.balance]

theorem Inv.newProcess (h : Inv st) :
    Inv { st with kernel := { st.kernel with nextPid := st.kernel.nextPid + 1 } } :=
  ⟨h.alive, h.spawned, h.balance⟩

/-- A registration adds an entry or replaces one. -/
theorem size_register (k : Kernel) (process : Process) :
    (k.register process).1.count =
      if process.pid ∈ k.processes then k.count else k.count + 1 := by
  show FMap.size (k.processes.insert process.pid process) = _
  split
  · next hm => exact FMap.size_insert_of_mem process hm
  · next hm => exact FMap.size_insert process hm

theorem Inv.register (h : Inv st) (process : Process) :
    Inv (st.registered (st.kernel.register process).1 process.pid) := by
  have hsize := size_register st.kernel process
  have hbal := h.balance
  have hone : ∀ n, UInt64.ofNat n + 1 = UInt64.ofNat (n + 1) := fun n => (UInt64.ofNat_add n 1).symm
  refine ⟨?_, ?_, ?_⟩
  · show st.kernel.processesAlive + 1 = UInt64.ofNat ((st.kernel.register process).1.count +
      (st.replaced + if process.pid ∈ st.kernel.processes then 1 else 0))
    rw [h.alive, hone, hsize]
    congr 1
    split <;> omega
  · show st.kernel.processesSpawned + 1 = _
    rw [h.spawned, hone]
    rfl
  · show st.registrations + 1 = (st.kernel.register process).1.count +
      (st.replaced + if process.pid ∈ st.kernel.processes then 1 else 0) + st.exits
    rw [hsize]
    split <;> omega

theorem Inv.exit {pid : ProcessId} (h : Inv st) (hp : pid ∈ st.kernel.processes) :
    Inv (st.exited (Kernel.note { st.kernel with processes := st.kernel.processes.erase pid }
      .noteProcessExited)) := by
  have hsize : FMap.size (st.kernel.processes.erase pid) + 1 = st.kernel.count := FMap.size_erase hp
  have hbal := h.balance
  refine ⟨?_, h.spawned, ?_⟩
  · show st.kernel.processesAlive - 1 =
      UInt64.ofNat (FMap.size (st.kernel.processes.erase pid) + st.replaced)
    rw [h.alive, ← hsize, Nat.add_right_comm, UInt64.ofNat_add]
    exact UInt64.add_sub_cancel _ _
  · show st.registrations = FMap.size (st.kernel.processes.erase pid) + st.replaced + (st.exits + 1)
    omega

theorem answered_kept {request : Request} {r : Option Response}
    (hr : ∀ pid, r ≠ some (.process pid))
    (hexit : ∀ pid code, request = .processExit pid code → r ≠ some .ok) :
    ∃ spawns, st.answered k request r =
      ⟨k, spawns, st.registrations, st.replaced, st.exits⟩ := by
  unfold answered
  split
  · exact absurd rfl (hr _)
  · exact absurd rfl (hexit _ _ rfl)
  · exact ⟨_, rfl⟩
  · exact ⟨_, rfl⟩

theorem Inv.step (h : Inv st) (hst : Step p st e st') : Inv st' := by
  cases hst with
  | call _ hcall =>
    cases Kernel.call_registry hcall with
    | created entry stackTop hreq hr hk =>
      subst hreq hr hk
      exact h.newProcess.register (.new ⟨st.kernel.nextPid⟩ entry stackTop)
    | exited pid code hreq hr hp hk =>
      subst hreq hr hk
      exact h.exit hp
    | kept hr hexit hk =>
      obtain ⟨spawns, he⟩ := answered_kept hr hexit
      rw [he]
      exact h.kept hk spawns
  | newProcess => exact h.newProcess
  | registerProcess process => exact h.register process
  | exitProcess pid code =>
    unfold Kernel.exit
    cases hp : st.kernel.processes.get? pid with
    | none => exact h
    | some process => exact h.exit (FMap.mem_of_get? hp)
  | background hb => exact h.kept ⟨hb.processes, hb.processesAlive, hb.processesSpawned⟩ _

theorem inv_reach (h : (system p).Reach st) : Inv st := by
  refine Sys.Preserved.reach (I := Inv) ⟨?_, ?_⟩ h
  · rintro st ⟨heap, console, rfl⟩
    exact ⟨rfl, rfl, rfl⟩
  · intro st e st' _ hi hst
    exact hi.step hst

/-- Before `2 ^ 64` registrations `processes_alive` counts the entries and the replaced ones. -/
theorem Inv.alive_toNat (h : Inv st) (hn : st.registrations < 2 ^ 64) :
    st.kernel.processesAlive.toNat = st.kernel.count + st.replaced := by
  have hbal := h.balance
  rw [h.alive, Word.toNat_ofNat (by omega)]

/-! ## The counters and the registry -/

/-- The counters match the registry and the exits. -/
structure Matches (st : Ledger) : Prop where
  alive : st.kernel.processesAlive.toNat = st.kernel.count
  exits : st.kernel.processesSpawned.toNat = st.kernel.processesAlive.toNat + st.exits
  /-- An exit that finds its process does not take the counter below zero. -/
  no_wrap : ∀ pid ∈ st.kernel.processes, 0 < st.kernel.processesAlive.toNat

/-- In every state of a run with fewer than `2 ^ 64` registrations, the counters match the registry
if and only if no registration replaced an entry. -/
theorem counters_match_iff (p : Profile) (st : Ledger) (h : (system p).Reach st)
    (hn : st.registrations < 2 ^ 64) : Matches st ↔ st.replaced = 0 := by
  have hi := inv_reach h
  have halive := hi.alive_toNat hn
  constructor
  · intro hm
    have := hm.alive
    omega
  · intro hr
    refine ⟨by omega, ?_, fun pid hp => ?_⟩
    · rw [hi.spawned, Word.toNat_ofNat hn, halive, hi.balance]
    · have hsize := FMap.size_erase hp
      have hcount : st.kernel.count = FMap.size st.kernel.processes := rfl
      omega

theorem demoEntry_canonical : (0x400000000000 : UInt64).toNat < 2 ^ 47 ∨
    2 ^ 64 - 2 ^ 47 ≤ (0x400000000000 : UInt64).toNat := by decide

theorem demoStack_canonical : (0x400000003000 : UInt64).toNat < 2 ^ 47 ∨
    2 ^ 64 - 2 ^ 47 ≤ (0x400000003000 : UInt64).toNat := by decide

/-- The descriptor that the tests register. -/
def demoProcess (pid : ProcessId) : Process :=
  .new pid ⟨0x400000000000, demoEntry_canonical⟩ ⟨0x400000003000, demoStack_canonical⟩

/-- Two processes are registered and one ends: the counters match. -/
theorem counters_match_iff_two : ∃ st, (system .dev).Reach st ∧ st.kernel.count = 1 ∧
    st.exits = 1 ∧ Matches st := by
  have h0 : (system .dev).Reach ⟨.boot .empty ⟨0, 7, fun _ _ => ⟨0x20, 7⟩⟩, 0, 0, 0, 0⟩ :=
    .init ⟨_, _, rfl⟩
  have h1 := h0.step (Step.registerProcess (demoProcess ⟨1⟩))
  have h2 := h1.step (Step.registerProcess (demoProcess ⟨2⟩))
  have h3 := h2.step (Step.exitProcess ⟨1⟩ 0)
  exact ⟨_, h3, by decide, rfl, (counters_match_iff _ _ h3 (by decide)).mpr (by decide)⟩

/-- One descriptor is registered twice: the registry has one entry and the counter says two. -/
theorem registered_twice : ∃ st, (system .dev).Reach st ∧ st.kernel.count = 1 ∧
    st.kernel.processesAlive = 2 ∧ ¬ Matches st := by
  have h0 : (system .dev).Reach ⟨.boot .empty ⟨0, 7, fun _ _ => ⟨0x20, 7⟩⟩, 0, 0, 0, 0⟩ :=
    .init ⟨_, _, rfl⟩
  have h1 := h0.step (Step.registerProcess (demoProcess ⟨1⟩))
  have h2 := h1.step (Step.registerProcess (demoProcess ⟨1⟩))
  refine ⟨_, h2, by decide, rfl, fun hm => ?_⟩
  exact absurd hm.alive (by decide)

end Ledger

end Apogee
