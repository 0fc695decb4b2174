import Apogee.Lib.Sys
import Apogee.Kernel.Authorization
import Apogee.Machine.Trap

/-!
# Threads, rings and traps

One CPU runs the current thread. A kernel thread runs in ring 0 on its own stack. A host thread,
started by `spawn_user_thread`, enters ring 3 when it first runs; from then on it is in ring 3 or
inside a trap from there. Every trap runs on the one privilege stack.

The state has what the hardware and the kernel hold: the kernel, memory, the interrupt flag and the
registers in ring 3. `ThreadInfo` is the record of each thread's past that the properties speak of.
No step reads it except to tell which code a thread is in.

* The gates of `int 0x80`, the faults and the interrupts clear the interrupt flag; `iretq` loads it
  from the flags it pops; `sleep_if_idle` sets it. `switch_context` leaves it alone.
* A step that switches threads has the incoming thread in its label: the head of the ready queue.
* `compute` is any ring-0 code between these points, with any interrupts taken there. It does not
  write the words of a syscall frame. `syscall_dispatch` writes `rax` there, which is in
  `sysReturn`.
-/

namespace Apogee

open Verif

/-- A syscall that a thread is inside. -/
structure InSyscall where
  /-- The registers at the trap. -/
  trapped : SyscallFrame
  /-- What `syscall_dispatch` stores in `rax`, once it is known. -/
  result : Option UInt64
  deriving DecidableEq

/-- What has happened to a thread. -/
structure ThreadInfo where
  /-- `spawn_user_thread` started it. -/
  host : Bool
  /-- The syscall it is inside. -/
  syscall : Option InSyscall
  /-- The interrupt flag when it called the `yield_now` that it waits in. -/
  yieldFlag : Option Bool
  /-- It runs in the handler of a gate, or it was first switched to from there and has neither left
  ring 0 nor called `sleep_if_idle` since. -/
  masked : Bool
  deriving DecidableEq

/-- A thread that has not run. -/
def ThreadInfo.fresh (host : Bool) : ThreadInfo := ⟨host, none, none, false⟩

structure Machine where
  kernel : Kernel
  mem : Mem
  interruptFlag : Bool
  /-- The registers, while the current thread is in ring 3. -/
  ring3 : Option SyscallFrame
  info : ThreadId → ThreadInfo

/-- The steps of the machine. `next` is the thread that a step switches to. -/
inductive MachineEvent where
  | compute
  | call (request : Request)
  | spawn (process : ProcessId) (host : Bool)
  | yieldNow (next : Option ThreadId)
  | exitThread (next : Option ThreadId)
  | sleepIfIdle
  | enterUserland
  | exec
  | trap
  | dispatch (next : Option ThreadId)
  | sysReturn
  | interrupt
  | fault (next : Option ThreadId)

/-- The thread that a step switches to. -/
def MachineEvent.next : MachineEvent → Option ThreadId
  | yieldNow next | exitThread next | dispatch next | fault next => next
  | compute | call _ | spawn _ _ | sleepIfIdle | enterUserland | exec | trap | sysReturn
  | interrupt => none

/-- The steps that go from ring 3 to ring 0. -/
def MachineEvent.entersRing0 : MachineEvent → Bool
  | trap | interrupt | fault _ => true
  | compute | call _ | spawn _ _ | yieldNow _ | exitThread _ | sleepIfIdle | enterUserland | exec
  | dispatch _ | sysReturn => false

/-- The user code selector, with RPL 3. -/
def userCs : UInt64 := 0x33

/-- The user data selector, with RPL 3. -/
def userSs : UInt64 := 0x2b

/-- The interrupt flag in a flags word. -/
def ifBit (rflags : UInt64) : Bool := rflags &&& 0x200 != 0

namespace Machine

/-- The thread that runs. -/
abbrev current (st : Machine) : ThreadId := st.kernel.threads.sched.current

/-- What has happened to the thread that runs. -/
abbrev self (st : Machine) : ThreadInfo := st.info st.current

/-- The head of the ready queue. -/
abbrev head (st : Machine) : Option ThreadId := st.kernel.threads.sched.ready.head?

/-- The records after the current thread, with the record `self` from then on, switches to `next`. A
thread that does not wait in `yield_now` is new and starts in the context of the switch. -/
def switchInfo (st : Machine) (self : ThreadInfo) (next : Option ThreadId) :
    ThreadId → ThreadInfo :=
  match next with
  | none => Function.update st.info st.current self
  | some n =>
    let info := Function.update st.info st.current self
    Function.update info n { info n with
      yieldFlag := none
      masked := if (info n).yieldFlag.isSome then (info n).masked else self.masked }

/-- The record of the current thread when it calls `yield_now`. -/
def yielding (st : Machine) (next : Option ThreadId) (self : ThreadInfo) : ThreadInfo :=
  if next.isSome then { self with yieldFlag := some st.interruptFlag } else self

/-- The current thread is a kernel thread. -/
def InKernel (st : Machine) : Prop :=
  st.ring3 = none ∧ st.self.syscall = none ∧ st.self.host = false

/-- The five words that the CPU pushes on entry to ring 0 are those of `u`. -/
def IretFrame (s : PrivilegeStack) (m : Mem) (u : SyscallFrame) : Prop :=
  m (s.frame + 120) = u.rip ∧ m (s.frame + 128) = u.cs ∧ m (s.frame + 136) = u.rflags ∧
    m (s.frame + 144) = u.userRsp ∧ m (s.frame + 152) = u.userSs

/-- Memory agrees on the words of a syscall frame. -/
def SameFrame (s : PrivilegeStack) (m m' : Mem) : Prop :=
  ∀ a, s.frame ≤ a → a < s.top → m' a = m a

/-- The requests that do not reach the scheduler. -/
def ServiceRequest : Request → Prop
  | .threadSpawn _ _ | .threadYield | .threadExit => False
  | _ => True

/-- The steps. The current thread takes them, except that `compute` and `interrupt` also stand for
interrupt handlers. -/
inductive Step (p : Profile) (s : PrivilegeStack) : Machine → MachineEvent → Machine → Prop
  | compute {st : Machine} {k : Kernel} {m : Mem} : st.ring3 = none →
      Booted.Background st.kernel k → SameFrame s st.mem m →
      Step p s st .compute { st with kernel := k, mem := m }
  | call {st : Machine} {env : Env} {request : Request} {k : Kernel} {r : Option Response} :
      st.InKernel → ServiceRequest request →
      st.kernel.call p env .kernel request = .ok (k, r) →
      Step p s st (.call request) { st with kernel := k }
  | spawn {st : Machine} {process : ProcessId} {host : Bool} {stack : UInt64} {t : Threads}
      {id : ThreadId} : st.InKernel → st.kernel.threads.spawn p process stack = .ok (t, id) →
      Step p s st (.spawn process host) { st with
        kernel := { st.kernel with threads := t }
        -- An id that wrapped around to the current or the bootstrap thread keeps its context.
        info := if id = bootstrapId ∨ id = st.current then st.info
          else Function.update st.info id (.fresh host) }
  | yieldNow {st : Machine} {rsp : UInt64} {t : Threads} {loaded : Option UInt64} :
      st.InKernel → st.kernel.threads.yieldNow rsp = .ok (t, loaded) →
      Step p s st (.yieldNow st.head) { st with
        kernel := { st.kernel with threads := t }
        info := st.switchInfo (st.yielding st.head st.self) st.head }
  | exitThread {st : Machine} {t : Threads} {loaded : UInt64} : st.InKernel →
      st.current ≠ bootstrapId → st.kernel.threads.exitThread p = .ok (t, loaded) →
      Step p s st (.exitThread st.head) { st with
        kernel := { st.kernel with threads := t }
        info := st.switchInfo st.self st.head }
  /-- `sleep_if_idle` leaves with interrupts on, whether it halts or not. -/
  | sleepIfIdle {st : Machine} : st.InKernel →
      Step p s st .sleepIfIdle { st with
        interruptFlag := true
        info := Function.update st.info st.current { st.self with masked := false } }
  | enterUserland {st : Machine} {u : SyscallFrame} : st.ring3 = none → st.self.syscall = none →
      st.self.host = true → st.kernel.userThreadEntry p = .ok (u.rip, u.userRsp) →
      u.rflags = 0x202 → u.cs = userCs → u.userSs = userSs →
      Step p s st .enterUserland { st with
        ring3 := some u
        interruptFlag := ifBit u.rflags
        info := Function.update st.info st.current { st.self with masked := false } }
  /-- Ring 3 changes its registers and its own memory. It cannot change the interrupt flag. -/
  | exec {st : Machine} {u u' : SyscallFrame} {m : Mem} : st.ring3 = some u →
      ifBit u'.rflags = ifBit u.rflags →
      (∀ a, s.top - privilegeStackSize ≤ a → a < s.top → m a = st.mem a) →
      Step p s st .exec { st with ring3 := some u', mem := m }
  | trap {st : Machine} {u : SyscallFrame} : st.ring3 = some u →
      Step p s st .trap { st with
        ring3 := none
        mem := s.trap st.mem u
        interruptFlag := false
        info := Function.update st.info st.current
          { st.self with syscall := some ⟨u, none⟩, masked := true } }
  | dispatch {st : Machine} {u frame : SyscallFrame} {env : Env} {load : UInt64 → Panics UInt8}
      {k : Kernel} : st.ring3 = none → st.self.syscall = some ⟨u, none⟩ →
      (SyscallFrame.load st.mem s.frame).rax ≠ sysYieldNumber →
      st.kernel.syscallDispatch p env load (.load st.mem s.frame) = .ok (k, some frame) →
      Step p s st (.dispatch none) { st with
        kernel := k
        info := Function.update st.info st.current
          { st.self with syscall := some ⟨u, some frame.rax⟩ } }
  | dispatchYield {st : Machine} {u frame : SyscallFrame} {env : Env}
      {load : UInt64 → Panics UInt8} {k : Kernel} : st.ring3 = none →
      st.self.syscall = some ⟨u, none⟩ →
      (SyscallFrame.load st.mem s.frame).rax = sysYieldNumber →
      st.kernel.syscallDispatch p env load (.load st.mem s.frame) = .ok (k, some frame) →
      Step p s st (.dispatch st.head) { st with
        kernel := k
        info := st.switchInfo
          (st.yielding st.head { st.self with syscall := some ⟨u, some frame.rax⟩ }) st.head }
  | dispatchExit {st : Machine} {u : SyscallFrame} {env : Env} {load : UInt64 → Panics UInt8}
      {k : Kernel} : st.ring3 = none → st.self.syscall = some ⟨u, none⟩ →
      st.kernel.syscallDispatch p env load (.load st.mem s.frame) = .ok (k, none) →
      Step p s st (.dispatch st.head) { st with
        kernel := k
        info := st.switchInfo { st.self with syscall := none } st.head }
  /-- The dispatcher stores its result, `syscall_isr` pops the registers, and `iretq` the rest. -/
  | sysReturn {st : Machine} {u : SyscallFrame} {rax : UInt64} : st.ring3 = none →
      st.self.syscall = some ⟨u, some rax⟩ →
      Step p s st .sysReturn { st with
        ring3 := some (.load (st.mem.store (s.frame + 112) rax) s.frame)
        mem := st.mem.store (s.frame + 112) rax
        interruptFlag :=
          ifBit (SyscallFrame.load (st.mem.store (s.frame + 112) rax) s.frame).rflags
        info := Function.update st.info st.current
          { st.self with syscall := none, masked := false } }
  /-- A timer or keyboard interrupt in ring 3. Below the frame of the CPU, its handler may leave
  anything. -/
  | interrupt {st : Machine} {u : SyscallFrame} {k : Kernel} {m : Mem} : st.ring3 = some u →
      ifBit u.rflags = true → IretFrame s m u → Booted.Background st.kernel k →
      Step p s st .interrupt { st with kernel := k, mem := m }
  | fault {st : Machine} {u : SyscallFrame} {reason : String} {k : Kernel} {m : Mem} :
      st.ring3 = some u → IretFrame s m u → st.kernel.killFaultingProcess p reason = .ok k →
      Step p s st (.fault st.head) { st with
        kernel := k
        mem := m
        interruptFlag := false
        ring3 := none
        info := st.switchInfo { st.self with syscall := none, masked := true } st.head }

/-- The machine after boot: the bootstrap thread runs with interrupts on. -/
def system (p : Profile) (s : PrivilegeStack) : Sys Machine MachineEvent where
  init st := ∃ heap console mem,
    st = ⟨.boot heap console, mem, true, none, fun _ => .fresh false⟩
  step := Step p s

/-! ## Building runs -/

section Runs

variable {p : Profile} {s : PrivilegeStack} {C : Machine → MachineEvent → Prop} {st : Machine}
  (h : ((system p s).restrict C).Reach st)
include h

theorem reach_call (env : Env) (request : Request) (hC : C st (.call request)) (hk : st.InKernel)
    (hreq : ServiceRequest request) {r : Kernel × Option Response}
    (e : st.kernel.call p env .kernel request = .ok r) :
    ((system p s).restrict C).Reach { st with kernel := r.1 } :=
  h.step ⟨hC, Step.call hk hreq e⟩

theorem reach_spawn (process : ProcessId) (host : Bool) (stack : UInt64)
    (hC : C st (.spawn process host)) (hk : st.InKernel) {r : Threads × ThreadId}
    (e : st.kernel.threads.spawn p process stack = .ok r) :
    ((system p s).restrict C).Reach { st with
      kernel := { st.kernel with threads := r.1 }
      info := if r.2 = bootstrapId ∨ r.2 = st.current then st.info
        else Function.update st.info r.2 (.fresh host) } :=
  h.step ⟨hC, Step.spawn hk e⟩

theorem reach_yieldNow (rsp : UInt64) (hC : C st (.yieldNow st.head)) (hk : st.InKernel)
    {r : Threads × Option UInt64} (e : st.kernel.threads.yieldNow rsp = .ok r) :
    ((system p s).restrict C).Reach { st with
      kernel := { st.kernel with threads := r.1 }
      info := st.switchInfo (st.yielding st.head st.self) st.head } :=
  h.step ⟨hC, Step.yieldNow hk e⟩

theorem reach_enterUserland (u : SyscallFrame) (hC : C st .enterUserland) (hr : st.ring3 = none)
    (hs : st.self.syscall = none) (hh : st.self.host = true)
    (e : st.kernel.userThreadEntry p = .ok (u.rip, u.userRsp)) (hf : u.rflags = 0x202)
    (hcs : u.cs = userCs) (hss : u.userSs = userSs) :
    ((system p s).restrict C).Reach { st with
      ring3 := some u
      interruptFlag := ifBit u.rflags
      info := Function.update st.info st.current { st.self with masked := false } } :=
  h.step ⟨hC, Step.enterUserland hr hs hh e hf hcs hss⟩

theorem reach_exec {u : SyscallFrame} (u' : SyscallFrame) (hC : C st .exec) (hr : st.ring3 = some u)
    (hf : ifBit u'.rflags = ifBit u.rflags) :
    ((system p s).restrict C).Reach { st with ring3 := some u' } :=
  h.step ⟨hC, Step.exec hr hf fun _ _ _ => rfl⟩

theorem reach_trap {u : SyscallFrame} (hC : C st .trap) (hr : st.ring3 = some u) :
    ((system p s).restrict C).Reach { st with
      ring3 := none
      mem := s.trap st.mem u
      interruptFlag := false
      info := Function.update st.info st.current
        { st.self with syscall := some ⟨u, none⟩, masked := true } } :=
  h.step ⟨hC, Step.trap hr⟩

theorem reach_dispatchYield (env : Env) (load : UInt64 → Panics UInt8) {u frame : SyscallFrame}
    {k : Kernel} (hC : C st (.dispatch st.head)) (hr : st.ring3 = none)
    (hs : st.self.syscall = some ⟨u, none⟩) (hload : SyscallFrame.load st.mem s.frame = u)
    (hrax : u.rax = sysYieldNumber)
    (e : st.kernel.syscallDispatch p env load u = .ok (k, some frame)) :
    ((system p s).restrict C).Reach { st with
      kernel := k
      info := st.switchInfo
        (st.yielding st.head { st.self with syscall := some ⟨u, some frame.rax⟩ }) st.head } :=
  h.step ⟨hC, Step.dispatchYield hr hs (hload ▸ hrax) (hload ▸ e)⟩

end Runs

theorem step_dispatchExit {p : Profile} {s : PrivilegeStack} {st : Machine} (env : Env)
    (load : UInt64 → Panics UInt8) {u : SyscallFrame} {k : Kernel} (hr : st.ring3 = none)
    (hs : st.self.syscall = some ⟨u, none⟩) (hload : SyscallFrame.load st.mem s.frame = u)
    (e : st.kernel.syscallDispatch p env load u = .ok (k, none)) :
    Step p s st (.dispatch st.head) { st with
      kernel := k
      info := st.switchInfo { st.self with syscall := none } st.head } :=
  .dispatchExit hr hs (hload ▸ e)

end Machine

end Apogee
