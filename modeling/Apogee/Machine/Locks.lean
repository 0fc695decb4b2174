import Apogee.Lib.LockFlow

/-!
# The kernel's spin locks

Six `spin::Mutex`es: the heap (`ALLOCATOR`), the thread scheduler (`THREADS`), the process registry,
the VGA writer (`WRITER`), the serial port (`SERIAL1`) and the interrupt controllers (`PICS`). Each
definition here is what the function of that name does with them, with interrupts and with the CPU,
in the source's order. Choices stand for the data: `heap` is any number of allocations and frees,
and code that can panic has the choice to. A panic prints and then halts with its locks still taken.

* Only `WRITER` and `PICS` are spun on in an interrupt handler: `PICS` at its end, `WRITER` when it
  panics (a full `task_queue`, the tick count past `u64`). Threads take `WRITER` inside
  `without_interrupts`, and `PICS` only before interrupts go on. A handler logs with `try_lock`.
* `waits_for_no_lock`: in every run of threads, system calls, faults, panics and interrupts each
  `lock()` finds its lock free, and no lock is taken at a context switch.

The ready queue and the scheduler's choice are not here: a switch goes to any thread. Interrupt
handlers free nothing (`WakerRefs`), so they do not take `ALLOCATOR`.
-/

namespace Apogee

open Verif

inductive KernelLock
  | allocator
  | threads
  | processes
  | writer
  | serial
  | pics
  deriving DecidableEq

/-- The locks that interrupt handlers spin on. -/
def KernelLock.irq : KernelLock → Bool
  | .writer | .pics => true
  | _ => false

abbrev KernelFlow := LockFlow KernelLock

namespace KernelFlow

open LockFlow KernelLock

/-! ### Output -/

/-- `vga_buffer::_print`. `write_str` never fails, so the `unwrap` does not panic. -/
def println : KernelFlow :=
  masked (lock writer skip)

/-- `vga_buffer::set_color` -/
def setColor : KernelFlow :=
  masked (lock writer skip)

/-- `logger::_log` -/
def log : KernelFlow :=
  tryLock serial skip

/-- The panic handler of `main.rs`: print, then `hlt_loop`. -/
def panic : KernelFlow :=
  block [println, stop]

/-- Code that may panic. -/
def mayPanic : KernelFlow :=
  oneOf [panic]

/-! ### The heap -/

/-- `GlobalAlloc::alloc` and `dealloc` of the heap -/
def globalAlloc : KernelFlow :=
  lock allocator mayPanic

/-- Any use of the heap; an allocation that fails panics. -/
def heap : KernelFlow :=
  loop (block [globalAlloc, mayPanic])

/-- `allocator::init_heap` -/
def initHeap : KernelFlow :=
  lock allocator skip

/-- `allocator::stats` -/
def memoryStats : KernelFlow :=
  lock allocator mayPanic

/-! ### Threads -/

/-- `thread::spawn` -/
def spawn : KernelFlow :=
  lock threads (block [heap, mayPanic])

/-- `drain_reaper`: the box is dropped after the lock is released. -/
def drainReaper : KernelFlow :=
  block [masked (lock threads skip), heap]

/-- `yield_now` -/
def yieldNow : KernelFlow :=
  block [drainReaper, masked (lock threads (block [heap, mayPanic])), oneOf [switch]]

/-- `exit_thread`. Nothing resumes it; if something did, it would panic. -/
def exitThread : KernelFlow :=
  block [drainReaper, masked (lock threads (block [heap, mayPanic])), switch, panic]

/-- `current_process`, `current_id`, `ready_count`, `thread_count` -/
def readThreads : KernelFlow :=
  lock threads skip

/-! ### Services -/

/-- `ProcessService::register` and `exit`: the map changes under the lock. -/
def changeProcesses : KernelFlow :=
  lock processes heap

/-- `ProcessService::snapshot` and `count` -/
def readProcesses : KernelFlow :=
  lock processes skip

/-- What the page fault handler does with a fault in ring 0. -/
def kernelFault : KernelFlow :=
  block [println, panic]

/-- `ConsoleService::write`: a byte is read before the print that shows it, and the read may fault
(the window of a user process has an unmapped page). -/
def consoleWrite : KernelFlow :=
  loop (block [oneOf [kernelFault], println])

/-- `Kernel::call` -/
def call : KernelFlow :=
  oneOf [changeProcesses, readProcesses, spawn, yieldNow, exitThread, memoryStats, consoleWrite]

/-! ### Entries from ring 3 -/

/-- `sys_exit` -/
def sysExit : KernelFlow :=
  block [log, changeProcesses, exitThread]

/-- `syscall_dispatch`. `sys_read` takes no lock. -/
def syscallDispatch : KernelFlow :=
  block [readThreads, oneOf [sysExit, consoleWrite, yieldNow, log]]

/-- `kill_faulting_process` -/
def killFaultingProcess : KernelFlow :=
  block [readThreads, mayPanic, log, changeProcesses, exitThread]

/-- `page_fault_handler` and `gpf_handler`, for a fault in ring 3 -/
def userFault : KernelFlow :=
  block [println, killFaultingProcess]

/-- `user_thread_entry`. `enter_userland` loads flags with the interrupt flag set; ring 3 then traps
any number of times. An exception without a gate is a double fault, which panics. -/
def userThreadEntry : KernelFlow :=
  block [readThreads, readProcesses, mayPanic, readThreads, log, unmask,
    loop (trap (choice syscallDispatch (choice userFault panic)))]

/-! ### The bootstrap thread -/

/-- `worker_a` and `worker_b` -/
def worker : KernelFlow :=
  block [readThreads, log, yieldNow, log, exitThread]

/-- `threading_demo` -/
def threadingDemo : KernelFlow :=
  block [log, spawn, spawn, loop (block [readThreads, yieldNow]), readThreads, log]

/-- `create_process_from_program` -/
def createProcessFromProgram : KernelFlow :=
  block [oneOf [changeProcesses], log]

/-- `userland_demo` -/
def userlandDemo : KernelFlow :=
  block [log, createProcessFromProgram,
    oneOf [block [spawn, loop (block [readThreads, yieldNow]), readThreads, yieldNow]], log]

/-- `sleep_if_idle` -/
def sleepIfIdle : KernelFlow :=
  block [masked skip, unmask]

/-- `CoopExecutor::run` with its tasks: they use the heap, log, and print keys. -/
def executorRun : KernelFlow :=
  block [log, loop (block [loop (oneOf [heap, log, println, panic]), sleepIfIdle])]

/-- `apogee::init` up to the `interrupts::enable` at its end, with the first log of `kernel_main` -/
def init : KernelFlow :=
  block [log, log, log, log, log, lock pics skip, log]

/-- `kernel_main` from there on -/
def kernelMain : KernelFlow :=
  block [log, log, mayPanic, log, initHeap, mayPanic, log,
    -- `print_banner`
    setColor, println, println, setColor, println, println, println, println, println, println,
    -- `sample_heap_allocations`
    loop (oneOf [heap, log]),
    threadingDemo, userlandDemo,
    -- the executor and its two tasks
    loop (oneOf [heap, log, panic]), executorRun]

/-! ### Interrupt handlers -/

/-- `timer_interrupt_handler`: `tick` logs its heartbeat, and its sum overflows after the last
`u64`. -/
def timerInterruptHandler : KernelFlow :=
  block [oneOf [skip, log, panic], lock pics skip]

/-- `keyboard_interrupt_handler`: `add_scancode` logs what it drops, and its wake panics if the
`task_queue` is full. -/
def keyboardInterruptHandler : KernelFlow :=
  block [oneOf [skip, log, panic], lock pics skip]

/-- All code of the kernel that takes a lock. Threads with other entries than the demos' make
arbitrary calls of the kernel. -/
def program : Program KernelLock where
  boot := init
  main := kernelMain
  handlers := [timerInterruptHandler, keyboardInterruptHandler]
  entries := [worker, userThreadEntry, loop call]

theorem program_ok : program.ok KernelLock.irq = true := by
  decide +kernel

/-- In every run, with any interleaving of threads, traps and interrupts and with a panic at any
point that can panic: a `lock()` finds its lock free, no lock is taken at a switch, no interrupt
comes while `WRITER` or `PICS` is taken, and the code goes on until it ends or a panic halts. -/
theorem waits_for_no_lock {c : Cpu KernelLock} (h : program.system.Reach c) :
    c.Safe KernelLock.irq :=
  Program.safe program_ok h

/-- `init_heap` holds the heap's lock, another thread is there, and the timer's handler gets to its
`lock()` of `PICS`: it is free. -/
theorem waits_for_no_lock_log : ∃ c k, program.system.Reach c ∧
    c.stack = .run (.lock pics .skip) :: k ∧ c.held allocator = true ∧
    c.parked = [[.run worker]] ∧ c.enabled = false ∧ c.held pics = false := by
  have h₀ : program.system.Reach program.start := .init rfl
  have h₁ := Program.reach_ahead 48 h₀
  have h₂ := h₁.step (@Program.Step.spawn _ _ _ _ worker (.head _))
  have h₃ := h₂.step (@Program.Step.interrupt _ _ _ _ timerInterruptHandler rfl (.head _))
  have h₄ := Program.reach_ahead 6 h₃
  exact ⟨_, _, h₄, rfl, rfl, rfl, rfl, (waits_for_no_lock h₄).granted _ _ _ rfl⟩

end KernelFlow

end Apogee
