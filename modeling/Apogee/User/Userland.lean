import Apogee.Kernel.Kernel
import Apogee.User.Paging

/-!
# User processes (`userland.rs`, `interrupts.rs`)

`createProcessFromProgram` maps a code page and a stack page at fixed addresses, copies the program
and registers the process. Its state has the mapper, the frame allocator, the kernel and physical
memory. A host thread enters ring 3 through `userThreadEntry`; a ring-3 fault ends in
`killFaultingProcess`.
-/

namespace Apogee

open Verif

/-- `USER_CODE_BASE`. -/
def userCodeBase : UInt64 := 0x400000000000

/-- `USER_STACK_BASE`. -/
def userStackBase : UInt64 := 0x400000002000

/-- `USER_STACK_TOP`. -/
def userStackTop : UInt64 := 0x400000003000

/-- What the process setup works on. `memory` is physical memory. -/
structure Setup (M A : Type) where
  mapper : M
  frameAllocator : A
  kernel : Kernel
  memory : UInt64 → UInt8

/-- The flags of the leaf and of the tables above it. -/
def userFlags : PageTableFlags := ⟨true, true, true⟩

/-- `copy_nonoverlapping` of `bytes` to the physical address `addr`. -/
def copyBytes (memory : UInt64 → UInt8) (addr : UInt64) (bytes : List UInt8) (a : UInt64) : UInt8 :=
  bytes[(a - addr).toNat]?.getD (memory a)

namespace Setup

variable {M A : Type} [FrameAllocator A] [Mapper M A]

/-- Allocates a frame for a user page and maps it, with the messages of the two failures. -/
def mapUserPage (noFrame mapFailed : String) (page : Page) (s : Setup M A) :
    Setup M A × Except String PhysFrame :=
  match FrameAllocator.allocateFrame s.frameAllocator with
  | (none, a) => ({ s with frameAllocator := a }, .error noFrame)
  | (some frame, a) =>
    match Mapper.mapToWithTableFlags s.mapper a page frame userFlags userFlags with
    | (.error _, m, a) => ({ s with mapper := m, frameAllocator := a }, .error mapFailed)
    | (.ok (), m, a) => ({ s with mapper := m, frameAllocator := a }, .ok frame)

/-- The end of `create_process_from_program`: the registration, with its answers. -/
def registerProcess (p : Profile) (s : Setup M A) :
    Panics (Setup M A × Except String ProcessId) := do
  let entry : VirtAddr := ⟨userCodeBase, by decide⟩
  let stackTop : VirtAddr := ⟨userStackTop, by decide⟩
  let (kernel, response) ← s.kernel.call p default .kernel (.processCreate entry stackTop)
  let s := { s with kernel := kernel }
  match response with
  | some (.process pid) => pure (s, .ok pid)
  | some (.err _) => pure (s, .error "process registration denied")
  | _ => pure (s, .error "process registration returned an unexpected response")

/-- `create_process_from_program`. -/
def createProcessFromProgram (p : Profile) (program : List UInt8) (s : Setup M A) :
    Panics (Setup M A × Except String ProcessId) :=
  if 4096 < program.length then
    pure (s, .error "program doesn't fit in one page")
  else
    match s.mapUserPage "no frame for user code" "map_to_user_code failed"
        (.containingAddress userCodeBase) with
    | (s, .error e) => pure (s, .error e)
    | (s, .ok codeFrame) =>
      let s := { s with memory := copyBytes s.memory codeFrame.startAddress program }
      match s.mapUserPage "no frame for user stack" "map_to_user stack failed"
          (.containingAddress userStackBase) with
      | (s, .error e) => pure (s, .error e)
      | (s, .ok _stackFrame) => s.registerProcess p

end Setup

/-! ## Host threads -/

namespace Kernel

/-- `spawn_user_thread`. -/
def spawnUserThread (p : Profile) (env : Env) (pid : ProcessId) (k : Kernel) : Panics Kernel := do
  let (threads, _) ← k.threads.spawn p pid env.stack
  pure { k with threads := threads }

/-- `user_thread_entry` up to `enter_userland`: the address and the stack pointer it enters ring 3
with. -/
def userThreadEntry (p : Profile) (k : Kernel) : Panics (UInt64 × UInt64) := do
  let pid := k.threads.currentProcess
  let (_, response) ← k.call p default (.user pid) (.processSnapshot pid)
  match response with
  | some (.snapshot (some snap)) => pure (snap.userEntry.asU64, snap.userStackTop.asU64)
  | _ => throw "user_thread_entry: pid missing from registry"

/-- `kill_faulting_process`. -/
def killFaultingProcess (p : Profile) (reason : String) (k : Kernel) : Panics Kernel := do
  let pid := k.threads.currentProcess
  if pid = .kernel then
    throw ("ring-3 fault without a process context: " ++ reason)
  else
    let (k, _) ← k.call p default (.user pid) (.processExit pid (-1))
    let (threads, _) ← k.threads.exitThread p
    pure { k with threads := threads }

end Kernel

end Apogee
