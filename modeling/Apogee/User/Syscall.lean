import Apogee.User.Userland

/-!
# Syscalls (`syscall.rs`)

`SyscallFrame` is the block of saved registers that the `int 0x80` entry builds; `syscallDispatch`
decodes it, makes a kernel call and stores the result in `rax`.

The kernel reads a user buffer with plain loads, so `load` is a parameter: the byte at an address,
or the panic of the page-fault handler when ring 0 faults there.
-/

namespace Apogee

open Verif

/-- `SyscallFrame`: fifteen registers, then the frame that the CPU pushed. -/
structure SyscallFrame where
  r15 : UInt64
  r14 : UInt64
  r13 : UInt64
  r12 : UInt64
  r11 : UInt64
  r10 : UInt64
  r9 : UInt64
  r8 : UInt64
  rdi : UInt64
  rsi : UInt64
  rbp : UInt64
  rbx : UInt64
  rdx : UInt64
  rcx : UInt64
  rax : UInt64
  rip : UInt64
  cs : UInt64
  rflags : UInt64
  userRsp : UInt64
  userSs : UInt64
  deriving DecidableEq

/-- `SYS_EXIT`. -/
def sysExitNumber : UInt64 := 0

/-- `SYS_WRITE`. -/
def sysWriteNumber : UInt64 := 1

/-- `SYS_READ`. -/
def sysReadNumber : UInt64 := 2

/-- `SYS_YIELD`. -/
def sysYieldNumber : UInt64 := 3

/-- `STDOUT`. -/
def stdout : UInt64 := 1

/-- `MAX_USER_IO`. -/
def maxUserIo : UInt64 := 4096

/-- `errno`: the error as `rax` carries it. -/
def errno (e : SysError) : UInt64 := e.errno.toUInt64

/-- A slice of bytes in memory. -/
structure UserSlice where
  ptr : UInt64
  len : UInt64
  deriving DecidableEq

/-- `user_bytes`. -/
def userBytes (ptr len : UInt64) : Option UserSlice := do
  if maxUserIo < len then
    none
  else
    let stop ← Word.checkedAdd ptr.toNat len.toNat
    if ptr < userCodeBase ∨ userStackTop.toNat < stop then
      none
    else
      some ⟨ptr, len⟩

/-- The bytes of a slice, loaded in order. -/
def UserSlice.read (load : UInt64 → Panics UInt8) (s : UserSlice) : Panics (List UInt8) :=
  (List.range s.len.toNat).mapM fun i => load (s.ptr + UInt64.ofNat i)

namespace Kernel

/-- `sys_write`. -/
def sysWrite (p : Profile) (load : UInt64 → Panics UInt8) (caller : Caller) (frame : SyscallFrame)
    (k : Kernel) : Panics (Kernel × UInt64) :=
  if frame.rdi ≠ stdout then
    pure (k, errno .badHandle)
  else
    match userBytes frame.rsi frame.rdx with
    | none => pure (k, errno .badPointer)
    | some slice => do
      let bytes ← slice.read load
      let (k, response) ← k.call p default caller (.consoleWrite bytes)
      match response with
      | some (.written written) => pure (k, UInt64.ofNat written)
      | some (.err error) => pure (k, errno error)
      | _ => pure (k, errno .unsupported)

/-- `sys_read`. -/
def sysRead (p : Profile) (caller : Caller) (k : Kernel) : Panics (Kernel × UInt64) := do
  let (k, response) ← k.call p default caller .inputReadByte
  match response with
  | some (.byte (some byte)) => pure (k, byte.toUInt64)
  | some (.byte none) => pure (k, errno .wouldBlock)
  | some (.err error) => pure (k, errno error)
  | _ => pure (k, errno .unsupported)

/-- `sys_yield`. -/
def sysYield (p : Profile) (env : Env) (caller : Caller) (k : Kernel) :
    Panics (Kernel × UInt64) := do
  let (k, response) ← k.call p env caller .threadYield
  match response with
  | some .ok => pure (k, 0)
  | some (.err error) => pure (k, errno error)
  | _ => pure (k, errno .unsupported)

/-- `sys_exit`. It does not return to its caller. -/
def sysExit (p : Profile) (caller : Caller) (code : Int32) (k : Kernel) : Panics Kernel :=
  match caller with
  | .user pid => do
    let (k, _) ← k.call p default caller (.processExit pid code)
    let (threads, _) ← k.threads.exitThread p
    pure { k with threads := threads }
  | .kernel | .irq => throw "sys_exit called from kernel context"

/-- `syscall_dispatch`: the frame with its result in `rax`, or `none` if it does not return. -/
def syscallDispatch (p : Profile) (env : Env) (load : UInt64 → Panics UInt8) (frame : SyscallFrame)
    (k : Kernel) : Panics (Kernel × Option SyscallFrame) := do
  let caller := Caller.user k.threads.currentProcess
  if frame.rax = sysExitNumber then
    let k ← k.sysExit p caller frame.rdi.toUInt32.toInt32
    pure (k, none)
  else if frame.rax = sysWriteNumber then
    let (k, rax) ← k.sysWrite p load caller frame
    pure (k, some { frame with rax := rax })
  else if frame.rax = sysReadNumber then
    let (k, rax) ← k.sysRead p caller
    pure (k, some { frame with rax := rax })
  else if frame.rax = sysYieldNumber then
    let (k, rax) ← k.sysYield p env caller
    pure (k, some { frame with rax := rax })
  else
    pure (k, some { frame with rax := errno .unsupported })

end Kernel

end Apogee
