import Apogee.Lib.Stack
import Apogee.User.Syscall

/-!
# The ring-0 stack of traps (`gdt.rs`, `syscall.rs`)

Every transition from ring 3 to ring 0 loads the stack pointer from `privilege_stack_table[0]` of
the TSS. That is the top of `PRIVILEGE_STACK`, fixed at boot. The CPU pushes five words there, and
`syscall_isr` pushes the fifteen general registers below them.

* `trapWords`: the pushes of `int 0x80` and `syscall_isr`, in order.
* `SyscallFrame.load`: the frame as `syscall_dispatch` reads it, by the order of the struct.
* `load_trap`: these agree. The dispatcher sees in each field the register of that name.
* `load_setRax`: the store of the result changes `rax` and no other field.
-/

namespace Apogee

open Verif

/-- `PRIVILEGE_STACK_SIZE`. -/
def privilegeStackSize : Nat := 4096 * 5

/-- The TSS entry: the top of the privilege stack, at an address of its own. -/
structure PrivilegeStack where
  top : Nat
  aligned : 16 ∣ top
  fits : privilegeStackSize ≤ top

/-- The pushes of the CPU: the frame that `iretq` pops. -/
def iretWords (u : SyscallFrame) : List UInt64 := [u.userSs, u.userRsp, u.rflags, u.cs, u.rip]

/-- The pushes of `int 0x80` and of `syscall_isr`. -/
def trapWords (u : SyscallFrame) : List UInt64 :=
  iretWords u ++ [u.rax, u.rcx, u.rdx, u.rbx, u.rbp, u.rsi, u.rdi, u.r8, u.r9, u.r10, u.r11,
    u.r12, u.r13, u.r14, u.r15]

namespace SyscallFrame

/-- The frame at address `a`: field by field, upwards. -/
def load (m : Mem) (a : Nat) : SyscallFrame where
  r15 := m a
  r14 := m (a + 8)
  r13 := m (a + 16)
  r12 := m (a + 24)
  r11 := m (a + 32)
  r10 := m (a + 40)
  r9 := m (a + 48)
  r8 := m (a + 56)
  rdi := m (a + 64)
  rsi := m (a + 72)
  rbp := m (a + 80)
  rbx := m (a + 88)
  rdx := m (a + 96)
  rcx := m (a + 104)
  rax := m (a + 112)
  rip := m (a + 120)
  cs := m (a + 128)
  rflags := m (a + 136)
  userRsp := m (a + 144)
  userSs := m (a + 152)

/-- The words of a frame, upwards. -/
def toWords (u : SyscallFrame) : List UInt64 :=
  [u.r15, u.r14, u.r13, u.r12, u.r11, u.r10, u.r9, u.r8, u.rdi, u.rsi, u.rbp, u.rbx, u.rdx, u.rcx,
    u.rax, u.rip, u.cs, u.rflags, u.userRsp, u.userSs]

theorem toWords_injective {u v : SyscallFrame} (h : u.toWords = v.toWords) : u = v := by
  cases u
  cases v
  simp only [toWords, List.cons.injEq, and_true] at h
  simp only [mk.injEq]
  exact h

theorem load_toWords (m : Mem) (a : Nat) : (load m a).toWords = m.words a 20 := rfl

theorem load_congr {m m' : Mem} {a : Nat} (h : ∀ b, a ≤ b → b < a + 160 → m' b = m b) :
    load m' a = load m a := by
  apply toWords_injective
  rw [load_toWords, load_toWords, Mem.words_congr h]

/-- The store of `rax` changes no other field. -/
theorem load_setRax (m : Mem) (a : Nat) (v : UInt64) :
    load (m.store (a + 112) v) a = { load m a with rax := v } := by
  unfold load
  simp [Mem.store]

end SyscallFrame

namespace PrivilegeStack

variable (s : PrivilegeStack)

/-- The frame pointer that `syscall_dispatch` gets. -/
def frame : Nat := s.top - 160

/-- Memory after the entry of a syscall by a thread with registers `u`. -/
def trap (m : Mem) (u : SyscallFrame) : Mem := m.pushAll s.top (trapWords u)

theorem frame_add : s.frame + 160 = s.top := by
  have := s.fits
  unfold frame privilegeStackSize at *
  omega

/-- The dispatcher sees the registers that the thread trapped with. -/
theorem load_trap (m : Mem) (u : SyscallFrame) : SyscallFrame.load (s.trap m u) s.frame = u := by
  have hfit : 160 ≤ s.top := Nat.le_trans (by decide) s.fits
  apply SyscallFrame.toWords_injective
  rw [SyscallFrame.load_toWords]
  exact Mem.words_pushAll m hfit

end PrivilegeStack

end Apogee
