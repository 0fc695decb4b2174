import Apogee.Thread.SwitchContext

/-!
# How a new thread starts

`KernelThread::new` writes seven words below the top of the stack buffer, and the first
`switch_context` into the thread pops them. They are the words that a thread with `startRegisters`
would have pushed (`newFrame_eq`), so the switch leaves these registers (`pop_newFrame`).

The stack pointer at the first instruction of `entry` is then the top of the buffer, a multiple of
16. The calling convention wants a multiple of 16 before the call, so 8 less at the first
instruction, where the return address is on the stack: `not_abiStart` for every stack.
-/

namespace Apogee

open Verif

/-- The writes of `KernelThread::new` for its stack buffer at `stack`, in order, and the stack
pointer it keeps. -/
def newFrame (stack entry : UInt64) : List (UInt64 × UInt64) × UInt64 :=
  let sp := stackTop stack
  let sp := sp - 8
  let writes := [(sp, entry)]
  (List.range 6).foldl
    (fun (writes, sp) _ =>
      let sp := sp - 8
      (writes ++ [(sp, 0)], sp))
    (writes, sp)

variable {stack entry : UInt64}

theorem newFrame_eq (stack entry : UInt64) : newFrame stack entry =
    (Mem.pushWrites (stackTop stack) (startRegisters stack entry).pushes,
      (startRegisters stack entry).saved) := by
  have hsub : stackTop stack - 8 - 8 - 8 - 8 - 8 - 8 - 8 = stackTop stack - 56 := by grind
  exact congrArg (Prod.mk _) hsub

theorem newFrame_rsp (id : ThreadId) (process : ProcessId) (stack entry : UInt64) :
    (newFrame stack entry).2 = (KernelThread.new id process stack).context.rsp := by
  rw [newFrame_eq, Cpu.startRegisters_saved id process stack entry]

theorem room_start (entry : UInt64) (h : (stackSpan stack).stop < 2 ^ 64) :
    8 * (startRegisters stack entry).pushes.length ≤ (stackTop stack).toNat :=
  Nat.le_trans (Nat.le_add_left _ _) (Cpu.fits_start entry h).1

/-- The first switch pops the words that `KernelThread::new` wrote, from any memory that still has
them on the stack. -/
theorem pop_newFrame {m m' : Mem} (h : (stackSpan stack).stop < 2 ^ 64)
    (hm : ∀ a ∈ (stackSpan stack).bytes, m' a = m.storeAll (newFrame stack entry).1 a) :
    Registers.pop m' (newFrame stack entry).2 = startRegisters stack entry := by
  rw [newFrame_eq] at hm ⊢
  simp only [Mem.storeAll_pushWrites m (room_start entry h)] at hm
  exact ((Cpu.holds_pushAll (Cpu.fits_start entry h) m).congr hm).2.2

/-- How the thread starts: the words are in the buffer, and the switch reaches `entry` with the
callee-saved registers at zero and the stack pointer in the buffer or one past its end. -/
structure Starts (stack entry : UInt64) (r : Registers) : Prop where
  length : (newFrame stack entry).1.length = 7
  inside : ∀ w ∈ (newFrame stack entry).1,
    stack.toNat ≤ w.1.toNat ∧ w.1.toNat + 8 ≤ (stackSpan stack).stop
  rip : r.rip = entry
  zero : r.rbx = 0 ∧ r.rbp = 0 ∧ r.r12 = 0 ∧ r.r13 = 0 ∧ r.r14 = 0 ∧ r.r15 = 0
  rsp : stack.toNat ≤ r.rsp.toNat ∧ r.rsp.toNat ≤ (stackSpan stack).stop

/-- The start with the stack aligned for the first instruction of a function (SysV x86-64). -/
structure AbiStart (stack entry : UInt64) (r : Registers) : Prop extends Starts stack entry r where
  aligned : (r.rsp.toNat + 8) % 16 = 0

theorem starts_startRegisters (h : (stackSpan stack).stop < 2 ^ 64) :
    Starts stack entry (startRegisters stack entry) := by
  obtain ⟨hlo, hhi⟩ := Cpu.fits_start entry h
  refine ⟨rfl, fun w hw => ?_, rfl, ⟨rfl, rfl, rfl, rfl, rfl, rfl⟩, ?_, hhi⟩
  · rw [newFrame_eq] at hw
    obtain ⟨hlo', hhi'⟩ := Mem.mem_pushWrites (room_start entry h) hw
    have hlen : 8 * (startRegisters stack entry).pushes.length = 56 := rfl
    have hlo : stack.toNat + 56 ≤ (stackTop stack).toNat := hlo
    have hhi : (stackTop stack).toNat ≤ (stackSpan stack).stop := hhi
    omega
  · exact Nat.le_trans (Nat.le_add_right _ _) hlo

/-- **Every new thread starts with its stack off by eight.** For every stack buffer that does not
wrap, every entry and any memory that still has the seven words at the first switch: everything
else is as it should be, but the stack pointer is a multiple of 16. -/
theorem not_abiStart (id : ThreadId) (process : ProcessId) (stack entry : UInt64) (m m' : Mem)
    (h : (stackSpan stack).stop < 2 ^ 64)
    (hm : ∀ a ∈ (stackSpan stack).bytes, m' a = m.storeAll (newFrame stack entry).1 a) :
    let r := Registers.pop m' (KernelThread.new id process stack).context.rsp
    Starts stack entry r ∧ r.rsp.toNat % 16 = 0 ∧ ¬ AbiStart stack entry r := by
  intro r
  have hr : r = startRegisters stack entry := by
    show Registers.pop m' (KernelThread.new id process stack).context.rsp = _
    rw [← newFrame_rsp id process stack entry, pop_newFrame h hm]
  have hmod : r.rsp.toNat % 16 = 0 := by
    rw [hr]
    show (stackTop stack).toNat % 16 = 0
    rw [Cpu.stackTop_toNat h]
    exact Nat.mul_mod_left _ _
  refine ⟨hr ▸ starts_startRegisters h, hmod, fun habi => ?_⟩
  have haligned := habi.aligned
  omega

/-- A stack at the start of a page. -/
theorem not_abiStart_page :
    (Registers.pop (Mem.storeAll (fun _ => 0) (newFrame 0x444444440000 0x3000).1)
      (KernelThread.new ⟨1⟩ .kernel 0x444444440000).context.rsp).rip = 0x3000 ∧
    ¬ AbiStart 0x444444440000 0x3000
      (Registers.pop (Mem.storeAll (fun _ => 0) (newFrame 0x444444440000 0x3000).1)
        (KernelThread.new ⟨1⟩ .kernel 0x444444440000).context.rsp) := by
  obtain ⟨hstarts, -, hnot⟩ := not_abiStart ⟨1⟩ .kernel 0x444444440000 0x3000 (fun _ => 0) _
    (by decide) fun _ _ => rfl
  exact ⟨hstarts.rip, hnot⟩

/-- On that stack `entry` is reached with the stack pointer at `0x444444444000`. -/
theorem misaligned_entry :
    let r := Registers.pop (Mem.storeAll (fun _ => 0) (newFrame 0x444444440000 0x3000).1)
      (KernelThread.new ⟨1⟩ .kernel 0x444444440000).context.rsp
    r = ⟨0x444444444000, 0x3000, 0, 0, 0, 0, 0, 0⟩ ∧ ¬ AbiStart 0x444444440000 0x3000 r := by
  refine ⟨by decide +kernel, fun habi => ?_⟩
  exact absurd habi.aligned (by decide +kernel)

end Apogee
