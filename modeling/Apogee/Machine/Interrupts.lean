import Apogee.Lib.Idt
import Apogee.Machine.Machine
import Apogee.User.EndProcess

/-!
# Segments, gates and what a trap in ring 3 leads to (`gdt.rs`, `interrupts.rs`)

The table of `IDT` has seven gates: the breakpoint, the double fault, the page fault, the general
protection fault, the timer, the keyboard, and `int 0x80`, the only one that ring 3 may use with an
`int`. The handlers of the two faults look at the code segment of the frame: for ring 3 they kill
the process, for ring 0 they panic.

`traps_from_ring3` follows every trap that ring 3 can take through the table. An `int` other than
`0x80`, a general protection fault and a page fault end the process and nothing else. Every other
exception has no gate, nor has the fault that this raises, so it becomes a double fault and panics
the kernel: a ring-3 program that divides by zero or executes an undefined instruction halts the
machine. The same holds for the fourteen request lines that are neither the timer nor the keyboard.
-/

namespace Apogee

open Verif

/-! ## Segments -/

inductive Descriptor where
  | kernelCode
  | kernelData
  | tss
  | userData
  | userCode
  deriving DecidableEq

/-- The table's words that a descriptor takes. A system descriptor takes two. -/
def Descriptor.slots : Descriptor → Nat
  | tss => 2
  | _ => 1

/-- The privilege level in the descriptor's selector. -/
def Descriptor.rpl : Descriptor → UInt64
  | userData | userCode => 3
  | _ => 0

/-- `GlobalDescriptorTable`: the null descriptor and seven more words. -/
structure GlobalDescriptorTable where
  len : Nat
  deriving DecidableEq

namespace GlobalDescriptorTable

def new : GlobalDescriptorTable := ⟨1⟩

/-- `add_entry`, with the selector it returns. -/
def addEntry (gdt : GlobalDescriptorTable) (d : Descriptor) :
    Panics (UInt64 × GlobalDescriptorTable) :=
  if 8 < gdt.len + d.slots then
    throw "GDT full"
  else
    pure (UInt64.ofNat (8 * gdt.len) ||| d.rpl, ⟨gdt.len + d.slots⟩)

end GlobalDescriptorTable

structure Selectors where
  kernelCode : UInt64
  kernelData : UInt64
  userCode : UInt64
  userData : UInt64
  tss : UInt64
  deriving DecidableEq

/-- The selectors of `GDT`. -/
def selectors : Panics Selectors := do
  let gdt := GlobalDescriptorTable.new
  let (kernelCode, gdt) ← gdt.addEntry .kernelCode
  let (kernelData, gdt) ← gdt.addEntry .kernelData
  let (tss, gdt) ← gdt.addEntry .tss
  let (userData, gdt) ← gdt.addEntry .userData
  let (userCode, _) ← gdt.addEntry .userCode
  pure { kernelCode, kernelData, userCode, userData, tss }

/-- `faulted_in_ring3` -/
def faultedInRing3 (codeSegment : UInt64) : Bool := codeSegment &&& 0b11 == 0b11

/-- The privilege level that the CPU runs a code segment at. -/
def privilege (codeSegment : UInt64) : Nat := (codeSegment &&& 0b11).toNat

/-! ## Gates -/

/-- The handlers of exceptions. -/
inductive FaultHandler where
  | breakpoint
  | doubleFault
  | pageFault
  | generalProtection
  deriving DecidableEq

inductive Handler where
  | fault (handler : FaultHandler)
  | timer
  | keyboard
  | syscall
  deriving DecidableEq

def pic1Offset : UInt8 := 32

def syscallVector : UInt8 := 0x80

/-- `set_handler_fn`: a present gate of privilege 0. -/
def setHandlerFn (idt : Idt Handler) (v : UInt8) (handler : Handler) : Idt Handler :=
  Function.update idt v (some ⟨handler, 0⟩)

/-- `set_handler_fn`, then `set_privilege_level`. -/
def setUserHandlerFn (idt : Idt Handler) (v : UInt8) (handler : Handler) : Idt Handler :=
  Function.update idt v (some ⟨handler, 3⟩)

/-- `IDT` -/
def idt : Idt Handler :=
  let idt : Idt Handler := fun _ => none
  let idt := setHandlerFn idt 3 (.fault .breakpoint)
  let idt := setHandlerFn idt 8 (.fault .doubleFault)
  let idt := setHandlerFn idt pic1Offset .timer
  let idt := setHandlerFn idt (pic1Offset + 1) .keyboard
  let idt := setHandlerFn idt 14 (.fault .pageFault)
  let idt := setHandlerFn idt 13 (.fault .generalProtection)
  setUserHandlerFn idt syscallVector .syscall

/-- The vectors with a gate. -/
def gates : List UInt8 := [3, 8, 13, 14, 32, 33, 0x80]

theorem idt_of_notMem {v : UInt8} (h : v ∉ gates) : idt v = none := by
  simp only [gates, List.mem_cons, List.not_mem_nil, or_false, not_or] at h
  obtain ⟨h₁, h₂, h₃, h₄, h₅, h₆, h₇⟩ := h
  simp only [idt, setHandlerFn, setUserHandlerFn, pic1Offset, syscallVector]
  rw [Function.update_of_ne h₇, Function.update_of_ne h₃, Function.update_of_ne h₄,
    Function.update_of_ne (show v ≠ 32 + 1 from h₆), Function.update_of_ne h₅,
    Function.update_of_ne h₂, Function.update_of_ne h₁]

/-- No other gate is for an `int` of ring 3. -/
theorem dpl_eq_zero {n : UInt8} (h : n ≠ syscallVector) : (idt n).elim 0 Gate.dpl = 0 := by
  by_cases hg : n ∈ gates
  · simp only [gates, List.mem_cons, List.not_mem_nil, or_false] at hg
    obtain rfl | rfl | rfl | rfl | rfl | rfl | rfl := hg
    case inr.inr.inr.inr.inr.inr => exact absurd rfl h
    all_goals rfl
  · rw [idt_of_notMem hg]
    rfl

/-- Only the first two request lines have gates. -/
theorem line_notMem_gates {line : UInt8} (h : line < 16) (h0 : line ≠ 0) (h1 : line ≠ 1) :
    pic1Offset + line ∉ gates := by
  intro hmem
  have hlt : line.toNat < 16 := UInt8.lt_iff_toNat_lt.mp h
  have hne0 : line.toNat ≠ 0 := fun e => h0 (UInt8.toNat_inj.mp e)
  have hne1 : line.toNat ≠ 1 := fun e => h1 (UInt8.toNat_inj.mp e)
  have hvec : (pic1Offset + line).toNat = 32 + line.toNat := by
    rw [UInt8.toNat_add]
    exact Nat.mod_eq_of_lt (show 32 + line.toNat < 256 by omega)
  have hnat : 32 + line.toNat ∈ gates.map UInt8.toNat := hvec ▸ List.mem_map_of_mem hmem
  have hgates : gates.map UInt8.toNat = [3, 8, 13, 14, 32, 33, 128] := rfl
  simp only [hgates, List.mem_cons, List.not_mem_nil, or_false] at hnat
  omega

/-! ## Handlers -/

namespace Kernel

/-- `println!`, with the bytes that its arguments format to. -/
def println (k : Kernel) (bytes : List UInt8) : Panics Kernel := do
  let console ← k.console.writeString bytes
  pure { k with console }

/-- What the page fault and the general protection fault handlers share: print, then kill the
process or panic. -/
def handleFault (p : Profile) (text : List UInt8) (codeSegment : UInt64)
    (reason message : String) (k : Kernel) : Panics Kernel := do
  let k ← k.println text
  if faultedInRing3 codeSegment then
    k.killFaultingProcess p reason
  else
    throw message

def gpfHandler (p : Profile) (text : List UInt8) (codeSegment : UInt64) (k : Kernel) :
    Panics Kernel :=
  k.handleFault p text codeSegment "general protection fault" "General protection fault"

def pageFaultHandler (p : Profile) (text : List UInt8) (codeSegment : UInt64) (k : Kernel) :
    Panics Kernel :=
  k.handleFault p text codeSegment "page fault" "Page fault"

def breakpointHandler (text : List UInt8) (k : Kernel) : Panics Kernel :=
  k.println text

def doubleFaultHandler : Panics Kernel :=
  throw "EXCEPTION: DOUBLE FAULT"

end Kernel

/-- The handler of an exception, with the text that it prints and the code segment of its frame. -/
def FaultHandler.run (p : Profile) (text : List UInt8) (codeSegment : UInt64) (k : Kernel) :
    FaultHandler → Panics Kernel
  | breakpoint => k.breakpointHandler text
  | doubleFault => Kernel.doubleFaultHandler
  | pageFault => k.pageFaultHandler p text codeSegment
  | generalProtection => k.gpfHandler p text codeSegment

namespace Kernel

variable {p : Profile} {k : Kernel} {pid : ProcessId} {text : List UInt8} {cs : UInt64}

/-- A trap of code in the segment `cs` ends the process `pid` and its thread, and nothing else. -/
def EndsProcess (p : Profile) (text : List UInt8) (cs : UInt64) (pid : ProcessId) (k : Kernel)
    (t : Trap) : Prop :=
  ∃ v handler k', idt.deliver (privilege cs) t = .runs v (.fault handler) ∧
    handler.run p text cs k = .ok k' ∧ Ended k k' pid

/-- A trap of code in the segment `cs` panics the kernel. -/
def Halts (p : Profile) (text : List UInt8) (cs : UInt64) (k : Kernel) (t : Trap) : Prop :=
  ∃ v handler message, idt.deliver (privilege cs) t = .runs v (.fault handler) ∧
    handler.run p text cs k = .error message

/-- A trap without a gate ends in the double fault handler. -/
theorem halts_of_exception {t : Trap} {v : UInt8} (hv : v ∉ gates)
    (ht : idt.deliver (privilege cs) t = idt.exception v) : k.Halts p text cs t :=
  ⟨8, .doubleFault, _, ht.trans (Idt.exception_of_absent (idt_of_notMem hv)
    (idt_of_notMem (by decide)) rfl), rfl⟩

theorem println_ok (k : Kernel) (text : List UInt8) :
    ∃ console, k.println text = .ok { k with console := console } := by
  obtain ⟨console, hconsole⟩ : ∃ w, k.console.writeString text = .ok w :=
    Panics.foldlM_ok (fun w _ => w.writeByte_ok _) text k.console
  refine ⟨console, ?_⟩
  rw [println, hconsole]
  rfl

/-- In ring 3 the handlers of the two faults kill the process, whatever they print. -/
theorem handleFault_ended {tags : ThreadId → ProcessId} {n : Nat}
    (hi : Traced.Inv ⟨k.threads, tags, n⟩) (hpid : k.threads.currentProcess = pid)
    (hne : pid ≠ .kernel) (hp : pid ∈ k.processes) (ha : 0 < k.processesAlive.toNat)
    (hcs : faultedInRing3 cs = true) (reason message : String) :
    ∃ k', k.handleFault p text cs reason message = .ok k' ∧ Ended k k' pid := by
  subst hpid
  obtain ⟨console, hprint⟩ := println_ok k text
  have hprinted : Traced.Inv ⟨({ k with console := console } : Kernel).threads, tags, n⟩ :=
    hi.congr rfl rfl rfl
  obtain ⟨k', hk', hended⟩ := exit_ended (p := p) default (-1) hprinted
    (current_ne_bootstrapId hne) hp ha
  refine ⟨k', ?_, hended.1, hended.2, hended.3, hended.4, hended.5, hended.6⟩
  rw [handleFault, hprint, Panics.bind_ok, if_pos hcs]
  exact (if_neg hne).trans hk'

end Kernel

namespace Ledger

variable {p : Profile}

/-- **Traps from ring 3.** The boot gives ring 3 the code segment `userCs`, which is of privilege 3.
In every run with fewer than `2 ^ 64` spawns and as many registrations, when the current thread has
a registered process and runs in that segment: `int 0x80` gets to the system call handler, and every
other `int` ends the process. Of the exceptions, the page fault and the general protection fault end
it; every other one panics the kernel. The breakpoint, vector 3, is none of them: only `int3` raises
it, which is an `int`. Of the request lines, the first two get to the timer's and the keyboard's
handlers; every other one panics the kernel. -/
theorem traps_from_ring3 (p : Profile) (st : Ledger) (h : (system p).Reach st)
    (hs : st.spawns < 2 ^ 64) (hn : st.registrations < 2 ^ 64) (pid : ProcessId)
    (htag : st.kernel.threads.currentProcess = pid) (hpid : pid ≠ .kernel)
    (hreg : pid ∈ st.kernel.processes) (text : List UInt8) :
    (∃ sels, selectors = .ok sels ∧ sels.userCode = userCs ∧ sels.userData = userSs ∧
      faultedInRing3 userCs = true ∧ faultedInRing3 sels.kernelCode = false) ∧
    (∀ n, if n = syscallVector then
        idt.deliver (privilege userCs) (.int n) = .runs n .syscall
      else st.kernel.EndsProcess p text userCs pid (.int n)) ∧
    (∀ v, v < 32 → v ≠ 3 → if v = 13 ∨ v = 14 then
        st.kernel.EndsProcess p text userCs pid (.exception v)
      else st.kernel.Halts p text userCs (.exception v)) ∧
    (∀ line, line < 16 → if line = 0 then
        idt.deliver (privilege userCs) (.external (pic1Offset + line)) = .runs pic1Offset .timer
      else if line = 1 then
        idt.deliver (privilege userCs) (.external (pic1Offset + line)) =
          .runs (pic1Offset + 1) .keyboard
      else st.kernel.Halts p text userCs (.external (pic1Offset + line))) := by
  obtain ⟨tags, hi⟩ := threads_inv h hs
  have halive : 0 < st.kernel.processesAlive.toNat := by
    have hsize := FMap.size_erase hreg
    have hcount : st.kernel.count = FMap.size st.kernel.processes := rfl
    rw [(inv_reach h).alive_toNat hn]
    omega
  have hended : ∀ reason message, ∃ k',
      st.kernel.handleFault p text userCs reason message = .ok k' ∧ Kernel.Ended st.kernel k' pid :=
    Kernel.handleFault_ended hi htag hpid hreg halive (by decide)
  refine ⟨⟨_, rfl, by decide⟩, fun n => ?_, fun v hv hv3 => ?_, fun line hline => ?_⟩
  · split
    case isTrue hn =>
      subst hn
      have hgate : idt syscallVector = some ⟨.syscall, 3⟩ := rfl
      exact Idt.int_of_some hgate (by decide)
    case isFalse hn =>
      have hdpl : (idt n).elim 0 Gate.dpl < privilege userCs := by
        rw [dpl_eq_zero hn]
        decide
      obtain ⟨k', hk', hend⟩ := hended "general protection fault" "General protection fault"
      exact ⟨13, .generalProtection, k', Idt.int_denied hdpl, hk', hend⟩
  · split
    case isTrue hv' =>
      obtain rfl | rfl := hv'
      · obtain ⟨k', hk', hend⟩ := hended "general protection fault" "General protection fault"
        exact ⟨13, .generalProtection, k', rfl, hk', hend⟩
      · obtain ⟨k', hk', hend⟩ := hended "page fault" "Page fault"
        exact ⟨14, .pageFault, k', rfl, hk', hend⟩
    case isFalse hv' =>
      by_cases hv8 : v = 8
      · subst hv8
        exact ⟨8, .doubleFault, _, rfl, rfl⟩
      · refine Kernel.halts_of_exception ?_ rfl
        simp only [not_or] at hv'
        simp only [gates, List.mem_cons, List.not_mem_nil, or_false, not_or]
        refine ⟨hv3, hv8, hv'.1, hv'.2, ?_, ?_, ?_⟩ <;> rintro rfl <;> exact absurd hv (by decide)
  · split
    case isTrue hl => subst hl; rfl
    case isFalse hl =>
      split
      case isTrue hl1 => subst hl1; rfl
      case isFalse hl1 =>
        exact Kernel.halts_of_exception (v := 11) (by decide)
          (Idt.external_of_absent (idt_of_notMem (line_notMem_gates hline hl hl1)))

/-- A process with one host thread, which runs and divides by zero. -/
theorem traps_from_ring3_divide : ∃ st, (system .dev).Reach st ∧ ⟨1⟩ ∈ st.kernel.processes ∧
    st.kernel.threads.currentProcess = ⟨1⟩ ∧
    st.kernel.Halts .dev [] userCs (.exception 0) := by
  have h0 : (system .dev).Reach ⟨.boot .empty ⟨0, 7, fun _ _ => ⟨0x20, 7⟩⟩, 0, 0, 0, 0⟩ :=
    .init ⟨_, _, rfl⟩
  have h1 := h0.step (Step.registerProcess (demoProcess ⟨1⟩))
  have h2 := h1.step (@Step.call _ _ ⟨0x444444440000, 0⟩ .kernel (.threadSpawn 0 ⟨1⟩) _ _
    (fun hreq => by cases hreq) rfl)
  have h3 := h2.step (@Step.call _ _ ⟨0, 0x8000⟩ .kernel .threadYield _ _
    (fun hreq => by cases hreq) rfl)
  exact ⟨_, h3, by decide, rfl, (traps_from_ring3 _ _ h3 (by decide) (by decide) ⟨1⟩ rfl (by decide)
    (by decide) []).2.2.1 0 (by decide) (by decide)⟩

end Ledger

end Apogee
