import Apogee.Allocator.BlocksInMemory
import Apogee.Thread.Consistency
import Apogee.Thread.Start

/-!
# Threads whose stacks are blocks of the heap

`KernelThread::new` boxes a stack of 16 KiB and `spawn` boxes the thread, so both come from the
global allocator, which keeps its own nodes in the same memory. An exiting thread runs on its stack
until it has switched away; the next scheduler operation frees both boxes, from another stack.

A call of `spawn` also needs room on the stack of the thread that makes it. How much is up to the
compiler, and `frame` stands for it: a dev build makes the 16 KiB array in the frame of
`KernelThread::new` and then moves it to the heap, so `frame` is more than a whole thread stack
there, and only the bootstrap thread has the room.

`HeapCpu` is one memory with the allocator, the threads and the registers. Whatever the threads
allocate, free and store in between, two things hold together (`stacks_on_heap`): it is a run of
`Cpu`, whose assumption that a new stack is apart from the stacks in use is met by the allocator;
and it is a run of the allocator, whose assumption that its clients keep to their blocks is met by
the context switches.
-/

namespace Apogee

open Verif Span FixedSizeBlockAllocator

theorem stackLayout_fits : 16384 + 1 ≤ 2 ^ 63 := by decide

theorem threadLayout_fits : 32 + 8 ≤ 2 ^ 63 := by decide

/-- `Layout::new::<[u8; STACK_SIZE]>()`. -/
def stackLayout : Layout := ⟨16384, 1, ⟨0, rfl⟩, stackLayout_fits⟩

/-- `Layout::new::<KernelThread>()`: the id, the process, the context and the pointer to the
stack. -/
def threadLayout : Layout := ⟨32, 8, ⟨3, rfl⟩, threadLayout_fits⟩

/-- The block of a thread's stack. -/
def stackBlock (stack : UInt64) : Block := ⟨stack.toNat, stackLayout⟩

/-- The block of a `Box<KernelThread>`. -/
def boxBlock (box : Nat) : Block := ⟨box, threadLayout⟩

theorem reserved_stackLayout : stackLayout.reserved = stackSize.toNat := by decide +kernel

theorem reserved_threadLayout : threadLayout.reserved = 32 := by decide +kernel

theorem reserved_stackBlock (stack : UInt64) : (stackBlock stack).reserved = stackSpan stack :=
  Span.ext rfl reserved_stackLayout

theorem stackBlock_ne_boxBlock (stack : UInt64) (box : Nat) : stackBlock stack ≠ boxBlock box := by
  intro h
  have hsize : 16384 = 32 := congrArg (·.layout.size) h
  omega

theorem stackBlock_inj {a b : UInt64} (h : stackBlock a = stackBlock b) : a = b :=
  UInt64.toNat_inj.mp (congrArg Block.ptr h)

theorem boxBlock_inj {a b : Nat} (h : boxBlock a = boxBlock b) : a = b := congrArg Block.ptr h

/-! ## The threads that own memory -/

namespace ThreadScheduler

variable {s : ThreadScheduler} {id a : ThreadId} {c : Context}

/-- The stack of a tracked thread. -/
def stackAt (s : ThreadScheduler) (id : ThreadId) : Option UInt64 :=
  (s.threads.get? id).map (·.stack)

/-- The thread has not been dropped: it is tracked, or it waits in the reaper slot. -/
def Owns (s : ThreadScheduler) (id : ThreadId) (stack : UInt64) : Prop :=
  s.stackAt id = some stack ∨ ∃ th, s.reaper = some th ∧ th.id = id ∧ th.stack = stack

theorem stackAt_setContext : (s.setContext id c).stackAt a = s.stackAt a := by
  unfold stackAt setContext
  by_cases hb : id = bootstrapId
  · rw [if_pos hb]
  · rw [if_neg hb, FMap.get?_adjust]
    by_cases ha : a = id
    · rw [if_pos ha, Option.map_map]
      rfl
    · rw [if_neg ha]

end ThreadScheduler

namespace Threads

variable {p : Profile} {t t' : Threads} {id : ThreadId} {stack : UInt64}

theorem stackAt_drainReaper : t.drainReaper.sched.stackAt id = t.sched.stackAt id := by
  unfold ThreadScheduler.stackAt
  rw [drainReaper_threads]

theorem stackAt_yieldNow {rsp : UInt64} {loaded : Option UInt64}
    (h : t.yieldNow rsp = .ok (t', loaded)) : t'.sched.stackAt id = t.sched.stackAt id := by
  obtain ⟨-, rfl, -⟩ | ⟨nextId, ready, c, -, -, -, rfl, -⟩ := yieldNow_cases h
  · exact stackAt_drainReaper
  · rw [ThreadScheduler.stackAt_setContext]
    exact stackAt_drainReaper

/-- A yield leaves the tracked threads. -/
theorem owns_yieldNow {rsp : UInt64} {loaded : Option UInt64}
    (h : t.yieldNow rsp = .ok (t', loaded)) (howns : t'.sched.Owns id stack) :
    t.sched.stackAt id = some stack := by
  have hreaper : t'.sched.reaper = none := by
    obtain ⟨-, rfl, -⟩ | ⟨nextId, ready, c, -, -, -, rfl, -⟩ := yieldNow_cases h
    · exact drainReaper_reaper
    · rw [ThreadScheduler.setContext_reaper]
      exact drainReaper_reaper
  rcases howns with hstack | ⟨th, hth, -⟩
  · rwa [stackAt_yieldNow h] at hstack
  · rw [hreaper] at hth
    cases hth

theorem stackAt_spawn {process : ProcessId} {new : ThreadId}
    (h : t.spawn p process stack = .ok (t', new)) (id : ThreadId) :
    t'.sched.stackAt id = if id = new then some stack else t.sched.stackAt id := by
  obtain ⟨rfl, rfl⟩ := spawn_cases h
  unfold ThreadScheduler.stackAt
  simp only [FMap.get?_insert]
  split <;> rfl

theorem reaper_spawn {process : ProcessId} {new : ThreadId}
    (h : t.spawn p process stack = .ok (t', new)) : t'.sched.reaper = t.sched.reaper := by
  obtain ⟨-, rfl⟩ := spawn_cases h
  rfl

end Threads

/-- An exit leaves the tracked threads too: the one that exits waits in the reaper slot. -/
theorem Traced.Inv.owns_exitThread {p : Profile} {st : Traced} {t' : Threads} {loaded : UInt64}
    {id : ThreadId} {stack : UInt64} (h : st.Inv) (hc : st.threads.sched.current ≠ bootstrapId)
    (he : st.threads.exitThread p = .ok (t', loaded)) (howns : t'.sched.Owns id stack) :
    st.threads.sched.stackAt id = some stack := by
  obtain ⟨th, nextId, ready, hth, hr⟩ := h.exit_cases hc
  obtain ⟨loaded', e⟩ := h.exitThread_eq (p := p) hc hth hr
  obtain ⟨rfl, -⟩ := Prod.mk.inj (Except.ok.inj (e.symm.trans he))
  rcases howns with hstack | ⟨th', hth', rfl, rfl⟩
  · unfold ThreadScheduler.stackAt at hstack ⊢
    simp only [FMap.get?_erase] at hstack
    by_cases hid : id = st.threads.sched.current
    · rw [if_pos hid] at hstack
      cases hstack
    · rwa [if_neg hid] at hstack
  · obtain rfl := Option.some.inj hth'
    unfold ThreadScheduler.stackAt
    rw [(h.entry _ th hth).1, hth]
    rfl

/-! ## The machine -/

/-- One CPU, its threads and the heap, in one memory. -/
structure HeapCpu where
  heap : FixedSizeBlockAllocator.InMemory
  /-- The blocks that were handed out and not freed. -/
  live : List Block
  traced : Traced
  /-- The registers of the thread that runs. -/
  regs : Registers
  /-- The memory of each thread's stack. -/
  stack : ThreadId → Span
  /-- The registers of the threads that are inside `switch_context`. -/
  parked : ThreadId → Option Registers
  /-- The pointers of the `Box<KernelThread>`s. -/
  box : ThreadId → Nat

namespace HeapCpu

/-- The CPU and the threads' stacks. -/
def cpu (st : HeapCpu) : Cpu where
  threads := st.traced.threads
  mem := st.heap.mem
  regs := st.regs
  stack := st.stack
  parked := st.parked

/-- The thread that runs. -/
abbrev current (st : HeapCpu) : ThreadId := st.traced.threads.sched.current

abbrev sched (st : HeapCpu) : ThreadScheduler := st.traced.threads.sched

/-- `Box::new` up to the move into the box. A null pointer goes to `handle_alloc_error`. -/
def boxNew (p : Profile) (fuel : Nat) (heap : InMemory) (layout : Layout) :
    Panics (Nat × InMemory) := do
  let (ptr, heap) ← heap.alloc p fuel layout
  if ptr = 0 then
    throw ("memory allocation of " ++ toString layout.size ++ " bytes failed")
  else
    pure (ptr, heap)

/-- The stack buffer after `[0; STACK_SIZE]` is moved to it. -/
def zeroed (m : Mem) (stack : UInt64) : Mem :=
  fun a => if stack.toNat ≤ a ∧ a < stack.toNat + stackSize.toNat then 0 else m a

/-- `spawn` with the allocations of `KernelThread::new` and of the thread's box. -/
def spawn (p : Profile) (fuel : Nat) (process : ProcessId) (entry : UInt64) (st : HeapCpu) :
    Panics HeapCpu := do
  let (ptr, heap) ← boxNew p fuel st.heap stackLayout
  let stack := UInt64.ofNat ptr
  let heap := heap.setMem ((zeroed heap.mem stack).storeAll (newFrame stack entry).1)
  let (box, heap) ← boxNew p fuel heap threadLayout
  let (threads, id) ← st.traced.threads.spawn p process stack
  pure {
    heap
    live := boxBlock box :: stackBlock stack :: st.live
    traced := ⟨threads, Function.update st.traced.tags id process, st.traced.spawns + 1⟩
    regs := st.regs
    stack := Function.update st.stack id (stackSpan stack)
    parked := Function.update st.parked id (some (startRegisters stack entry))
    box := Function.update st.box id box }

/-- What `drain_reaper` drops: the stack of the thread in the reaper slot, then its box. -/
def dropReaped (p : Profile) (fuel : Nat) (st : HeapCpu) : Panics HeapCpu :=
  match st.sched.reaper with
  | none => pure st
  | some th => do
    let stack := stackBlock th.stack
    let box := boxBlock (st.box th.id)
    let heap ← st.heap.dealloc p fuel stack.ptr stack.layout
    let heap ← heap.dealloc p fuel box.ptr box.layout
    pure { st with heap, live := (st.live.erase stack).erase box }

/-- The bytes that the thread that runs may store to: its own stack, the blocks that are no thread's
stack, and what is neither in the heap nor on the bootstrap thread's stack. -/
def writable (s n : Nat) (boot : Span) (st : HeapCpu) : Set Nat := fun x =>
  x ∈ (st.stack st.current).bytes ∨
  (∃ b ∈ st.live, (∀ id stack, st.sched.Owns id stack → b ≠ stackBlock stack) ∧
    x ∈ b.reserved.bytes) ∨
  (x ∉ Span.bytes ⟨s, n⟩ ∧ x ∉ boot.bytes)

/-- The block is a thread's stack or box. -/
def OwnedByThread (st : HeapCpu) (b : Block) : Prop :=
  ∃ id stack, st.sched.Owns id stack ∧ (b = stackBlock stack ∨ b = boxBlock (st.box id))

/-- The thread that runs has room on its stack for the frames of a call of `spawn`. -/
def SpawnFits (frame : Nat) (st : HeapCpu) : Prop :=
  (st.stack st.current).addr + frame ≤ st.regs.rsp.toNat ∧
    st.regs.rsp.toNat ≤ (st.stack st.current).stop

/-- The memory of these frames. -/
def spawnFrame (frame : Nat) (st : HeapCpu) : Span := ⟨st.regs.rsp.toNat - frame, frame⟩

/-- The steps of the thread that runs. It keeps to its own memory, frees blocks that it may free,
and spawns and switches with room on its stack. -/
inductive Step (p : Profile) (fuel frame s n : Nat) (boot : Span) :
    HeapCpu → CpuEvent → HeapCpu → Prop
  | run {st : HeapCpu} {m : Mem} {regs : Registers} :
      Mem.ChangesIn (st.writable s n boot) st.heap.mem m →
      Step p fuel frame s n boot st .run { st with heap := st.heap.setMem m, regs := regs }
  | alloc {st : HeapCpu} {l : Layout} {ptr : Nat} {heap : InMemory} : 0 < l.size →
      st.heap.alloc p fuel l = .ok (ptr, heap) →
      Step p fuel frame s n boot st .run { st with
        heap := heap
        live := if ptr = 0 then st.live else ⟨ptr, l⟩ :: st.live }
  | dealloc {st : HeapCpu} {b : Block} {heap : InMemory} : b ∈ st.live → ¬ st.OwnedByThread b →
      st.heap.dealloc p fuel b.ptr b.layout = .ok heap →
      Step p fuel frame s n boot st .run { st with heap := heap, live := st.live.erase b }
  /-- `m` is the memory with whatever the call leaves in its frames. -/
  | spawn {st st' : HeapCpu} {process : ProcessId} {entry : UInt64} {m : Mem} :
      st.SpawnFits frame → Mem.ChangesIn (st.spawnFrame frame).bytes st.heap.mem m →
      { st with heap := st.heap.setMem m }.spawn p fuel process entry = .ok st' →
      Step p fuel frame s n boot st .spawn st'
  | stay {st st₁ : HeapCpu} {t : Threads} : st.dropReaped p fuel = .ok st₁ →
      st.traced.threads.yieldNow st.regs.saved = .ok (t, none) →
      Step p fuel frame s n boot st .stay { st₁ with traced := { st.traced with threads := t } }
  | yieldNow {st st₁ : HeapCpu} {t : Threads} {loaded : UInt64} :
      st.dropReaped p fuel = .ok st₁ → st.regs.Fits (st.stack st.current) →
      st.traced.threads.yieldNow st.regs.saved = .ok (t, some loaded) →
      Step p fuel frame s n boot st (.yieldNow t.sched.current) { st₁ with
        heap := st₁.heap.setMem st₁.cpu.pushed
        traced := { st.traced with threads := t }
        regs := .pop st₁.cpu.pushed loaded
        parked := Function.update (st.cpu.calling (.yieldNow t.sched.current)) t.sched.current
          none }
  /-- `scratch` is the throwaway `Context` in the exiting thread's own frame. -/
  | exitThread {st st₁ : HeapCpu} {t : Threads} {loaded : UInt64} {scratch : Nat} :
      st.dropReaped p fuel = .ok st₁ → st.regs.Fits (st.stack st.current) →
      scratch ∈ (st.stack st.current).bytes → st.current ≠ bootstrapId →
      st.traced.threads.exitThread p = .ok (t, loaded) →
      Step p fuel frame s n boot st (.exitThread t.sched.current) { st₁ with
        heap := st₁.heap.setMem (st₁.cpu.pushed.store scratch st.regs.saved)
        traced := { st.traced with threads := t }
        regs := .pop (st₁.cpu.pushed.store scratch st.regs.saved) loaded
        parked := Function.update (st.cpu.calling (.exitThread t.sched.current)) t.sched.current
          none }

/-- The runs from boot: the heap `[s, s + n)` has just been set up in the memory `mem`, and the
bootstrap thread runs on the stack `boot`. -/
def system (p : Profile) (fuel frame s n : Nat) (boot : Span) : Sys HeapCpu CpuEvent where
  init st := (∃ mem, InMemory.init p fuel mem s n = .ok st.heap) ∧ st.live = [] ∧
    st.traced = ⟨.boot, fun _ => .kernel, 0⟩ ∧ st.stack bootstrapId = boot ∧
    st.parked = fun _ => none
  step := Step p fuel frame s n boot

theorem spawns_spawn {p : Profile} {fuel : Nat} {process : ProcessId} {entry : UInt64}
    {st st' : HeapCpu} (he : st.spawn p fuel process entry = .ok st') :
    st'.traced.spawns = st.traced.spawns + 1 := by
  obtain ⟨⟨ptr, heap₁⟩, -, he⟩ := Panics.bind_eq_ok.mp he
  obtain ⟨⟨box, heap₂⟩, -, he⟩ := Panics.bind_eq_ok.mp he
  obtain ⟨⟨t, id⟩, -, he⟩ := Panics.bind_eq_ok.mp he
  obtain rfl := Except.ok.inj he
  rfl

theorem spawns_le {p : Profile} {fuel frame s n : Nat} {boot : Span} {st st' : HeapCpu}
    {e : CpuEvent}
    (hst : Step p fuel frame s n boot st e st') : st.traced.spawns ≤ st'.traced.spawns := by
  cases hst with
  | run | alloc | dealloc | stay | yieldNow | exitThread => exact Nat.le_refl _
  | spawn _ _ he =>
    rw [spawns_spawn he]
    exact Nat.le_succ _

/-! ## Stacks and idle bytes -/

variable {p : Profile} {fuel frame s n : Nat} {boot : Span} {st st' : HeapCpu} {e : CpuEvent}
  {live : List Block} {heap heap' : InMemory} {c : Cpu}

/-- Where the stacks in use lie: the bootstrap thread's is `boot`, and every other one is a live
block. -/
def Placed (boot : Span) (live : List Block) (c : Cpu) : Prop :=
  c.stack bootstrapId = boot ∧ ∀ id, c.Live id →
    id = bootstrapId ∨ ∃ stack, c.stack id = stackSpan stack ∧ stackBlock stack ∈ live

theorem Placed.not_idle (h : Placed boot live c) (hboot : boot.Apart ⟨s, n⟩) {id : ThreadId}
    (hid : c.Live id) {x : Nat} (hx : x ∈ (c.stack id).bytes) : x ∉ idle s n live := by
  rintro ⟨hin, hout⟩
  obtain rfl | ⟨stack, hstack, hmem⟩ := h.2 id hid
  · rw [h.1] at hx
    exact hboot.not_mem hx hin
  · rw [hstack, ← reserved_stackBlock] at hx
    exact hout _ hmem hx

/-- Stores to idle bytes leave the stacks in use alone. -/
theorem Placed.run (h : Placed boot live c) (hboot : boot.Apart ⟨s, n⟩)
    (hreach : (Cpu.system p).Reach c) {m : Mem} (hmem : Mem.ChangesIn (idle s n live) c.mem m) :
    (Cpu.system p).Reach { c with mem := m } :=
  hreach.step (Cpu.Step.run fun _ hid _ a ha =>
    hmem a (h.not_idle hboot hid ha))

/-- A thread that runs or can be switched to is the bootstrap thread or is tracked. -/
theorem stackAt_of_live {tr : Traced} (hT : tr.Inv) (hc : c.threads = tr.threads) {id : ThreadId}
    (hid : c.Live id) : id = bootstrapId ∨ ∃ stack, tr.threads.sched.stackAt id = some stack := by
  have hmem : id = bootstrapId ∨ id ∈ tr.threads.sched.threads := by
    rcases hid with rfl | hctx
    · unfold Cpu.current
      rw [hc]
      exact (hT.mem_runnable _).mp (.head _)
    · rw [hc] at hctx
      unfold ThreadScheduler.contextAt at hctx
      by_cases hb : id = bootstrapId
      · exact .inl hb
      · rw [if_neg hb, Option.isSome_map] at hctx
        exact .inr (FMap.mem_iff.mpr (Option.isSome_iff_exists.mp hctx))
  refine hmem.imp_right fun hm => ?_
  obtain ⟨th, hth⟩ := FMap.mem_iff.mp hm
  exact ⟨th.stack, by rw [ThreadScheduler.stackAt, hth]; rfl⟩

theorem placed_of {tr : Traced} (hT : tr.Inv) (hc : c.threads = tr.threads)
    (hboot : c.stack bootstrapId = boot)
    (hstack : ∀ id stack, tr.threads.sched.stackAt id = some stack →
      c.stack id = stackSpan stack ∧ stackBlock stack ∈ live) : Placed boot live c := by
  refine ⟨hboot, fun id hid => (stackAt_of_live hT hc hid).imp_right ?_⟩
  rintro ⟨stack, hat⟩
  exact ⟨stack, hstack id stack hat⟩

/-! ## The invariant -/

/-- What the steps keep, while the thread ids have not wrapped. -/
structure Inv (p : Profile) (s n : Nat) (boot : Span) (st : HeapCpu) : Prop where
  serves : st.heap.Serves p s n st.live
  cpu : (Cpu.system p).Reach st.cpu
  traced : (Traced.system p).Reach st.traced
  boot : st.stack bootstrapId = boot
  stack : ∀ id stack, st.sched.stackAt id = some stack → st.stack id = stackSpan stack
  /-- A thread that was not dropped owns two live blocks. -/
  owns : ∀ id stack, st.sched.Owns id stack →
    stackBlock stack ∈ st.live ∧ boxBlock (st.box id) ∈ st.live
  distinct : ∀ id stack id' stack', st.sched.Owns id stack → st.sched.Owns id' stack' → id ≠ id' →
    stack ≠ stack' ∧ st.box id ≠ st.box id'

theorem Inv.placed (h : Inv p s n boot st) (hT : st.traced.Inv)
    (hlive : ∀ id stack, st.sched.stackAt id = some stack → stackBlock stack ∈ live) :
    Placed boot live st.cpu :=
  placed_of hT rfl h.boot fun id stack hat => ⟨h.stack id stack hat, hlive id stack hat⟩

section Steps

variable (hs : 0 < s) (hn : s + n ≤ 2 ^ 63) (hfuel : n < fuel) (hboot : boot.Apart ⟨s, n⟩)

include hs hn in
theorem Inv.init (hfuel : n < fuel) (hi : (system p fuel frame s n boot).init st) :
    Inv p s n boot st := by
  obtain ⟨⟨mem, hmem⟩, hlive, htraced, hstack, hparked⟩ := hi
  obtain ⟨m, a, hm, ha, hrep⟩ := InMemory.init_rep p mem hs hn hfuel
  obtain rfl := Except.ok.inj (hm.symm.trans hmem)
  have hnone : ∀ id stack, ¬ st.sched.Owns id stack := by
    rintro id stack (hat | ⟨th, hth, -⟩)
    · rw [sched, htraced] at hat
      simp [ThreadScheduler.stackAt, Threads.boot, ThreadScheduler.new] at hat
    · rw [sched, htraced] at hth
      cases hth
  refine ⟨⟨a, .init ⟨ha, hlive⟩, hrep⟩, .init ⟨congrArg Traced.threads htraced, hparked⟩,
    .init htraced, hstack, fun id stack hat => ?_, fun id stack ho => absurd ho (hnone id stack),
    fun id stack _ _ ho _ _ => absurd ho (hnone id stack)⟩
  exact absurd (.inl hat) (hnone id stack)

include hs hn hboot in
/-- What a switch leaves on the stack of the thread that calls it. -/
theorem Inv.serves_own (h : Inv p s n boot st) (hT : st.traced.Inv)
    (hlive : ∀ id stack, st.sched.stackAt id = some stack →
      stackBlock stack ∈ live ∧ boxBlock (st.box id) ∈ live)
    (hserves : heap.Serves p s n live) {m : Mem}
    (hmem : Mem.ChangesIn (st.stack st.current).bytes heap.mem m) :
    (heap.setMem m).Serves p s n live :=
  hserves.setMem hs hn (fun _ hx =>
    (h.placed hT fun id stack hat => (hlive id stack hat).1).not_idle hboot (.inl rfl) hx) hmem

include hs hn hfuel

/-- The blocks of the thread in the reaper slot can be freed, and no other thread's go with them. -/
theorem Inv.dropReaped (h : Inv p s n boot st) (hT : st.traced.Inv) :
    ∃ heap live, st.dropReaped p fuel = .ok { st with heap, live } ∧ heap.Serves p s n live ∧
      Mem.ChangesIn (idle s n live) st.heap.mem heap.mem ∧
      ∀ id stack, st.sched.stackAt id = some stack →
        stackBlock stack ∈ live ∧ boxBlock (st.box id) ∈ live := by
  unfold HeapCpu.dropReaped
  cases hr : st.sched.reaper with
  | none =>
    exact ⟨st.heap, st.live, rfl, h.serves, .refl _ _,
      fun id stack hat => h.owns id stack (.inl hat)⟩
  | some th =>
    have hown : st.sched.Owns th.id th.stack := .inr ⟨th, hr, rfl, rfl⟩
    obtain ⟨hstack, hbox⟩ := h.owns _ _ hown
    obtain ⟨heap₁, e₁, hserves₁, hmem₁⟩ := h.serves.dealloc hs hn hfuel hstack
    have hbox₁ : boxBlock (st.box th.id) ∈ st.live.erase (stackBlock th.stack) :=
      (List.mem_erase_of_ne (stackBlock_ne_boxBlock _ _).symm).mpr hbox
    obtain ⟨heap₂, e₂, hserves₂, hmem₂⟩ := hserves₁.dealloc hs hn hfuel hbox₁
    refine ⟨heap₂, _, ?_, hserves₂, (hmem₁.mono ?_).trans hmem₂, fun id stack hat => ?_⟩
    · simp only [e₁, e₂, Panics.bind_ok, Panics.pure_eq]
    · exact idle_mono fun b hb => List.mem_of_mem_erase hb
    · have hne : id ≠ th.id := by
        rintro rfl
        refine (hT.reaped th hr).1 ((hT.mem_runnable _).mpr (.inr ?_))
        obtain ⟨th', hth', -⟩ := Option.map_eq_some_iff.mp hat
        exact FMap.mem_of_get? hth'
      obtain ⟨h1, h2⟩ := h.owns id stack (.inl hat)
      obtain ⟨hd1, hd2⟩ := h.distinct _ _ _ _ (.inl hat) hown hne
      refine ⟨?_, ?_⟩
      · refine (List.mem_erase_of_ne (stackBlock_ne_boxBlock _ _)).mpr ?_
        exact (List.mem_erase_of_ne fun he => hd1 (stackBlock_inj he)).mpr h1
      · refine (List.mem_erase_of_ne fun he => hd2 (boxBlock_inj he)).mpr ?_
        exact (List.mem_erase_of_ne (stackBlock_ne_boxBlock _ _).symm).mpr h2

theorem boxNew_spec (h : heap.Serves p s n live) {l : Layout} (hl : 0 < l.size) {ptr : Nat}
    (he : boxNew p fuel heap l = .ok (ptr, heap')) :
    heap'.Serves p s n (⟨ptr, l⟩ :: live) ∧ Mem.ChangesIn (idle s n live) heap.mem heap'.mem := by
  obtain ⟨⟨ptr', heap₁⟩, e, he⟩ := Panics.bind_eq_ok.mp he
  obtain ⟨hserves, hmem⟩ := h.alloc hs hn hfuel hl e
  by_cases h0 : ptr' = 0
  · simp only [if_pos h0] at he
    cases he
  · simp only [if_neg h0] at he
    obtain ⟨rfl, rfl⟩ := Prod.mk.inj (Except.ok.inj he)
    rw [if_neg h0] at hserves
    exact ⟨hserves, hmem⟩

omit hs hn hfuel in
/-- After a yield or an exit, which have freed what waited in the reaper slot. -/
theorem Inv.switched (h : Inv p s n boot st) {t : Threads}
    (howns : ∀ id stack, t.sched.Owns id stack → st.sched.stackAt id = some stack)
    (hlive : ∀ id stack, st.sched.stackAt id = some stack →
      stackBlock stack ∈ live ∧ boxBlock (st.box id) ∈ live)
    {regs : Registers} {parked : ThreadId → Option Registers}
    (hserves : heap.Serves p s n live)
    (hcpu : (Cpu.system p).Reach ⟨t, heap.mem, regs, st.stack, parked⟩)
    (htraced : (Traced.system p).Reach { st.traced with threads := t }) :
    Inv p s n boot
      ⟨heap, live, { st.traced with threads := t }, regs, st.stack, parked, st.box⟩ where
  serves := hserves
  cpu := hcpu
  traced := htraced
  boot := h.boot
  stack id stack hat := h.stack id stack (howns id stack (.inl hat))
  owns id stack ho := hlive id stack (howns id stack ho)
  distinct id stack id' stack' ho ho' hne :=
    h.distinct id stack id' stack' (.inl (howns id stack ho)) (.inl (howns id' stack' ho')) hne

include hboot

theorem Inv.stay (h : Inv p s n boot st) (hT : st.traced.Inv) {st₁ : HeapCpu} {t : Threads}
    (hdrop : st.dropReaped p fuel = .ok st₁)
    (he : st.traced.threads.yieldNow st.regs.saved = .ok (t, none)) :
    Inv p s n boot { st₁ with traced := { st.traced with threads := t } } := by
  obtain ⟨heap, live, e, hserves, hmem, hlive⟩ := h.dropReaped hs hn hfuel hT
  obtain rfl := Except.ok.inj (e.symm.trans hdrop)
  have hrun := (h.placed hT fun id stack hat => (hlive id stack hat).1).run hboot h.cpu hmem
  exact h.switched (fun id stack => Threads.owns_yieldNow he) hlive hserves
    (hrun.step (Cpu.Step.stay he)) (h.traced.step (Traced.Step.yieldNow he))

theorem Inv.yieldNow (h : Inv p s n boot st) (hT : st.traced.Inv) {st₁ : HeapCpu} {t : Threads}
    {loaded : UInt64} (hdrop : st.dropReaped p fuel = .ok st₁)
    (hfit : st.regs.Fits (st.stack st.current))
    (he : st.traced.threads.yieldNow st.regs.saved = .ok (t, some loaded)) :
    Inv p s n boot { st₁ with
      heap := st₁.heap.setMem st₁.cpu.pushed
      traced := { st.traced with threads := t }
      regs := .pop st₁.cpu.pushed loaded
      parked := Function.update (st.cpu.calling (.yieldNow t.sched.current)) t.sched.current
        none } := by
  obtain ⟨heap, live, e, hserves, hmem, hlive⟩ := h.dropReaped hs hn hfuel hT
  obtain rfl := Except.ok.inj (e.symm.trans hdrop)
  have hrun := (h.placed hT fun id stack hat => (hlive id stack hat).1).run hboot h.cpu hmem
  have hown := h.serves_own hs hn hboot hT hlive hserves
    fun a ha => hfit.frame heap.mem ha
  exact h.switched (fun id stack => Threads.owns_yieldNow he) hlive hown
    (hrun.step (Cpu.Step.yieldNow hfit he)) (h.traced.step (Traced.Step.yieldNow he))

theorem Inv.exitThread (h : Inv p s n boot st) (hT : st.traced.Inv) {st₁ : HeapCpu} {t : Threads}
    {loaded : UInt64} {scratch : Nat} (hdrop : st.dropReaped p fuel = .ok st₁)
    (hfit : st.regs.Fits (st.stack st.current))
    (hscratch : scratch ∈ (st.stack st.current).bytes) (hc : st.current ≠ bootstrapId)
    (he : st.traced.threads.exitThread p = .ok (t, loaded)) :
    Inv p s n boot { st₁ with
      heap := st₁.heap.setMem (st₁.cpu.pushed.store scratch st.regs.saved)
      traced := { st.traced with threads := t }
      regs := .pop (st₁.cpu.pushed.store scratch st.regs.saved) loaded
      parked := Function.update (st.cpu.calling (.exitThread t.sched.current)) t.sched.current
        none } := by
  obtain ⟨heap, live, e, hserves, hmem, hlive⟩ := h.dropReaped hs hn hfuel hT
  obtain rfl := Except.ok.inj (e.symm.trans hdrop)
  have hrun := (h.placed hT fun id stack hat => (hlive id stack hat).1).run hboot h.cpu hmem
  have hpush : Mem.ChangesIn (st.stack st.current).bytes heap.mem
      (heap.mem.pushAll st.regs.rsp.toNat st.regs.pushes) := fun a ha => hfit.frame heap.mem ha
  have hown := h.serves_own hs hn hboot hT hlive hserves
    (hpush.trans (Mem.changesIn_store _ st.regs.saved hscratch))
  exact h.switched (fun id stack => hT.owns_exitThread hc he) hlive hown
    (hrun.step (Cpu.Step.exitThread hfit hscratch he))
    (h.traced.step (Traced.Step.exitThread hc he))

theorem Inv.alloc (h : Inv p s n boot st) (hT : st.traced.Inv) {l : Layout} {ptr : Nat}
    (hl : 0 < l.size) (he : st.heap.alloc p fuel l = .ok (ptr, heap)) :
    Inv p s n boot { st with
      heap := heap
      live := if ptr = 0 then st.live else ⟨ptr, l⟩ :: st.live } := by
  obtain ⟨hserves, hmem⟩ := h.serves.alloc hs hn hfuel hl he
  have hrun := (h.placed hT fun id stack hat => (h.owns id stack (.inl hat)).1).run hboot h.cpu hmem
  have hsub : ∀ b ∈ st.live, b ∈ if ptr = 0 then st.live else ⟨ptr, l⟩ :: st.live := by
    intro b hb
    by_cases h0 : ptr = 0
    · rwa [if_pos h0]
    · rw [if_neg h0]
      exact .tail _ hb
  exact ⟨hserves, hrun, h.traced, h.boot, h.stack,
    fun id stack ho => (h.owns id stack ho).imp (hsub _) (hsub _), h.distinct⟩

theorem Inv.dealloc (h : Inv p s n boot st) (hT : st.traced.Inv) {b : Block} (hb : b ∈ st.live)
    (hfree : ¬ st.OwnedByThread b) (he : st.heap.dealloc p fuel b.ptr b.layout = .ok heap) :
    Inv p s n boot { st with heap := heap, live := st.live.erase b } := by
  obtain ⟨heap₁, e, hserves, hmem⟩ := h.serves.dealloc hs hn hfuel hb
  obtain rfl := Except.ok.inj (e.symm.trans he)
  have howns : ∀ id stack, st.sched.Owns id stack →
      stackBlock stack ∈ st.live.erase b ∧ boxBlock (st.box id) ∈ st.live.erase b := by
    intro id stack ho
    obtain ⟨h1, h2⟩ := h.owns id stack ho
    refine ⟨(List.mem_erase_of_ne fun hx => hfree ?_).mpr h1,
      (List.mem_erase_of_ne fun hx => hfree ?_).mpr h2⟩
    · exact ⟨id, stack, ho, .inl hx.symm⟩
    · exact ⟨id, stack, ho, .inr hx.symm⟩
  have hrun := (h.placed hT fun id stack hat => (howns id stack (.inl hat)).1).run hboot h.cpu hmem
  exact ⟨hserves, hrun, h.traced, h.boot, h.stack, howns, h.distinct⟩

omit hfuel in
/-- What the current thread may store to is neither idle nor on another thread's stack. -/
theorem Inv.run (h : Inv p s n boot st) (hT : st.traced.Inv) {m : Mem} {regs : Registers}
    (hmem : Mem.ChangesIn (st.writable s n boot) st.heap.mem m) :
    Inv p s n boot { st with heap := st.heap.setMem m, regs := regs } := by
  have hplaced := h.placed hT fun id stack hat => (h.owns id stack (.inl hat)).1
  refine ⟨h.serves.setMem hs hn (fun x hx => ?_) hmem, ?_, h.traced, h.boot, h.stack, h.owns,
    h.distinct⟩
  · rcases hx with hown | ⟨b, hb, -, hxb⟩ | ⟨hout, -⟩
    · exact hplaced.not_idle hboot (.inl rfl) hown
    · exact fun hidle => hidle.2 b hb hxb
    · exact fun hidle => hout hidle.1
  · refine h.cpu.step (Cpu.Step.run fun id hid hne a ha => hmem a ?_)
    -- The other thread's stack: `boot`, or a live block that a thread owns.
    have hcases : a ∈ boot.bytes ∨ ∃ stack, st.sched.Owns id stack ∧
        a ∈ (stackBlock stack).reserved.bytes := by
      obtain rfl | ⟨stack, hat⟩ := stackAt_of_live hT rfl hid
      · exact .inl (h.boot ▸ ha)
      · refine .inr ⟨stack, .inl hat, ?_⟩
        rw [reserved_stackBlock, ← h.stack id stack hat]
        exact ha
    have hheap : ∀ {b : Block}, b ∈ st.live → a ∈ b.reserved.bytes → a ∈ Span.bytes ⟨s, n⟩ := by
      intro b hb hab
      obtain ⟨hlo, hhi⟩ := h.serves.inside hs hn hb
      exact ⟨hlo.trans hab.1, hab.2.trans_le hhi⟩
    rintro (hown | ⟨b, hb, hnot, hab⟩ | ⟨hout, hnb⟩)
    · exact ((Cpu.inv_reach h.cpu).apart id st.current hid (.inl rfl) hne).not_mem ha hown
    · rcases hcases with hab' | ⟨stack, ho, has⟩
      · exact hboot.not_mem hab' (hheap hb hab)
      · exact (h.serves.apart_of_ne hs hn hb (h.owns id stack ho).1 (hnot id stack ho)).not_mem hab
          has
    · rcases hcases with hab' | ⟨stack, ho, has⟩
      · exact hnb hab'
      · exact hout (hheap (h.owns id stack ho).1 has)

/-! ## Spawning -/

omit hs hn hfuel hboot in
/-- After a spawn, a thread is the new one or an old one. -/
theorem owns_spawn (hT : st.traced.Inv) (hspawns : st.traced.spawns + 1 < 2 ^ 64)
    {process : ProcessId} {new : UInt64} {t : Threads} {id : ThreadId}
    (he : st.traced.threads.spawn p process new = .ok (t, id)) {a : ThreadId} {stack : UInt64}
    (ho : t.sched.Owns a stack) :
    (a = id ∧ stack = new) ∨ (a ≠ id ∧ st.sched.Owns a stack) := by
  rcases ho with hat | ⟨th, hth, rfl, rfl⟩
  · rw [Threads.stackAt_spawn he] at hat
    by_cases ha : a = id
    · rw [if_pos ha] at hat
      exact .inl ⟨ha, (Option.some.inj hat).symm⟩
    · rw [if_neg ha] at hat
      exact .inr ⟨ha, .inl hat⟩
  · rw [Threads.reaper_spawn he] at hth
    refine .inr ⟨fun heq => ?_, .inr ⟨th, hth, rfl, rfl⟩⟩
    obtain ⟨rfl, -⟩ := Threads.spawn_cases he
    have hle := (hT.reaped th hth).2
    have hnext := hT.nextId hspawns
    rw [heq] at hle
    simp only at hle
    omega

omit hs hn hfuel hboot in
/-- `KernelThread::new` writes to the stack it has got. -/
theorem changesIn_newFrame {stack : UInt64} (entry : UInt64)
    (hstop : (stackSpan stack).stop < 2 ^ 64) (m : Mem) : Mem.ChangesIn (stackSpan stack).bytes m
      ((zeroed m stack).storeAll (newFrame stack entry).1) := by
  intro a ha
  rw [newFrame_eq, Mem.storeAll_pushWrites _ (room_start entry hstop)]
  refine ((Cpu.fits_start entry hstop).frame _ ha).trans (if_neg fun hx => ha ?_)
  exact hx

omit hs hn hfuel in
/-- The CPU after a spawn on a stack that the allocator has handed out: the stores up to then, then
the spawn. -/
theorem Inv.reach_spawn (h : Inv p s n boot st) (hT : st.traced.Inv)
    (hspawns : st.traced.spawns + 1 < 2 ^ 64) {stack : UInt64} (entry : UInt64)
    {m : Mem} (hstop : (stackSpan stack).stop < 2 ^ 64) (hin : (stackSpan stack).Inside s (s + n))
    (hnew : ∀ b ∈ st.live, (stackSpan stack).Apart b.reserved)
    (hmem : Mem.ChangesIn (idle s n st.live) st.heap.mem m) {process : ProcessId} {t : Threads}
    {id : ThreadId} (he : st.traced.threads.spawn p process stack = .ok (t, id)) :
    (Cpu.system p).Reach ⟨t, (zeroed m stack).storeAll (newFrame stack entry).1, st.regs,
      Function.update st.stack id (stackSpan stack),
      Function.update st.parked id (some (startRegisters stack entry))⟩ := by
  have hplaced := h.placed hT fun id stack hat => (h.owns id stack (.inl hat)).1
  have hapart : ∀ a, st.cpu.Live a → (stackSpan stack).Apart (st.cpu.stack a) := by
    intro a ha
    obtain rfl | ⟨stack', hstack, hlive⟩ := hplaced.2 a ha
    · rw [show st.cpu.stack bootstrapId = boot from h.boot]
      have hle : boot.stop ≤ s ∨ s + n ≤ boot.addr := hboot
      exact hle.symm.imp hin.2.trans fun hlo => hlo.trans hin.1
    · rw [hstack, ← reserved_stackBlock stack']
      exact hnew _ hlive
  have hrun : (Cpu.system p).Reach { st.cpu with mem := zeroed m stack } := by
    refine h.cpu.step (Cpu.Step.run fun a ha _ x hx => ?_)
    have hout : x ∉ (stackSpan stack).bytes := (hapart a ha).symm.not_mem hx
    exact (if_neg fun hc => hout hc).trans (hmem x (hplaced.not_idle hboot ha hx))
  have hne : ¬ (id = bootstrapId ∨ id = st.cpu.threads.sched.current) := by
    obtain ⟨rfl, -⟩ := Threads.spawn_cases he
    rintro (hb | hc)
    · exact hT.nextId_ne_bootstrapId hspawns hb
    · exact hT.nextId_notMem_runnable hspawns (hc ▸ .head _)
  have hspawn := hrun.step (@Cpu.Step.spawn p _ _ _ entry _ _ hstop hapart he)
  rw [newFrame_eq, Mem.storeAll_pushWrites _ (room_start entry hstop)]
  simp only [Cpu.current, if_neg hne] at hspawn
  exact hspawn

omit hboot in
/-- The block that a new stack is. -/
theorem boxNew_stack (h : heap.Serves p s n live) {ptr : Nat}
    (he : boxNew p fuel heap stackLayout = .ok (ptr, heap')) :
    heap'.Serves p s n (stackBlock (UInt64.ofNat ptr) :: live) ∧
      Mem.ChangesIn (idle s n live) heap.mem heap'.mem ∧
      (stackSpan (UInt64.ofNat ptr)).Inside s (s + n) ∧
      ∀ b ∈ live, (stackSpan (UInt64.ofNat ptr)).Apart b.reserved := by
  obtain ⟨hserves, hmem⟩ := boxNew_spec hs hn hfuel h (by decide) he
  have hptr : (UInt64.ofNat ptr).toNat = ptr := by
    have hstop : ptr + stackLayout.reserved ≤ s + n := (hserves.inside hs hn (.head _)).2
    exact Word.toNat_ofNat (by omega)
  have hblock : (⟨ptr, stackLayout⟩ : Block) = stackBlock (UInt64.ofNat ptr) := by
    rw [stackBlock, hptr]
  rw [hblock] at hserves
  have hnew := hserves.notMem hs hn
  rw [← reserved_stackBlock]
  exact ⟨hserves, hmem, hserves.inside hs hn (.head _), fun b hb =>
    hserves.apart_of_ne hs hn (.head _) (.tail _ hb) fun heq => hnew (heq ▸ hb)⟩

theorem Inv.spawn (h : Inv p s n boot st) (hT : st.traced.Inv)
    (hspawns : st.traced.spawns + 1 < 2 ^ 64) {process : ProcessId} {entry : UInt64}
    (he : st.spawn p fuel process entry = .ok st') : Inv p s n boot st' := by
  obtain ⟨⟨ptr, heap₁⟩, e₁, he⟩ := Panics.bind_eq_ok.mp he
  obtain ⟨⟨box, heap₂⟩, e₂, he⟩ := Panics.bind_eq_ok.mp he
  obtain ⟨⟨t, id⟩, e₃, he⟩ := Panics.bind_eq_ok.mp he
  obtain rfl := Except.ok.inj he
  obtain ⟨hserves₁, hmem₁, hin, happart⟩ := boxNew_stack hs hn hfuel h.serves e₁
  have hstop : (stackSpan (UInt64.ofNat ptr)).stop < 2 ^ 64 := by
    have hle := hin.2
    omega
  have hcpu := h.reach_spawn hboot hT hspawns entry hstop hin happart hmem₁ e₃
  have hserves₂ := hserves₁.setMem hs hn
    (fun x hx hidle => hidle.2 _ (.head _) (by rwa [reserved_stackBlock]))
    (changesIn_newFrame entry hstop heap₁.mem)
  obtain ⟨hserves₃, hmem₃⟩ := boxNew_spec hs hn hfuel hserves₂ (by decide) e₂
  have hT' := hT.spawn hspawns e₃
  have hstack : ∀ a stack, t.sched.stackAt a = some stack →
      Function.update st.stack id (stackSpan (UInt64.ofNat ptr)) a = stackSpan stack ∧
        stackBlock stack ∈ stackBlock (UInt64.ofNat ptr) :: st.live := by
    intro a stack hat
    obtain ⟨rfl, rfl⟩ | ⟨ha, ho⟩ := owns_spawn hT hspawns e₃ (.inl hat)
    · rw [Function.update_self]
      exact ⟨rfl, .head _⟩
    · rw [Threads.stackAt_spawn e₃, if_neg ha] at hat
      rw [Function.update_of_ne ha]
      exact ⟨h.stack a stack hat, .tail _ (h.owns a stack ho).1⟩
  have hb : bootstrapId ≠ id := by
    obtain ⟨rfl, -⟩ := Threads.spawn_cases e₃
    exact (hT.nextId_ne_bootstrapId hspawns).symm
  have hstackBoot : Function.update st.stack id (stackSpan (UInt64.ofNat ptr)) bootstrapId = boot :=
    (Function.update_of_ne hb ..).trans h.boot
  -- The new blocks are not blocks of another thread.
  have hfresh : ∀ {b stack}, st.sched.Owns b stack → UInt64.ofNat ptr ≠ stack ∧ box ≠ st.box b := by
    intro b stack ho
    obtain ⟨h1, h2⟩ := h.owns b stack ho
    refine ⟨fun heq => hserves₁.notMem hs hn (heq ▸ h1), fun heq => hserves₃.notMem hs hn ?_⟩
    exact .tail _ (heq ▸ h2)
  refine ⟨hserves₃, (placed_of hT' rfl hstackBoot hstack).run hboot hcpu hmem₃,
    h.traced.step (Traced.Step.spawn e₃), hstackBoot, fun a stack hat => (hstack a stack hat).1,
    fun a stack ho => ?_, fun a stack a' stack' ho ho' hne => ?_⟩
  · obtain ⟨rfl, rfl⟩ | ⟨ha, ho⟩ := owns_spawn hT hspawns e₃ ho
    · simp [boxBlock]
    · obtain ⟨h1, h2⟩ := h.owns a stack ho
      simp [Function.update_of_ne ha, h1, h2]
  · obtain ⟨rfl, rfl⟩ | ⟨ha, hold⟩ := owns_spawn hT hspawns e₃ ho
    · obtain ⟨rfl, -⟩ | ⟨ha', hold'⟩ := owns_spawn hT hspawns e₃ ho'
      · exact absurd rfl hne
      · simpa [Function.update_of_ne ha'] using hfresh hold'
    · obtain ⟨rfl, rfl⟩ | ⟨ha', hold'⟩ := owns_spawn hT hspawns e₃ ho'
      · simpa [Function.update_of_ne ha] using (hfresh hold).imp Ne.symm Ne.symm
      · simpa [Function.update_of_ne ha, Function.update_of_ne ha'] using
          h.distinct a stack a' stack' hold hold' hne

omit hs hn hfuel hboot in
/-- The frames of `spawn` are on the stack of the thread that calls it. -/
theorem spawnFrame_writable (h : st.SpawnFits frame) :
    (st.spawnFrame frame).bytes ⊆ st.writable s n boot := by
  intro x hx
  obtain ⟨hroom, hstop⟩ := h
  have hlo : st.regs.rsp.toNat - frame ≤ x := hx.1
  have hhi : x < st.regs.rsp.toNat - frame + frame := hx.2
  exact .inl ⟨by omega, by omega⟩

theorem Inv.step (h : Inv p s n boot st) (hT : st.traced.Inv)
    (hspawns : st'.traced.spawns < 2 ^ 64) (hst : Step p fuel frame s n boot st e st') :
    Inv p s n boot st' := by
  cases hst with
  | run hmem => exact h.run hs hn hboot hT hmem
  | alloc hl he => exact h.alloc hs hn hfuel hboot hT hl he
  | dealloc hb hfree he => exact h.dealloc hs hn hfuel hboot hT hb hfree he
  | @spawn _ _ _ m hfits hmem he =>
    have hframes : Inv p s n boot { st with heap := st.heap.setMem m } :=
      h.run hs hn hboot hT (hmem.mono (spawnFrame_writable hfits))
    exact hframes.spawn hs hn hfuel hboot hT (spawns_spawn he ▸ hspawns) he
  | stay hdrop he => exact h.stay hs hn hfuel hboot hT hdrop he
  | yieldNow hdrop hfit he => exact h.yieldNow hs hn hfuel hboot hT hdrop hfit he
  | exitThread hdrop hfit hscratch hc he =>
    exact h.exitThread hs hn hfuel hboot hT hdrop hfit hscratch hc he

theorem inv_reach (h : (system p fuel frame s n boot).Reach st)
    (hspawns : st.traced.spawns < 2 ^ 64) :
    Inv p s n boot st := by
  refine Sys.Preserved.reach (I := fun st => st.traced.spawns < 2 ^ 64 → Inv p s n boot st)
    ⟨?_, ?_⟩ h hspawns
  · intro st hi _
    exact Inv.init hs hn hfuel hi
  · intro st e st' _ ih hst hlt
    have hle := spawns_le hst
    have hi := ih (Nat.lt_of_le_of_lt hle hlt)
    have hinv := Traced.inv_reach hi.traced (Nat.lt_of_le_of_lt hle hlt)
    exact hi.step hs hn hfuel hboot hinv hlt hst

end Steps

/-! ## How many threads fit -/

/-- The threads that were not dropped, with their stacks. -/
noncomputable def owners (s : ThreadScheduler) : List (ThreadId × UInt64) :=
  (s.threads.keys.toList.map fun id => (id, (s.stackAt id).getD 0)) ++
    s.reaper.toList.map fun th => (th.id, th.stack)

theorem mem_owners {s : ThreadScheduler} {o : ThreadId × UInt64} (h : o ∈ owners s) :
    s.Owns o.1 o.2 := by
  rcases List.mem_append.mp h with h | h
  · obtain ⟨id, hid, rfl⟩ := List.mem_map.mp h
    rw [Finset.mem_toList, Finmap.mem_keys] at hid
    obtain ⟨th, hth⟩ := FMap.mem_iff.mp hid
    left
    simp [ThreadScheduler.stackAt, hth]
  · obtain ⟨th, hth, rfl⟩ := List.mem_map.mp h
    exact .inr ⟨th, Option.mem_toList.mp hth, rfl, rfl⟩

theorem length_owners (s : ThreadScheduler) :
    (owners s).length = s.threadCount + s.reaperCount := by
  unfold owners ThreadScheduler.threadCount ThreadScheduler.reaperCount FMap.size
  cases s.reaper <;> simp

theorem nodup_owners (hT : st.traced.Inv) :
    (owners st.sched).Pairwise fun o o' => o.1 ≠ o'.1 := by
  refine List.pairwise_append.mpr ⟨?_, ?_, ?_⟩
  · exact List.pairwise_map.mpr (Finset.nodup_toList _)
  · cases st.sched.reaper <;> simp
  · intro o ho o' ho'
    obtain ⟨id, hid, rfl⟩ := List.mem_map.mp ho
    obtain ⟨th, hth, rfl⟩ := List.mem_map.mp ho'
    rw [Finset.mem_toList, Finmap.mem_keys] at hid
    rintro rfl
    exact (hT.reaped th (Option.mem_toList.mp hth)).1 ((hT.mem_runnable _).mpr (.inr hid))

/-- The blocks of the threads that were not dropped. -/
noncomputable def ownedBlocks (st : HeapCpu) : List Block :=
  (owners st.sched).flatMap fun o => [stackBlock o.2, boxBlock (st.box o.1)]

theorem Inv.nodup_ownedBlocks (h : Inv p s n boot st) (hT : st.traced.Inv) :
    st.ownedBlocks.Nodup := by
  refine List.nodup_flatMap.mpr ⟨fun o _ => ?_, ?_⟩
  · simp [stackBlock_ne_boxBlock]
  · refine (nodup_owners hT).imp_of_mem fun {o o'} ho ho' hne => ?_
    obtain ⟨h1, h2⟩ := h.distinct _ _ _ _ (mem_owners ho) (mem_owners ho') hne
    intro b hb hb'
    simp only [List.mem_cons, List.not_mem_nil, or_false] at hb hb'
    rcases hb with rfl | rfl <;> rcases hb' with hb' | hb'
    · exact h1 (stackBlock_inj hb')
    · exact stackBlock_ne_boxBlock _ _ hb'
    · exact stackBlock_ne_boxBlock _ _ hb'.symm
    · exact h2 (boxBlock_inj hb')

theorem total_ownedBlocks (st : HeapCpu) : total (st.ownedBlocks.map Block.reserved) =
    (st.sched.threadCount + st.sched.reaperCount) * (16384 + 32) := by
  rw [← length_owners]
  unfold ownedBlocks
  induction owners st.sched with
  | nil => rfl
  | cons o os ih =>
    have h1 : (stackBlock o.2).reserved.size = 16384 := reserved_stackLayout
    have h2 : (boxBlock (st.box o.1)).reserved.size = 32 := reserved_threadLayout
    simp only [List.flatMap_cons, List.map_append, List.map_cons, List.map_nil, total_append,
      total_cons, total_nil, ih, h1, h2, List.length_cons]
    omega

theorem Inv.threads_le (h : Inv p s n boot st) (hT : st.traced.Inv) (hs : 0 < s)
    (hn : s + n ≤ 2 ^ 63) :
    (st.sched.threadCount + st.sched.reaperCount) * (16384 + 32) ≤ n := by
  rw [← total_ownedBlocks]
  refine h.serves.total_le hs hn (h.nodup_ownedBlocks hT) fun b hb => ?_
  obtain ⟨o, ho, hb⟩ := List.mem_flatMap.mp hb
  obtain ⟨h1, h2⟩ := h.owns _ _ (mem_owners ho)
  simp only [List.mem_cons, List.not_mem_nil, or_false] at hb
  rcases hb with rfl | rfl
  · exact h1
  · exact h2

/-! ## Whole runs -/

/-- What holds between two steps: the CPU and the allocator each run as in their own model; the
words of every parked thread are intact; a thread that was not dropped owns a live stack and a live
box, apart from those of the others; the thread that runs is one of these or the bootstrap thread,
and never the one in the reaper slot; freeing the latter's blocks, yielding and exiting do not
panic; no more threads are there than the heap has room for; and where `spawn` takes more than a
thread's stack, only the bootstrap thread has room to call it. -/
structure Sound (p : Profile) (fuel frame s n : Nat) (st : HeapCpu) : Prop where
  cpu : (Cpu.system p).Reach st.cpu
  heap : st.heap.Serves p s n st.live
  parked : ∀ id r, st.parked id = some r →
    ∃ c, st.sched.contextAt id = some c ∧ Registers.pop st.heap.mem c.rsp = r
  owns : ∀ id stack, st.sched.Owns id stack →
    stackBlock stack ∈ st.live ∧ boxBlock (st.box id) ∈ st.live
  apart : ∀ id stack id' stack', st.sched.Owns id stack → st.sched.Owns id' stack' → id ≠ id' →
    (stackSpan stack).Apart (stackSpan stack')
  current : st.current ≠ bootstrapId → ∃ stack, st.sched.stackAt st.current = some stack ∧
    st.stack st.current = stackSpan stack
  reaped : ∀ th, st.sched.reaper = some th → th.id ≠ st.current
  drop : ∃ st', st.dropReaped p fuel = .ok st'
  yieldNow : ∃ r, st.traced.threads.yieldNow st.regs.saved = .ok r
  exitThread : st.current ≠ bootstrapId → ∃ r, st.traced.threads.exitThread p = .ok r
  room : (st.sched.threadCount + st.sched.reaperCount) * (16384 + 32) ≤ n
  spawn : stackSize.toNat < frame → st.SpawnFits frame → st.current = bootstrapId

/-- **Thread stacks on the heap.** Take any heap that ends at or below `2 ^ 63` and any bootstrap
stack outside it. In every run of fewer than `2 ^ 64` spawns, in which the running thread stores to
its own stack, to blocks that are no thread's stack and outside the heap, allocates and frees blocks
of its own, spawns and yields with room for it on its stack, and exits, every state is sound. -/
theorem stacks_on_heap (p : Profile) (fuel frame s n : Nat) (boot : Span) (hs : 0 < s)
    (hn : s + n ≤ 2 ^ 63) (hfuel : n < fuel) (hboot : boot.Apart ⟨s, n⟩) (st : HeapCpu)
    (h : (system p fuel frame s n boot).Reach st) (hspawns : st.traced.spawns < 2 ^ 64) :
    Sound p fuel frame s n st := by
  have hi := inv_reach hs hn hfuel hboot h hspawns
  have hT := Traced.inv_reach hi.traced hspawns
  have hno := hT.noPanic (p := p) hspawns
  have hcur : st.current ≠ bootstrapId → ∃ stack, st.sched.stackAt st.current = some stack ∧
      st.stack st.current = stackSpan stack := by
    intro hc
    have hlive : st.cpu.Live st.current := .inl rfl
    obtain ⟨stack, hat⟩ := (stackAt_of_live hT rfl hlive).resolve_left hc
    exact ⟨stack, hat, hi.stack _ _ hat⟩
  refine ⟨hi.cpu, hi.serves, fun id r hr => ?_, hi.owns, fun id stack id' stack' ho ho' hne => ?_,
    hcur, fun th hth heq => ?_, ?_, hno.yieldNow _, hno.exitThread, hi.threads_le hT hs hn,
    fun hframe hfits => ?_⟩
  · obtain ⟨-, c, hc, -, -, hpop⟩ := (Cpu.inv_reach hi.cpu).parked id r hr
    exact ⟨c, hc, hpop⟩
  · rw [← reserved_stackBlock, ← reserved_stackBlock]
    refine hi.serves.apart_of_ne hs hn (hi.owns _ _ ho).1 (hi.owns _ _ ho').1 fun heq => ?_
    exact (hi.distinct _ _ _ _ ho ho' hne).1 (stackBlock_inj heq)
  · exact (hT.reaped th hth).1 (heq ▸ .head _)
  · obtain ⟨heap, live, e, -⟩ := hi.dropReaped hs hn hfuel hT
    exact ⟨_, e⟩
  · -- Between the two ends of a thread's stack there are only `STACK_SIZE` bytes.
    by_contra hc
    obtain ⟨stack, -, hstack⟩ := hcur hc
    obtain ⟨hlo, hhi⟩ := hfits
    rw [hstack] at hlo hhi
    simp only [stackSpan, Span.stop] at hlo hhi
    omega

/-- On the kernel's heap, with the bootstrap stack below it: a thread has been spawned, in a call
with 17 KiB of frames, and runs on the first block of the heap. -/
theorem stacks_on_heap_first : ∃ st,
    (system .dev 102401 0x4400 0x444444440000 (100 * 1024) ⟨0x1000, 0x10000⟩).Reach st ∧
    st.current = ⟨1⟩ ∧ st.live = [boxBlock 0x444444444000, stackBlock 0x444444440000] ∧
    Sound .dev 102401 0x4400 0x444444440000 (100 * 1024) st := by
  have h0 : (system .dev 102401 0x4400 0x444444440000 (100 * 1024) ⟨0x1000, 0x10000⟩).Reach
      ⟨_, [], ⟨.boot, fun _ => .kernel, 0⟩, ⟨0xf800, 0x2000, 1, 2, 3, 4, 5, 6⟩,
        fun _ => ⟨0x1000, 0x10000⟩, fun _ => none, fun _ => 0⟩ :=
    .init ⟨⟨fun _ => 0, rfl⟩, rfl, rfl, rfl, rfl⟩
  have h1 := h0.step (@Step.spawn _ _ _ _ _ _ _ _ .kernel 0x3000 _ ⟨by decide, by decide⟩
    (.refl _ _) rfl)
  have h2 := h1.step (.yieldNow rfl ⟨by decide, by decide⟩ rfl)
  exact ⟨_, h2, rfl, rfl, stacks_on_heap _ _ _ _ _ _ (by decide) (by decide) (by decide)
    (.inl (by decide)) _ h2 (by decide)⟩

end HeapCpu

end Apogee
