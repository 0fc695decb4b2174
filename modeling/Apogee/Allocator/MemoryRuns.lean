import Apogee.Lib.Nodes
import Apogee.Allocator.Runs

/-!
# Runs of an allocator and its clients over one memory

An allocator that keeps its nodes in the memory it hands out (`MemApi`), with clients that also
store to the blocks they hold. A client keeps to the contract of `GlobalAlloc` and to the bytes of
its live blocks; apart from that, calls and stores come in any order.

`MemApi.Refines` says that such an allocator implements one without memory: it answers the same, and
its calls leave the contents of every other live block alone. `Refines.mirrors` is what follows for
every state of a run. In particular a block reads back what was last stored in it.
-/

namespace Apogee

open Verif

/-- An allocator in memory. -/
structure MemApi (H : Type) extends Api H where
  mem : H → Mem
  setMem : H → Mem → H
  mem_setMem : ∀ h m, mem (setMem h m) = m

/-- The address of a word of the block that its owner may use. -/
structure Block.HasWord (b : Block) (a : Nat) : Prop where
  aligned : 8 ∣ a
  ge : b.ptr ≤ a
  lt : a < b.ptr + b.layout.size

instance (b : Block) (a : Nat) : Decidable (b.HasWord a) :=
  decidable_of_iff (8 ∣ a ∧ b.ptr ≤ a ∧ a < b.ptr + b.layout.size)
    ⟨fun h => ⟨h.1, h.2.1, h.2.2⟩, fun h => ⟨h.aligned, h.ge, h.lt⟩⟩

namespace MemApi

variable {H H' : Type} {C : MemApi H} {A : Api H'}

/-- A call, or a store by the owner of a block. -/
inductive Op where
  | call (op : Api.Op)
  | store (a : Nat) (v : UInt64)

/-- The allocator and the live blocks. `written` has what the owners of the live blocks have stored
in them since they got them. -/
structure State (H : Type) extends Api.State H where
  written : Nat → Option UInt64

/-- The record without the words of a block. -/
def forget (written : Nat → Option UInt64) (b : Block) : Nat → Option UInt64 :=
  fun a => if b.HasWord a then none else written a

inductive Step (C : MemApi H) : State H → Op → State H → Prop
  | alloc {st : State H} {l : Layout} {ptr : Nat} {heap : H} : 0 < l.size →
      C.alloc st.heap l = .ok (ptr, heap) → ptr ≠ 0 →
      Step C st (.call (.alloc l)) ⟨⟨heap, ⟨ptr, l⟩ :: st.live⟩, forget st.written ⟨ptr, l⟩⟩
  | allocNull {st : State H} {l : Layout} {heap : H} : 0 < l.size →
      C.alloc st.heap l = .ok (0, heap) →
      Step C st (.call (.alloc l)) ⟨⟨heap, st.live⟩, st.written⟩
  | dealloc {st : State H} {b : Block} {heap : H} : b ∈ st.live →
      C.dealloc st.heap b.ptr b.layout = .ok heap →
      Step C st (.call (.dealloc b)) ⟨⟨heap, st.live.erase b⟩, forget st.written b⟩
  | store {st : State H} {b : Block} {a : Nat} {v : UInt64} : b ∈ st.live → b.HasWord a →
      Step C st (.store a v)
        ⟨⟨C.setMem st.heap ((C.mem st.heap).store a v), st.live⟩,
          Function.update st.written a (some v)⟩

def system (C : MemApi H) : Sys (State H) Op where
  init st := C.init = .ok st.heap ∧ st.live = [] ∧ st.written = fun _ => none
  step := C.Step

/-- The contents of the blocks are the same. -/
def Untouched (extent : Layout → Nat) (live : List Block) (m m' : Mem) : Prop :=
  ∀ b ∈ live, ∀ a, b.ptr ≤ a → a + 8 ≤ b.ptr + extent b.layout → m' a = m a

/-- The allocator `C` in memory implements `A`, where a block has the extent `extent`. -/
structure Refines (C : MemApi H) (A : Api H') (Ok : H' → List Block → Prop) (Rep : H → H' → Prop)
    (extent : Layout → Nat) : Prop where
  keeps : A.Keeps Ok
  init : ∃ h h', C.init = .ok h ∧ A.init = .ok h' ∧ Rep h h'
  alloc : ∀ {h h' live l}, Rep h h' → Ok h' live → 0 < l.size →
    ∃ ptr k k', C.alloc h l = .ok (ptr, k) ∧ A.alloc h' l = .ok (ptr, k') ∧ Rep k k' ∧
      Untouched extent live (C.mem h) (C.mem k)
  dealloc : ∀ {h h' live b}, Rep h h' → Ok h' (b :: live) →
    ∃ k k', C.dealloc h b.ptr b.layout = .ok k ∧ A.dealloc h' b.ptr b.layout = .ok k' ∧ Rep k k' ∧
      Untouched extent live (C.mem h) (C.mem k)
  store : ∀ {h h' live b a} v, Rep h h' → Ok h' live → b ∈ live → b.HasWord a →
    Rep (C.setMem h ((C.mem h).store a v)) h'
  /-- A word that meets the bytes of a block lies in its extent. -/
  word : ∀ {h' live b a}, Ok h' live → b ∈ live → b.HasWord a → a + 8 ≤ b.ptr + extent b.layout

/-- What the run of an allocator in memory has to do with the run of the one it implements: the
same calls and stores have led to `h'`; every further call returns, with the same answer; it leaves
the contents of the other live blocks alone; and the live blocks hold what was stored in them. -/
structure Mirrors (C : MemApi H) (A : Api H') (Rep : H → H' → Prop) (extent : Layout → Nat)
    (st : State H) (h' : H') : Prop where
  reach : A.system.Reach ⟨h', st.live⟩
  rep : Rep st.heap h'
  alloc : ∀ l, 0 < l.size → ∃ ptr k k', C.alloc st.heap l = .ok (ptr, k) ∧
    A.alloc h' l = .ok (ptr, k') ∧ Rep k k' ∧ Untouched extent st.live (C.mem st.heap) (C.mem k)
  dealloc : ∀ b ∈ st.live, ∃ k k', C.dealloc st.heap b.ptr b.layout = .ok k ∧
    A.dealloc h' b.ptr b.layout = .ok k' ∧ Rep k k' ∧
    Untouched extent (st.live.erase b) (C.mem st.heap) (C.mem k)
  written : ∀ a v, st.written a = some v →
    (∃ b ∈ st.live, b.HasWord a) ∧ C.mem st.heap a = v

variable {Ok : H' → List Block → Prop} {Rep : H → H' → Prop} {extent : Layout → Nat}
  {st st' : State H} {op : Op}

theorem forget_eq_some {written : Nat → Option UInt64} {b : Block} {a : Nat} {v : UInt64}
    (h : forget written b a = some v) : ¬ b.HasWord a ∧ written a = some v := by
  unfold forget at h
  by_cases hb : b.HasWord a
  · simp [hb] at h
  · simpa [hb] using h

/-- A step in memory is a step of the other allocator, or a store that it does not see. -/
theorem Refines.step (r : C.Refines A Ok Rep extent) {h' : H'}
    (hreach : A.system.Reach ⟨h', st.live⟩) (hrep : Rep st.heap h') (hst : C.Step st op st') :
    ∃ k', A.system.Reach ⟨k', st'.live⟩ ∧ Rep st'.heap k' := by
  have hok := r.keeps.reach hreach
  cases hst with
  | alloc hl he hne =>
    obtain ⟨ptr, k, k', hc, ha, hrep', -⟩ := r.alloc hrep hok hl
    obtain ⟨rfl, rfl⟩ := Prod.mk.inj (Except.ok.inj (hc.symm.trans he))
    exact ⟨k', hreach.step (.alloc hl ha hne), hrep'⟩
  | allocNull hl he =>
    obtain ⟨ptr, k, k', hc, ha, hrep', -⟩ := r.alloc hrep hok hl
    obtain ⟨rfl, rfl⟩ := Prod.mk.inj (Except.ok.inj (hc.symm.trans he))
    exact ⟨k', hreach.step (.allocNull hl ha), hrep'⟩
  | dealloc hb he =>
    obtain ⟨k, k', hc, ha, hrep', -⟩ :=
      r.dealloc hrep (r.keeps.perm hok (List.perm_cons_erase hb))
    obtain rfl := Except.ok.inj (hc.symm.trans he)
    exact ⟨k', hreach.step (.dealloc hb ha), hrep'⟩
  | store hb ha => exact ⟨h', hreach, r.store _ hrep hok hb ha⟩

/-- The record of the stores agrees with memory. -/
def Recorded (C : MemApi H) (st : State H) : Prop :=
  ∀ a v, st.written a = some v → (∃ b ∈ st.live, b.HasWord a) ∧ C.mem st.heap a = v

/-- A call that leaves the other blocks alone keeps the record of their words. -/
theorem Refines.recorded_of_untouched (r : C.Refines A Ok Rep extent) (h : C.Recorded st) {h' : H'}
    {heap : H} {live : List Block} (hok : Ok h' live)
    (hmem : Untouched extent live (C.mem st.heap) (C.mem heap)) {a : Nat} {v : UInt64}
    (hw : st.written a = some v) {b : Block} (hb : b ∈ live) (ha : b.HasWord a) :
    C.mem heap a = v := by
  rw [hmem b hb a ha.ge (r.word hok hb ha)]
  exact (h a v hw).2

theorem Refines.recorded (r : C.Refines A Ok Rep extent) {h' : H'}
    (hreach : A.system.Reach ⟨h', st.live⟩) (hrep : Rep st.heap h') (h : C.Recorded st)
    (hst : C.Step st op st') : C.Recorded st' := by
  have hok := r.keeps.reach hreach
  intro a v hw
  cases hst with
  | alloc hl he hne =>
    obtain ⟨ptr, k, k', hc, -, -, hmem⟩ := r.alloc hrep hok hl
    obtain ⟨rfl, rfl⟩ := Prod.mk.inj (Except.ok.inj (hc.symm.trans he))
    obtain ⟨-, hw⟩ := forget_eq_some hw
    obtain ⟨b, hb, ha⟩ := (h a v hw).1
    exact ⟨⟨b, .tail _ hb, ha⟩, r.recorded_of_untouched h hok hmem hw hb ha⟩
  | allocNull hl he =>
    obtain ⟨ptr, k, k', hc, -, -, hmem⟩ := r.alloc hrep hok hl
    obtain ⟨rfl, rfl⟩ := Prod.mk.inj (Except.ok.inj (hc.symm.trans he))
    obtain ⟨b, hb, ha⟩ := (h a v hw).1
    exact ⟨⟨b, hb, ha⟩, r.recorded_of_untouched h hok hmem hw hb ha⟩
  | @dealloc c heap hc he =>
    have hok' := r.keeps.perm hok (List.perm_cons_erase hc)
    obtain ⟨k, k', hd, ha', -, hmem⟩ := r.dealloc hrep hok'
    obtain rfl := Except.ok.inj (hd.symm.trans he)
    obtain ⟨hnot, hw⟩ := forget_eq_some hw
    obtain ⟨b, hb, ha⟩ := (h a v hw).1
    -- The word is not in the block that goes.
    have hne : b ≠ c := fun e => hnot (e ▸ ha)
    have hb' : b ∈ st.live.erase c := (List.mem_erase_of_ne hne).mpr hb
    obtain ⟨k'', e, hok''⟩ := r.keeps.dealloc hok'
    exact ⟨⟨b, hb', ha⟩, r.recorded_of_untouched h hok'' hmem hw hb' ha⟩
  | @store c x u hc hx =>
    simp only [C.mem_setMem]
    by_cases hax : a = x
    · subst hax
      simp only [Function.update_self, Option.some.injEq] at hw
      subst hw
      exact ⟨⟨c, hc, hx⟩, Mem.store_self ..⟩
    · simp only [Function.update_of_ne hax] at hw
      rw [Mem.store_of_ne _ _ hax]
      exact h a v hw

/-- Every reachable state in memory mirrors a state of a run without memory. -/
theorem Refines.mirrors (r : C.Refines A Ok Rep extent) (h : C.system.Reach st) :
    ∃ h', Mirrors C A Rep extent st h' := by
  have hinv : (∃ h', A.system.Reach ⟨h', st.live⟩ ∧ Rep st.heap h') ∧ C.Recorded st := by
    refine Sys.Preserved.reach (I := fun st =>
      (∃ h', A.system.Reach ⟨h', st.live⟩ ∧ Rep st.heap h') ∧ C.Recorded st) ⟨?_, ?_⟩ h
    · rintro st ⟨hi, hlive, hwritten⟩
      obtain ⟨h, h', hc, ha, hrep⟩ := r.init
      obtain rfl := Except.ok.inj (hc.symm.trans hi)
      refine ⟨⟨h', .init ⟨ha, hlive⟩, hrep⟩, fun a v hw => ?_⟩
      rw [hwritten] at hw
      cases hw
    · rintro st op st' - ⟨⟨h', hreach, hrep⟩, hrec⟩ hst
      exact ⟨r.step hreach hrep hst, r.recorded hreach hrep hrec hst⟩
  obtain ⟨⟨h', hreach, hrep⟩, hrec⟩ := hinv
  have hok := r.keeps.reach hreach
  exact ⟨h', hreach, hrep, fun l hl => r.alloc hrep hok hl,
    fun b hb => r.dealloc hrep (r.keeps.perm hok (List.perm_cons_erase hb)), hrec⟩

end MemApi

end Apogee
