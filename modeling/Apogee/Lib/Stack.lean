import Mathlib.Logic.Function.Basic
import Mathlib.Tactic.Common

/-!
# A word memory and its stacks

Memory as 64-bit words, each at the address of its first byte. A stack grows downwards: `push`
lowers the stack pointer by 8 and stores there.

* `words m a n`: the `n` words from address `a` upwards.
* `words_pushAll`: after pushes, the words from the new stack pointer upwards are the pushed ones,
  last first.
* `storeAll_pushWrites`: pushes as a list of writes. `mem_pushWrites`: where these are.
* `pushAll_frame`: pushes touch no word outside the pushed range.
-/

namespace Verif

/-- Words by the address of their first byte. -/
abbrev Mem := Nat → UInt64

namespace Mem

variable {m : Mem} {a n rsp : Nat} {v : UInt64} {vs : List UInt64}

/-- The `n` words from `a` upwards. -/
def words (m : Mem) (a : Nat) : Nat → List UInt64
  | 0 => []
  | n + 1 => m a :: words m (a + 8) n

/-- The memory after `v` is stored at `a`. -/
def store (m : Mem) (a : Nat) (v : UInt64) : Mem := Function.update m a v

/-- The memory after pushes from the stack pointer `rsp` down, in order. -/
def pushAll (m : Mem) (rsp : Nat) : List UInt64 → Mem
  | [] => m
  | v :: vs => pushAll (m.store (rsp - 8) v) (rsp - 8) vs

theorem store_self (m : Mem) (a : Nat) (v : UInt64) : m.store a v a = v :=
  Function.update_self ..

theorem store_of_ne {b : Nat} (m : Mem) (v : UInt64) (h : b ≠ a) : m.store a v b = m b :=
  Function.update_of_ne h ..

theorem pushAll_frame (hfit : 8 * vs.length ≤ rsp) (h : rsp ≤ a ∨ a < rsp - 8 * vs.length) :
    m.pushAll rsp vs a = m a := by
  induction vs generalizing m rsp with
  | nil => rfl
  | cons v vs ih =>
    rw [List.length_cons] at h hfit
    unfold pushAll
    rw [ih (by omega) (by omega), store_of_ne _ _ (by omega)]

theorem words_succ (m : Mem) (a n : Nat) : m.words a (n + 1) = m.words a n ++ [m (a + 8 * n)] := by
  induction n generalizing a with
  | zero => rfl
  | succ n ih =>
    rw [words, ih, words, List.cons_append]
    congr 4
    omega

/-- What was pushed is read back from the new stack pointer upwards, last push first. -/
theorem words_pushAll (m : Mem) (h : 8 * vs.length ≤ rsp) :
    (m.pushAll rsp vs).words (rsp - 8 * vs.length) vs.length = vs.reverse := by
  induction vs generalizing m rsp with
  | nil => rfl
  | cons v vs ih =>
    rw [List.length_cons] at h ⊢
    have hrest := ih (m.store (rsp - 8) v) (show 8 * vs.length ≤ rsp - 8 by omega)
    have hbase : rsp - 8 - 8 * vs.length = rsp - 8 * (vs.length + 1) := by omega
    rw [hbase] at hrest
    unfold pushAll
    rw [words_succ, hrest, pushAll_frame (by omega) (.inl (by omega)),
      show rsp - 8 * (vs.length + 1) + 8 * vs.length = rsp - 8 by omega, store_self,
      List.reverse_cons]

theorem words_congr {m' : Mem} (h : ∀ b, a ≤ b → b < a + 8 * n → m' b = m b) :
    m'.words a n = m.words a n := by
  induction n generalizing a with
  | zero => rfl
  | succ n ih =>
    rw [words, words, h a (Nat.le_refl _) (by omega), ih fun b h1 h2 => h b (by omega) (by omega)]

/-- The memory after writes, in order. -/
def storeAll (m : Mem) : List (UInt64 × UInt64) → Mem
  | [] => m
  | (a, v) :: writes => storeAll (m.store a.toNat v) writes

/-- The writes of pushes from the stack pointer `sp` down, in order. -/
def pushWrites (sp : UInt64) : List UInt64 → List (UInt64 × UInt64)
  | [] => []
  | v :: vs => (sp - 8, v) :: pushWrites (sp - 8) vs

theorem toNat_sub_eight {sp : UInt64} (h : 8 ≤ sp.toNat) : (sp - 8).toNat = sp.toNat - 8 :=
  UInt64.toNat_sub_of_le _ _ (UInt64.le_iff_toNat_le.mpr h)

theorem storeAll_pushWrites {sp : UInt64} (m : Mem) (h : 8 * vs.length ≤ sp.toNat) :
    m.storeAll (pushWrites sp vs) = m.pushAll sp.toNat vs := by
  induction vs generalizing m sp with
  | nil => rfl
  | cons v vs ih =>
    rw [List.length_cons] at h
    have hsub : (sp - 8).toNat = sp.toNat - 8 := toNat_sub_eight (by omega)
    unfold pushWrites storeAll pushAll
    rw [ih _ (by omega), hsub]

/-- The written words are the ones below the stack pointer. -/
theorem mem_pushWrites {sp : UInt64} (h : 8 * vs.length ≤ sp.toNat) {w : UInt64 × UInt64}
    (hw : w ∈ pushWrites sp vs) :
    sp.toNat - 8 * vs.length ≤ w.1.toNat ∧ w.1.toNat + 8 ≤ sp.toNat := by
  induction vs generalizing sp with
  | nil => cases hw
  | cons v vs ih =>
    rw [List.length_cons] at h ⊢
    have hsub : (sp - 8).toNat = sp.toNat - 8 := toNat_sub_eight (by omega)
    rcases List.mem_cons.mp hw with rfl | hw
    · simp only [hsub]
      omega
    · have hrest := ih (by omega) hw
      omega

end Mem

end Verif
