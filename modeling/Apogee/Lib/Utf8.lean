import Mathlib.Data.List.Forall2
import Mathlib.Tactic.Common

/-!
# The bytes of a text

A byte list is UTF-8 if it is the encoding of some characters (`isUtf8_iff`).

* `isUtf8_map`: changing ASCII bytes to other ASCII bytes does not matter. Such a byte is a
  character of its own, and the encoding of any other character has no ASCII byte.
* `isUtf8_take`: the first bytes of a text are a text exactly if they end with a character.
-/

namespace Verif

/-- The bytes of a string (`as_bytes`). -/
def asBytes (s : String) : List UInt8 := s.toByteArray.data.toList

/-- The bytes are the encoding of a text. -/
def IsUtf8 (bs : List UInt8) : Prop := bs.toByteArray.IsValidUTF8

instance (bs : List UInt8) : Decidable (IsUtf8 bs) :=
  inferInstanceAs (Decidable bs.toByteArray.IsValidUTF8)

variable {bs bs' : List UInt8} {f : UInt8 → UInt8} {c : Char}

theorem toByteArray_asBytes (s : String) : (asBytes s).toByteArray = s.toByteArray := by
  apply ByteArray.ext
  rw [List.data_toByteArray]
  exact Array.toArray_toList

theorem length_asBytes (s : String) : (asBytes s).length = s.utf8ByteSize := by
  rw [← String.size_toByteArray]
  exact Array.length_toList

theorem isUtf8_asBytes (s : String) : IsUtf8 (asBytes s) := by
  unfold IsUtf8
  rw [toByteArray_asBytes]
  exact s.isValidUTF8

theorem isUtf8_iff : IsUtf8 bs ↔ ∃ cs : List Char, cs.flatMap String.utf8EncodeChar = bs := by
  constructor
  · rintro ⟨cs, hcs⟩
    exact ⟨cs, (List.toByteArray_inj.mp hcs).symm⟩
  · rintro ⟨cs, rfl⟩
    exact ⟨cs, rfl⟩

theorem IsUtf8.append (h : IsUtf8 bs) (h' : IsUtf8 bs') : IsUtf8 (bs ++ bs') := by
  unfold IsUtf8
  rw [List.toByteArray_append]
  exact ByteArray.IsValidUTF8.append h h'

/-- The encoding of a character that is not ASCII has no ASCII byte. -/
theorem le_of_mem_utf8EncodeChar (h : c.utf8Size ≠ 1) :
    ∀ b ∈ String.utf8EncodeChar c, 0x80 ≤ b := by
  have hor : ∀ x y : UInt8, 0x80 ≤ y → 0x80 ≤ x ||| y := by
    intro x y hy
    rw [UInt8.le_iff_toNat_le] at hy ⊢
    rw [UInt8.toNat_or]
    exact Nat.le_trans hy Nat.right_le_or
  obtain h1 | h2 | h3 | h4 := c.utf8Size_eq
  · exact absurd h1 h
  · rw [String.utf8EncodeChar_eq_cons_cons h2]
    simp [hor]
  · rw [String.utf8EncodeChar_eq_cons_cons_cons h3]
    simp [hor]
  · rw [String.utf8EncodeChar_eq_cons_cons_cons_cons h4]
    simp [hor]

/-- An ASCII byte is a character. -/
theorem isUtf8_singleton {b : UInt8} (h : b < 0x80) : IsUtf8 [b] := by
  have hval : (Char.ofUInt8 b).val = b.toUInt32 := rfl
  have hlt : b.toNat < 128 := UInt8.lt_iff_toNat_lt.mp h
  have hsize : (Char.ofUInt8 b).utf8Size = 1 := by
    rw [Char.utf8Size_eq_one_iff, hval, UInt32.le_iff_toNat_le, UInt8.toNat_toUInt32]
    exact Nat.le_of_lt_succ hlt
  refine isUtf8_iff.mpr ⟨[Char.ofUInt8 b], ?_⟩
  rw [List.flatMap_singleton, String.utf8EncodeChar_eq_singleton hsize, hval]
  simp

/-- The one byte of an ASCII character. -/
theorem utf8EncodeChar_ascii (h : c.utf8Size = 1) :
    ∃ b : UInt8, b < 0x80 ∧ String.utf8EncodeChar c = [b] := by
  refine ⟨c.val.toUInt8, ?_, String.utf8EncodeChar_eq_singleton h⟩
  have hle : c.val.toNat ≤ 127 := UInt32.le_iff_toNat_le.mp (Char.utf8Size_eq_one_iff.mp h)
  rw [UInt8.lt_iff_toNat_lt, UInt32.toNat_toUInt8]
  have hmod : c.val.toNat % 2 ^ 8 ≤ c.val.toNat := Nat.mod_le _ _
  have h128 : (0x80 : UInt8).toNat = 128 := rfl
  omega

/-! ## Changing ASCII bytes -/

/-- The two bytes are the same, or both are ASCII. -/
def AlikeAscii (b b' : UInt8) : Prop := b = b' ∨ b < 0x80 ∧ b' < 0x80

theorem AlikeAscii.symm {b b' : UInt8} (h : AlikeAscii b b') : AlikeAscii b' b :=
  h.imp Eq.symm And.symm

theorem AlikeAscii.eq_of_le {b b' : UInt8} (h : AlikeAscii b b') (hle : 0x80 ≤ b') : b = b' :=
  h.resolve_right fun hlt => absurd hle (UInt8.not_le.mpr hlt.2)

/-- One character. -/
theorem isUtf8_of_alike_char (h : List.Forall₂ AlikeAscii bs (String.utf8EncodeChar c)) :
    IsUtf8 bs := by
  by_cases hsize : c.utf8Size = 1
  · obtain ⟨b, hb, henc⟩ := utf8EncodeChar_ascii hsize
    rw [henc, List.forall₂_cons_right_iff] at h
    obtain ⟨a, rest, hab, hrest, rfl⟩ := h
    rw [List.forall₂_nil_right_iff.mp hrest]
    apply isUtf8_singleton
    rcases hab with rfl | ⟨ha, -⟩
    · exact hb
    · exact ha
  · -- No byte of the encoding is ASCII, so none is changed.
    have heq : List.Forall₂ Eq bs (String.utf8EncodeChar c) := by
      rw [List.forall₂_iff_zip] at h ⊢
      refine ⟨h.1, fun {a b} hab => (h.2 hab).eq_of_le ?_⟩
      exact le_of_mem_utf8EncodeChar hsize b (List.of_mem_zip hab).2
    rw [List.forall₂_eq_eq_eq] at heq
    exact isUtf8_iff.mpr ⟨[c], by rw [List.flatMap_singleton, heq]⟩

theorem IsUtf8.of_alike (h : List.Forall₂ AlikeAscii bs bs') (hu : IsUtf8 bs') : IsUtf8 bs := by
  obtain ⟨cs, rfl⟩ := isUtf8_iff.mp hu
  clear hu
  induction cs generalizing bs with
  | nil =>
    rw [List.forall₂_nil_right_iff.mp h]
    exact isUtf8_asBytes ""
  | cons c cs ih =>
    rw [List.flatMap_cons] at h
    rw [← List.take_append_drop (String.utf8EncodeChar c).length bs]
    exact (isUtf8_of_alike_char (List.forall₂_take_append _ _ _ h)).append
      (ih (List.forall₂_drop_append _ _ _ h))

/-- A map that only changes ASCII bytes, to ASCII bytes. -/
theorem isUtf8_map (hf : ∀ b, AlikeAscii (f b) b) : IsUtf8 (bs.map f) ↔ IsUtf8 bs := by
  constructor
  · apply IsUtf8.of_alike
    rw [List.forall₂_map_right_iff, List.forall₂_same]
    exact fun b _ => (hf b).symm
  · apply IsUtf8.of_alike
    rw [List.forall₂_map_left_iff, List.forall₂_same]
    exact fun b _ => hf b

/-! ## The first bytes of a text -/

/-- The first `n` bytes of a text are a text exactly if a character ends there. -/
theorem isUtf8_take {s : String} {n : Nat} (hn : n ≤ s.utf8ByteSize) :
    IsUtf8 ((asBytes s).take n) ↔ ∃ pre post : String, s = pre ++ post ∧ pre.utf8ByteSize = n := by
  have hbytes : ((asBytes s).take n).toByteArray = s.toByteArray.extract 0 n := by
    apply ByteArray.ext
    rw [List.data_toByteArray, ByteArray.data_extract]
    apply Array.toList_inj.mp
    simp [asBytes]
  have hpos := String.Pos.Raw.isValid_iff_exists_append (s := s) (p := ⟨n⟩)
  rw [String.Pos.Raw.isValid_iff_isValidUTF8_extract_zero] at hpos
  have hle : (⟨n⟩ : String.Pos.Raw) ≤ s.rawEndPos := hn
  simp only [hle, true_and] at hpos
  unfold IsUtf8
  rw [hbytes, hpos]
  constructor
  · rintro ⟨pre, post, rfl, hend⟩
    exact ⟨pre, post, rfl, (congrArg String.Pos.Raw.byteIdx hend).symm⟩
  · rintro ⟨pre, post, rfl, rfl⟩
    exact ⟨pre, post, rfl, rfl⟩

end Verif
