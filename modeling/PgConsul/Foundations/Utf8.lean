import Mathlib.Data.List.Basic
import PgConsul.Foundations.Bytes

/-! # Byte strings in UTF-8

`IsUtf8 s` is Lean's own notion of a valid encoding, for lists of bytes. The encoding is
self-synchronising: where a whole character stands inside valid bytes, what is before it and what is
behind it is valid as well.
-/
namespace Foundations
set_option autoImplicit false

def IsUtf8 (s : Bytes) : Prop := s.toByteArray.IsValidUTF8

instance (s : Bytes) : Decidable (IsUtf8 s) := inferInstanceAs (Decidable s.toByteArray.IsValidUTF8)

theorem isUtf8_iff_chars {s : Bytes} :
    IsUtf8 s ↔ ∃ cs : List Char, s = cs.flatMap String.utf8EncodeChar := by
  constructor
  · rintro ⟨cs, hcs⟩
    exact ⟨cs, List.toByteArray_inj.mp hcs⟩
  · rintro ⟨cs, rfl⟩
    exact ⟨cs, rfl⟩

@[simp] theorem isUtf8_nil : IsUtf8 [] := isUtf8_iff_chars.mpr ⟨[], rfl⟩

theorem IsUtf8.append {s t : Bytes} (hs : IsUtf8 s) (ht : IsUtf8 t) : IsUtf8 (s ++ t) := by
  rw [IsUtf8, List.toByteArray_append]
  exact ByteArray.IsValidUTF8.append hs ht

theorem isUtf8_char_append (c : Char) (s : Bytes) :
    IsUtf8 (String.utf8EncodeChar c ++ s) ↔ IsUtf8 s := by
  rw [IsUtf8, List.toByteArray_append, ← List.utf8Encode_singleton]
  exact ByteArray.isValidUTF8_utf8Encode_singleton_append_iff

/-- The first byte of a character is never one of its other bytes. -/
theorem firstByte_not_mem_tail {c : Char} {b d : UInt8} {front behind : Bytes}
    (hc : String.utf8EncodeChar c = d :: (front ++ b :: behind)) : ¬ b.IsUTF8FirstByte := by
  have hlt : (d :: front).length < (String.utf8EncodeChar c).length := by
    rw [hc]
    simp
  have hget : (String.utf8EncodeChar c)[(d :: front).length] = b := by
    simp only [hc]
    simp
  have hfirst := @UInt8.isUTF8FirstByte_getElem_utf8EncodeChar c _ hlt
  rw [hget] at hfirst
  simp [hfirst]

/-- **Where a first byte stands, valid bytes can be cut.** -/
theorem isUtf8_cut {b : UInt8} (hb : b.IsUTF8FirstByte) {s t : Bytes} (h : IsUtf8 (s ++ b :: t)) :
    IsUtf8 s ∧ IsUtf8 (b :: t) := by
  obtain ⟨cs, hcs⟩ := isUtf8_iff_chars.mp h
  induction cs generalizing s with
  | nil => simp at hcs
  | cons d cs ih =>
    have hrest : IsUtf8 (cs.flatMap String.utf8EncodeChar) := isUtf8_iff_chars.mpr ⟨cs, rfl⟩
    rw [List.flatMap_cons] at hcs
    rcases List.append_eq_append_iff.mp hcs with ⟨front, hd, ht⟩ | ⟨s', rfl, ht⟩
    · cases s with
      | nil => exact ⟨isUtf8_nil, h⟩
      | cons first s =>
        cases front with
        | nil =>
          rw [List.append_nil] at hd
          rw [List.nil_append] at ht
          refine ⟨?_, ht ▸ hrest⟩
          rw [← hd, ← List.append_nil (String.utf8EncodeChar d)]
          exact (isUtf8_char_append d []).mpr isUtf8_nil
        | cons b' front =>
          -- the byte would stand inside a character
          cases ht
          exact absurd hb (firstByte_not_mem_tail hd)
    · obtain ⟨hs, ht'⟩ := ih (ht ▸ hrest) ht.symm
      exact ⟨(isUtf8_char_append d s').mpr hs, ht'⟩

/-- A character inside valid bytes separates valid bytes. -/
theorem isUtf8_split (c : Char) (s t : Bytes) :
    IsUtf8 (s ++ (String.utf8EncodeChar c ++ t)) ↔ IsUtf8 s ∧ IsUtf8 t := by
  refine ⟨fun h => ?_, fun h => h.1.append ((isUtf8_char_append c t).mpr h.2)⟩
  obtain ⟨b, rest, hc⟩ := List.exists_cons_of_ne_nil (String.utf8EncodeChar_ne_nil (c := c))
  have hfirst : b.IsUTF8FirstByte := by
    have h := UInt8.isUTF8FirstByte_getElem_zero_utf8EncodeChar (c := c)
    simpa only [hc, List.getElem_cons_zero] using h
  have hcut : IsUtf8 (s ++ b :: (rest ++ t)) := by rwa [hc] at h
  obtain ⟨hs, hct⟩ := isUtf8_cut hfirst hcut
  rw [← List.cons_append, ← hc, isUtf8_char_append] at hct
  exact ⟨hs, hct⟩

/-! ## ASCII -/

theorem charOfNat_toNat {n : ℕ} (h : n.isValidChar) : (Char.ofNat n).toNat = n := by
  rw [Char.ofNat, dif_pos h]
  rfl

theorem utf8EncodeChar_ascii {b : UInt8} (hb : b < 0x80) :
    String.utf8EncodeChar (Char.ofNat b.toNat) = [b] := by
  have hlt : b.toNat < 128 := UInt8.lt_iff_toNat_lt.mp hb
  have hval : (Char.ofNat b.toNat).val.toNat = b.toNat := charOfNat_toNat (.inl (by omega))
  unfold String.utf8EncodeChar
  rw [hval, if_pos (by omega), UInt8.ofNat_toNat]

/-- Every byte of `s` is an ASCII character. -/
def IsAscii (s : Bytes) : Prop := ∀ b ∈ s, b < 0x80

instance (s : Bytes) : Decidable (IsAscii s) := List.decidableBAll (· < 0x80) s

theorem isUtf8_ascii_split {b : UInt8} (hb : b < 0x80) (s t : Bytes) :
    IsUtf8 (s ++ b :: t) ↔ IsUtf8 s ∧ IsUtf8 t := by
  rw [← isUtf8_split (Char.ofNat b.toNat), utf8EncodeChar_ascii hb, List.singleton_append]

@[simp] theorem isUtf8_ascii_cons {b : UInt8} (hb : b < 0x80) (s : Bytes) :
    IsUtf8 (b :: s) ↔ IsUtf8 s := by
  rw [← List.nil_append (b :: s), isUtf8_ascii_split hb, and_iff_right isUtf8_nil]

theorem IsAscii.isUtf8_append {s : Bytes} (h : IsAscii s) (t : Bytes) :
    IsUtf8 (s ++ t) ↔ IsUtf8 t := by
  induction s with
  | nil => rfl
  | cons b s ih =>
    obtain ⟨hb, hs⟩ := List.forall_mem_cons.mp h
    rw [List.cons_append, isUtf8_ascii_cons hb, ih hs]

theorem IsAscii.isUtf8 {s : Bytes} (h : IsAscii s) : IsUtf8 s := by
  rw [← List.append_nil s, h.isUtf8_append]
  exact isUtf8_nil

theorem IsAscii.append_isUtf8 {t : Bytes} (h : IsAscii t) (s : Bytes) :
    IsUtf8 (s ++ t) ↔ IsUtf8 s := by
  cases t with
  | nil => rw [List.append_nil]
  | cons b t =>
    obtain ⟨hb, ht⟩ := List.forall_mem_cons.mp h
    have ht : IsAscii t := ht
    rw [isUtf8_ascii_split hb, and_iff_left ht.isUtf8]

/-- What stands in front of the first `b` of valid bytes. -/
theorem IsUtf8.takeWhile_ne {b : UInt8} (hb : b < 0x80) {s : Bytes} (h : IsUtf8 s) :
    IsUtf8 (s.takeWhile (· ≠ b)) := by
  have hsplit : s.takeWhile (· ≠ b) ++ s.dropWhile (· ≠ b) = s := List.takeWhile_append_dropWhile
  cases hrest : s.dropWhile (· ≠ b) with
  | nil =>
    rw [hrest, List.append_nil] at hsplit
    rwa [hsplit]
  | cons c rest =>
    have hc : c = b := by
      have hhead := List.head?_dropWhile_not (· ≠ b) s
      rw [hrest] at hhead
      simpa using hhead
    rw [hrest, hc] at hsplit
    rw [← hsplit] at h
    exact ((isUtf8_ascii_split hb _ rest).mp h).1

theorem isAscii_digits {s : Bytes} (h : ∀ b ∈ s, isDigit b = true) : IsAscii s := by
  intro b hb
  have hdigit := isDigit_iff.mp (h b hb)
  rw [UInt8.lt_iff_toNat_lt]
  exact lt_of_le_of_lt hdigit.2 (by decide)

theorem isUtf8_decimal (n : ℕ) : IsUtf8 (decimal n) := (isAscii_digits (decimal_isDigit n)).isUtf8

end Foundations
