import PgConsul.Json11.Dump

/-! # What `dump` writes is one line

Strings are escaped and everything else is made of ASCII characters, so no control character is
written, and no newline in particular.
-/
namespace PgConsul.Json11
set_option autoImplicit false
open Foundations

/-- No byte of `s` is a control character. -/
def Printable (s : Bytes) : Prop := ∀ b ∈ s, 0x20 ≤ b

instance (s : Bytes) : Decidable (Printable s) := List.decidableBAll (0x20 ≤ ·) s

namespace Printable

@[simp] theorem nil : Printable [] := fun _ hb => absurd hb List.not_mem_nil

@[simp] theorem cons_iff {b : UInt8} {s : Bytes} : Printable (b :: s) ↔ 0x20 ≤ b ∧ Printable s :=
  List.forall_mem_cons

@[simp] theorem append_iff {s t : Bytes} : Printable (s ++ t) ↔ Printable s ∧ Printable t :=
  List.forall_mem_append

theorem subset {s t : Bytes} (h : Printable t) (hsub : s ⊆ t) : Printable s :=
  fun b hb => h b (hsub hb)

theorem not_newline {s : Bytes} (h : Printable s) : chr '\n' ∉ s :=
  fun hmem => absurd (h _ hmem) (by decide)

theorem digits {s : Bytes} (h : ∀ b ∈ s, isDigit b = true) : Printable s := by
  intro b hb
  have hdigit := isDigit_iff.mp (h b hb)
  rw [UInt8.le_iff_toNat_le]
  exact le_trans (by decide) hdigit.1

end Printable

/-! ## Numbers -/

theorem decimal_printable (n : ℕ) : Printable (decimal n) := .digits (decimal_isDigit n)

theorem decimalInt_printable (i : ℤ) : Printable (decimalInt i) := by
  have hminus : (0x20 : UInt8) ≤ chr '-' := by decide
  rw [decimalInt]
  split
  · exact Printable.cons_iff.mpr ⟨hminus, decimal_printable _⟩
  · exact decimal_printable _

theorem stripZeros_subset (digits : Bytes) : stripZeros digits ⊆ digits := by
  intro b hb
  rw [stripZeros, List.mem_reverse] at hb
  exact List.mem_reverse.mp (List.dropWhile_subset _ hb)

theorem fraction_printable {digits : Bytes} (h : Printable digits) : Printable (fraction digits) := by
  have hpoint : (0x20 : UInt8) ≤ chr '.' := by decide
  rw [fraction]
  split
  · exact Printable.nil
  · exact Printable.cons_iff.mpr ⟨hpoint, h.subset (stripZeros_subset digits)⟩

theorem general_printable {digits : Bytes} (h : Printable digits) (x : ℤ) :
    Printable (general digits x) := by
  have hzero : (0x20 : UInt8) ≤ chr '0' := by decide
  have hmarks : (0x20 : UInt8) ≤ chr 'e' ∧ (0x20 : UInt8) ≤ chr '-' ∧ (0x20 : UInt8) ≤ chr '+' := by
    decide
  have htake : ∀ k, Printable (digits.take k) := fun k => h.subset (List.take_subset k digits)
  have hdrop : ∀ k, Printable (digits.drop k) := fun k => h.subset (List.drop_subset k digits)
  rw [general]
  split
  · exact Printable.append_iff.mpr ⟨htake _, fraction_printable (hdrop _)⟩
  · split
    · have hzeros : ∀ k, Printable (List.replicate k (chr '0')) := by
        intro k b hb
        exact List.eq_of_mem_replicate hb ▸ hzero
      exact Printable.cons_iff.mpr ⟨hzero,
        fraction_printable (Printable.append_iff.mpr ⟨hzeros _, h⟩)⟩
    · have hexponent : ∀ n, Printable (decimal n) := decimal_printable
      simp only [Printable.append_iff, Printable.cons_iff]
      refine ⟨⟨⟨htake 1, fraction_printable (hdrop 1)⟩, hmarks.1, ?_, Printable.nil⟩, ?_⟩
      · split
        · exact hmarks.2.1
        · exact hmarks.2.2
      · split
        · exact Printable.cons_iff.mpr ⟨hzero, hexponent _⟩
        · exact hexponent _

theorem formatG17_printable (negative : Bool) (q : ℚ) : Printable (formatG17 negative q) := by
  have hsign : Printable (if negative then [chr '-'] else []) := by
    cases negative <;> simp +decide
  have hzero : Printable [chr '0'] := by simp +decide
  rw [formatG17]
  dsimp only
  split
  · exact Printable.append_iff.mpr ⟨hsign, hzero⟩
  · split
    · exact Printable.append_iff.mpr ⟨hsign, general_printable (decimal_printable _) _⟩
    · exact Printable.append_iff.mpr ⟨hsign, general_printable (decimal_printable _) _⟩

theorem null_printable : Printable (ascii "null") := by decide

theorem dumpDouble_printable (d : Double) : Printable (dumpDouble d) := by
  cases d with
  | finite negative a => exact formatG17_printable negative a.value
  | infinite _ | nan => exact null_printable

/-! ## Strings -/

theorem hexDigit_printable {n : ℕ} (h : n < 16) : 0x20 ≤ hexDigit n := by
  revert n
  decide

theorem escape_printable (ch : UInt8) :
    Printable (ascii "\\u00" ++ [hexDigit (ch.toNat / 16), hexDigit (ch.toNat % 16)]) := by
  have hescape : Printable (ascii "\\u00") := by decide
  have hlt := ch.toNat_lt
  simp only [Printable.append_iff, Printable.cons_iff]
  exact ⟨hescape, hexDigit_printable (by omega), hexDigit_printable (by omega), Printable.nil⟩

/-- Every branch writes an escape sequence or a character that is no control character. -/
theorem dumpChars_printable (skip : ℕ) (s : Bytes) : Printable (dumpChars skip s) := by
  fun_induction dumpChars skip s with
  | case1 => exact Printable.nil
  | case2 skip ch rest ih => exact ih
  | case3 | case4 | case5 | case6 | case7 | case8 | case9 | case11 | case12 =>
    refine Printable.append_iff.mpr ⟨by decide, ?_⟩
    assumption
  | case10 ch rest _ _ _ _ _ _ _ _ ih => exact Printable.append_iff.mpr ⟨escape_printable ch, ih⟩
  | case13 ch rest _ _ _ _ _ _ _ hcontrol _ _ ih =>
    refine Printable.cons_iff.mpr ⟨?_, ih⟩
    rw [UInt8.le_iff_toNat_le] at hcontrol ⊢
    exact Nat.lt_of_not_le hcontrol

theorem dumpString_printable (s : Bytes) : Printable (dumpString s) := by
  have hquote : Printable [chr '"'] := by decide
  exact Printable.append_iff.mpr
    ⟨Printable.append_iff.mpr ⟨hquote, dumpChars_printable 0 s⟩, hquote⟩

/-! ## Values -/

theorem separator_printable (first : Bool) : Printable (if first then [] else ascii ", ") := by
  cases first <;> decide

theorem colon_printable : Printable (ascii ": ") := by decide

mutual

theorem dump_printable : ∀ j : Json, Printable (dump j)
  | .null => null_printable
  | .double d => dumpDouble_printable d
  | .int i => decimalInt_printable i.toInt
  | .bool b => by cases b <;> decide
  | .string s => dumpString_printable s
  | .array values => by
    have hvalues := dumpArray_printable true values
    simp only [dump, Printable.append_iff, Printable.cons_iff]
    exact ⟨⟨⟨by decide, Printable.nil⟩, hvalues⟩, by decide, Printable.nil⟩
  | .object values => by
    have hvalues := dumpObject_printable true values
    simp only [dump, Printable.append_iff, Printable.cons_iff]
    exact ⟨⟨⟨by decide, Printable.nil⟩, hvalues⟩, by decide, Printable.nil⟩

theorem dumpArray_printable (first : Bool) : ∀ values : List Json, Printable (dumpArray first values)
  | [] => Printable.nil
  | value :: values => by
    simp only [dumpArray, Printable.append_iff]
    exact ⟨⟨separator_printable first, dump_printable value⟩, dumpArray_printable false values⟩

theorem dumpObject_printable (first : Bool) :
    ∀ values : List (Bytes × Json), Printable (dumpObject first values)
  | [] => Printable.nil
  | kv :: values => by
    simp only [dumpObject, Printable.append_iff]
    exact ⟨⟨separator_printable first, dumpMember_printable kv⟩, dumpObject_printable false values⟩

theorem dumpMember_printable : ∀ kv : Bytes × Json, Printable (dumpMember kv)
  | (key, value) => by
    simp only [dumpMember, Printable.append_iff]
    exact ⟨⟨dumpString_printable key, colon_printable⟩, dump_printable value⟩

end

end PgConsul.Json11
