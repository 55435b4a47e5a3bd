import Mathlib.Data.Int.Log
import Mathlib.Algebra.Order.Floor.Semifield
import Mathlib.Data.Rat.Floor
import Mathlib.Algebra.Order.Field.Rat

/-! # Double-precision numbers

A finite binary64 number is a sign and a magnitude `mantissa * 2 ^ exponent` with a 53-bit
mantissa. `Double.ofRat` rounds an exact value to the nearest of them, ties to even;
`Double.trunc` drops the fraction, which is what a conversion to an integer type keeps.
-/
namespace Foundations
set_option autoImplicit false

/-- The magnitude of a finite number; the mantissa is normalised above the least exponent. -/
structure Magnitude where
  mantissa : ℕ
  exponent : ℤ
  lt : mantissa < 2 ^ 53
  normal : 2 ^ 52 ≤ mantissa ∨ exponent = -1074
  lower : -1074 ≤ exponent
  upper : exponent ≤ 971
deriving DecidableEq

namespace Magnitude

def value (a : Magnitude) : ℚ := a.mantissa * 2 ^ a.exponent

def floor (a : Magnitude) : ℕ :=
  if 0 ≤ a.exponent then a.mantissa * 2 ^ a.exponent.toNat
  else a.mantissa / 2 ^ (-a.exponent).toNat

theorem value_nonneg (a : Magnitude) : 0 ≤ a.value :=
  mul_nonneg (Nat.cast_nonneg _) (zpow_nonneg (by norm_num) _)

theorem floor_eq (a : Magnitude) : a.floor = ⌊a.value⌋₊ := by
  unfold floor value
  split
  · next h =>
    obtain ⟨k, hk⟩ := Int.eq_ofNat_of_zero_le h
    rw [hk, Int.toNat_natCast, zpow_natCast]
    exact_mod_cast (Nat.floor_natCast (R := ℚ) (a.mantissa * 2 ^ k)).symm
  · next h =>
    obtain ⟨k, hk⟩ := Int.eq_ofNat_of_zero_le (show 0 ≤ -a.exponent by omega)
    have he : a.exponent = -(k : ℤ) := by omega
    rw [he, neg_neg, Int.toNat_natCast, zpow_neg, zpow_natCast, ← div_eq_mul_inv]
    exact_mod_cast (Nat.floor_div_eq_div (K := ℚ) a.mantissa (2 ^ k)).symm

end Magnitude

inductive Double where
  | finite (negative : Bool) (magnitude : Magnitude)
  | infinite (negative : Bool)
  | nan
deriving DecidableEq

namespace Double

def signed (negative : Bool) (q : ℚ) : ℚ := if negative then -q else q

/-- The exact value of a finite number. -/
def value : Double → Option ℚ
  | finite negative a => some (signed negative a.value)
  | infinite _ => none
  | nan => none

def trunc : Double → Option ℤ
  | finite negative a => some (if negative then -(a.floor : ℤ) else a.floor)
  | infinite _ => none
  | nan => none

theorem trunc_of_nat {d : Double} {n : ℕ} (h : d.value = some (n : ℚ)) : d.trunc = some (n : ℤ) := by
  cases d with
  | finite negative a =>
    have hv : signed negative a.value = n := by simpa [value] using h
    have h0 := a.value_nonneg
    cases negative with
    | false =>
      have hav : a.value = n := hv
      simp [trunc, a.floor_eq, hav]
    | true =>
      have hav : a.value = 0 := by
        have hn : (0 : ℚ) ≤ n := Nat.cast_nonneg n
        simp only [signed, if_true] at hv
        linarith
      have hn : n = 0 := by
        rw [signed, if_pos rfl, hav, neg_zero] at hv
        exact_mod_cast hv.symm
      simp [trunc, a.floor_eq, hav, hn]
  | infinite => simp [value] at h
  | nan => simp [value] at h

/-! ## Rounding -/

def roundHalfEven (q : ℚ) : ℕ :=
  let below := ⌊q⌋₊
  let rest := q - below
  if rest < 1 / 2 ∨ (rest = 1 / 2 ∧ below % 2 = 0) then below else below + 1

def Fits (m : ℕ) (e : ℤ) : Prop :=
  m < 2 ^ 53 ∧ (2 ^ 52 ≤ m ∨ e = -1074) ∧ -1074 ≤ e ∧ e ≤ 971

instance (m : ℕ) (e : ℤ) : Decidable (Fits m e) := by unfold Fits; infer_instance

def zero (negative : Bool) : Double :=
  finite negative ⟨0, -1074, by norm_num, Or.inr rfl, le_rfl, by norm_num⟩

/-- The double nearest to `q`. Rounding up may carry into the next binade, and what exceeds the
largest exponent is infinite. -/
def ofRat (negative : Bool) (q : ℚ) : Double :=
  let e := max (-1074) (Int.log 2 q - 52)
  let m := roundHalfEven (q / 2 ^ e)
  if q ≤ 0 then zero negative
  else if h : Fits m e then finite negative ⟨m, e, h.1, h.2.1, h.2.2.1, h.2.2.2⟩
  else if h : Fits (m / 2) (e + 1) then
    finite negative ⟨m / 2, e + 1, h.1, h.2.1, h.2.2.1, h.2.2.2⟩
  else infinite negative

theorem roundHalfEven_natCast (n : ℕ) : roundHalfEven n = n := by
  simp [roundHalfEven]

/-- A mantissa that fits is its own rounding. -/
theorem value_ofRat {negative : Bool} {q : ℚ} (hq : 0 < q) {m : ℕ}
    (hm : q / 2 ^ max (-1074) (Int.log 2 q - 52) = m)
    (hfits : Fits m (max (-1074) (Int.log 2 q - 52))) :
    (ofRat negative q).value = some (signed negative q) := by
  have hne : (2 : ℚ) ^ max (-1074) (Int.log 2 q - 52) ≠ 0 := zpow_ne_zero _ (by norm_num)
  have hround : roundHalfEven (q / 2 ^ max (-1074) (Int.log 2 q - 52)) = m := by
    rw [hm, roundHalfEven_natCast]
  have hvalue : (m : ℚ) * 2 ^ max (-1074) (Int.log 2 q - 52) = q := by
    rw [← hm, div_mul_cancel₀ q hne]
  unfold ofRat
  simp only [hround]
  rw [if_neg (not_le.mpr hq), dif_pos hfits]
  simp only [value, Magnitude.value, hvalue]

/-- **Every natural number up to `2 ^ 53` is a double exactly.** -/
theorem value_ofRat_natCast (negative : Bool) {n : ℕ} (hn : n ≤ 2 ^ 53) :
    (ofRat negative n).value = some (signed negative n) := by
  rcases Nat.eq_zero_or_pos n with rfl | hpos
  · simp [ofRat, zero, value, Magnitude.value]
  have hlog : Int.log 2 (n : ℚ) = Nat.log 2 n := Int.log_natCast 2 n
  have hle : 2 ^ Nat.log 2 n ≤ n := Nat.pow_log_le_self 2 (Nat.pos_iff_ne_zero.mp hpos)
  have hlt : n < 2 ^ (Nat.log 2 n + 1) := Nat.lt_pow_succ_log_self (by norm_num) n
  have hexp : max (-1074) (Int.log 2 (n : ℚ) - 52) = (Nat.log 2 n : ℤ) - 52 := by
    rw [hlog]
    omega
  rcases Nat.lt_or_ge n (2 ^ 53) with hsmall | hbig
  · -- one unit is at most 1: the mantissa is a shifted `n`
    have hk : Nat.log 2 n < 53 := Nat.log_lt_of_lt_pow (Nat.pos_iff_ne_zero.mp hpos) hsmall
    obtain ⟨k, hk52⟩ : ∃ k, Nat.log 2 n + k = 52 := ⟨52 - Nat.log 2 n, by omega⟩
    have hneg : (Nat.log 2 n : ℤ) - 52 = -(k : ℤ) := by omega
    apply value_ofRat (m := n * 2 ^ k) (by exact_mod_cast hpos)
    · rw [hexp, hneg, zpow_neg, zpow_natCast, div_inv_eq_mul]
      push_cast
      rfl
    · rw [hexp, hneg]
      refine ⟨?_, Or.inl ?_, by omega, by omega⟩
      · calc n * 2 ^ k < 2 ^ (Nat.log 2 n + 1) * 2 ^ k :=
              Nat.mul_lt_mul_of_pos_right hlt (by positivity)
          _ = 2 ^ 53 := by rw [← pow_add]; congr 1; omega
      · calc 2 ^ 52 = 2 ^ Nat.log 2 n * 2 ^ k := by rw [← pow_add, hk52]
          _ ≤ n * 2 ^ k := Nat.mul_le_mul_right _ hle
  · -- the bound itself: one unit is 2
    have heq : n = 2 ^ 53 := le_antisymm hn hbig
    have hk : Nat.log 2 n = 53 := by rw [heq]; exact Nat.log_pow (by norm_num) 53
    apply value_ofRat (m := 2 ^ 52) (by exact_mod_cast hpos)
    · rw [hexp, hk, heq]
      norm_num
    · rw [hexp, hk]
      exact ⟨by norm_num, Or.inl le_rfl, by norm_num, by norm_num⟩

end Double

end Foundations
