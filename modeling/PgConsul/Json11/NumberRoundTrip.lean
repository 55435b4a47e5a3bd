import PgConsul.Foundations.Nearest
import PgConsul.Json11.Dump
import PgConsul.Json11.NumberText

/-! # Writing and reading a number

`%.17g` writes a number of the grammar whose exact value is the double rounded to 17 significant
digits, in each of its three layouts and with the trailing zeros cut off. It is so close to the
double that reading it rounds back to the double.
-/
namespace PgConsul.Json11
set_option autoImplicit false
open Foundations JsonText

/-! ## Trailing zeros -/

theorem stripZeros_split (digits : Bytes) :
    ∃ k, digits = stripZeros digits ++ List.replicate k (chr '0') := by
  refine ⟨(digits.reverse.takeWhile (· = chr '0')).length, ?_⟩
  have hzeros : digits.reverse.takeWhile (· = chr '0') =
      List.replicate (digits.reverse.takeWhile (· = chr '0')).length (chr '0') := by
    apply List.eq_replicate_of_mem
    intro b hb
    have hzero := List.mem_takeWhile_imp hb
    exact of_decide_eq_true hzero
  have hsplit : digits.reverse.takeWhile (· = chr '0') ++ digits.reverse.dropWhile (· = chr '0') =
      digits.reverse := List.takeWhile_append_dropWhile
  have hreverse := congrArg List.reverse hsplit
  rw [List.reverse_append, List.reverse_reverse, hzeros, List.reverse_replicate] at hreverse
  exact hreverse.symm

/-- The fraction that is written: the digits without their trailing zeros, if any are left. -/
theorem fraction_text {digits : Bytes} (h : ∀ b ∈ digits, isDigit b = true) :
    ∃ f, fraction digits = Number.fractionText f ∧ (∀ d, f = some d → IsNumeral d) ∧
      Number.fractionValue f = numeral digits / 10 ^ digits.length := by
  obtain ⟨k, hk⟩ := stripZeros_split digits
  have hvalue : numeral digits = numeral (stripZeros digits) * 10 ^ k := by
    rw [hk, numeral_zeros, ← hk]
  by_cases hnil : stripZeros digits = []
  · refine ⟨none, by rw [fraction, if_pos hnil]; rfl, by rintro d ⟨⟩, ?_⟩
    have hzero : numeral digits = 0 := by
      rw [hvalue, hnil]
      exact Nat.zero_mul _
    simp [Number.fractionValue, hzero]
  · refine ⟨some (stripZeros digits), by rw [fraction, if_neg hnil]; rfl, ?_, ?_⟩
    · rintro d ⟨⟩
      refine ⟨hnil, fun b hb => h b ?_⟩
      rw [hk]
      exact List.mem_append_left _ hb
    · have hlength : digits.length = (stripZeros digits).length + k := by
        have := congrArg List.length hk
        rwa [List.length_append, List.length_replicate] at this
      rw [Number.fractionValue, hvalue, hlength, pow_add]
      push_cast
      field_simp

/-! ## The three layouts -/

theorem exponent_text (x : ℤ) :
    ∃ e : Exponent, e.text = [chr 'e', if x < 0 then chr '-' else chr '+'] ++
      (if x.natAbs < 10 then chr '0' :: decimal x.natAbs else decimal x.natAbs) ∧ e.value = x := by
  obtain ⟨digits, hdigits, hnumeral, hvalue⟩ : ∃ digits,
      (if x.natAbs < 10 then chr '0' :: decimal x.natAbs else decimal x.natAbs) = digits ∧
        IsNumeral digits ∧ numeral digits = x.natAbs := by
    split
    · refine ⟨chr '0' :: decimal x.natAbs, rfl, ⟨by simp, ?_⟩, ?_⟩
      · rw [List.forall_mem_cons]
        exact ⟨by decide, decimal_isDigit _⟩
      · have hzero : numeral [chr '0'] = 0 := by decide
        have hcons := numeral_append [chr '0'] (decimal x.natAbs)
        rwa [List.singleton_append, hzero, Nat.zero_mul, Nat.zero_add, numeral_decimal] at hcons
    · exact ⟨decimal x.natAbs, rfl, decimal_isNumeral _, numeral_decimal _⟩
  rw [hdigits]
  by_cases hx : x < 0
  · refine ⟨⟨chr 'e', [chr '-'], digits, .inl rfl, .inr (.inr rfl), hnumeral⟩, ?_, ?_⟩
    · rw [if_pos hx]
      rfl
    · rw [Exponent.value, if_pos rfl, hvalue]
      omega
  · refine ⟨⟨chr 'e', [chr '+'], digits, .inl rfl, .inr (.inl rfl), hnumeral⟩, ?_, ?_⟩
    · rw [if_neg hx]
      rfl
    · have hsign : [chr '+'] ≠ [chr '-'] := by decide
      rw [Exponent.value, if_neg hsign, hvalue]
      omega

section Layouts
variable {digits : Bytes} {x : ℤ}

/-- The first `k` digits are an integer, the others its fraction. -/
theorem cut_text (negative : Bool) (hdigits : ∀ b ∈ digits, isDigit b = true)
    (hlead : ∀ rest, digits ≠ chr '0' :: rest) {k : ℕ} (hk : 0 < k) (hlength : k ≤ digits.length)
    (exponent : Option Exponent) :
    ∃ n : Number, n.negative = negative ∧ n.text = Number.signText negative ++
        (digits.take k ++ (fraction (digits.drop k) ++ Number.exponentText exponent)) ∧
      n.magnitude = numeral digits / 10 ^ (digits.length - k) * 10 ^ Number.exponentValue exponent := by
  obtain ⟨f, hf, hnumeral, hvalue⟩ :=
    @fraction_text (digits.drop k) fun b hb => hdigits b (List.mem_of_mem_drop hb)
  obtain ⟨c, rest, hcons⟩ : ∃ c rest, digits.take k = c :: rest := by
    cases htake : digits.take k with
    | nil =>
      have := congrArg List.length htake
      rw [List.length_take, List.length_nil] at this
      omega
    | cons c rest => exact ⟨c, rest, rfl⟩
  have hwhole : IsNumeral (digits.take k) := by
    refine ⟨by rw [hcons]; exact List.cons_ne_nil _ _, fun b hb => ?_⟩
    exact hdigits b (List.mem_of_mem_take hb)
  refine ⟨⟨negative, digits.take k, f, exponent, hwhole, ?_, hnumeral⟩, rfl, ?_, ?_⟩
  · intro tail htail
    refine absurd ?_ (hlead (tail ++ digits.drop k))
    rw [← List.cons_append, ← htail, List.take_append_drop]
  · rw [Number.text, hf]
  · have hsplit := numeral_append (digits.take k) (digits.drop k)
    have hdrop : (digits.drop k).length = digits.length - k := List.length_drop
    have hten : (10 : ℚ) ^ (digits.length - k) ≠ 0 := pow_ne_zero _ (by norm_num)
    rw [List.take_append_drop, hdrop] at hsplit
    rw [Number.magnitude, hvalue, hsplit, hdrop]
    push_cast
    field_simp

/-- `0.` and some zeros in front of all the digits. -/
theorem small_text (negative : Bool) (hdigits : ∀ b ∈ digits, isDigit b = true) (zeros : ℕ) :
    ∃ n : Number, n.negative = negative ∧ n.text = Number.signText negative ++
        (chr '0' :: fraction (List.replicate zeros (chr '0') ++ digits)) ∧
      n.magnitude = numeral digits / 10 ^ (zeros + digits.length) := by
  have hall : ∀ b ∈ List.replicate zeros (chr '0') ++ digits, isDigit b = true := by
    intro b hb
    rcases List.mem_append.mp hb with hb | hb
    · rw [(List.mem_replicate.mp hb).2]
      decide
    · exact hdigits b hb
  obtain ⟨f, hf, hnumeral, hvalue⟩ := fraction_text hall
  have hzeros : numeral (List.replicate zeros (chr '0')) = 0 := by
    have h := numeral_zeros [] zeros
    have hnil : numeral [] = 0 := rfl
    rwa [List.nil_append, hnil, Nat.zero_mul] at h
  have hlead : ∀ tail, [chr '0'] = chr '0' :: tail → tail = [] := by
    rintro tail ⟨⟩
    rfl
  refine ⟨⟨negative, [chr '0'], f, none, by decide, hlead, hnumeral⟩, rfl, ?_, ?_⟩
  · rw [Number.text, hf]
    simp [Number.exponentText]
  · have hzero : numeral [chr '0'] = 0 := by decide
    rw [Number.magnitude, hvalue, numeral_append, hzeros, hzero, List.length_append,
      List.length_replicate]
    simp [Number.exponentValue]

/-- **`%.17g` writes a number of the grammar** with the value of its digits. -/
theorem general_text (negative : Bool) (hdigits : ∀ b ∈ digits, isDigit b = true)
    (hlead : ∀ rest, digits ≠ chr '0' :: rest) (hlength : digits.length = 17) :
    ∃ n : Number, n.negative = negative ∧ n.text = Number.signText negative ++ general digits x ∧
      n.magnitude = numeral digits * 10 ^ (x - 16) := by
  have hten : (10 : ℚ) ≠ 0 := by norm_num
  unfold general
  split
  · next hx =>
    obtain ⟨n, hsign, htext, hvalue⟩ :=
      cut_text negative hdigits hlead (k := x.toNat + 1) (by omega) (by omega) none
    refine ⟨n, hsign, by rw [htext]; simp [Number.exponentText], ?_⟩
    have hexp : (16 : ℤ) - x = ((digits.length - (x.toNat + 1) : ℕ) : ℤ) := by omega
    have hneg : x - 16 = -(16 - x) := by ring
    rw [hvalue, hneg, zpow_neg, hexp, zpow_natCast, Number.exponentValue, zpow_zero, mul_one,
      div_eq_mul_inv]
  split
  · next hx =>
    obtain ⟨n, hsign, htext, hvalue⟩ := small_text negative hdigits ((-x).toNat - 1)
    refine ⟨n, hsign, htext, ?_⟩
    have hexp : (16 : ℤ) - x = (((-x).toNat - 1 + digits.length : ℕ) : ℤ) := by omega
    have hneg : x - 16 = -(16 - x) := by ring
    rw [hvalue, hneg, zpow_neg, hexp, zpow_natCast, div_eq_mul_inv]
  · obtain ⟨e, hetext, hevalue⟩ := exponent_text x
    obtain ⟨n, hsign, htext, hvalue⟩ :=
      cut_text negative hdigits hlead (k := 1) (by omega) (by omega) (some e)
    refine ⟨n, hsign, ?_, ?_⟩
    · rw [htext, Number.exponentText, hetext]
      simp only [List.append_assoc]
    · rw [hvalue, Number.exponentValue, hevalue, hlength, zpow_sub₀ hten, div_mul_eq_mul_div,
        mul_div_assoc]
      norm_num

end Layouts

/-! ## Doubles -/

theorem zero_text (negative : Bool) :
    ∃ n : Number, n.negative = negative ∧ n.text = Number.signText negative ++ [chr '0'] ∧
      n.magnitude = 0 := by
  have hzero : numeral [chr '0'] = 0 := by decide
  have hlead : ∀ tail, [chr '0'] = chr '0' :: tail → tail = [] := by
    rintro tail ⟨⟩
    rfl
  refine ⟨⟨negative, [chr '0'], none, none, by decide, hlead, by rintro d ⟨⟩⟩, rfl, ?_, ?_⟩
  · simp [Number.text, Number.fractionText, Number.exponentText]
  · simp [Number.magnitude, Number.fractionValue, hzero]

theorem decimal_seventeen {n : ℕ} (hlow : 10 ^ 16 ≤ n) (hhigh : n < 10 ^ 17) :
    (decimal n).length = 17 ∧ ∀ rest, decimal n ≠ chr '0' :: rest := by
  have hn : n ≠ 0 := by
    rintro rfl
    norm_num at hlow
  refine ⟨?_, fun rest h => hn (decimal_leading h)⟩
  rw [decimal_length hn, Nat.log_eq_of_pow_le_of_lt_pow hlow hhigh]

/-- **`%.17g` writes a number that is rounded back to the double.** -/
theorem formatG17_text (negative : Bool) (a : Magnitude) :
    ∃ n : Number, n.negative = negative ∧ n.text = formatG17 negative a.value ∧
      Double.ofRat negative n.magnitude = .finite negative a := by
  have hsign : (if negative then [chr '-'] else []) = Number.signText negative := rfl
  unfold formatG17
  simp only [hsign]
  rcases Nat.eq_zero_or_pos a.mantissa with hzero | hpos
  · have hvalue : a.value = 0 := by simp [Magnitude.value, hzero]
    obtain ⟨n, hnegative, htext, hmagnitude⟩ := zero_text negative
    refine ⟨n, hnegative, by rw [if_pos hvalue.le, htext], ?_⟩
    obtain ⟨m, e, hlt, hnormal, hlower, hupper⟩ := a
    obtain rfl : m = 0 := hzero
    obtain rfl : e = -1074 := hnormal.resolve_left (by norm_num)
    rw [hmagnitude]
    simp [Double.ofRat, Double.zero]
  · have hvalue : 0 < a.value := by
      have hm : (0 : ℚ) < a.mantissa := by exact_mod_cast hpos
      exact mul_pos hm (zpow_pos (by norm_num) _)
    obtain ⟨hlow, hhigh, hnear⟩ := Double.seventeen_digits hvalue
    rw [if_neg (not_le.mpr hvalue)]
    set x := Int.log 10 a.value with hx
    set d := Double.roundHalfEven (a.value / 10 ^ (x - 16)) with hd
    split
    · next hcarry =>
      obtain ⟨hlength, hlead⟩ := decimal_seventeen (n := 10 ^ 16) le_rfl (by norm_num)
      obtain ⟨n, hnegative, htext, hmagnitude⟩ :=
        general_text (x := x + 1) negative (decimal_isDigit _) hlead hlength
      refine ⟨n, hnegative, htext, Double.ofRat_near hpos ?_⟩
      have hsame : ((10 ^ 16 : ℕ) : ℚ) * 10 ^ (x + 1 - 16) = (d : ℚ) * 10 ^ (x - 16) := by
        have hsucc : x + 1 - 16 = x - 16 + 1 := by ring
        rw [hcarry, hsucc, zpow_add_one₀ (by norm_num)]
        push_cast
        ring
      rwa [hmagnitude, numeral_decimal, hsame]
    · next hcarry =>
      obtain ⟨hlength, hlead⟩ := decimal_seventeen hlow (lt_of_le_of_ne hhigh hcarry)
      obtain ⟨n, hnegative, htext, hmagnitude⟩ :=
        general_text (x := x) negative (decimal_isDigit _) hlead hlength
      refine ⟨n, hnegative, htext, Double.ofRat_near hpos ?_⟩
      rwa [hmagnitude, numeral_decimal]

end PgConsul.Json11
