import Mathlib.Tactic.Linarith
import PgConsul.Foundations.Binary64

/-! # Numbers close to a double

A number closer to a double than a relative `2 ^ -54` is rounded to that double, also across a power
of two, where the gap to the next double below is half as wide. So is the number written with 17
significant decimal digits, as 17 decimal digits are finer than 54 binary ones.
-/
namespace Foundations.Double
set_option autoImplicit false

/-! ## Rounding to an integer -/

theorem roundHalfEven_error {q : ℚ} (hq : 0 ≤ q) : |(roundHalfEven q : ℚ) - q| ≤ 1 / 2 := by
  have hfloor := Nat.floor_le hq
  have hceil := Nat.lt_floor_add_one q
  unfold roundHalfEven
  simp only
  split
  · next hdown =>
    have hrest : q - ⌊q⌋₊ ≤ 1 / 2 := by
      rcases hdown with h | h
      · exact h.le
      · exact h.1.le
    rw [abs_le]
    constructor <;> linarith
  · next hup =>
    rw [not_or, not_lt] at hup
    push_cast
    rw [abs_le]
    constructor <;> linarith [hup.1]

theorem roundHalfEven_near {q : ℚ} {n : ℕ} (h : |q - n| < 1 / 2) : roundHalfEven q = n := by
  obtain ⟨hlow, hhigh⟩ := abs_lt.mp h
  rcases lt_or_ge q 0 with hneg | hq
  · -- nothing but zero is that close to a negative number
    have hn : n = 0 := by
      have hlt : (n : ℚ) < 1 := by linarith
      have hlt' : n < 1 := by exact_mod_cast hlt
      omega
    have hfloor : ⌊q⌋₊ = 0 := Nat.floor_of_nonpos hneg.le
    subst hn
    unfold roundHalfEven
    simp only [hfloor, Nat.cast_zero, sub_zero]
    rw [if_pos (.inl (by linarith))]
  · obtain ⟨hlow', hhigh'⟩ := abs_le.mp (roundHalfEven_error hq)
    have hlt : (roundHalfEven q : ℚ) < n + 1 := by linarith
    have hgt : (n : ℚ) < roundHalfEven q + 1 := by linarith
    have hlt' : roundHalfEven q < n + 1 := by exact_mod_cast hlt
    have hgt' : n < roundHalfEven q + 1 := by exact_mod_cast hgt
    omega

/-- Half a unit below an even number rounds up to it. -/
theorem roundHalfEven_below {q : ℚ} {n : ℕ} (hn : n % 2 = 0) (hpos : 0 < n)
    (hlow : (n : ℚ) - 1 / 2 ≤ q) (hhigh : q < n) : roundHalfEven q = n := by
  obtain ⟨m, rfl⟩ : ∃ m, n = m + 1 := ⟨n - 1, by omega⟩
  push_cast at hlow hhigh
  have hfloor : ⌊q⌋₊ = m := by
    rw [Nat.floor_eq_iff (by linarith [(Nat.cast_nonneg m : (0 : ℚ) ≤ m)])]
    constructor <;> linarith
  unfold roundHalfEven
  simp only [hfloor]
  rw [if_neg]
  rintro (h | ⟨-, h⟩)
  · linarith
  · omega

/-! ## Rounding to a double -/

/-- The exponent of a number between two powers of two. -/
theorem log_eq {q : ℚ} {x : ℤ} (hlow : (2 : ℚ) ^ x ≤ q) (hhigh : q < 2 ^ (x + 1)) :
    Int.log 2 q = x := by
  have hq : 0 < q := lt_of_lt_of_le (zpow_pos (by norm_num) x) hlow
  have hle : x ≤ Int.log 2 q := (Int.zpow_le_iff_le_log (by norm_num) hq).mp hlow
  have hlt : Int.log 2 q < x + 1 := (Int.lt_zpow_iff_log_lt (by norm_num) hq).mp hhigh
  omega

theorem ofRat_fits {negative : Bool} {q : ℚ} (hq : 0 < q) {m : ℕ} {e : ℤ}
    (he : max (-1074) (Int.log 2 q - 52) = e) (hm : roundHalfEven (q / 2 ^ e) = m)
    (h : Fits m e) :
    ofRat negative q = finite negative ⟨m, e, h.1, h.2.1, h.2.2.1, h.2.2.2⟩ := by
  subst he hm
  unfold ofRat
  simp only
  rw [if_neg (not_le.mpr hq), dif_pos h]

/-- Rounding carries into the next binade. -/
theorem ofRat_carry {negative : Bool} {q : ℚ} (hq : 0 < q) {e : ℤ}
    (he : max (-1074) (Int.log 2 q - 52) = e) (hm : roundHalfEven (q / 2 ^ e) = 2 ^ 53)
    (h : Fits (2 ^ 52) (e + 1)) :
    ofRat negative q = finite negative ⟨2 ^ 52, e + 1, h.1, h.2.1, h.2.2.1, h.2.2.2⟩ := by
  have hlarge : ¬ Fits (2 ^ 53) e := fun hfits => absurd hfits.1 (lt_irrefl _)
  have hhalf : (2 ^ 53 : ℕ) / 2 = 2 ^ 52 := by norm_num
  subst he
  unfold ofRat
  simp only [hm, hhalf]
  rw [if_neg (not_le.mpr hq), dif_neg hlarge, dif_pos h]

theorem log_mul_zpow {r : ℚ} (hr : 0 < r) (e : ℤ) :
    Int.log 2 (r * 2 ^ e) = Int.log 2 r + e := by
  have hpos : (0 : ℚ) < 2 ^ e := zpow_pos (by norm_num) e
  have hlow : (2 : ℚ) ^ Int.log 2 r ≤ r := Int.zpow_log_le_self (by norm_num) hr
  have hhigh : r < (2 : ℚ) ^ (Int.log 2 r + 1) := Int.lt_zpow_succ_log_self (by norm_num) r
  apply log_eq
  · rw [zpow_add₀ (by norm_num)]
    exact mul_le_mul_of_nonneg_right hlow hpos.le
  · have hsucc : Int.log 2 r + e + 1 = Int.log 2 r + 1 + e := by ring
    rw [hsucc, zpow_add₀ (by norm_num)]
    exact mul_lt_mul_of_pos_right hhigh hpos

/-! In the following `r` is a number in units of the last place of a double. -/

section Units
variable {negative : Bool} {m : ℕ} {e : ℤ} {r : ℚ}

/-- The number is in the binade of the double. -/
theorem ofRat_same (hr : 0 < r) (h : Fits m e) (hround : roundHalfEven r = m)
    (hlog : e = -1074 ∧ Int.log 2 r ≤ 52 ∨ Int.log 2 r = 52) :
    ofRat negative (r * 2 ^ e) = finite negative ⟨m, e, h.1, h.2.1, h.2.2.1, h.2.2.2⟩ := by
  have hpos : (0 : ℚ) < 2 ^ e := zpow_pos (by norm_num) e
  have hlower := h.2.2.1
  refine ofRat_fits (mul_pos hr hpos) ?_ ?_ h
  · rw [log_mul_zpow hr]
    omega
  · rw [mul_div_cancel_right₀ r hpos.ne', hround]

/-- The double is a power of two and the number is below it. -/
theorem ofRat_below (h : Fits (2 ^ 52) e) (hne : e ≠ -1074) (hlow : 4503599627370496 - 1 / 4 ≤ r)
    (hhigh : r < 4503599627370496) :
    ofRat negative (r * 2 ^ e) = finite negative ⟨2 ^ 52, e, h.1, h.2.1, h.2.2.1, h.2.2.2⟩ := by
  have hpos : (0 : ℚ) < 2 ^ e := zpow_pos (by norm_num) e
  have hr : 0 < r := by linarith
  have hlower := h.2.2.1
  have hlog : Int.log 2 r = 51 := by
    apply log_eq
    · norm_num
      linarith
    · norm_num
      exact hhigh
  have hexp : max (-1074) (Int.log 2 (r * 2 ^ e) - 52) = e - 1 := by
    rw [log_mul_zpow hr, hlog]
    omega
  have hcarry : roundHalfEven (r * 2 ^ e / 2 ^ (e - 1)) = 2 ^ 53 := by
    have hscale : r * 2 ^ e / 2 ^ (e - 1) = 2 * r := by
      rw [zpow_sub_one₀ (by norm_num)]
      field_simp
    rw [hscale]
    apply roundHalfEven_below (by norm_num) (by norm_num)
    · push_cast
      linarith
    · push_cast
      linarith
  have hsucc : e - 1 + 1 = e := by omega
  have hresult := @ofRat_carry negative _ (mul_pos hr hpos) _ hexp hcarry (by rwa [hsucc])
  rw [hresult]
  simp only [hsucc]

end Units

/-- **A number within a relative `2 ^ -54` of a double is rounded to it.** -/
theorem ofRat_near {negative : Bool} {a : Magnitude} {q : ℚ} (ha : 0 < a.mantissa)
    (h : |q - a.value| ≤ a.value / 2 ^ 54) : ofRat negative q = finite negative a := by
  obtain ⟨m, e, hlt, hnormal, hlower, hupper⟩ := a
  simp only [Magnitude.value] at h ha
  have hfits : Fits m e := ⟨hlt, hnormal, hlower, hupper⟩
  have hpos : (0 : ℚ) < 2 ^ e := zpow_pos (by norm_num) e
  obtain ⟨r, rfl⟩ : ∃ r, q = r * 2 ^ e := ⟨q / 2 ^ e, (div_mul_cancel₀ q hpos.ne').symm⟩
  have hnear : |r - m| ≤ m / 18014398509481984 := by
    have hscaled : |r * 2 ^ e - m * 2 ^ e| = |r - m| * 2 ^ e := by
      rw [← sub_mul, abs_mul, abs_of_pos hpos]
    have hright : (m : ℚ) * 2 ^ e / 2 ^ 54 = m / 18014398509481984 * 2 ^ e := by ring
    rw [hscaled, hright] at h
    exact le_of_mul_le_mul_right h hpos
  have hm1 : (1 : ℚ) ≤ m := by exact_mod_cast ha
  have hm53 : (m : ℚ) ≤ 9007199254740991 := by
    have hle : m ≤ 9007199254740991 := by omega
    exact_mod_cast hle
  obtain ⟨hlow, hhigh⟩ := abs_le.mp hnear
  have hr : 0 < r := by linarith
  have hround : roundHalfEven r = m := roundHalfEven_near (lt_of_le_of_lt hnear (by linarith))
  have htop : Int.log 2 r < 53 := by
    apply (Int.lt_zpow_iff_log_lt (by norm_num) hr).mp
    norm_num
    linarith
  by_cases hbinade : 4503599627370496 ≤ r
  · have hlog : 52 ≤ Int.log 2 r := by
      apply (Int.zpow_le_iff_le_log (by norm_num) hr).mp
      norm_num
      exact hbinade
    exact ofRat_same hr hfits hround (.inr (by omega))
  by_cases hsubnormal : e = -1074
  · exact ofRat_same hr hfits hround (.inl ⟨hsubnormal, by omega⟩)
  · rw [not_le] at hbinade
    have hm52 : m = 2 ^ 52 := by
      have hge : 2 ^ 52 ≤ m := hnormal.resolve_right hsubnormal
      have hle : (m : ℚ) < 4503599627370497 := by linarith
      have hle' : m < 4503599627370497 := by exact_mod_cast hle
      omega
    subst hm52
    push_cast at hlow
    exact ofRat_below hfits hsubnormal (by linarith) hbinade

/-- **17 significant decimal digits are enough**: the number they write is that close. -/
theorem seventeen_digits {q : ℚ} (hq : 0 < q) :
    10 ^ 16 ≤ roundHalfEven (q / 10 ^ (Int.log 10 q - 16)) ∧
      roundHalfEven (q / 10 ^ (Int.log 10 q - 16)) ≤ 10 ^ 17 ∧
      |(roundHalfEven (q / 10 ^ (Int.log 10 q - 16)) : ℚ) * 10 ^ (Int.log 10 q - 16) - q| ≤
        q / 2 ^ 54 := by
  set u : ℚ := 10 ^ (Int.log 10 q - 16) with hu
  have hupos : 0 < u := zpow_pos (by norm_num) _
  have hten : (10 : ℚ) ≠ 0 := by norm_num
  have hlow : u * 10 ^ 16 ≤ q := by
    have hle : (10 : ℚ) ^ Int.log 10 q ≤ q := Int.zpow_log_le_self (by norm_num) hq
    have hpow : u * 10 ^ 16 = 10 ^ Int.log 10 q := by
      rw [hu, ← zpow_natCast, ← zpow_add₀ hten]
      congr 1
      push_cast
      ring
    rwa [hpow]
  have hhigh : q < u * 10 ^ 17 := by
    have hlt : q < (10 : ℚ) ^ (Int.log 10 q + 1) := Int.lt_zpow_succ_log_self (by norm_num) q
    have hpow : u * 10 ^ 17 = 10 ^ (Int.log 10 q + 1) := by
      rw [hu, ← zpow_natCast, ← zpow_add₀ hten]
      congr 1
      push_cast
      ring
    rwa [hpow]
  have hr16 : (10 : ℚ) ^ 16 ≤ q / u := (le_div_iff₀ hupos).mpr (by rwa [mul_comm])
  have hr17 : q / u < 10 ^ 17 := (div_lt_iff₀ hupos).mpr (by rwa [mul_comm])
  have herror := roundHalfEven_error (div_nonneg hq.le hupos.le)
  obtain ⟨hbelow, habove⟩ := abs_le.mp herror
  refine ⟨?_, ?_, ?_⟩
  · have hlt : ((10 ^ 16 : ℕ) : ℚ) < roundHalfEven (q / u) + 1 := by
      push_cast
      linarith
    have hlt' : 10 ^ 16 < roundHalfEven (q / u) + 1 := by exact_mod_cast hlt
    omega
  · have hlt : (roundHalfEven (q / u) : ℚ) < ((10 ^ 17 : ℕ) : ℚ) + 1 := by
      push_cast
      linarith
    have hlt' : roundHalfEven (q / u) < 10 ^ 17 + 1 := by exact_mod_cast hlt
    omega
  · have hscaled : (roundHalfEven (q / u) : ℚ) * u - q =
        ((roundHalfEven (q / u) : ℚ) - q / u) * u := by
      rw [sub_mul, div_mul_cancel₀ _ hupos.ne']
    rw [hscaled, abs_mul, abs_of_pos hupos]
    have hhalf : |(roundHalfEven (q / u) : ℚ) - q / u| * u ≤ 1 / 2 * u :=
      mul_le_mul_of_nonneg_right herror hupos.le
    have hfine : 1 / 2 * u ≤ q / 2 ^ 54 := by
      rw [le_div_iff₀ (by norm_num)]
      norm_num at hlow ⊢
      linarith
    exact le_trans hhalf hfine

end Foundations.Double
