import PgConsul.Foundations.Bytes

/-! # `boost::lexical_cast` between numerals and unsigned integers

The three conversions the program uses: an unsigned integer to its numeral, a numeral to an
unsigned integer of `w` bits, and an `int` to a 64-bit unsigned integer. The last one ignores a
minus sign: it negates, converts and negates back, so it never fails.
-/
namespace PgConsul.Boost
set_option autoImplicit false
open Foundations

/-! ## Unsigned integer to numeral -/

/-- `main_convert_iteration` until the value is used up; `fuel` bounds the digits. -/
def mainConvertLoop : ℕ → ℕ → Bytes → Bytes
  | 0, _, finish => finish
  | fuel + 1, value, finish =>
    let finish := digitByte (value % 10) :: finish
    if value / 10 = 0 then finish else mainConvertLoop fuel (value / 10) finish

def lcastPutUnsigned (n : ℕ) : Bytes := mainConvertLoop (n + 1) n []

theorem mainConvertLoop_eq {fuel value : ℕ} (hf : value < fuel) (finish : Bytes) :
    mainConvertLoop fuel value finish = decimal value ++ finish := by
  induction fuel generalizing value finish with
  | zero => omega
  | succ fuel ih =>
    rw [mainConvertLoop]
    by_cases h0 : value / 10 = 0
    · have hlt : value < 10 := by omega
      rw [if_pos h0]
      interval_cases value <;> rfl
    · have hpos : value ≠ 0 := by
        rintro rfl
        exact h0 rfl
      rw [if_neg h0, ih (by omega), decimal, decimal, if_neg h0, if_neg hpos,
        Nat.digits_def' (by norm_num) (Nat.pos_of_ne_zero hpos)]
      simp

theorem lcastPutUnsigned_eq (n : ℕ) : lcastPutUnsigned n = decimal n := by
  rw [lcastPutUnsigned, mainConvertLoop_eq (Nat.lt_succ_self n), List.append_nil]

/-! ## Numeral to unsigned integer -/

structure RetUnsigned where
  multiplierOverflowed : Bool
  multiplier : ℕ
  value : ℕ
deriving DecidableEq

/-- One digit of `lcast_ret_unsigned`, read from the right; `T` has `w` bits. -/
def mainConvertIteration (w : ℕ) (c : UInt8) (m : RetUnsigned) : Option RetUnsigned :=
  let maxv := 2 ^ w - 1
  let overflowed := m.multiplierOverflowed || decide (maxv / 10 < m.multiplier)
  let multiplier := m.multiplier * 10 % 2 ^ w
  let digValue := c.toNat - 48
  let newSubValue := multiplier * digValue % 2 ^ w
  if !isDigit c ∨ (digValue ≠ 0 ∧ (overflowed ∨ maxv / digValue < multiplier ∨
      maxv - newSubValue < m.value)) then none
  else some ⟨overflowed, multiplier, (m.value + newSubValue) % 2 ^ w⟩

def retLoop (w : ℕ) : Bytes → RetUnsigned → Option RetUnsigned
  | [], m => some m
  | c :: rest, m =>
    match mainConvertIteration w c m with
    | none => none
    | some m => retLoop w rest m

/-- `lcast_ret_unsigned::convert` on the characters from `m_begin` to `m_end`. -/
def lcastRetUnsigned (w : ℕ) (s : Bytes) : Option ℕ :=
  match s.reverse with
  | [] => none
  | c :: rest =>
    if !isDigit c then none
    else (retLoop w rest ⟨false, 1, c.toNat - 48⟩).map (·.value)

/-- `shr_unsigned`: an optional sign, then the digits; a minus wraps. `none` is the
`bad_lexical_cast` exception. -/
def shrUnsigned (w : ℕ) (s : Bytes) : Option ℕ :=
  match s with
  | [] => none
  | c :: rest =>
    let hasMinus := c = chr '-'
    let output := lcastRetUnsigned w (if hasMinus ∨ c = chr '+' then rest else s)
    if hasMinus then output.map fun n => (2 ^ w - n) % 2 ^ w else output

def lexicalCastPort (s : Bytes) : Option UInt16 := (shrUnsigned 16 s).map UInt16.ofNat

/-! ### What a numeral converts to -/

/-- The state behind `k + 1` digits, of which the value is kept: the multiplier is a power of ten
as long as that fits. -/
def Converted (w k : ℕ) (m : RetUnsigned) : Prop :=
  m.value < 2 ^ w ∧
    (m.multiplierOverflowed = true → 2 ^ w ≤ 10 ^ k) ∧
    (m.multiplierOverflowed = false → m.multiplier = 10 ^ k ∧ 10 ^ k < 2 ^ w)

theorem overflow_iff {w k : ℕ} {m : RetUnsigned} (hm : Converted w k m) :
    (m.multiplierOverflowed || decide ((2 ^ w - 1) / 10 < m.multiplier)) = true ↔
      2 ^ w ≤ 10 ^ (k + 1) := by
  have hpos : 0 < 2 ^ w := Nat.two_pow_pos w
  rw [Nat.pow_succ]
  cases hflag : m.multiplierOverflowed with
  | true =>
    have hle := hm.2.1 hflag
    simp only [Bool.true_or, true_iff]
    omega
  | false =>
    obtain ⟨hmult, hlt⟩ := hm.2.2 hflag
    simp only [Bool.false_or, decide_eq_true_eq, hmult]
    omega

theorem multiplier_step {w k : ℕ} {m : RetUnsigned} (hm : Converted w k m)
    (hfit : 10 ^ (k + 1) < 2 ^ w) : m.multiplier * 10 % 2 ^ w = 10 ^ (k + 1) := by
  have hflag : m.multiplierOverflowed = false := by
    cases hflag : m.multiplierOverflowed with
    | true =>
      have hle := hm.2.1 hflag
      have hmono : 10 ^ k ≤ 10 ^ (k + 1) := Nat.pow_le_pow_right (by norm_num) (by omega)
      omega
    | false => rfl
  rw [(hm.2.2 hflag).1, ← Nat.pow_succ, Nat.mod_eq_of_lt hfit]

/-- The digit `d` at place `k + 1` is refused exactly when it takes the value out of `w` bits. -/
theorem refused_iff {w k : ℕ} {m : RetUnsigned} (hm : Converted w k m) (d : ℕ) :
    (d ≠ 0 ∧
      ((m.multiplierOverflowed || decide ((2 ^ w - 1) / 10 < m.multiplier)) = true ∨
        (2 ^ w - 1) / d < m.multiplier * 10 % 2 ^ w ∨
        2 ^ w - 1 - m.multiplier * 10 % 2 ^ w * d % 2 ^ w < m.value)) ↔
      2 ^ w ≤ m.value + 10 ^ (k + 1) * d := by
  have hvalue := hm.1
  rw [overflow_iff hm]
  by_cases hd : d = 0
  · subst hd
    simpa using hvalue
  · have hdpos : 0 < d := Nat.pos_of_ne_zero hd
    have hge : 10 ^ (k + 1) ≤ 10 ^ (k + 1) * d := Nat.le_mul_of_pos_right _ hdpos
    by_cases hover : 2 ^ w ≤ 10 ^ (k + 1)
    · have hout : 2 ^ w ≤ m.value + 10 ^ (k + 1) * d := by omega
      simp [hd, hover, hout]
    · rw [multiplier_step hm (by omega), Nat.div_lt_iff_lt_mul hdpos]
      by_cases hprod : 10 ^ (k + 1) * d < 2 ^ w
      · rw [Nat.mod_eq_of_lt hprod]
        have hquot : ¬ 2 ^ w - 1 < 10 ^ (k + 1) * d := by omega
        simp only [ne_eq, hd, not_false_eq_true, hover, hquot, false_or, true_and]
        omega
      · have hquot : 2 ^ w - 1 < 10 ^ (k + 1) * d := by omega
        have hout : 2 ^ w ≤ m.value + 10 ^ (k + 1) * d := by omega
        simp [hd, hquot, hout]

theorem mainConvertIteration_none {w k : ℕ} {m : RetUnsigned} (hm : Converted w k m) {c : UInt8}
    (h : ¬ (isDigit c = true ∧ m.value + 10 ^ (k + 1) * digitValue c < 2 ^ w)) :
    mainConvertIteration w c m = none := by
  unfold mainConvertIteration
  refine if_pos ?_
  by_cases hc : isDigit c = true
  · right
    refine (refused_iff hm (c.toNat - 48)).mpr ?_
    rw [not_and, not_lt] at h
    exact h hc
  · left
    simpa using hc

/-- One digit: the value grows by the digit at its place. -/
theorem mainConvertIteration_some {w k : ℕ} {m : RetUnsigned} (hm : Converted w k m) {c : UInt8}
    (hc : isDigit c = true) (hfit : m.value + 10 ^ (k + 1) * digitValue c < 2 ^ w) :
    ∃ m', mainConvertIteration w c m = some m' ∧ Converted w (k + 1) m' ∧
      m'.value = m.value + 10 ^ (k + 1) * digitValue c := by
  have haccepted := (refused_iff hm (c.toNat - 48)).not.mpr (by rw [← digitValue]; omega)
  have hsum : (m.value + m.multiplier * 10 % 2 ^ w * digitValue c % 2 ^ w) % 2 ^ w =
      m.value + 10 ^ (k + 1) * digitValue c := by
    by_cases hd : digitValue c = 0
    · simpa [hd] using Nat.mod_eq_of_lt hm.1
    · have hge := Nat.le_mul_of_pos_right (10 ^ (k + 1)) (Nat.pos_of_ne_zero hd)
      rw [multiplier_step hm (by omega), Nat.mod_eq_of_lt (by omega : _ * digitValue c < _),
        Nat.mod_eq_of_lt hfit]
  unfold mainConvertIteration
  refine ⟨_, if_neg ?_, ⟨?_, ?_, ?_⟩, hsum⟩
  · rw [not_or]
    exact ⟨by simp [hc], haccepted⟩
  · exact Nat.mod_lt _ (Nat.two_pow_pos w)
  · exact (overflow_iff hm).mp
  · intro hflag
    have hlt : 10 ^ (k + 1) < 2 ^ w := by
      rw [← not_le, ← overflow_iff hm, Bool.not_eq_true]
      exact hflag
    exact ⟨multiplier_step hm hlt, hlt⟩

/-- The remaining digits, from the right. -/
theorem retLoop_eq {w : ℕ} (rest : Bytes) {k : ℕ} {m : RetUnsigned} (hm : Converted w k m) :
    (retLoop w rest m).map (·.value) =
      if rest.all isDigit = true ∧
          m.value + 10 ^ (k + 1) * Nat.ofDigits 10 (rest.map digitValue) < 2 ^ w then
        some (m.value + 10 ^ (k + 1) * Nat.ofDigits 10 (rest.map digitValue))
      else none := by
  induction rest generalizing k m with
  | nil => simp [retLoop, hm.1]
  | cons c rest ih =>
    rw [retLoop]
    have hsum : m.value + 10 ^ (k + 1) * Nat.ofDigits 10 ((c :: rest).map digitValue) =
        m.value + 10 ^ (k + 1) * digitValue c +
          10 ^ (k + 2) * Nat.ofDigits 10 (rest.map digitValue) := by
      rw [List.map_cons, Nat.ofDigits_cons]
      ring
    by_cases hstep : isDigit c = true ∧ m.value + 10 ^ (k + 1) * digitValue c < 2 ^ w
    · obtain ⟨m', hiter, hm', hvalue⟩ := mainConvertIteration_some hm hstep.1 hstep.2
      simp only [hiter, ih hm', hvalue, hsum, List.all_cons, hstep.1, Bool.true_and]
    · rw [mainConvertIteration_none hm hstep, if_neg]
      · rfl
      · rw [hsum]
        rintro ⟨hdigits, hlt⟩
        exact hstep ⟨List.all_eq_true.mp hdigits c List.mem_cons_self, by omega⟩

/-- **A numeral converts exactly when it is one and its number fits.** -/
theorem lcastRetUnsigned_eq {w : ℕ} (hw : 4 ≤ w) (s : Bytes) :
    lcastRetUnsigned w s =
      if IsNumeral s ∧ numeral s < 2 ^ w then some (numeral s) else none := by
  have h16 : 16 ≤ 2 ^ w := Nat.pow_le_pow_right (n := 2) (by norm_num) hw
  rw [lcastRetUnsigned, numeral]
  induction s using List.reverseRecOn with
  | nil => simp [IsNumeral]
  | append_singleton rest c =>
    simp only [List.reverse_append, List.reverse_cons, List.reverse_nil, List.nil_append,
      List.singleton_append, List.map_cons, Nat.ofDigits_cons]
    by_cases hc : isDigit c = true
    · have hlt := digitValue_lt hc
      have hm : Converted w 0 ⟨false, 1, c.toNat - 48⟩ := by
        refine ⟨?_, fun h => Bool.noConfusion h, fun _ => ⟨rfl, by omega⟩⟩
        rw [digitValue] at hlt
        exact lt_of_lt_of_le hlt (by omega)
      have hiff : IsNumeral (rest ++ [c]) ↔ rest.reverse.all isDigit = true := by
        simp [IsNumeral, or_imp, forall_and, hc]
      rw [hc, Bool.not_true, if_neg Bool.false_ne_true, retLoop_eq _ hm]
      exact if_congr (and_congr hiff.symm Iff.rfl) rfl rfl
    · have hiff : ¬ IsNumeral (rest ++ [c]) := fun h => hc (h.2 c (by simp))
      simp [hc, hiff]

inductive Sign where
  | none | plus | minus
deriving DecidableEq

def Sign.text : Sign → Bytes
  | none => []
  | plus => [chr '+']
  | minus => [chr '-']

/-- The number with the sign, in `w` bits. -/
def Sign.wrap (w : ℕ) : Sign → ℕ → ℕ
  | minus, n => (2 ^ w - n) % 2 ^ w
  | _, n => n

theorem lcastRetUnsigned_eq_some {w : ℕ} (hw : 4 ≤ w) {s : Bytes} {n : ℕ} :
    lcastRetUnsigned w s = some n ↔ IsNumeral s ∧ numeral s < 2 ^ w ∧ numeral s = n := by
  rw [lcastRetUnsigned_eq hw, Option.ite_none_right_eq_some, Option.some.injEq, and_assoc]

theorem isNumeral_head {c : UInt8} {rest : Bytes} (h : IsNumeral (c :: rest)) :
    c ≠ chr '+' ∧ c ≠ chr '-' := by
  have hc := h.2 c List.mem_cons_self
  constructor
  · rintro rfl
    exact absurd hc (by decide)
  · rintro rfl
    exact absurd hc (by decide)

/-- **An optional sign and a numeral that fits convert, and nothing else does.** -/
theorem shrUnsigned_eq_some {w : ℕ} (hw : 4 ≤ w) {s : Bytes} {n : ℕ} :
    shrUnsigned w s = some n ↔ ∃ (sign : Sign) (digits : Bytes),
      s = sign.text ++ digits ∧ IsNumeral digits ∧ numeral digits < 2 ^ w ∧
        sign.wrap w (numeral digits) = n := by
  constructor
  · intro h
    cases s with
    | nil => cases h
    | cons c rest =>
      simp only [shrUnsigned] at h
      by_cases hminus : c = chr '-'
      · rw [if_pos hminus, if_pos (.inl hminus)] at h
        obtain ⟨m, hm, rfl⟩ := Option.map_eq_some_iff.mp h
        obtain ⟨hnum, hlt, rfl⟩ := (lcastRetUnsigned_eq_some hw).mp hm
        exact ⟨.minus, rest, by rw [hminus]; rfl, hnum, hlt, rfl⟩
      · rw [if_neg hminus] at h
        by_cases hplus : c = chr '+'
        · rw [if_pos (.inr hplus)] at h
          obtain ⟨hnum, hlt, rfl⟩ := (lcastRetUnsigned_eq_some hw).mp h
          exact ⟨.plus, rest, by rw [hplus]; rfl, hnum, hlt, rfl⟩
        · rw [if_neg (by simp [hminus, hplus])] at h
          obtain ⟨hnum, hlt, rfl⟩ := (lcastRetUnsigned_eq_some hw).mp h
          exact ⟨.none, c :: rest, rfl, hnum, hlt, rfl⟩
  · rintro ⟨sign, digits, rfl, hnum, hlt, rfl⟩
    have hcast := (lcastRetUnsigned_eq_some hw).mpr ⟨hnum, hlt, rfl⟩
    cases sign with
    | none =>
      cases digits with
      | nil => exact absurd rfl hnum.1
      | cons c rest =>
        obtain ⟨hplus, hminus⟩ := isNumeral_head hnum
        simp [Sign.text, Sign.wrap, shrUnsigned, hplus, hminus, hcast]
    | plus =>
      have hne : chr '+' ≠ chr '-' := by decide
      simp [Sign.text, Sign.wrap, shrUnsigned, hne, hcast]
    | minus => simp [Sign.text, Sign.wrap, shrUnsigned, hcast]

/-! ## `int` to a 64-bit unsigned integer -/

def noexceptNumericConvert (arg : UInt32) : Option UInt64 :=
  if arg.toNat < 2 ^ 64 then some arg.toUInt64 else none

/-- `lexical_cast<IndexT>(int)`; `none` is the `bad_lexical_cast` exception. -/
def lexicalCastIndex (arg : Int32) : Option UInt64 :=
  if arg < 0 then (noexceptNumericConvert (0 - arg.toUInt32)).map fun result => 0 - result
  else noexceptNumericConvert arg.toUInt32

theorem noexceptNumericConvert_eq (arg : UInt32) :
    noexceptNumericConvert arg = some arg.toUInt64 := by
  have hlt := arg.toNat_lt
  rw [noexceptNumericConvert, if_pos (by omega)]

theorem int32_cases (arg : Int32) :
    (arg.toInt = arg.toUInt32.toNat ∧ arg.toUInt32.toNat < 2 ^ 31) ∨
      (arg.toInt = (arg.toUInt32.toNat : ℤ) - 2 ^ 32 ∧ 2 ^ 31 ≤ arg.toUInt32.toNat) := by
  have hcond := BitVec.toInt_eq_toNat_cond arg.toBitVec
  rw [Int32.toNat_toBitVec] at hcond
  have hint : arg.toInt = arg.toBitVec.toInt := rfl
  split at hcond
  · left
    omega
  · right
    omega

/-- The conversion never fails and keeps the two's complement: a negative number comes out `2 ^ 64`
larger. -/
theorem lexicalCastIndex_spec (arg : Int32) :
    ∃ index, lexicalCastIndex arg = some index ∧
      (index.toNat : ℤ) = if arg.toInt < 0 then 2 ^ 64 + arg.toInt else arg.toInt := by
  have hneg : arg < 0 ↔ arg.toInt < 0 := Int32.lt_iff_toInt_lt
  have hlt := arg.toUInt32.toNat_lt
  simp only [lexicalCastIndex, noexceptNumericConvert_eq, Option.map_some]
  rcases int32_cases arg with ⟨hint, hbound⟩ | ⟨hint, hbound⟩
  · have hpos : ¬ arg.toInt < 0 := by omega
    rw [if_neg (hneg.not.mpr hpos), if_neg hpos, hint]
    exact ⟨_, rfl, by simp⟩
  · have hminus : arg.toInt < 0 := by omega
    rw [if_pos (hneg.mpr hminus), if_pos hminus, hint]
    refine ⟨_, rfl, ?_⟩
    simp only [UInt64.toNat_sub, UInt32.toNat_toUInt64, UInt32.toNat_sub, UInt32.toNat_ofNat,
      UInt64.toNat_ofNat]
    omega

end PgConsul.Boost
