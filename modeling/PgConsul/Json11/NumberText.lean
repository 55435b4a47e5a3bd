import PgConsul.Foundations.JsonText
import PgConsul.Json11.Parser

/-! # The text of a number

`parse_number` takes the longest number at the front of the text: what the grammar calls a number,
with nothing behind it that could continue one. `strtod` then reads its exact value.
-/
namespace PgConsul.Json11
set_option autoImplicit false
open Foundations JsonText

/-- What the text of a number is read as. -/
def numberReading (n : Number) : Json :=
  if n.fraction.isNone ∧ n.exponent.isNone ∧ n.text.length ≤ intDigits10 then
    .int (Int32.ofInt (if n.negative then -(numeral n.whole : ℤ) else numeral n.whole))
  else .double (Double.ofRat n.negative n.magnitude)

/-! ## Digits -/

theorem digitsValue_eq (digits : Bytes) : digitsValue digits = numeral digits := by
  have h := foldl_digitValue digits 0
  rwa [Nat.zero_mul, Nat.zero_add] at h

theorem peek_noDigit {s : Bytes} (h : isDigit (peek s) = false) : NoDigit s := by
  cases s with
  | nil =>
    intro c hc
    cases hc
  | cons d s =>
    intro c hc
    cases hc
    exact h

theorem peek_of_noDigit {s : Bytes} (h : NoDigit s) : isDigit (peek s) = false := by
  cases s with
  | nil => decide
  | cons d s => exact h d rfl

theorem peek_digit {digits : Bytes} (h : IsNumeral digits) (rest : Bytes) :
    isDigit (peek (digits ++ rest)) = true := by
  obtain ⟨hne, hdigits⟩ := h
  cases digits with
  | nil => exact absurd rfl hne
  | cons d digits => exact hdigits d List.mem_cons_self

/-- A run of digits that starts with one. -/
theorem digits_split {s : Bytes} (h : isDigit (peek s) = true) :
    ∃ digits rest, s = digits ++ rest ∧ IsNumeral digits ∧ NoDigit rest ∧
      s.dropWhile isDigit = rest := by
  refine ⟨s.takeWhile isDigit, s.dropWhile isDigit, List.takeWhile_append_dropWhile.symm,
    ⟨?_, fun b hb => List.mem_takeWhile_imp hb⟩, noDigit_dropWhile s, rfl⟩
  cases s with
  | nil => exact absurd h (by decide)
  | cons c s =>
    have hc : isDigit c = true := h
    simp [hc]

/-! ## The three parts -/

/-- What stands behind the digits of a number: nothing that continues it. -/
structure Ends (rest : Bytes) : Prop where
  digit : NoDigit rest
  point : peek rest ≠ chr '.'
  small : peek rest ≠ chr 'e'
  capital : peek rest ≠ chr 'E'

theorem parseInteger_numeral {whole rest : Bytes} (h : IsNumeral whole)
    (hzero : ∀ tail, whole = chr '0' :: tail → tail = []) (hrest : NoDigit rest) :
    parseInteger (whole ++ rest) = .ok rest := by
  obtain ⟨hne, hdigits⟩ := h
  cases whole with
  | nil => exact absurd rfl hne
  | cons c whole =>
    have hpeek : peek (c :: whole ++ rest) = c := rfl
    rw [parseInteger, hpeek]
    by_cases hc : c = chr '0'
    · subst hc
      have htail := hzero whole rfl
      subst htail
      have hdrop : (([chr '0'] ++ rest).drop 1) = rest := rfl
      rw [if_pos rfl, hdrop, peek_of_noDigit hrest]
      rfl
    · have hrange : chr '1' ≤ c ∧ c ≤ chr '9' := by
        have hdigit := isDigit_iff.mp (hdigits c List.mem_cons_self)
        have hne48 : c.toNat ≠ 48 := fun h => hc (UInt8.toNat_inj.mp h)
        rw [UInt8.le_iff_toNat_le, UInt8.le_iff_toNat_le]
        exact ⟨by change 49 ≤ _; omega, hdigit.2⟩
      rw [if_neg hc, if_pos hrange, dropWhile_digits hdigits hrest]

theorem parseInteger_split {s behind : Bytes} (h : parseInteger s = .ok behind) :
    ∃ whole, s = whole ++ behind ∧ IsNumeral whole ∧
      (∀ tail, whole = chr '0' :: tail → tail = []) ∧ NoDigit behind := by
  unfold parseInteger at h
  split at h
  · next hzero =>
    split at h
    · cases h
    · next hdigit =>
      cases h
      cases s with
      | nil => exact absurd hzero (by decide)
      | cons c s =>
        have hc : c = chr '0' := hzero
        subst hc
        refine ⟨[chr '0'], rfl, by decide, ?_, peek_noDigit (Bool.eq_false_iff.mpr hdigit)⟩
        rintro tail ⟨⟩
        rfl
  · next hzero =>
    split at h
    · next hrange =>
      cases h
      have hdigit : isDigit (peek s) = true := by
        rw [isDigit_iff]
        have h1 := UInt8.le_iff_toNat_le.mp hrange.1
        have h9 := UInt8.le_iff_toNat_le.mp hrange.2
        exact ⟨le_trans (by decide) h1, h9⟩
      obtain ⟨whole, rest, hs, hwhole, hrest, hdrop⟩ := digits_split hdigit
      refine ⟨whole, by rw [hdrop]; exact hs, hwhole, ?_, hdrop ▸ hrest⟩
      rintro tail rfl
      exact absurd (by rw [hs]; rfl) hzero
    · cases h

theorem parseFraction_text {fraction : Option Bytes} (h : ∀ d, fraction = some d → IsNumeral d)
    {rest : Bytes} (hrest : NoDigit rest) (hpoint : peek rest ≠ chr '.') :
    parseFraction (Number.fractionText fraction ++ rest) = .ok rest := by
  cases fraction with
  | none => exact if_neg hpoint
  | some digits =>
    have hdigits := h digits rfl
    have hdrop : (Number.fractionText (some digits) ++ rest).drop 1 = digits ++ rest := rfl
    have hpeek : peek (Number.fractionText (some digits) ++ rest) = chr '.' := rfl
    rw [parseFraction, if_pos hpeek, hdrop, if_pos (peek_digit hdigits rest),
      dropWhile_digits hdigits.2 hrest]

theorem parseFraction_split {s behind : Bytes} (h : parseFraction s = .ok behind) :
    ∃ fraction, s = Number.fractionText fraction ++ behind ∧
      (∀ d, fraction = some d → IsNumeral d) ∧ (fraction = none → peek s ≠ chr '.') := by
  unfold parseFraction at h
  split at h
  · next hpoint =>
    split at h
    · next hdigit =>
      cases h
      cases s with
      | nil => exact absurd hpoint (by decide)
      | cons c s =>
        have hc : c = chr '.' := hpoint
        subst hc
        obtain ⟨digits, rest, hs, hdigits, -, hdrop⟩ := digits_split hdigit
        refine ⟨some digits, ?_, ?_, by rintro ⟨⟩⟩
        · rw [hdrop, Number.fractionText, List.cons_append, ← hs]
          rfl
        · rintro d ⟨⟩
          exact hdigits
    · cases h
  · next hpoint =>
    cases h
    exact ⟨none, rfl, by rintro d ⟨⟩, fun _ => hpoint⟩

theorem sign_cases_peek {x : Exponent} (rest : Bytes) :
    (if peek (x.sign ++ (x.digits ++ rest)) = chr '+' ∨
        peek (x.sign ++ (x.digits ++ rest)) = chr '-'
      then (x.sign ++ (x.digits ++ rest)).drop 1 else x.sign ++ (x.digits ++ rest)) =
      x.digits ++ rest := by
  rcases x.sign_cases with hsign | hsign | hsign
  · have hpeek := peek_digit x.digits_numeral rest
    have hplus : peek (x.digits ++ rest) ≠ chr '+' := by
      intro h
      rw [h] at hpeek
      exact absurd hpeek (by decide)
    have hminus : peek (x.digits ++ rest) ≠ chr '-' := by
      intro h
      rw [h] at hpeek
      exact absurd hpeek (by decide)
    rw [hsign, List.nil_append, if_neg (not_or.mpr ⟨hplus, hminus⟩)]
  · rw [hsign]
    exact if_pos (.inl rfl)
  · rw [hsign]
    exact if_pos (.inr rfl)

theorem parseExponent_text (exponent : Option Exponent) {rest : Bytes} (hrest : NoDigit rest)
    (hsmall : peek rest ≠ chr 'e') (hcapital : peek rest ≠ chr 'E') :
    parseExponent (Number.exponentText exponent ++ rest) = .ok rest := by
  cases exponent with
  | none => exact if_neg (not_or.mpr ⟨hsmall, hcapital⟩)
  | some x =>
    have htext : Number.exponentText (some x) ++ rest =
        x.letter :: (x.sign ++ (x.digits ++ rest)) := by
      simp [Number.exponentText, Exponent.text]
    have hdrop : (x.letter :: (x.sign ++ (x.digits ++ rest))).drop 1 =
        x.sign ++ (x.digits ++ rest) := rfl
    have hletter : peek (x.letter :: (x.sign ++ (x.digits ++ rest))) = x.letter := rfl
    rw [htext, parseExponent, hletter, if_pos x.letter_e, hdrop]
    simp only [sign_cases_peek, peek_digit x.digits_numeral, if_true,
      dropWhile_digits x.digits_numeral.2 hrest]

theorem parseExponent_split {s behind : Bytes} (h : parseExponent s = .ok behind) :
    ∃ exponent, s = Number.exponentText exponent ++ behind ∧
      (exponent = none → peek s ≠ chr 'e' ∧ peek s ≠ chr 'E') := by
  unfold parseExponent at h
  split at h
  · next hletter =>
    cases s with
    | nil => exact absurd hletter (by decide)
    | cons c s =>
      have hdrop : (c :: s).drop 1 = s := rfl
      simp only [hdrop] at h
      obtain ⟨sign, tail, hs, hsign, htail⟩ : ∃ sign tail, s = sign ++ tail ∧
          (sign = [] ∨ sign = [chr '+'] ∨ sign = [chr '-']) ∧
          (if peek s = chr '+' ∨ peek s = chr '-' then s.drop 1 else s) = tail := by
        cases s with
        | nil => exact ⟨[], [], rfl, .inl rfl, rfl⟩
        | cons d s =>
          by_cases hd : d = chr '+' ∨ d = chr '-'
          · refine ⟨[d], s, rfl, ?_, if_pos hd⟩
            rcases hd with rfl | rfl
            · exact .inr (.inl rfl)
            · exact .inr (.inr rfl)
          · exact ⟨[], d :: s, rfl, .inl rfl, if_neg hd⟩
      rw [htail] at h
      split at h
      · next hdigit =>
        cases h
        obtain ⟨digits, rest, htail, hdigits, -, hdrop⟩ := digits_split hdigit
        refine ⟨some ⟨c, sign, digits, hletter, hsign, hdigits⟩, ?_, by rintro ⟨⟩⟩
        rw [hdrop, hs, htail]
        simp [Number.exponentText, Exponent.text]
      · cases h
  · next hletter =>
    cases h
    exact ⟨none, rfl, fun _ => not_or.mp hletter⟩

/-! ## The whole number -/

theorem peek_text (n : Number) (rest : Bytes) :
    peek (n.text ++ rest) = chr '-' ↔ n.negative = true := by
  rw [Number.text]
  cases n.negative with
  | true => exact iff_of_true rfl rfl
  | false =>
    have hdigit := peek_digit n.whole_numeral
      (Number.fractionText n.fraction ++ Number.exponentText n.exponent ++ rest)
    refine iff_of_false ?_ Bool.false_ne_true
    intro h
    simp only [Number.signText, Bool.false_eq_true, if_false, List.nil_append,
      List.append_assoc] at h hdigit
    rw [h] at hdigit
    exact absurd hdigit (by decide)

theorem drop_sign (n : Number) (rest : Bytes) :
    (if peek (n.text ++ rest) = chr '-' then (n.text ++ rest).drop 1 else n.text ++ rest) =
      n.whole ++ (Number.fractionText n.fraction ++ (Number.exponentText n.exponent ++ rest)) := by
  by_cases hnegative : n.negative = true
  · rw [if_pos ((peek_text n rest).mpr hnegative), Number.text, hnegative]
    simp [Number.signText]
  · rw [if_neg (mt (peek_text n rest).mp hnegative), Number.text, Bool.eq_false_iff.mpr hnegative]
    simp [Number.signText]

theorem noDigit_exponent (exponent : Option Exponent) {rest : Bytes} (h : NoDigit rest) :
    NoDigit (Number.exponentText exponent ++ rest) := by
  cases exponent with
  | none => exact h
  | some x =>
    rintro c ⟨⟩
    rcases x.letter_e with hletter | hletter <;> rw [hletter] <;> decide

theorem noDigit_fraction (fraction : Option Bytes) {rest : Bytes} (h : NoDigit rest) :
    NoDigit (Number.fractionText fraction ++ rest) := by
  cases fraction with
  | none => exact h
  | some digits =>
    rintro c ⟨⟩
    decide

theorem point_exponent (exponent : Option Exponent) {rest : Bytes} (h : peek rest ≠ chr '.') :
    peek (Number.exponentText exponent ++ rest) ≠ chr '.' := by
  cases exponent with
  | none => exact h
  | some x =>
    have hpeek : peek (Number.exponentText (some x) ++ rest) = x.letter := rfl
    rw [hpeek]
    rcases x.letter_e with hletter | hletter <;> rw [hletter] <;> decide

theorem noDigit_nil : NoDigit [] := by
  rintro c ⟨⟩

/-- The digits behind the point, as `strtod` finds them. -/
theorem strtod_fraction {fraction : Option Bytes} (h : ∀ d, fraction = some d → IsNumeral d)
    (exponent : Option Exponent) :
    let text := Number.fractionText fraction ++ Number.exponentText exponent
    (if peek text = chr '.' then (text.drop 1).takeWhile isDigit else []) = fraction.getD [] ∧
      (if peek text = chr '.' then (text.drop 1).dropWhile isDigit else text) =
        Number.exponentText exponent := by
  have hexponent : NoDigit (Number.exponentText exponent) := by
    have h := noDigit_exponent exponent noDigit_nil
    rwa [List.append_nil] at h
  intro text
  cases fraction with
  | none =>
    have hpoint : peek text ≠ chr '.' := by
      have h := @point_exponent exponent [] (by decide)
      rwa [List.append_nil] at h
    exact ⟨if_neg hpoint, if_neg hpoint⟩
  | some digits =>
    have hdrop : text.drop 1 = digits ++ Number.exponentText exponent := rfl
    have hpoint : peek text = chr '.' := rfl
    rw [if_pos hpoint, if_pos hpoint, hdrop]
    exact ⟨takeWhile_digits (h digits rfl).2 hexponent, dropWhile_digits (h digits rfl).2 hexponent⟩

/-- The exponent, as `strtod` reads it. -/
theorem strtod_exponent (exponent : Option Exponent) :
    let text := Number.exponentText exponent
    (if peek text = chr 'e' ∨ peek text = chr 'E' then
      let text := text.drop 1
      if peek text = chr '-' then -(digitsValue (text.drop 1) : ℤ)
      else if peek text = chr '+' then digitsValue (text.drop 1)
      else digitsValue text
    else 0) = Number.exponentValue exponent := by
  cases exponent with
  | none => rfl
  | some x =>
    have hdrop : (Number.exponentText (some x)).drop 1 = x.sign ++ x.digits := rfl
    have hletter : peek (Number.exponentText (some x)) = x.letter := rfl
    simp only [hdrop, hletter, x.letter_e, if_true, digitsValue_eq, Number.exponentValue,
      Exponent.value]
    rcases x.sign_cases with hsign | hsign | hsign
    · have hdigit := peek_digit x.digits_numeral []
      rw [List.append_nil] at hdigit
      have hminus : peek x.digits ≠ chr '-' := by
        intro h
        rw [h] at hdigit
        exact absurd hdigit (by decide)
      have hplus : peek x.digits ≠ chr '+' := by
        intro h
        rw [h] at hdigit
        exact absurd hdigit (by decide)
      rw [hsign, List.nil_append, if_neg hminus, if_neg hplus, if_neg (by decide)]
    · have hplus : peek ([chr '+'] ++ x.digits) = chr '+' := rfl
      have hminus : peek ([chr '+'] ++ x.digits) ≠ chr '-' := by
        rw [hplus]
        decide
      rw [hsign, if_neg hminus, if_pos hplus, if_neg (by decide)]
      rfl
    · have hminus : peek ([chr '-'] ++ x.digits) = chr '-' := rfl
      rw [hsign, if_pos hminus, if_pos rfl]
      rfl

/-- **`strtod` rounds the exact value of the text.** -/
theorem strtod_text (n : Number) : strtod n.text = Double.ofRat n.negative n.magnitude := by
  have hsign : decide (peek n.text = chr '-') = n.negative := by
    have h := peek_text n []
    rw [List.append_nil] at h
    rwa [Bool.eq_iff_iff, decide_eq_true_iff]
  have hdrop := drop_sign n []
  simp only [List.append_nil] at hdrop
  have hbehind : NoDigit (Number.fractionText n.fraction ++ Number.exponentText n.exponent) := by
    have h := noDigit_fraction n.fraction (noDigit_exponent n.exponent noDigit_nil)
    rwa [List.append_nil] at h
  obtain ⟨hfraction, hexponent⟩ := strtod_fraction n.fraction_numeral n.exponent
  simp only [strtod, hsign, hdrop, takeWhile_digits n.whole_numeral.2 hbehind,
    dropWhile_digits n.whole_numeral.2 hbehind, hfraction, hexponent, digitsValue_eq]
  have hvalue := strtod_exponent n.exponent
  simp only [digitsValue_eq] at hvalue
  rw [hvalue, Number.magnitude, numeral_append]
  have hten : (10 : ℚ) ≠ 0 := by norm_num
  congr 1
  rw [zpow_sub₀ hten, zpow_natCast]
  cases n.fraction with
  | none => simp [Number.fractionValue, numeral]
  | some digits =>
    have hpow : (10 : ℚ) ^ digits.length ≠ 0 := pow_ne_zero _ hten
    simp only [Option.getD_some, Number.fractionValue]
    push_cast
    field_simp

theorem take_text (n : Number) (rest : Bytes) :
    (n.text ++ rest).length - rest.length = n.text.length ∧
      (n.text ++ rest).take ((n.text ++ rest).length - rest.length) = n.text := by
  have hlength : (n.text ++ rest).length - rest.length = n.text.length := by
    rw [List.length_append, Nat.add_sub_cancel]
  exact ⟨hlength, by rw [hlength, List.take_left]⟩

/-- `atoi` reads a number without fraction and exponent. -/
theorem atoi_text {n : Number} (hfraction : n.fraction = none) (hexponent : n.exponent = none) :
    atoi n.text = Int32.ofInt (if n.negative then -(numeral n.whole : ℤ) else numeral n.whole) := by
  rw [Number.text, hfraction, hexponent]
  cases n.negative with
  | true => simp [Number.signText, Number.fractionText, Number.exponentText, atoi, digitsValue_eq]
  | false =>
    have htext : Number.signText false ++ (n.whole ++ (Number.fractionText none ++
        Number.exponentText none)) = n.whole := by
      simp [Number.signText, Number.fractionText, Number.exponentText]
    obtain ⟨hne, hdigits⟩ := n.whole_numeral
    rw [htext]
    cases hwhole : n.whole with
    | nil => exact absurd hwhole hne
    | cons c digits =>
      have hminus : c ≠ chr '-' := by
        rintro rfl
        exact absurd (hdigits _ (hwhole ▸ List.mem_cons_self)) (by decide)
      simp only [atoi, hminus, if_false, digitsValue_eq, Bool.false_eq_true]

theorem numberReading_int {n : Number} (hfraction : n.fraction = none)
    (hexponent : n.exponent = none) (hlength : n.text.length ≤ intDigits10) :
    numberReading n = .int (atoi n.text) := by
  rw [numberReading, if_pos ⟨by rw [hfraction]; rfl, by rw [hexponent]; rfl, hlength⟩,
    atoi_text hfraction hexponent]

theorem numberReading_double {n : Number}
    (h : ¬ (n.fraction = none ∧ n.exponent = none ∧ n.text.length ≤ intDigits10)) :
    numberReading n = .double (strtod n.text) := by
  rw [numberReading, if_neg (by simpa only [Option.isNone_iff_eq_none] using h), strtod_text]

/-- Whether a fraction or an exponent follows the integer. -/
theorem peek_behind (n : Number) {rest : Bytes} (h : Ends rest) :
    let behind := Number.fractionText n.fraction ++ (Number.exponentText n.exponent ++ rest)
    (peek behind ≠ chr '.' ∧ peek behind ≠ chr 'e' ∧ peek behind ≠ chr 'E') ↔
      n.fraction = none ∧ n.exponent = none := by
  intro behind
  cases hfraction : n.fraction with
  | some digits =>
    have hpeek : peek behind = chr '.' := by simp [behind, hfraction, Number.fractionText, peek]
    exact iff_of_false (fun hne => hne.1 hpeek) (by rintro ⟨⟨⟩, -⟩)
  | none =>
    cases hexponent : n.exponent with
    | some x =>
      have hpeek : peek behind = x.letter := by
        simp [behind, hfraction, hexponent, Number.fractionText, Number.exponentText,
          Exponent.text, peek]
      refine iff_of_false ?_ (by rintro ⟨-, ⟨⟩⟩)
      rintro ⟨-, hsmall, hcapital⟩
      rw [hpeek] at hsmall hcapital
      exact x.letter_e.elim hsmall hcapital
    | none =>
      have hbehind : behind = rest := by
        simp [behind, hfraction, hexponent, Number.fractionText, Number.exponentText]
      rw [hbehind]
      exact iff_of_true ⟨h.point, h.small, h.capital⟩ ⟨rfl, rfl⟩

/-- **A number of the grammar is read, and nothing behind it.** -/
theorem parseNumber_text (n : Number) {rest : Bytes} (h : Ends rest) :
    parseNumber (n.text ++ rest) = .ok (numberReading n, rest) := by
  have hexponent := noDigit_exponent n.exponent h.digit
  have hinteger := parseInteger_numeral n.whole_numeral n.leading_zero
    (noDigit_fraction n.fraction hexponent)
  have hfraction := parseFraction_text n.fraction_numeral hexponent
    (point_exponent n.exponent h.point)
  have hrest := parseExponent_text n.exponent h.digit h.small h.capital
  obtain ⟨hlength, htake⟩ := take_text n rest
  rw [parseNumber, drop_sign, hinteger]
  simp only [bind, Except.bind, pure, Except.pure]
  by_cases hshort : n.fraction = none ∧ n.exponent = none ∧ n.text.length ≤ intDigits10
  · obtain ⟨hnone, hnone', hdigits⟩ := hshort
    have hends := (peek_behind n h).mpr ⟨hnone, hnone'⟩
    have hbehind : Number.fractionText n.fraction ++ (Number.exponentText n.exponent ++ rest) =
        rest := by
      rw [hnone, hnone']
      rfl
    rw [hbehind] at hends ⊢
    rw [if_pos ⟨hends.1, hends.2.1, hends.2.2, by rw [hlength]; exact hdigits⟩, htake,
      numberReading_int hnone hnone' hdigits]
  · rw [if_neg, hfraction]
    · simp only [hrest, htake, numberReading_double hshort]
    rintro ⟨hpoint, hsmall, hcapital, hdigits⟩
    obtain ⟨hnone, hnone'⟩ := (peek_behind n h).mp ⟨hpoint, hsmall, hcapital⟩
    have hbehind : Number.fractionText n.fraction ++ (Number.exponentText n.exponent ++ rest) =
        rest := by
      rw [hnone, hnone']
      rfl
    rw [hbehind, hlength] at hdigits
    exact hshort ⟨hnone, hnone', hdigits⟩

/-- **What is read as a number is a number of the grammar.** -/
theorem parseNumber_split {s rest : Bytes} {j : Json} (h : parseNumber s = .ok (j, rest)) :
    ∃ n : Number, s = n.text ++ rest ∧ j = numberReading n := by
  obtain ⟨negative, body, hs, hbody⟩ : ∃ negative body, s = Number.signText negative ++ body ∧
      (if peek s = chr '-' then s.drop 1 else s) = body := by
    cases s with
    | nil => exact ⟨false, [], rfl, rfl⟩
    | cons c s =>
      by_cases hc : c = chr '-'
      · exact ⟨true, s, by rw [hc]; rfl, if_pos hc⟩
      · exact ⟨false, c :: s, rfl, if_neg hc⟩
  rw [parseNumber, hbody] at h
  cases hinteger : parseInteger body with
  | error e =>
    rw [hinteger] at h
    cases h
  | ok behind =>
    obtain ⟨whole, hwhole, hnumeral, hzero, hdigit⟩ := parseInteger_split hinteger
    rw [hinteger] at h
    simp only [bind, Except.bind, pure, Except.pure] at h
    split at h
    · next hshort =>
      obtain ⟨hpoint, hsmall, hcapital, hlength⟩ := hshort
      cases h
      let n : Number := ⟨negative, whole, none, none, hnumeral, hzero, by rintro d ⟨⟩⟩
      have htext : s = n.text ++ rest := by
        rw [hs, hwhole]
        simp [n, Number.text, Number.fractionText, Number.exponentText]
      refine ⟨n, htext, ?_⟩
      obtain ⟨hlength', htake⟩ := take_text n rest
      rw [htext, hlength'] at hlength
      rw [htext, htake, numberReading_int rfl rfl hlength]
    · next hlong =>
      cases hfraction : parseFraction behind with
      | error e =>
        rw [hfraction] at h
        cases h
      | ok behind' =>
        obtain ⟨fraction, hsplit, hdigits, hnone⟩ := parseFraction_split hfraction
        rw [hfraction] at h
        simp only at h
        cases hexponent : parseExponent behind' with
        | error e =>
          rw [hexponent] at h
          cases h
        | ok behind'' =>
          obtain ⟨exponent, hsplit', hnone'⟩ := parseExponent_split hexponent
          rw [hexponent] at h
          simp only [Except.ok.injEq, Prod.mk.injEq] at h
          obtain ⟨rfl, rfl⟩ := h
          let n : Number := ⟨negative, whole, fraction, exponent, hnumeral, hzero, hdigits⟩
          have htext : s = n.text ++ behind'' := by
            rw [hs, hwhole, hsplit, hsplit']
            simp [n, Number.text]
          refine ⟨n, htext, ?_⟩
          obtain ⟨hlength, htake⟩ := take_text n behind''
          rw [htext, htake, numberReading_double]
          rintro ⟨hfraction, hexponent, hdigits⟩
          -- without both, the integer ended where the number does, and was short
          have hfraction' : fraction = none := hfraction
          have hexponent' : exponent = none := hexponent
          subst hfraction' hexponent'
          have hbehind : behind = behind' := hsplit
          have hbehind' : behind' = behind'' := hsplit'
          subst hbehind hbehind'
          rw [htext, hlength] at hlong
          exact hlong ⟨hnone rfl, (hnone' rfl).1, (hnone' rfl).2, hdigits⟩

end PgConsul.Json11
