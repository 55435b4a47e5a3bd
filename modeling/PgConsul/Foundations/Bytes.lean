import Mathlib.Data.Nat.Digits.Lemmas
import Mathlib.Tactic.IntervalCases

/-! # Byte strings and decimal numerals

`ascii` and `chr` spell literals, `decimal` is the numeral of a natural number, and `splitLast` cuts
a string at the last occurrence of a separator byte.
-/
namespace Foundations
set_option autoImplicit false

abbrev Bytes := List UInt8

def chr (c : Char) : UInt8 := UInt8.ofNat c.toNat

/-- The bytes of an ASCII string literal. -/
def ascii (s : String) : Bytes := s.toList.map chr

/-! ## Decimal numerals -/

/-- The digit byte of `d < 10`. -/
def digitByte (d : ℕ) : UInt8 := UInt8.ofNat (48 + d)

/-- The decimal numeral of `n`, most significant digit first. -/
def decimal (n : ℕ) : Bytes :=
  if n = 0 then [digitByte 0] else (Nat.digits 10 n).reverse.map digitByte

/-- The decimal numeral of an integer, as `%d` writes it. -/
def decimalInt (i : ℤ) : Bytes :=
  if i < 0 then chr '-' :: decimal i.natAbs else decimal i.natAbs

def isDigit (b : UInt8) : Bool := chr '0' ≤ b && b ≤ chr '9'

theorem isDigit_iff {b : UInt8} : isDigit b = true ↔ 48 ≤ b.toNat ∧ b.toNat ≤ 57 := by
  rw [isDigit, Bool.and_eq_true, decide_eq_true_eq, decide_eq_true_eq, UInt8.le_iff_toNat_le,
    UInt8.le_iff_toNat_le]
  rfl

/-- The test of `takeWhile` and `dropWhile` up to the byte `c`. -/
theorem forall_ne_of_not_mem {c : UInt8} {s : Bytes} (h : c ∉ s) :
    ∀ b ∈ s, decide (b ≠ c) = true := by
  intro b hb
  rw [decide_eq_true_eq]
  rintro rfl
  exact h hb

theorem digitByte_isDigit {d : ℕ} (h : d < 10) : isDigit (digitByte d) = true := by
  interval_cases d <;> decide

theorem digitByte_inj {d e : ℕ} (hd : d < 10) (he : e < 10) (h : digitByte d = digitByte e) :
    d = e := by
  have hv := congrArg UInt8.toNat h
  simp only [digitByte, UInt8.toNat_ofNat'] at hv
  omega

theorem digits_map_inj : ∀ (ds es : List ℕ), (∀ d ∈ ds, d < 10) → (∀ e ∈ es, e < 10) →
    ds.map digitByte = es.map digitByte → ds = es
  | [], [], _, _, _ => rfl
  | [], _ :: _, _, _, h => by simp at h
  | _ :: _, [], _, _, h => by simp at h
  | d :: ds, e :: es, hd, he, h => by
    simp only [List.map_cons, List.cons.injEq] at h
    have hde := digitByte_inj (hd d List.mem_cons_self) (he e List.mem_cons_self) h.1
    have hrest := digits_map_inj ds es (fun x hx => hd x (List.mem_cons_of_mem d hx))
      (fun x hx => he x (List.mem_cons_of_mem e hx)) h.2
    rw [hde, hrest]

theorem decimal_isDigit (n : ℕ) : ∀ b ∈ decimal n, isDigit b = true := by
  intro b hb
  unfold decimal at hb
  split at hb
  · rw [List.mem_singleton] at hb
    subst hb
    decide
  · obtain ⟨d, hd, rfl⟩ := List.mem_map.mp hb
    exact digitByte_isDigit (Nat.digits_lt_base (by norm_num) (List.mem_reverse.mp hd))

theorem decimal_zero_iff (n : ℕ) : decimal n = [digitByte 0] ↔ n = 0 := by
  constructor
  · intro h
    by_contra hn
    rw [decimal, if_neg hn] at h
    have hd : Nat.digits 10 n = [0] := by
      have := digits_map_inj _ [0]
        (fun d hd => Nat.digits_lt_base (by norm_num) (List.mem_reverse.mp hd)) (by simp) h
      simpa using congrArg List.reverse this
    have hlast := Nat.getLast_digit_ne_zero 10 hn
    simp [hd] at hlast
  · rintro rfl
    rfl

theorem decimal_inj {n m : ℕ} (h : decimal n = decimal m) : n = m := by
  by_cases hn : n = 0
  · subst hn
    exact ((decimal_zero_iff m).mp h.symm).symm
  · by_cases hm : m = 0
    · subst hm
      exact absurd ((decimal_zero_iff n).mp h) hn
    · rw [decimal, if_neg hn, decimal, if_neg hm] at h
      have hd := digits_map_inj _ _
        (fun d hd => Nat.digits_lt_base (by norm_num) (List.mem_reverse.mp hd))
        (fun d hd => Nat.digits_lt_base (by norm_num) (List.mem_reverse.mp hd)) h
      exact Nat.digits_inj_iff.mp (List.reverse_injective hd)

theorem not_mem_decimal {b : UInt8} (h : isDigit b = false) (n : ℕ) : b ∉ decimal n := by
  intro hb
  rw [decimal_isDigit n b hb] at h
  exact Bool.noConfusion h

/-! ## Reading numerals -/

def digitValue (b : UInt8) : ℕ := b.toNat - 48

/-- The number a string of digits stands for, leading zeros allowed. -/
def numeral (s : Bytes) : ℕ := Nat.ofDigits 10 (s.reverse.map digitValue)

def IsNumeral (s : Bytes) : Prop := s ≠ [] ∧ ∀ b ∈ s, isDigit b = true

instance (s : Bytes) : Decidable (IsNumeral s) :=
  decidable_of_iff (s ≠ [] ∧ s.all isDigit = true) (by rw [IsNumeral, List.all_eq_true])

theorem digitValue_lt {b : UInt8} (h : isDigit b = true) : digitValue b < 10 := by
  have hrange := isDigit_iff.mp h
  rw [digitValue]
  omega

theorem digitValue_digitByte {d : ℕ} (h : d < 10) : digitValue (digitByte d) = d := by
  interval_cases d <;> rfl

theorem decimal_ne_nil (n : ℕ) : decimal n ≠ [] := by
  rw [decimal]
  split
  · exact List.cons_ne_nil _ _
  · next hn => simp [Nat.digits_ne_nil_iff_ne_zero.mpr hn]

theorem decimal_isNumeral (n : ℕ) : IsNumeral (decimal n) := ⟨decimal_ne_nil n, decimal_isDigit n⟩

theorem numeral_decimal (n : ℕ) : numeral (decimal n) = n := by
  rw [decimal]
  split
  · next hn => exact hn.symm
  · have hdigits : ((Nat.digits 10 n).map digitByte).map digitValue = Nat.digits 10 n := by
      rw [List.map_map]
      refine (List.map_congr_left fun d hd => ?_).trans (List.map_id _)
      exact digitValue_digitByte (Nat.digits_lt_base (by norm_num) hd)
    rw [numeral, ← List.map_reverse, List.reverse_reverse, hdigits, Nat.ofDigits_digits]

theorem numeral_append (s t : Bytes) :
    numeral (s ++ t) = numeral s * 10 ^ t.length + numeral t := by
  rw [numeral, numeral, numeral, List.reverse_append, List.map_append, Nat.ofDigits_append,
    List.length_map, List.length_reverse]
  ring

/-- Reading the digits one by one from the front. -/
theorem foldl_digitValue (s : Bytes) (n : ℕ) :
    s.foldl (fun n c => n * 10 + digitValue c) n = n * 10 ^ s.length + numeral s := by
  induction s generalizing n with
  | nil => simp [numeral]
  | cons c s ih =>
    have hc : numeral [c] = digitValue c := by simp [numeral]
    have hcons := numeral_append [c] s
    rw [List.singleton_append, hc] at hcons
    rw [List.foldl_cons, ih, hcons, List.length_cons, pow_succ]
    ring

theorem numeral_lt {s : Bytes} (h : ∀ b ∈ s, isDigit b = true) : numeral s < 10 ^ s.length := by
  have hdigits : ∀ d ∈ s.reverse.map digitValue, d < 10 := by
    intro d hd
    obtain ⟨b, hb, rfl⟩ := List.mem_map.mp hd
    exact digitValue_lt (h b (List.mem_reverse.mp hb))
  have hlt := Nat.ofDigits_lt_base_pow_length (by norm_num) hdigits
  rwa [List.length_map, List.length_reverse] at hlt

theorem numeral_zeros (s : Bytes) (k : ℕ) :
    numeral (s ++ List.replicate k (chr '0')) = numeral s * 10 ^ k := by
  have hzeros : numeral (List.replicate k (chr '0')) = 0 := by
    rw [numeral, List.reverse_replicate, List.map_replicate]
    exact Nat.ofDigits_replicate_zero
  rw [numeral_append, hzeros, List.length_replicate, Nat.add_zero]

theorem decimal_length {n : ℕ} (hn : n ≠ 0) : (decimal n).length = Nat.log 10 n + 1 := by
  rw [decimal, if_neg hn, List.length_map, List.length_reverse, Nat.length_digits 10 n (by norm_num) hn]

/-- Only zero starts with a zero. -/
theorem decimal_leading {n : ℕ} {rest : Bytes} (h : decimal n = chr '0' :: rest) : n = 0 := by
  by_contra hn
  have hlength := decimal_length hn
  have hrest : ∀ b ∈ rest, isDigit b = true := by
    intro b hb
    exact decimal_isDigit n b (h ▸ List.mem_cons_of_mem _ hb)
  have hvalue : numeral rest = n := by
    have hzero : numeral [chr '0'] = 0 := by decide
    have hcons := numeral_append [chr '0'] rest
    rw [List.singleton_append, ← h, numeral_decimal, hzero, Nat.zero_mul, Nat.zero_add] at hcons
    exact hcons.symm
  have hlt := numeral_lt hrest
  have hle := Nat.pow_log_le_self 10 hn
  rw [h, List.length_cons] at hlength
  rw [hvalue, Nat.succ_injective hlength] at hlt
  omega

/-! ## Runs of digits -/

/-- What stands behind a run of digits. -/
def NoDigit (s : Bytes) : Prop := ∀ c ∈ s.head?, isDigit c = false

theorem takeWhile_digits {digits rest : Bytes} (h : ∀ b ∈ digits, isDigit b = true)
    (hrest : NoDigit rest) : (digits ++ rest).takeWhile isDigit = digits := by
  rw [List.takeWhile_append_of_pos h]
  cases rest with
  | nil => simp
  | cons c rest => simp [hrest c rfl]

theorem dropWhile_digits {digits rest : Bytes} (h : ∀ b ∈ digits, isDigit b = true)
    (hrest : NoDigit rest) : (digits ++ rest).dropWhile isDigit = rest := by
  rw [List.dropWhile_append_of_pos h]
  cases rest with
  | nil => rfl
  | cons c rest => simp [hrest c rfl]

theorem noDigit_dropWhile (s : Bytes) : NoDigit (s.dropWhile isDigit) := by
  intro c hc
  induction s with
  | nil => cases hc
  | cons d s ih =>
    rw [List.dropWhile_cons] at hc
    split at hc
    · exact ih hc
    · next hd =>
      cases hc
      exact Bool.eq_false_iff.mpr hd

/-! ## Cutting at a separator -/

def splitLast (c : UInt8) : Bytes → Option (Bytes × Bytes)
  | [] => none
  | b :: s =>
    match splitLast c s with
    | some (u, v) => some (b :: u, v)
    | none => if b = c then some ([], s) else none

theorem splitLast_none {c : UInt8} {s : Bytes} (h : c ∉ s) : splitLast c s = none := by
  induction s with
  | nil => rfl
  | cons b s ih =>
    have hs : c ∉ s := fun hc => h (List.mem_cons_of_mem b hc)
    have hb : b ≠ c := fun hbc => h (hbc ▸ List.mem_cons_self)
    simp [splitLast, ih hs, hb]

theorem splitLast_sep {c : UInt8} (u : Bytes) {v : Bytes} (hv : c ∉ v) :
    splitLast c (u ++ c :: v) = some (u, v) := by
  induction u with
  | nil => simp [splitLast, splitLast_none hv]
  | cons b u ih => simp [splitLast, ih]

/-- Two strings cut at their last `c` agree exactly when both parts do. -/
theorem append_sep_inj {c : UInt8} {u u' v v' : Bytes} (hv : c ∉ v) (hv' : c ∉ v')
    (h : u ++ c :: v = u' ++ c :: v') : u = u' ∧ v = v' := by
  have hs := congrArg (splitLast c) h
  rw [splitLast_sep u hv, splitLast_sep u' hv'] at hs
  simpa using hs

end Foundations
