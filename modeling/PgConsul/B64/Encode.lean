import PgConsul.Foundations.Base64
import PgConsul.Foundations.Lines
import PgConsul.Foundations.Stream
import PgConsul.B64.Decode

/-! # The base64 encoder

`base64_encode_block` keeps its step, the six bits begun and the number of groups on the current
line in `base64_encodestate`; after `CHARS_PER_LINE` characters it breaks the line.
-/
namespace PgConsul.B64
set_option autoImplicit false
open Foundations

inductive EncodeStep where
  | step_A | step_B | step_C
deriving DecidableEq

structure EncodeState where
  step : EncodeStep
  result : UInt8
  stepcount : ℕ
deriving DecidableEq

def CHARS_PER_LINE : ℕ := 72

def base64InitEncodestate : EncodeState := ⟨.step_A, 0, 0⟩

def base64EncodeValue (valueIn : UInt8) : UInt8 :=
  if 63 < valueIn then chr '=' else Base64.alphabet.getD valueIn.toNat 0

/-- One plaintext byte: the characters it completes and the state behind it. -/
def encodeFragment (fragment : UInt8) (st : EncodeState) : Bytes × EncodeState :=
  match st.step with
  | .step_A =>
    ([base64EncodeValue ((fragment &&& 0x0fc) >>> 2)],
      { st with step := .step_B, result := (fragment &&& 0x003) <<< 4 })
  | .step_B =>
    ([base64EncodeValue (st.result ||| (fragment &&& 0x0f0) >>> 4)],
      { st with step := .step_C, result := (fragment &&& 0x00f) <<< 2 })
  | .step_C =>
    let last := fragment &&& 0x03f
    let pair := [base64EncodeValue (st.result ||| (fragment &&& 0x0c0) >>> 6),
      base64EncodeValue last]
    if st.stepcount + 1 = CHARS_PER_LINE / 4 then (pair ++ [chr '\n'], ⟨.step_A, last, 0⟩)
    else (pair, ⟨.step_A, last, st.stepcount + 1⟩)

def base64EncodeBlock : Bytes → EncodeState → Bytes × EncodeState
  | [], st => ([], st)
  | c :: plaintextIn, st =>
    let now := encodeFragment c st
    let later := base64EncodeBlock plaintextIn now.2
    (now.1 ++ later.1, later.2)

def base64EncodeBlockend (st : EncodeState) : Bytes :=
  match st.step with
  | .step_B => [base64EncodeValue st.result, chr '=', chr '=', chr '\n']
  | .step_C => [base64EncodeValue st.result, chr '=', chr '\n']
  | .step_A => [chr '\n']

def encodeReads : List Bytes → EncodeState → Bytes
  | [], st => base64EncodeBlockend st
  | plaintext :: reads, st =>
    let r := base64EncodeBlock plaintext st
    r.1 ++ encodeReads reads r.2

/-- `encoder::encode` from one stream to another. -/
def encode (input : Bytes) : Bytes :=
  encodeReads (streamReads BUFFERSIZE input) base64InitEncodestate

/-! ## The block cuts do not matter -/

theorem base64EncodeBlock_append (u v : Bytes) (st : EncodeState) :
    base64EncodeBlock (u ++ v) st =
      ((base64EncodeBlock u st).1 ++ (base64EncodeBlock v (base64EncodeBlock u st).2).1,
        (base64EncodeBlock v (base64EncodeBlock u st).2).2) := by
  induction u generalizing st with
  | nil => rfl
  | cons c u ih => simp only [List.cons_append, base64EncodeBlock, ih, List.append_assoc]

/-- What the encoder still writes from a state on, the final break included. -/
def encodeRest (v : Bytes) (st : EncodeState) : Bytes :=
  (base64EncodeBlock v st).1 ++ base64EncodeBlockend (base64EncodeBlock v st).2

theorem encodeRest_append (u v : Bytes) (st : EncodeState) :
    encodeRest (u ++ v) st =
      (base64EncodeBlock u st).1 ++ encodeRest v (base64EncodeBlock u st).2 := by
  simp only [encodeRest, base64EncodeBlock_append, List.append_assoc]

theorem encodeReads_eq (reads : List Bytes) (st : EncodeState) :
    encodeReads reads st = encodeRest reads.flatten st := by
  induction reads generalizing st with
  | nil => rfl
  | cons plaintext reads ih => rw [encodeReads, ih, List.flatten_cons, encodeRest_append]

theorem encode_eq (input : Bytes) : encode input = encodeRest input base64InitEncodestate := by
  rw [encode, encodeReads_eq, streamReads_flatten]

/-! ## One group -/

theorem base64EncodeValue_ofNat : ∀ f < 64,
    base64EncodeValue (UInt8.ofNat f) = Base64.sextetChar f := by
  decide +kernel

theorem plaintext_masks : ∀ n < 256,
    (UInt8.ofNat n &&& 0x0fc) >>> 2 = UInt8.ofNat (n / 4) ∧
      (UInt8.ofNat n &&& 0x003) <<< 4 = UInt8.ofNat (2 ^ 4 * (n % 4)) ∧
      (UInt8.ofNat n &&& 0x0f0) >>> 4 = UInt8.ofNat (n / 16) ∧
      (UInt8.ofNat n &&& 0x00f) <<< 2 = UInt8.ofNat (2 ^ 2 * (n % 16)) ∧
      (UInt8.ofNat n &&& 0x0c0) >>> 6 = UInt8.ofNat (n / 64) ∧
      UInt8.ofNat n &&& 0x03f = UInt8.ofNat (n % 64) := by
  decide +kernel

theorem group_sextets (a b c : UInt8) :
    Base64.sextet (Base64.group a b c) 0 = a.toNat / 4 ∧
      Base64.sextet (Base64.group a b c) 1 = 2 ^ 4 * (a.toNat % 4) + b.toNat / 16 ∧
      Base64.sextet (Base64.group a b c) 2 = 2 ^ 2 * (b.toNat % 16) + c.toNat / 64 ∧
      Base64.sextet (Base64.group a b c) 3 = c.toNat % 64 := by
  have ha := a.toNat_lt
  have hb := b.toNat_lt
  have hc := c.toNat_lt
  simp only [Base64.sextet, Base64.group]
  norm_num
  omega

/-- The character of the six bits `hi` begun and `lo` read. -/
theorem base64EncodeValue_or {i hi lo : ℕ} (hlo : lo < 2 ^ i) (h : 2 ^ i * hi + lo < 64) :
    base64EncodeValue (UInt8.ofNat (2 ^ i * hi) ||| UInt8.ofNat lo) =
      Base64.sextetChar (2 ^ i * hi + lo) := by
  rw [or_byte i hi lo hlo, base64EncodeValue_ofNat _ h]

theorem encodeFragment_first (a b c : UInt8) (r : UInt8) (k : ℕ) :
    encodeFragment a ⟨.step_A, r, k⟩ =
      ([Base64.sextetChar (Base64.sextet (Base64.group a b c) 0)],
        ⟨.step_B, UInt8.ofNat (2 ^ 4 * (a.toNat % 4)), k⟩) := by
  have ha := a.toNat_lt
  obtain ⟨hhigh, hlow, -⟩ := plaintext_masks a.toNat ha
  rw [UInt8.ofNat_toNat] at hhigh hlow
  simp only [encodeFragment, hhigh, hlow]
  rw [base64EncodeValue_ofNat _ (by omega), (group_sextets a b c).1]

theorem encodeFragment_second (a b c : UInt8) (k : ℕ) :
    encodeFragment b ⟨.step_B, UInt8.ofNat (2 ^ 4 * (a.toNat % 4)), k⟩ =
      ([Base64.sextetChar (Base64.sextet (Base64.group a b c) 1)],
        ⟨.step_C, UInt8.ofNat (2 ^ 2 * (b.toNat % 16)), k⟩) := by
  have hb := b.toNat_lt
  obtain ⟨-, -, hhigh, hlow, -⟩ := plaintext_masks b.toNat hb
  rw [UInt8.ofNat_toNat] at hhigh hlow
  simp only [encodeFragment, hhigh, hlow]
  rw [base64EncodeValue_or (by omega) (by omega), (group_sextets a b c).2.1]

/-- The group number on the line, and the break behind the last one. -/
def lineBreak (k : ℕ) : Bytes := if k + 1 = CHARS_PER_LINE / 4 then [chr '\n'] else []

def nextGroup (k : ℕ) : ℕ := if k + 1 = CHARS_PER_LINE / 4 then 0 else k + 1

theorem encodeFragment_third (a b c : UInt8) (k : ℕ) :
    encodeFragment c ⟨.step_C, UInt8.ofNat (2 ^ 2 * (b.toNat % 16)), k⟩ =
      ([Base64.sextetChar (Base64.sextet (Base64.group a b c) 2),
          Base64.sextetChar (Base64.sextet (Base64.group a b c) 3)] ++ lineBreak k,
        ⟨.step_A, UInt8.ofNat (c.toNat % 64), nextGroup k⟩) := by
  have hc := c.toNat_lt
  obtain ⟨-, -, -, -, hhigh, hlow⟩ := plaintext_masks c.toNat hc
  rw [UInt8.ofNat_toNat] at hhigh hlow
  obtain ⟨-, -, hthird, hfourth⟩ := group_sextets a b c
  simp only [encodeFragment, hhigh, hlow]
  rw [base64EncodeValue_or (by omega) (by omega), base64EncodeValue_ofNat _ (by omega), hthird,
    hfourth, lineBreak, nextGroup]
  split <;> simp

theorem base64EncodeBlock_group (a b c : UInt8) (rest : Bytes) (r : UInt8) (k : ℕ) :
    base64EncodeBlock (a :: b :: c :: rest) ⟨.step_A, r, k⟩ =
      (Base64.encode [a, b, c] ++ lineBreak k ++
          (base64EncodeBlock rest ⟨.step_A, UInt8.ofNat (c.toNat % 64), nextGroup k⟩).1,
        (base64EncodeBlock rest ⟨.step_A, UInt8.ofNat (c.toNat % 64), nextGroup k⟩).2) := by
  rw [base64EncodeBlock, encodeFragment_first a b c, base64EncodeBlock,
    encodeFragment_second a b c, base64EncodeBlock, encodeFragment_third a b c]
  simp [Base64.encode]

/-! ## Lines -/

/-- On a line that is not full the encoder writes the text and the final break. -/
theorem encodeRest_short (v : Bytes) (r : UInt8) (k : ℕ)
    (h : 3 * k + v.length < 3 * (CHARS_PER_LINE / 4)) :
    encodeRest v ⟨.step_A, r, k⟩ = Base64.encode v ++ [chr '\n'] := by
  fun_induction Base64.encode v generalizing r k with
  | case1 => rfl
  | case2 a n =>
    have hsextet : Base64.sextet n 1 = 2 ^ 4 * (a.toNat % 4) := (group_sextets a 0 0).2.1
    have hlast : base64EncodeValue (UInt8.ofNat (2 ^ 4 * (a.toNat % 4))) =
        Base64.sextetChar (Base64.sextet n 1) := by
      rw [base64EncodeValue_ofNat _ (by omega), hsextet]
    rw [encodeRest, base64EncodeBlock, encodeFragment_first a 0 0, base64EncodeBlock]
    simp only [base64EncodeBlockend, hlast, n, List.append_nil, List.cons_append, List.nil_append]
  | case3 a b n =>
    have hsextet : Base64.sextet n 2 = 2 ^ 2 * (b.toNat % 16) := (group_sextets a b 0).2.2.1
    have hlast : base64EncodeValue (UInt8.ofNat (2 ^ 2 * (b.toNat % 16))) =
        Base64.sextetChar (Base64.sextet n 2) := by
      rw [base64EncodeValue_ofNat _ (by omega), hsextet]
    rw [encodeRest, base64EncodeBlock, encodeFragment_first a b 0, base64EncodeBlock,
      encodeFragment_second a b 0, base64EncodeBlock]
    simp only [base64EncodeBlockend, hlast, n, List.append_nil, List.cons_append, List.nil_append]
  | case4 a b c rest n ih =>
    have hk : k + 1 ≠ CHARS_PER_LINE / 4 := by
      simp only [List.length_cons] at h
      omega
    have hrest : 3 * (k + 1) + rest.length < 3 * (CHARS_PER_LINE / 4) := by
      simp only [List.length_cons] at h
      omega
    have hblock := base64EncodeBlock_group a b c rest r k
    simp only [lineBreak, nextGroup, if_neg hk] at hblock
    have hnext := ih (UInt8.ofNat (c.toNat % 64)) (k + 1) hrest
    rw [encodeRest] at hnext
    rw [encodeRest, hblock, List.append_assoc, hnext]
    simp [Base64.encode, n]

/-- The bytes that fill a line are written with a break behind them, and the next line starts. -/
theorem base64EncodeBlock_line (v : Bytes) (r : UInt8) (k : ℕ) (hv : v ≠ [])
    (h : 3 * k + v.length = 3 * (CHARS_PER_LINE / 4)) :
    ∃ r', base64EncodeBlock v ⟨.step_A, r, k⟩ =
      (Base64.encode v ++ [chr '\n'], ⟨.step_A, r', 0⟩) := by
  fun_induction Base64.encode v generalizing r k with
  | case1 => exact absurd rfl hv
  | case2 a n =>
    simp only [List.length_cons, List.length_nil] at h
    omega
  | case3 a b n =>
    simp only [List.length_cons, List.length_nil] at h
    omega
  | case4 a b c rest n ih =>
    have hblock := base64EncodeBlock_group a b c rest r k
    simp only [List.length_cons] at h
    by_cases hrest : rest = []
    · subst hrest
      have hk : k + 1 = CHARS_PER_LINE / 4 := by
        simp only [List.length_nil] at h
        omega
      simp only [lineBreak, nextGroup, if_pos hk] at hblock
      refine ⟨UInt8.ofNat (c.toNat % 64), hblock.trans ?_⟩
      simp [base64EncodeBlock, Base64.encode, n]
    · have hpos := List.length_pos_of_ne_nil hrest
      have hk : k + 1 ≠ CHARS_PER_LINE / 4 := by omega
      simp only [lineBreak, nextGroup, if_neg hk] at hblock
      obtain ⟨r', hnext⟩ := ih (UInt8.ofNat (c.toNat % 64)) (k + 1) hrest (by omega)
      refine ⟨r', hblock.trans ?_⟩
      rw [hnext]
      simp [Base64.encode, n]

def finalBreak (v : Bytes) : Bytes := if 54 ∣ v.length then [chr '\n'] else []

/-- At the start of a line: every line is written with its break, and one more break follows when
the last line is full. -/
theorem encodeRest_eq (v : Bytes) (r : UInt8) :
    encodeRest v ⟨.step_A, r, 0⟩ =
      (lines CHARS_PER_LINE (Base64.encode v)).flatMap (· ++ [chr '\n']) ++ finalBreak v := by
  induction hlen : v.length using Nat.strongRecOn generalizing v r with
  | ind l ih =>
    have hline : 0 < CHARS_PER_LINE := by decide
    by_cases hshort : v.length < 54
    · rw [encodeRest_short v r 0 (by simpa [CHARS_PER_LINE] using hshort)]
      by_cases hv : v = []
      · subst hv
        simp [Base64.encode, lines_nil hline, finalBreak]
      · have hpos := List.length_pos_of_ne_nil hv
        have hle : (Base64.encode v).length ≤ CHARS_PER_LINE := by
          rw [Base64.length_encode, CHARS_PER_LINE]
          omega
        have hne : Base64.encode v ≠ [] := by
          rw [← List.length_pos_iff_ne_nil, Base64.length_encode]
          omega
        have hlast : ¬ 54 ∣ v.length := by omega
        rw [lines_short hne hle, finalBreak, if_neg hlast]
        simp
    · have hfull : (v.take 54).length = 54 := by
        rw [List.length_take]
        omega
      have hrest : (v.drop 54).length = v.length - 54 := List.length_drop
      have hne : v.take 54 ≠ [] := by
        rw [← List.length_pos_iff_ne_nil, hfull]
        decide
      obtain ⟨r', hblock⟩ := base64EncodeBlock_line (v.take 54) r 0 hne
        (by rw [hfull, CHARS_PER_LINE])
      have htext : (Base64.encode (v.take 54)).length = CHARS_PER_LINE := by
        rw [Base64.length_encode, hfull, CHARS_PER_LINE]
      have hfinal : finalBreak v = finalBreak (v.drop 54) := by
        rw [finalBreak, finalBreak, hrest]
        refine if_congr ?_ rfl rfl
        omega
      have hcut : encodeRest v ⟨.step_A, r, 0⟩ =
          Base64.encode (v.take 54) ++ [chr '\n'] ++ encodeRest (v.drop 54) ⟨.step_A, r', 0⟩ := by
        have happend := encodeRest_append (v.take 54) (v.drop 54) ⟨.step_A, r, 0⟩
        rwa [List.take_append_drop, hblock] at happend
      have hencode : Base64.encode v =
          Base64.encode (v.take 54) ++ Base64.encode (v.drop 54) := by
        rw [← Base64.encode_append (by rw [hfull]; decide), List.take_append_drop]
      rw [hcut, ih _ (by omega) (v.drop 54) r' rfl, hencode, lines_append hline htext, hfinal]
      simp

theorem encode_lines (v : Bytes) :
    encode v =
      (lines CHARS_PER_LINE (Base64.encode v)).flatMap (· ++ [chr '\n']) ++ finalBreak v := by
  rw [encode_eq]
  exact encodeRest_eq v 0

end PgConsul.B64
