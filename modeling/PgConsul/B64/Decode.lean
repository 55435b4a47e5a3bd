import PgConsul.Foundations.Base64
import PgConsul.Foundations.Lines
import PgConsul.Foundations.Stream

/-! # The base64 decoder

`base64_decode_block` is a state machine that is entered again for every block of the input and
keeps its step and the byte begun in `base64_decodestate`.
-/
namespace PgConsul.B64
set_option autoImplicit false
open Foundations

inductive DecodeStep where
  | step_a | step_b | step_c | step_d
deriving DecidableEq

structure DecodeState where
  step : DecodeStep
  plainchar : UInt8
deriving DecidableEq

def base64InitDecodestate : DecodeState := ⟨.step_a, 0⟩

def decoding : List ℤ :=
  [62, -1, -1, -1, 63, 52, 53, 54, 55, 56, 57, 58, 59, 60, 61, -1, -1, -1, -2, -1, -1, -1,
    0, 1, 2, 3, 4, 5, 6, 7, 8, 9, 10, 11, 12, 13, 14, 15, 16, 17, 18, 19, 20, 21, 22, 23, 24, 25,
    -1, -1, -1, -1, -1, -1,
    26, 27, 28, 29, 30, 31, 32, 33, 34, 35, 36, 37, 38, 39, 40, 41, 42, 43, 44, 45, 46, 47, 48, 49,
    50, 51]

/-- `value_in` is a signed char, so the subtraction wraps at 8 bits. -/
def base64DecodeValue (valueIn : UInt8) : ℤ :=
  let v := Int.bmod (valueIn.toNat - 43) 256
  if v < 0 ∨ (decoding.length : ℤ) ≤ v then -1 else decoding.getD v.toNat (-1)

/-- One fragment that is not skipped: the plaintext it completes and the state behind it. Behind
`step_d` the machine stands on a cell it has not written; `step_a` sets that cell whole. -/
def decodeFragment (fragment : ℕ) (st : DecodeState) : Bytes × DecodeState :=
  match st.step with
  | .step_a => ([], ⟨.step_b, UInt8.ofNat ((fragment &&& 0x03f) <<< 2)⟩)
  | .step_b =>
    ([st.plainchar ||| UInt8.ofNat ((fragment &&& 0x030) >>> 4)],
      ⟨.step_c, UInt8.ofNat ((fragment &&& 0x00f) <<< 4)⟩)
  | .step_c =>
    ([st.plainchar ||| UInt8.ofNat ((fragment &&& 0x03c) >>> 2)],
      ⟨.step_d, UInt8.ofNat ((fragment &&& 0x003) <<< 6)⟩)
  | .step_d => ([st.plainchar ||| UInt8.ofNat (fragment &&& 0x03f)], ⟨.step_a, 0⟩)

def base64DecodeBlock : Bytes → DecodeState → Bytes × DecodeState
  | [], st => ([], st)
  | c :: codeIn, st =>
    let fragment := base64DecodeValue c
    if fragment < 0 then base64DecodeBlock codeIn st
    else
      let now := decodeFragment fragment.toNat st
      let later := base64DecodeBlock codeIn now.2
      (now.1 ++ later.1, later.2)

def BUFFERSIZE : ℕ := 4096

def decodeReads : List Bytes → DecodeState → Bytes
  | [], _ => []
  | code :: reads, st =>
    let r := base64DecodeBlock code st
    r.1 ++ decodeReads reads r.2

/-- `decoder::decode` from one stream to another. -/
def decode (input : Bytes) : Bytes :=
  decodeReads (streamReads BUFFERSIZE input) base64InitDecodestate

/-! ## The block cuts do not matter -/

theorem base64DecodeBlock_append (u v : Bytes) (st : DecodeState) :
    base64DecodeBlock (u ++ v) st =
      ((base64DecodeBlock u st).1 ++ (base64DecodeBlock v (base64DecodeBlock u st).2).1,
        (base64DecodeBlock v (base64DecodeBlock u st).2).2) := by
  induction u generalizing st with
  | nil => rfl
  | cons c u ih =>
    simp only [List.cons_append, base64DecodeBlock]
    split
    · exact ih st
    · simp only [ih, List.append_assoc]

theorem decodeReads_eq (reads : List Bytes) (st : DecodeState) :
    decodeReads reads st = (base64DecodeBlock reads.flatten st).1 := by
  induction reads generalizing st with
  | nil => rfl
  | cons code reads ih => rw [decodeReads, ih, List.flatten_cons, base64DecodeBlock_append]

theorem decode_eq (input : Bytes) :
    decode input = (base64DecodeBlock input base64InitDecodestate).1 := by
  rw [decode, decodeReads_eq, streamReads_flatten]

/-! ## Decoding the RFC 4648 text -/

theorem base64DecodeValue_sextetChar :
    ∀ f < 64, base64DecodeValue (Base64.sextetChar f) = (f : ℤ) := by
  decide +kernel

theorem base64DecodeValue_pad : base64DecodeValue (chr '=') < 0 := by decide

theorem decodeBlock_sextet {f : ℕ} (hf : f < 64) (codeIn : Bytes) (st : DecodeState) :
    base64DecodeBlock (Base64.sextetChar f :: codeIn) st =
      ((decodeFragment f st).1 ++ (base64DecodeBlock codeIn (decodeFragment f st).2).1,
        (base64DecodeBlock codeIn (decodeFragment f st).2).2) := by
  rw [base64DecodeBlock, base64DecodeValue_sextetChar f hf]
  simp only [Int.toNat_natCast]
  rw [if_neg (by omega)]

theorem decodeBlock_skip {c : UInt8} (hc : base64DecodeValue c < 0) (codeIn : Bytes)
    (st : DecodeState) : base64DecodeBlock (c :: codeIn) st = base64DecodeBlock codeIn st := by
  rw [base64DecodeBlock]
  simp only [if_pos hc]

theorem or_byte (i hi lo : ℕ) (hlo : lo < 2 ^ i) :
    UInt8.ofNat (2 ^ i * hi) ||| UInt8.ofNat lo = UInt8.ofNat (2 ^ i * hi + lo) := by
  rw [Nat.two_pow_add_eq_or_of_lt hlo]
  simp

theorem fragment_masks : ∀ f < 64,
    (f &&& 0x03f) <<< 2 = 2 ^ 2 * f ∧ (f &&& 0x030) >>> 4 = f / 16 ∧
      (f &&& 0x00f) <<< 4 = 2 ^ 4 * (f % 16) ∧ (f &&& 0x03c) >>> 2 = f / 4 ∧
      (f &&& 0x003) <<< 6 = 2 ^ 6 * (f % 4) ∧ f &&& 0x03f = f := by
  decide

theorem decodeFragment_first {f₀ f₁ : ℕ} (h₀ : f₀ < 64) (h₁ : f₁ < 64) (p : UInt8) :
    decodeFragment f₁ (decodeFragment f₀ ⟨.step_a, p⟩).2 =
      ([UInt8.ofNat (4 * f₀ + f₁ / 16)], ⟨.step_c, UInt8.ofNat (2 ^ 4 * (f₁ % 16))⟩) := by
  have hor := or_byte 2 f₀ (f₁ / 16) (by omega)
  simp only [decodeFragment, (fragment_masks f₀ h₀).1, (fragment_masks f₁ h₁).2.1,
    (fragment_masks f₁ h₁).2.2.1, hor]
  norm_num

theorem decodeFragment_second (f₁ : ℕ) {f₂ : ℕ} (h₂ : f₂ < 64) :
    decodeFragment f₂ ⟨.step_c, UInt8.ofNat (2 ^ 4 * (f₁ % 16))⟩ =
      ([UInt8.ofNat (16 * (f₁ % 16) + f₂ / 4)], ⟨.step_d, UInt8.ofNat (2 ^ 6 * (f₂ % 4))⟩) := by
  have hor := or_byte 4 (f₁ % 16) (f₂ / 4) (by omega)
  simp only [decodeFragment, (fragment_masks f₂ h₂).2.2.2.1, (fragment_masks f₂ h₂).2.2.2.2.1, hor]
  norm_num

theorem decodeFragment_third (f₂ : ℕ) {f₃ : ℕ} (h₃ : f₃ < 64) :
    decodeFragment f₃ ⟨.step_d, UInt8.ofNat (2 ^ 6 * (f₂ % 4))⟩ =
      ([UInt8.ofNat (64 * (f₂ % 4) + f₃)], ⟨.step_a, 0⟩) := by
  have hor := or_byte 6 (f₂ % 4) f₃ (by omega)
  simp only [decodeFragment, (fragment_masks f₃ h₃).2.2.2.2.2, hor]
  norm_num

/-- From `step_a` the machine reads the text of `v` as `v`; the padding is skipped and the bits of
a last group that fill no byte are dropped. -/
theorem base64DecodeBlock_encode (v : Bytes) (p : UInt8) :
    (base64DecodeBlock (Base64.encode v) ⟨.step_a, p⟩).1 = v := by
  have hlt := Base64.sextet_lt
  fun_induction Base64.encode v generalizing p with
  | case1 => rfl
  | case2 a n =>
    have hbytes := Base64.group_bytes a 0 0
    rw [decodeBlock_sextet (hlt n 0), decodeBlock_sextet (hlt n 1),
      decodeBlock_skip base64DecodeValue_pad, decodeBlock_skip base64DecodeValue_pad,
      decodeFragment_first (hlt n 0) (hlt n 1), hbytes.1]
    simp [decodeFragment, base64DecodeBlock]
  | case3 a b n =>
    have hbytes := Base64.group_bytes a b 0
    rw [decodeBlock_sextet (hlt n 0), decodeBlock_sextet (hlt n 1), decodeBlock_sextet (hlt n 2),
      decodeBlock_skip base64DecodeValue_pad, decodeFragment_first (hlt n 0) (hlt n 1),
      decodeFragment_second _ (hlt n 2), hbytes.1, hbytes.2.1]
    simp [decodeFragment, base64DecodeBlock]
  | case4 a b c rest n ih =>
    have hbytes := Base64.group_bytes a b c
    rw [decodeBlock_sextet (hlt n 0), decodeBlock_sextet (hlt n 1), decodeBlock_sextet (hlt n 2),
      decodeBlock_sextet (hlt n 3), decodeFragment_first (hlt n 0) (hlt n 1),
      decodeFragment_second _ (hlt n 2), decodeFragment_third _ (hlt n 3), ih,
      hbytes.1, hbytes.2.1, hbytes.2.2]
    simp [decodeFragment]

/-- **The decoder inverts the RFC 4648 text of every byte string.** -/
theorem decode_encode (v : Bytes) : decode (Base64.encode v) = v := by
  rw [decode_eq]
  exact base64DecodeBlock_encode v 0

/-! ## Line breaks -/

theorem base64DecodeValue_newline : base64DecodeValue (chr '\n') < 0 := by decide

theorem base64DecodeBlock_inserted {s t : Bytes} (h : Inserted (chr '\n') s t)
    (st : DecodeState) : base64DecodeBlock t st = base64DecodeBlock s st := by
  induction h generalizing st with
  | nil => rfl
  | keep b _ ih => simp only [base64DecodeBlock, ih]
  | insert _ ih => rw [decodeBlock_skip base64DecodeValue_newline, ih]

/-- **Wherever the text is broken and wherever the reads cut it, the value comes out.** -/
theorem decodeReads_wrapped {v t : Bytes} (h : Inserted (chr '\n') (Base64.encode v) t)
    {reads : List Bytes} (hreads : reads.flatten = t) :
    decodeReads reads base64InitDecodestate = v := by
  rw [decodeReads_eq, hreads, base64DecodeBlock_inserted h]
  exact base64DecodeBlock_encode v 0

end PgConsul.B64
