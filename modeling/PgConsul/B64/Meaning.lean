import Mathlib.Data.Nat.Digits.Defs
import PgConsul.B64.Encode

/-! # What the decoder makes of any text

Characters outside the alphabet are passed over, wherever they stand; those of the alphabet are the
digits of a number to the base 64. The bytes that come out are the digits to the base 256 of the same
number, less the bits that fill no byte.
-/
namespace PgConsul.B64
set_option autoImplicit false
open Foundations

/-! ## Digits -/

/-- The number with the digits `ds` to the base `b`, the most significant digit first, behind the
number `n`. -/
def numberFrom (b n : ℕ) (ds : List ℕ) : ℕ := ds.foldl (fun n d => b * n + d) n

def bytesFrom (n : ℕ) (s : Bytes) : ℕ := numberFrom 256 n (s.map UInt8.toNat)

theorem numberFrom_eq_ofDigits (b n : ℕ) (ds : List ℕ) :
    numberFrom b n ds = b ^ ds.length * n + Nat.ofDigits b ds.reverse := by
  induction ds generalizing n with
  | nil => simp [numberFrom]
  | cons d ds ih =>
    have hstep : numberFrom b n (d :: ds) = numberFrom b (b * n + d) ds := rfl
    rw [hstep, ih, List.reverse_cons, Nat.ofDigits_append, List.length_reverse, List.length_cons,
      Nat.ofDigits_singleton]
    ring

/-- Bytes of one length with one number are the same. -/
theorem bytesFrom_inj {s t : Bytes} (hlen : s.length = t.length)
    (h : bytesFrom 0 s = bytesFrom 0 t) : s = t := by
  have hsmall : ∀ u : Bytes, ∀ d ∈ (u.map UInt8.toNat).reverse, d < 256 := by
    intro u d hd
    obtain ⟨b, -, rfl⟩ := List.mem_map.mp (List.mem_reverse.mp hd)
    exact b.toNat_lt
  simp only [bytesFrom, numberFrom_eq_ofDigits, Nat.mul_zero, Nat.zero_add] at h
  have hdigits := Nat.ofDigits_inj_of_len_eq (by norm_num) (by simp [hlen]) (hsmall s) (hsmall t) h
  exact List.map_injective_iff.mpr (fun a b => UInt8.toNat_inj.mp) (List.reverse_injective hdigits)

/-! ## The sextets of a text -/

/-- The six bits a character stands for. -/
def sextetOf (c : UInt8) : Option ℕ := Base64.alphabet.idxOf? c

/-- The sextets of a text, its other characters passed over. -/
def sextets (s : Bytes) : List ℕ := s.filterMap sextetOf

theorem sextetOf_table : ∀ n < 256, (sextetOf (UInt8.ofNat n)).elim
    (base64DecodeValue (UInt8.ofNat n) < 0 : Bool)
    (fun f => (base64DecodeValue (UInt8.ofNat n) = (f : ℤ) : Bool) && (f < 64 : Bool)) = true := by
  decide +kernel

theorem sextetOf_none {c : UInt8} (h : sextetOf c = none) : base64DecodeValue c < 0 := by
  have htable := sextetOf_table c.toNat c.toNat_lt
  rw [UInt8.ofNat_toNat, h, Option.elim_none, decide_eq_true_eq] at htable
  exact htable

theorem sextetOf_some {c : UInt8} {f : ℕ} (h : sextetOf c = some f) :
    base64DecodeValue c = (f : ℤ) ∧ f < 64 := by
  have htable := sextetOf_table c.toNat c.toNat_lt
  rw [UInt8.ofNat_toNat, h, Option.elim_some, Bool.and_eq_true, decide_eq_true_eq,
    decide_eq_true_eq] at htable
  exact htable

/-! ## The machine between two characters -/

/-- The `bits` bits that are read and fill no byte yet stand on top of `plainchar`. -/
inductive Pending : DecodeState → ℕ → ℕ → Prop where
  | step_a (p : UInt8) : Pending ⟨.step_a, p⟩ 0 0
  | step_b {w : ℕ} (h : w < 2 ^ 6) : Pending ⟨.step_b, UInt8.ofNat (2 ^ 2 * w)⟩ 6 w
  | step_c {w : ℕ} (h : w < 2 ^ 4) : Pending ⟨.step_c, UInt8.ofNat (2 ^ 4 * w)⟩ 4 w
  | step_d {w : ℕ} (h : w < 2 ^ 2) : Pending ⟨.step_d, UInt8.ofNat (2 ^ 6 * w)⟩ 2 w

/-- Six more bits: no bit is lost between the bytes written and those pending. -/
theorem decodeFragment_pending {st : DecodeState} {bits w f : ℕ} (h : Pending st bits w)
    (hf : f < 64) (n : ℕ) :
    ∃ bits' w', Pending (decodeFragment f st).2 bits' w' ∧
      8 * (decodeFragment f st).1.length + bits' = bits + 6 ∧
      bytesFrom n (decodeFragment f st).1 * 2 ^ bits' + w' = 64 * (n * 2 ^ bits + w) + f := by
  obtain ⟨hall, hhigh, hlow, hhigh', hlow', hlast⟩ := fragment_masks f hf
  cases h with
  | step_a p =>
    refine ⟨6, f, ?_, rfl, ?_⟩
    · simp only [decodeFragment, hall]
      exact .step_b hf
    · simp only [decodeFragment, bytesFrom, numberFrom, List.map_nil, List.foldl_nil]
      omega
  | step_b hw =>
    have hbyte := or_byte 2 w (f / 16) (by omega)
    refine ⟨4, f % 16, ?_, rfl, ?_⟩
    · simp only [decodeFragment, hlow]
      exact .step_c (Nat.mod_lt _ (by norm_num))
    · simp only [decodeFragment, hhigh, hbyte, bytesFrom, numberFrom, List.map_cons, List.map_nil,
        List.foldl_cons, List.foldl_nil, UInt8.toNat_ofNat']
      omega
  | step_c hw =>
    have hbyte := or_byte 4 w (f / 4) (by omega)
    refine ⟨2, f % 4, ?_, rfl, ?_⟩
    · simp only [decodeFragment, hlow']
      exact .step_d (Nat.mod_lt _ (by norm_num))
    · simp only [decodeFragment, hhigh', hbyte, bytesFrom, numberFrom, List.map_cons, List.map_nil,
        List.foldl_cons, List.foldl_nil, UInt8.toNat_ofNat']
      omega
  | step_d hw =>
    have hbyte := or_byte 6 w f (by omega)
    refine ⟨0, 0, .step_a 0, rfl, ?_⟩
    simp only [decodeFragment, hlast, hbyte, bytesFrom, numberFrom, List.map_cons, List.map_nil,
      List.foldl_cons, List.foldl_nil, UInt8.toNat_ofNat']
    omega

theorem bytesFrom_append (n : ℕ) (s t : Bytes) :
    bytesFrom n (s ++ t) = bytesFrom (bytesFrom n s) t := by
  rw [bytesFrom, List.map_append, numberFrom, List.foldl_append]
  rfl

/-- **The loop invariant**: what is written and what is pending are the number read. -/
theorem base64DecodeBlock_pending (s : Bytes) {st : DecodeState} {bits w : ℕ}
    (h : Pending st bits w) (n : ℕ) :
    ∃ bits' w', Pending (base64DecodeBlock s st).2 bits' w' ∧
      8 * (base64DecodeBlock s st).1.length + bits' = bits + 6 * (sextets s).length ∧
      bytesFrom n (base64DecodeBlock s st).1 * 2 ^ bits' + w' =
        numberFrom 64 (n * 2 ^ bits + w) (sextets s) := by
  induction s generalizing st bits w n with
  | nil => exact ⟨bits, w, h, by simp [base64DecodeBlock, sextets], rfl⟩
  | cons c s ih =>
    cases hc : sextetOf c with
    | none =>
      have hskip : sextets (c :: s) = sextets s := List.filterMap_cons_none hc
      rw [decodeBlock_skip (sextetOf_none hc), hskip]
      exact ih h n
    | some f =>
      obtain ⟨hvalue, hf⟩ := sextetOf_some hc
      have hmore : sextets (c :: s) = f :: sextets s := List.filterMap_cons_some hc
      obtain ⟨bits₁, w₁, hnow, hlen₁, hnumber₁⟩ := decodeFragment_pending h hf n
      obtain ⟨bits', w', hlater, hlen, hnumber⟩ := ih hnow (bytesFrom n (decodeFragment f st).1)
      have hstep : base64DecodeBlock (c :: s) st =
          ((decodeFragment f st).1 ++ (base64DecodeBlock s (decodeFragment f st).2).1,
            (base64DecodeBlock s (decodeFragment f st).2).2) := by
        rw [base64DecodeBlock, hvalue, if_neg (by omega), Int.toNat_natCast]
      rw [hstep, hmore]
      refine ⟨bits', w', hlater, ?_, ?_⟩
      · rw [List.length_append, List.length_cons]
        omega
      · rw [bytesFrom_append, hnumber, hnumber₁]
        rfl

theorem Pending.bounds {st : DecodeState} {bits w : ℕ} (h : Pending st bits w) :
    bits < 8 ∧ w < 2 ^ bits := by
  cases h with
  | step_a p => decide
  | step_b hw => exact ⟨by decide, hw⟩
  | step_c hw => exact ⟨by decide, hw⟩
  | step_d hw => exact ⟨by decide, hw⟩

/-! ## The whole text -/

theorem decode_number (s : Bytes) :
    (decode s).length = 6 * (sextets s).length / 8 ∧
      bytesFrom 0 (decode s) =
        numberFrom 64 0 (sextets s) / 2 ^ (6 * (sextets s).length % 8) := by
  obtain ⟨bits, w, hpending, hlen, hnumber⟩ := base64DecodeBlock_pending s (.step_a 0) 0
  obtain ⟨hbits, hw⟩ := hpending.bounds
  have hstart : (⟨.step_a, 0⟩ : DecodeState) = base64InitDecodestate := rfl
  rw [hstart, ← decode_eq] at hlen hnumber
  have hleft : bits = 6 * (sextets s).length % 8 := by omega
  refine ⟨by omega, ?_⟩
  rw [← hleft]
  rw [Nat.zero_mul, Nat.zero_add] at hnumber
  rw [← hnumber, Nat.mul_comm, Nat.mul_add_div (Nat.two_pow_pos bits), Nat.div_eq_of_lt hw,
    Nat.add_zero]

/-- **What is decoded depends on the characters of the alphabet alone**: `t` comes out exactly when
it has as many bytes as their bits fill, and is their number without the bits left over. -/
theorem decode_eq_iff (s t : Bytes) :
    decode s = t ↔ t.length = 6 * (sextets s).length / 8 ∧
      bytesFrom 0 t = numberFrom 64 0 (sextets s) / 2 ^ (6 * (sextets s).length % 8) := by
  obtain ⟨hlength, hvalue⟩ := decode_number s
  constructor
  · rintro rfl
    exact ⟨hlength, hvalue⟩
  · rintro ⟨hlength', hvalue'⟩
    exact bytesFrom_inj (hlength.trans hlength'.symm) (hvalue.trans hvalue'.symm)

/-- The calls a loop makes: the block read and the state it is entered with. -/
def decodeCalls : List Bytes → DecodeState → List (Bytes × DecodeState)
  | [], _ => []
  | code :: reads, st => (code, st) :: decodeCalls reads (base64DecodeBlock code st).2

def encodeCalls : List Bytes → EncodeState → List (Bytes × EncodeState)
  | [], _ => []
  | plaintext :: reads, st =>
    (plaintext, st) :: encodeCalls reads (base64EncodeBlock plaintext st).2

theorem length_streamReadsFrom {n fuel : ℕ} {s : Bytes} (hn : 0 < n) (hfuel : s.length ≤ fuel) :
    ∀ block ∈ streamReadsFrom n fuel s, block.length ≤ n := by
  induction fuel generalizing s with
  | zero =>
    intro block hblock
    rw [streamReadsFrom, List.mem_singleton] at hblock
    subst hblock
    omega
  | succ fuel ih =>
    intro block hblock
    rw [streamReadsFrom] at hblock
    split at hblock
    · next hshort =>
      rw [List.mem_singleton.mp hblock]
      omega
    · next hlong =>
      rcases List.mem_cons.mp hblock with rfl | hblock
      · exact List.length_take_le n s
      · refine ih ?_ block hblock
        rw [List.length_drop]
        omega

theorem length_streamReads {n : ℕ} (hn : 0 < n) (s : Bytes) :
    ∀ block ∈ streamReads n s, block.length ≤ n := length_streamReadsFrom hn le_rfl

theorem length_sextets (s : Bytes) : (sextets s).length ≤ s.length := List.length_filterMap_le ..

/-- A call writes fewer bytes than it reads may be; the cell behind them is written too. -/
theorem decodeCalls_fit {reads : List Bytes} {n : ℕ} (h : ∀ code ∈ reads, code.length ≤ n)
    {st : DecodeState} {bits w : ℕ} (hpending : Pending st bits w) :
    ∀ call ∈ decodeCalls reads st,
      8 * (base64DecodeBlock call.1 call.2).1.length ≤ 6 * n + 6 := by
  induction reads generalizing st bits w with
  | nil => exact fun call hcall => absurd hcall List.not_mem_nil
  | cons code reads ih =>
    rw [List.forall_mem_cons] at h
    obtain ⟨bits', w', hnext, hlen, -⟩ := base64DecodeBlock_pending code hpending 0
    intro call hcall
    rcases List.mem_cons.mp hcall with rfl | hcall
    · have hfew := length_sextets code
      have hbits : bits ≤ 6 := by cases hpending <;> omega
      dsimp only
      omega
    · exact ih h.2 hnext call hcall

/-- What a state of the encoder may still write beyond five characters for three bytes. -/
def EncodeStep.excess : EncodeStep → ℕ
  | step_A => 0
  | step_B => 2
  | step_C => 4

theorem encodeFragment_length (c : UInt8) (st : EncodeState) :
    3 * (encodeFragment c st).1.length + (encodeFragment c st).2.step.excess ≤
      5 + st.step.excess := by
  obtain ⟨step, result, stepcount⟩ := st
  cases step with
  | step_A => exact le_rfl
  | step_B => exact le_rfl
  | step_C =>
    rw [encodeFragment]
    dsimp only
    split
    · exact le_rfl
    · simp [EncodeStep.excess]

theorem base64EncodeBlock_length (s : Bytes) (st : EncodeState) :
    3 * (base64EncodeBlock s st).1.length + (base64EncodeBlock s st).2.step.excess ≤
      5 * s.length + st.step.excess := by
  induction s generalizing st with
  | nil => simp [base64EncodeBlock]
  | cons c s ih =>
    have hnow := encodeFragment_length c st
    have hlater := ih (encodeFragment c st).2
    simp only [base64EncodeBlock, List.length_append, List.length_cons]
    omega

theorem encodeCalls_fit {reads : List Bytes} {n : ℕ} (h : ∀ plaintext ∈ reads, plaintext.length ≤ n)
    (st : EncodeState) :
    ∀ call ∈ encodeCalls reads st, 3 * (base64EncodeBlock call.1 call.2).1.length ≤ 5 * n + 4 := by
  induction reads generalizing st with
  | nil => exact fun call hcall => absurd hcall List.not_mem_nil
  | cons plaintext reads ih =>
    rw [List.forall_mem_cons] at h
    intro call hcall
    rcases List.mem_cons.mp hcall with rfl | hcall
    · have hblock := base64EncodeBlock_length plaintext st
      have hexcess : st.step.excess ≤ 4 := by cases st.step <;> decide
      dsimp only
      omega
    · exact ih h.2 _ call hcall

theorem base64EncodeBlockend_length (st : EncodeState) :
    (base64EncodeBlockend st).length ≤ 4 := by
  unfold base64EncodeBlockend
  cases st.step <;> simp

/-- **No call of either loop leaves its buffers**, whatever the input: the decoder's are of
`BUFFERSIZE` bytes each, and the encoder writes into twice as many. -/
theorem streams_stay_in_buffers (input : Bytes) :
    (∀ call ∈ decodeCalls (streamReads BUFFERSIZE input) base64InitDecodestate,
        (base64DecodeBlock call.1 call.2).1.length < BUFFERSIZE) ∧
      (∀ call ∈ encodeCalls (streamReads BUFFERSIZE input) base64InitEncodestate,
        (base64EncodeBlock call.1 call.2).1.length ≤ 2 * BUFFERSIZE) ∧
      ∀ st, (base64EncodeBlockend st).length ≤ 2 * BUFFERSIZE := by
  have hreads := length_streamReads (n := BUFFERSIZE) (by decide) input
  have hsize : BUFFERSIZE = 4096 := rfl
  refine ⟨fun call hcall => ?_, fun call hcall => ?_, fun st => ?_⟩
  · have hfit := decodeCalls_fit hreads (.step_a 0) call hcall
    omega
  · have hfit := encodeCalls_fit hreads base64InitEncodestate call hcall
    omega
  · have hend := base64EncodeBlockend_length st
    omega

end PgConsul.B64
