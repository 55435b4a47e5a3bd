import PgConsul.Json11.NumberText
import PgConsul.Json11.ParserErrors
import PgConsul.Json11.StringRoundTrip

/-! # The spelling of a string

`parse_string` accepts every sequence of plain bytes and escapes up to the closing quote, and what it
returns is the string of these pieces. It keeps the code point of the last `\u` escape back, which
here is one more piece in front of those still to be read.
-/
namespace PgConsul.Json11
set_option autoImplicit false
open Foundations JsonString JsonText

/-! ## Code points -/

theorem encodeUtf8_eq {n : ℕ} (h : n < 0x200000) : encodeUtf8 (n : ℤ) = utf8 n := by
  have hmask : ∀ m : ℕ, m &&& 0x3F = m % 64 := fun m => Nat.and_two_pow_sub_one_eq_mod m 6
  have hcont : ∀ m : ℕ, m % 64 ||| 0x80 = 0x80 + m % 64 := by
    intro m
    rw [(utf8_marks _ (Nat.mod_lt m (by norm_num))).1, Nat.add_comm]
  unfold encodeUtf8 utf8
  rw [if_neg (by omega)]
  simp only [Int.toNat_natCast, hmask, hcont, Nat.shiftRight_eq_div_pow, Nat.reducePow]
  by_cases h1 : n < 0x80
  · rw [if_pos h1, if_pos h1]
  · rw [if_neg h1, if_neg h1]
    by_cases h2 : n < 0x800
    · have hlead := (utf8_marks (n / 64) (by omega)).2.1 (by omega)
      rw [if_pos h2, if_pos h2, hlead, Nat.add_comm 192]
    · rw [if_neg h2, if_neg h2]
      by_cases h3 : n < 0x10000
      · have hlead := (utf8_marks (n / 4096) (by omega)).2.2.1 (by omega)
        rw [if_pos h3, if_pos h3, hlead, Nat.add_comm 224]
      · have hlead := (utf8_marks (n / 262144) (by omega)).2.2.2 (by omega)
        rw [if_neg h3, if_neg h3, hlead, Nat.add_comm 240]

/-- The four digits of an accepted `\u` escape. -/
theorem escapedCodepoint_some {a b c d : UInt8} {codepoint : ℤ}
    (h : escapedCodepoint a b c d = some codepoint) :
    ∃ n : ℕ, (Hex4.mk a b c d).value = some n ∧ codepoint = n := by
  cases hx : (Hex4.mk a b c d).value with
  | some n =>
    have hcode := escapedCodepoint_eq hx
    rw [h, Option.some.injEq] at hcode
    exact ⟨n, rfl, hcode⟩
  | none =>
    exfalso
    have hvalue : ∀ c : UInt8, hexDigitValue c = hexValue c := by
      intro c
      have h := hexDigitValue_eq c.toNat c.toNat_lt
      rwa [UInt8.ofNat_toNat] at h
    unfold escapedCodepoint at h
    simp only [hvalue] at h
    unfold Hex4.value at hx
    split at h
    · next ha hb hc hd => simp only [ha, hb, hc, hd, reduceCtorEq] at hx
    · cases h

/-! ## Strings -/

/-- The code point kept back, as a piece that is not written yet. -/
def heldPieces : Option ℕ → List Piece
  | none => []
  | some n => [.unit n]

def heldCode : Option ℕ → ℤ
  | none => -1
  | some n => n

/-- A code point kept back comes from four hexadecimal digits. -/
def Held (held : Option ℕ) : Prop := ∀ n, held = some n → n < 0x10000

theorem held_none : Held none := by
  rintro n ⟨⟩

theorem held_unit {x : Hex4} {n : ℕ} (hx : x.value = some n) : Held (some n) := by
  rintro m ⟨⟩
  exact (Hex4.value_lt hx).1

theorem content_held {held : Option ℕ} (h : Held held) :
    content (heldPieces held) = encodeUtf8 (heldCode held) := by
  cases held with
  | none => rfl
  | some n =>
    have hn := h n rfl
    rw [heldPieces, heldCode, encodeUtf8_eq (by omega), content, content, List.append_nil]
    rintro m ps ⟨⟩

theorem content_held_byte {held : Option ℕ} (h : Held held) (b : UInt8) (ps : List Piece) :
    content (heldPieces held ++ .byte b :: ps) = encodeUtf8 (heldCode held) ++ b :: content ps := by
  cases held with
  | none => rfl
  | some n =>
    have hn := h n rfl
    rw [heldPieces, heldCode, encodeUtf8_eq (by omega), List.singleton_append, content_unit_byte]

/-- `m` is the second half of the surrogate pair that the code point kept back started. -/
def Completes (held : Option ℕ) (m : ℕ) : Prop := ∃ n, held = some n ∧ IsPair n m

theorem completes_iff (held : Option ℕ) (m : ℕ) :
    Completes held m ↔ (0xD800 ≤ heldCode held ∧ heldCode held ≤ 0xDBFF) ∧
      0xDC00 ≤ (m : ℤ) ∧ (m : ℤ) ≤ 0xDFFF := by
  cases held with
  | none => exact iff_of_false (by rintro ⟨n, ⟨⟩, -⟩) (by rintro ⟨⟨h, -⟩, -⟩; cases h)
  | some n =>
    simp only [Completes, Option.some.injEq, exists_eq_left', IsPair, heldCode]
    omega

theorem content_held_unit {held : Option ℕ} (h : Held held) {m : ℕ} (hm : ¬ Completes held m)
    (ps : List Piece) :
    content (heldPieces held ++ .unit m :: ps) =
      encodeUtf8 (heldCode held) ++ content (.unit m :: ps) := by
  cases held with
  | none => rfl
  | some n =>
    have hn := h n rfl
    have hpair : ¬ IsPair n m := fun hp => hm ⟨n, rfl, hp⟩
    rw [heldPieces, heldCode, encodeUtf8_eq (by omega), List.singleton_append,
      content_unit_unit hpair]

theorem pairValue_eq {n m : ℕ} (h : IsPair n m) :
    ((n : ℤ) - 0xD800) * 1024 + ((m : ℤ) - 0xDC00) + 0x10000 = pairValue n m ∧
      pairValue n m < 0x200000 := by
  unfold IsPair at h
  unfold pairValue
  omega

theorem simpleEscape_some {e c : UInt8} (h : simpleEscape e = some c) : (e, c) ∈ shortEscapes := by
  unfold simpleEscape at h
  split at h
  · next he => subst he; cases h; decide
  split at h
  · next he => subst he; cases h; decide
  split at h
  · next he => subst he; cases h; decide
  split at h
  · next he => subst he; cases h; decide
  split at h
  · next he => subst he; cases h; decide
  split at h
  · next he =>
    rcases he with he | he | he <;> subst he <;> cases h <;> decide
  · cases h

/-- **What is read as a string is a spelling of it** up to the closing quote. -/
theorem parseString_split {s str rest out : Bytes} {last : ℤ}
    (h : parseString s last out = .ok (str, rest)) {held : Option ℕ} (hheld : Held held)
    (hlast : last = heldCode held) :
    ∃ u ps, s = u ++ chr '"' :: rest ∧ Pieces u ps ∧ str = out ++ content (heldPieces held ++ ps) := by
  fun_induction parseString s last out generalizing held with
  | case1 => cases h
  | case2 s last out =>
    cases h
    refine ⟨[], [], rfl, .nil, ?_⟩
    rw [List.append_nil, content_held hheld, hlast]
  | case3 => cases h
  | case4 ch s last out hquote hcontrol hescape ih =>
    obtain ⟨u, ps, rfl, hpieces, rfl⟩ := ih h held_none rfl
    have hplain : IsPlain ch := by
      refine ⟨?_, hquote, hescape⟩
      rw [UInt8.le_iff_toNat_le] at hcontrol ⊢
      have h20 : (0x20 : UInt8).toNat = 32 := rfl
      have h1f : (0x1f : UInt8).toNat = 31 := rfl
      omega
    refine ⟨ch :: u, .byte ch :: ps, rfl, .cons (.plain hplain) hpieces, ?_⟩
    rw [content_held_byte hheld, hlast]
    simp [heldPieces]
  | case5 => cases h
  | case6 => cases h
  | case7 ch last out _ _ hescape a b c d s codepoint hcode hpair ih =>
    obtain ⟨m, hx, rfl⟩ := escapedCodepoint_some hcode
    obtain ⟨u, ps, rfl, hpieces, rfl⟩ := ih h held_none rfl
    subst hlast
    obtain ⟨n, rfl, hnm⟩ := (completes_iff held m).mpr hpair
    obtain ⟨hvalue, hlt⟩ := pairValue_eq hnm
    have hch := not_not.mp hescape
    subst hch
    refine ⟨escape ⟨a, b, c, d⟩ ++ u, .unit m :: ps, rfl, .cons (.unit hx) hpieces, ?_⟩
    have hcontent : content (heldPieces (some n) ++ .unit m :: ps) =
        utf8 (pairValue n m) ++ content ps := content_pair hnm ps
    rw [hcontent, heldCode, hvalue, encodeUtf8_eq hlt, List.append_assoc]
    rfl
  | case8 ch last out _ _ hescape a b c d s codepoint hcode hpair ih =>
    obtain ⟨m, hx, rfl⟩ := escapedCodepoint_some hcode
    obtain ⟨u, ps, rfl, hpieces, rfl⟩ := ih h (held_unit hx) rfl
    subst hlast
    have hsingle := mt (completes_iff held m).mp hpair
    have hch := not_not.mp hescape
    subst hch
    refine ⟨escape ⟨a, b, c, d⟩ ++ u, .unit m :: ps, rfl, .cons (.unit hx) hpieces, ?_⟩
    rw [content_held_unit hheld hsingle, List.append_assoc]
    rfl
  | case9 => cases h
  | case10 ch last out _ _ hescape e s _ c hc ih =>
    obtain ⟨u, ps, rfl, hpieces, rfl⟩ := ih h held_none rfl
    have hch := not_not.mp hescape
    subst hch
    refine ⟨chr '\\' :: e :: u, .byte c :: ps, rfl, .cons (.short (simpleEscape_some hc)) hpieces, ?_⟩
    rw [content_held_byte hheld, hlast]
    simp [heldPieces]
  | case11 => cases h

theorem parseString_completes {x : Hex4} {n m : ℕ} (hx : x.value = some m) (h : IsPair n m)
    (s out : Bytes) :
    parseString (escape x ++ s) n out = parseString s (-1) (out ++ utf8 (pairValue n m)) := by
  obtain ⟨⟨hhigh, hhigh'⟩, hlow, hlow'⟩ := id h
  obtain ⟨high, rfl⟩ : ∃ high, n = 0xD800 + high := ⟨n - 0xD800, by omega⟩
  obtain ⟨low, rfl⟩ : ∃ low, m = 0xDC00 + low := ⟨m - 0xDC00, by omega⟩
  have hvalue : pairValue (0xD800 + high) (0xDC00 + low) = 0x10000 + high * 0x400 + low := by
    unfold pairValue
    omega
  rw [parseString_low hx (by omega) (by omega), ← hvalue, encodeUtf8_eq (pairValue_eq h).2]

/-- **Every spelling of a string is read** up to the closing quote. -/
theorem parseString_pieces {u : Bytes} {ps : List Piece} (h : Pieces u ps) (rest : Bytes)
    {held : Option ℕ} (hheld : Held held) (out : Bytes) :
    parseString (u ++ chr '"' :: rest) (heldCode held) out =
      .ok (out ++ content (heldPieces held ++ ps), rest) := by
  induction h generalizing held out with
  | nil =>
    rw [List.nil_append, parseString.eq_def, List.append_nil, content_held hheld]
    simp
  | cons head _ ih =>
    rw [List.append_assoc]
    cases head with
    | @plain b hb =>
      rw [List.singleton_append, parseString_plain hb, content_held_byte hheld]
      have hrest := ih held_none (out ++ encodeUtf8 (heldCode held) ++ [b])
      rw [heldCode] at hrest
      rw [hrest]
      simp [heldPieces]
    | @short e b he =>
      rw [List.cons_append, List.singleton_append, parseString_short he, content_held_byte hheld]
      have hrest := ih held_none (out ++ encodeUtf8 (heldCode held) ++ [b])
      rw [heldCode] at hrest
      rw [hrest]
      simp [heldPieces]
    | @unit x m hx =>
      by_cases hpair : Completes held m
      · obtain ⟨n, rfl, hnm⟩ := hpair
        have hrest := ih held_none (out ++ utf8 (pairValue n m))
        rw [heldCode] at hrest
        rw [heldCode, parseString_completes hx hnm, hrest, heldPieces, heldPieces,
          List.singleton_append, content_pair hnm, List.append_assoc]
        rfl
      · rw [parseString_unit hx (mt (completes_iff held m).mpr hpair),
          content_held_unit hheld hpair]
        have hrest := ih (held_unit hx) (out ++ encodeUtf8 (heldCode held))
        rw [heldCode] at hrest
        rw [hrest, List.append_assoc]
        rfl

end PgConsul.Json11
