import PgConsul.Foundations.JsonString
import PgConsul.Json11.Dump
import PgConsul.Json11.Parser

/-! # Strings through the writer and the parser

`parse_string` reads every spelling of a string, and `dump` writes one. The parser keeps the code
point of the last `\u` escape back until the next character shows that no surrogate pair follows.
-/
namespace PgConsul.Json11
set_option autoImplicit false
open Foundations JsonString

/-! ## Code points -/

theorem hexDigitValue_eq : ∀ n < 256,
    hexDigitValue (UInt8.ofNat n) = hexValue (UInt8.ofNat n) := by
  decide +kernel

theorem escapedCodepoint_eq {x : Hex4} {n : ℕ} (hx : x.value = some n) :
    escapedCodepoint x.a x.b x.c x.d = some (n : ℤ) := by
  have hvalue : ∀ c : UInt8, hexDigitValue c = hexValue c := by
    intro c
    have h := hexDigitValue_eq c.toNat c.toNat_lt
    rwa [UInt8.ofNat_toNat] at h
  unfold Hex4.value at hx
  unfold escapedCodepoint
  simp only [hvalue]
  split at hx
  · next a b c d _ _ _ _ =>
    cases hx
    simp only [*]
  · cases hx

theorem utf8_marks : ∀ x < 64, x ||| 0x80 = x + 128 ∧ (x < 32 → x ||| 0xC0 = x + 192) ∧
    (x < 16 → x ||| 0xE0 = x + 224) ∧ (x < 8 → x ||| 0xF0 = x + 240) := by
  decide +kernel

/-- `encode_utf8` writes the UTF-8 bytes of a character. -/
theorem encodeUtf8_char (ch : Char) : encodeUtf8 (ch.toNat : ℤ) = String.utf8EncodeChar ch := by
  have hval : ch.val.toNat = ch.toNat := rfl
  have hrange : ch.toNat < 0x110000 := by
    have hvalid : ch.toNat.isValidChar := ch.valid
    unfold Nat.isValidChar at hvalid
    omega
  have hmask : ∀ m : ℕ, m &&& 0x3F = m % 64 := fun m => Nat.and_two_pow_sub_one_eq_mod m 6
  have hcont : ∀ m : ℕ, m % 64 ||| 0x80 = m % 64 + 128 :=
    fun m => (utf8_marks _ (Nat.mod_lt m (by norm_num))).1
  unfold encodeUtf8 String.utf8EncodeChar
  rw [if_neg (by omega)]
  simp only [Int.toNat_natCast, hval, hmask, hcont, Nat.shiftRight_eq_div_pow, Nat.reducePow]
  by_cases h1 : ch.toNat < 0x80
  · rw [if_pos h1, if_pos (Nat.le_of_lt_succ h1)]
  · have h1' : ¬ ch.toNat ≤ 127 := by omega
    rw [if_neg h1, if_neg h1']
    by_cases h2 : ch.toNat < 0x800
    · have hlead := (utf8_marks (ch.toNat / 64) (by omega)).2.1 (by omega)
      have hmod : ch.toNat / 64 % 32 = ch.toNat / 64 := Nat.mod_eq_of_lt (by omega)
      rw [if_pos h2, if_pos (Nat.le_of_lt_succ h2), hlead, hmod]
    · have h2' : ¬ ch.toNat ≤ 2047 := by omega
      rw [if_neg h2, if_neg h2']
      by_cases h3 : ch.toNat < 0x10000
      · have hlead := (utf8_marks (ch.toNat / 4096) (by omega)).2.2.1 (by omega)
        have hmod : ch.toNat / 4096 % 16 = ch.toNat / 4096 := Nat.mod_eq_of_lt (by omega)
        rw [if_pos h3, if_pos (Nat.le_of_lt_succ h3), hlead, hmod]
      · have h3' : ¬ ch.toNat ≤ 65535 := by omega
        have hlead := (utf8_marks (ch.toNat / 262144) (by omega)).2.2.2 (by omega)
        have hmod : ch.toNat / 262144 % 8 = ch.toNat / 262144 := Nat.mod_eq_of_lt (by omega)
        rw [if_neg h3, if_neg h3', hlead, hmod]

/-! ## One character -/

/-- The code point kept back starts no surrogate pair. -/
def Settled (last : ℤ) : Prop := ¬ (0xD800 ≤ last ∧ last ≤ 0xDBFF)

theorem settled_none : Settled (-1) := by
  rintro ⟨h, -⟩
  omega

theorem settled_char (ch : Char) : Settled (ch.toNat : ℤ) := by
  have hvalid : ch.toNat.isValidChar := ch.valid
  unfold Nat.isValidChar at hvalid
  rintro ⟨hlow, hhigh⟩
  omega

theorem encodeUtf8_none : encodeUtf8 (-1) = [] := by decide

theorem parseString_plain {b : UInt8} (hb : IsPlain b) (s : Bytes) (last : ℤ) (out : Bytes) :
    parseString (b :: s) last out = parseString s (-1) (out ++ encodeUtf8 last ++ [b]) := by
  obtain ⟨hge, hquote, hescape⟩ := hb
  have hcontrol : ¬ b ≤ 0x1f := by
    rw [UInt8.le_iff_toNat_le] at hge ⊢
    have h20 : (0x20 : UInt8).toNat = 32 := rfl
    have h1f : (0x1f : UInt8).toNat = 31 := rfl
    omega
  rw [parseString.eq_def]
  simp only [hquote, hcontrol, if_false, ne_eq, hescape, not_false_eq_true, if_true]

theorem simpleEscape_eq : ∀ p ∈ shortEscapes, p.1 ≠ chr 'u' ∧ simpleEscape p.1 = some p.2 := by
  intro p hp
  simp only [shortEscapes, List.mem_cons, List.not_mem_nil, or_false] at hp
  rcases hp with rfl | rfl | rfl | rfl | rfl | rfl | rfl | rfl <;> exact ⟨by decide, rfl⟩

theorem parseString_short {e b : UInt8} (he : (e, b) ∈ shortEscapes) (s : Bytes) (last : ℤ)
    (out : Bytes) :
    parseString (chr '\\' :: e :: s) last out =
      parseString s (-1) (out ++ encodeUtf8 last ++ [b]) := by
  obtain ⟨hu, hvalue⟩ := simpleEscape_eq _ he
  have hquote : chr '\\' ≠ chr '"' := by decide
  have hcontrol : ¬ chr '\\' ≤ 0x1f := by decide
  rw [parseString.eq_def]
  simp only [hquote, hcontrol, if_false, ne_eq, not_true_eq_false, hu, hvalue]

theorem parseString_unit {x : Hex4} {n : ℕ} (hx : x.value = some n) {last : ℤ}
    (h : ¬ ((0xD800 ≤ last ∧ last ≤ 0xDBFF) ∧ 0xDC00 ≤ (n : ℤ) ∧ (n : ℤ) ≤ 0xDFFF)) (s : Bytes)
    (out : Bytes) :
    parseString (escape x ++ s) last out = parseString s n (out ++ encodeUtf8 last) := by
  have hquote : chr '\\' ≠ chr '"' := by decide
  have hcontrol : ¬ chr '\\' ≤ 0x1f := by decide
  rw [escape, Hex4.text, parseString.eq_def]
  simp only [List.cons_append, List.nil_append, hquote, hcontrol, if_false, ne_eq,
    not_true_eq_false, if_true, escapedCodepoint_eq hx, h]

/-- The second half of a surrogate pair completes the code point kept back. -/
theorem parseString_low {y : Hex4} {high low : ℕ} (hy : y.value = some (0xDC00 + low))
    (hhigh : high < 0x400) (hlow : low < 0x400) (s out : Bytes) :
    parseString (escape y ++ s) (0xD800 + high : ℕ) out =
      parseString s (-1) (out ++ encodeUtf8 (0x10000 + high * 0x400 + low : ℕ)) := by
  have hquote : chr '\\' ≠ chr '"' := by decide
  have hcontrol : ¬ chr '\\' ≤ 0x1f := by decide
  have hpair : (0xD800 ≤ ((0xD800 + high : ℕ) : ℤ) ∧ ((0xD800 + high : ℕ) : ℤ) ≤ 0xDBFF) ∧
      0xDC00 ≤ ((0xDC00 + low : ℕ) : ℤ) ∧ ((0xDC00 + low : ℕ) : ℤ) ≤ 0xDFFF := by omega
  have hcode : (((0xD800 + high : ℕ) : ℤ) - 0xD800) * 1024 + (((0xDC00 + low : ℕ) : ℤ) - 0xDC00) +
      0x10000 = (0x10000 + high * 0x400 + low : ℕ) := by omega
  rw [escape, Hex4.text, parseString.eq_def]
  simp only [List.cons_append, List.nil_append, hquote, hcontrol, if_false, ne_eq,
    not_true_eq_false, if_true, escapedCodepoint_eq hy]
  rw [if_pos hpair, hcode]

/-! ## The loop -/

/-- The parser reads a spelling as its string; the induction carries the code point kept back. -/
theorem parseString_spells {u s : Bytes} (h : Spells u s) (rest : Bytes) {last : ℤ}
    (hlast : Settled last) (out : Bytes) :
    parseString (u ++ chr '"' :: rest) last out = .ok (out ++ encodeUtf8 last ++ s, rest) := by
  induction h generalizing last out with
  | nil =>
    rw [List.nil_append, parseString.eq_def]
    simp
  | plain hb _ ih =>
    rw [List.cons_append, parseString_plain hb, ih settled_none, encodeUtf8_none]
    simp
  | short he _ ih =>
    rw [List.cons_append, List.cons_append, parseString_short he, ih settled_none, encodeUtf8_none]
    simp
  | unit hx _ ih =>
    rw [List.append_assoc, parseString_unit hx fun hpair => hlast hpair.1, ih (settled_char _),
      encodeUtf8_char]
    simp
  | pair hx hy hhigh hlow hch _ ih =>
    rw [List.append_assoc, List.append_assoc, parseString_unit hx fun hpair => hlast hpair.1,
      parseString_low hy hhigh hlow, ih settled_none, encodeUtf8_none, ← hch, encodeUtf8_char]
    simp

/-! ## Whole texts -/

theorem isSpace_of_isWhitespace {b : UInt8} (h : IsWhitespace b) : isSpace b = true := by
  rcases h with rfl | rfl | rfl | rfl <;> decide

theorem consumeWhitespace_blank {blank : Bytes} (h : ∀ b ∈ blank, IsWhitespace b) (s : Bytes) :
    consumeWhitespace (blank ++ s) = consumeWhitespace s :=
  List.dropWhile_append_of_pos fun b hb => isSpace_of_isWhitespace (h b hb)

theorem getNextToken_blank {blank : Bytes} (h : ∀ b ∈ blank, IsWhitespace b) (s : Bytes) :
    getNextToken (blank ++ s) = getNextToken s := by
  rw [getNextToken, getNextToken, consumeWhitespace_blank h]

theorem getNextToken_cons {c : UInt8} (h : isSpace c = false) (s : Bytes) :
    getNextToken (c :: s) = .ok (c, s) := by
  simp [getNextToken, consumeWhitespace, h]

theorem parseJson_string {text u rest s : Bytes}
    (htoken : getNextToken text = .ok (chr '"', u))
    (hstring : parseString u (-1) [] = .ok (s, rest)) (levels : ℕ) :
    parseJson (levels + 1) text = .ok (.string s, rest) := by
  have hchar : ¬ (chr '"' = chr '-' ∨ isDigit (chr '"') = true) := by decide
  have hliteral : chr '"' ≠ chr 't' ∧ chr '"' ≠ chr 'f' ∧ chr '"' ≠ chr 'n' := by decide
  simp only [parseJson, htoken, bind, Except.bind]
  rw [if_neg hchar, if_neg hliteral.1, if_neg hliteral.2.1, if_neg hliteral.2.2,
    if_pos True.intro, hstring]
  rfl

/-- **Every JSON text of a string parses to the string.** -/
theorem parseText_text {text s : Bytes} (t : JsonString.Text text s) :
    parseText text = .ok (.string s) := by
  obtain ⟨front, u, behind, rfl, hfront, hbehind, hspells⟩ := t
  have hblank : consumeWhitespace behind = [] := by
    have h := consumeWhitespace_blank hbehind []
    rwa [List.append_nil] at h
  have hspace : isSpace (chr '"') = false := by decide
  have htoken : getNextToken (front ++ chr '"' :: (u ++ chr '"' :: behind)) =
      .ok (chr '"', u ++ chr '"' :: behind) := by
    rw [getNextToken_blank hfront, getNextToken_cons hspace]
  have hstring : parseString (u ++ chr '"' :: behind) (-1) [] = .ok (s, behind) :=
    parseString_spells hspells behind settled_none []
  simp only [parseText, parseJson_string htoken hstring, bind, Except.bind, hblank]
  rfl

/-! ## Writing -/

theorem control_escape : ∀ n ≤ 31,
    (Hex4.mk (chr '0') (chr '0') (hexDigit (n / 16)) (hexDigit (n % 16))).value =
        some (Char.ofNat n).toNat ∧
      String.utf8EncodeChar (Char.ofNat n) = [UInt8.ofNat n] := by
  decide +kernel

/-- The last digit, the last byte and the character of `U+2028` and `U+2029`. -/
def separators : List (UInt8 × UInt8 × Char) :=
  [(chr '8', 0xa8, '\u2028'), (chr '9', 0xa9, '\u2029')]

theorem separator_escape : ∀ p ∈ separators,
    (Hex4.mk (chr '2') (chr '0') (chr '2') p.1).value = some p.2.2.toNat ∧
      String.utf8EncodeChar p.2.2 = [0xe2, 0x80, p.2.1] := by
  decide +kernel

theorem spells_separator {digit last : UInt8} {c : Char} (hp : (digit, last, c) ∈ separators)
    {u rest : Bytes} (hrest : rest.take 2 = [0x80, last]) (h : Spells u (rest.drop 2)) :
    Spells (escape ⟨chr '2', chr '0', chr '2', digit⟩ ++ u) (0xe2 :: rest) := by
  obtain ⟨hvalue, hbytes⟩ := separator_escape _ hp
  have hunit := Spells.unit hvalue h
  have hcontent : [0xe2, 0x80, last] ++ rest.drop 2 = 0xe2 :: rest := by
    rw [← List.singleton_append, ← hrest, List.append_assoc, List.take_append_drop]
    rfl
  rwa [hbytes, hcontent] at hunit

/-- The writer's output between the quotes spells the string, of which `skip` bytes are written
already. -/
theorem spells_dumpChars (skip : ℕ) (s : Bytes) : Spells (dumpChars skip s) (s.drop skip) := by
  fun_induction dumpChars skip s with
  | case1 => simpa using Spells.nil
  | case2 skip ch rest ih => exact ih
  | case3 rest ih => exact .short (e := chr '\\') (by decide) ih
  | case4 rest _ ih => exact .short (e := chr '"') (by decide) ih
  | case5 rest _ _ ih => exact .short (e := chr 'b') (by decide) ih
  | case6 rest _ _ _ ih => exact .short (e := chr 'f') (by decide) ih
  | case7 rest _ _ _ _ ih => exact .short (e := chr 'n') (by decide) ih
  | case8 rest _ _ _ _ _ ih => exact .short (e := chr 'r') (by decide) ih
  | case9 rest _ _ _ _ _ _ ih => exact .short (e := chr 't') (by decide) ih
  | case10 ch rest _ _ _ _ _ _ _ hcontrol ih =>
    obtain ⟨hvalue, hbyte⟩ := control_escape ch.toNat (UInt8.le_iff_toNat_le.mp hcontrol)
    have h := Spells.unit hvalue ih
    rwa [hbyte, UInt8.ofNat_toNat] at h
  | case11 ch rest _ _ _ _ _ _ _ _ hseparator ih =>
    rw [hseparator.1]
    exact spells_separator (c := '\u2028') (by decide) hseparator.2 ih
  | case12 ch rest _ _ _ _ _ _ _ _ _ hseparator ih =>
    rw [hseparator.1]
    exact spells_separator (c := '\u2029') (by decide) hseparator.2 ih
  | case13 ch rest hescape hquote _ _ _ _ _ hcontrol _ _ ih =>
    refine .plain ⟨?_, hquote, hescape⟩ ih
    rw [UInt8.le_iff_toNat_le] at hcontrol ⊢
    have h20 : (0x20 : UInt8).toNat = 32 := rfl
    have h1f : (0x1f : UInt8).toNat = 31 := rfl
    omega

def dumpedText (s : Bytes) : JsonString.Text (dumpString s) s where
  front := []
  spelling := dumpChars 0 s
  behind := []
  text_eq := by simp [dumpString]
  front_blank := by simp
  behind_blank := by simp
  spells := spells_dumpChars 0 s

/-- **What the writer makes of a string parses to the string**, whatever its bytes are. -/
theorem parseText_dumpString (s : Bytes) : parseText (dumpString s) = .ok (.string s) :=
  parseText_text (dumpedText s)

end PgConsul.Json11
