import Mathlib.Algebra.Order.Field.Rat
import PgConsul.Foundations.JsonString

/-! # JSON texts

The grammar of RFC 8259 over bytes. A `Reading` says what the parts of a text stand for in a type of
values, and `IsText reading levels text v` that `text` is a JSON text of `v` that nests at most
`levels` values. Strings stand for bytes: a byte from `0x80` on stands for itself, and a surrogate
that is not half of a pair is encoded like any other code point.
-/
namespace Foundations.JsonText
set_option autoImplicit false
open JsonString

/-! ## Numbers -/

structure Exponent where
  letter : UInt8
  sign : Bytes
  digits : Bytes
  letter_e : letter = chr 'e' ∨ letter = chr 'E'
  sign_cases : sign = [] ∨ sign = [chr '+'] ∨ sign = [chr '-']
  digits_numeral : IsNumeral digits

namespace Exponent

def text (x : Exponent) : Bytes := x.letter :: (x.sign ++ x.digits)

def value (x : Exponent) : ℤ := if x.sign = [chr '-'] then -(numeral x.digits : ℤ) else numeral x.digits

end Exponent

/-- An optional minus, an integer without leading zeros, a fraction and an exponent. -/
structure Number where
  negative : Bool
  whole : Bytes
  fraction : Option Bytes
  exponent : Option Exponent
  whole_numeral : IsNumeral whole
  leading_zero : ∀ rest, whole = chr '0' :: rest → rest = []
  fraction_numeral : ∀ digits, fraction = some digits → IsNumeral digits

namespace Number

def signText (negative : Bool) : Bytes := if negative then [chr '-'] else []

def fractionText : Option Bytes → Bytes
  | none => []
  | some digits => chr '.' :: digits

def exponentText : Option Exponent → Bytes
  | none => []
  | some x => x.text

def text (n : Number) : Bytes :=
  signText n.negative ++ (n.whole ++ (fractionText n.fraction ++ exponentText n.exponent))

/-- The exact value of the digits behind the point. -/
def fractionValue : Option Bytes → ℚ
  | none => 0
  | some digits => numeral digits / 10 ^ digits.length

def exponentValue : Option Exponent → ℤ
  | none => 0
  | some x => x.value

/-- The exact absolute value. -/
def magnitude (n : Number) : ℚ :=
  (numeral n.whole + fractionValue n.fraction) * 10 ^ exponentValue n.exponent

end Number

/-! ## Strings -/

/-- What one character or escape of a string contributes: a byte or a UTF-16 code unit. -/
inductive Piece where
  | byte (b : UInt8)
  | unit (n : ℕ)

inductive Spelled : Bytes → Piece → Prop where
  | plain {b : UInt8} (hb : IsPlain b) : Spelled [b] (.byte b)
  | short {e b : UInt8} (he : (e, b) ∈ shortEscapes) : Spelled [chr '\\', e] (.byte b)
  | unit {x : Hex4} {n : ℕ} (hx : x.value = some n) : Spelled (escape x) (.unit n)

inductive Pieces : Bytes → List Piece → Prop where
  | nil : Pieces [] []
  | cons {t u : Bytes} {p : Piece} {ps : List Piece} (head : Spelled t p) (tail : Pieces u ps) :
      Pieces (t ++ u) (p :: ps)

/-- The bytes of a code point in the encoding of UTF-8, surrogates included. -/
def utf8 (n : ℕ) : Bytes :=
  if n < 0x80 then [UInt8.ofNat n]
  else if n < 0x800 then [UInt8.ofNat (0xC0 + n / 64), UInt8.ofNat (0x80 + n % 64)]
  else if n < 0x10000 then
    [UInt8.ofNat (0xE0 + n / 4096), UInt8.ofNat (0x80 + n / 64 % 64), UInt8.ofNat (0x80 + n % 64)]
  else
    [UInt8.ofNat (0xF0 + n / 262144), UInt8.ofNat (0x80 + n / 4096 % 64),
      UInt8.ofNat (0x80 + n / 64 % 64), UInt8.ofNat (0x80 + n % 64)]

/-- `high` and `low` are the halves of a surrogate pair. -/
def IsPair (high low : ℕ) : Prop :=
  (0xD800 ≤ high ∧ high ≤ 0xDBFF) ∧ 0xDC00 ≤ low ∧ low ≤ 0xDFFF

instance (high low : ℕ) : Decidable (IsPair high low) := by unfold IsPair; infer_instance

def pairValue (high low : ℕ) : ℕ := 0x10000 + (high - 0xD800) * 0x400 + (low - 0xDC00)

/-- The string of the pieces; the two halves of a pair are one code point. -/
def content : List Piece → Bytes
  | [] => []
  | .byte b :: ps => b :: content ps
  | .unit n :: .unit m :: ps =>
    if IsPair n m then utf8 (pairValue n m) ++ content ps else utf8 n ++ content (.unit m :: ps)
  | .unit n :: ps => utf8 n ++ content ps

theorem content_unit_byte (n : ℕ) (b : UInt8) (ps : List Piece) :
    content (.unit n :: .byte b :: ps) = utf8 n ++ b :: content ps := by
  rw [content, content]
  rintro m qs ⟨⟩

theorem content_unit_unit {n m : ℕ} (h : ¬ IsPair n m) (ps : List Piece) :
    content (.unit n :: .unit m :: ps) = utf8 n ++ content (.unit m :: ps) := by
  rw [content, if_neg h]

theorem content_pair {n m : ℕ} (h : IsPair n m) (ps : List Piece) :
    content (.unit n :: .unit m :: ps) = utf8 (pairValue n m) ++ content ps := by
  rw [content, if_pos h]

/-- The code point of a character is no half of a pair. -/
theorem content_char (ch : Char) (ps : List Piece) :
    content (.unit ch.toNat :: ps) = utf8 ch.toNat ++ content ps := by
  have hpair : ∀ m, ¬ IsPair ch.toNat m := by
    have hvalid : ch.toNat.isValidChar := ch.valid
    intro m
    unfold Nat.isValidChar at hvalid
    unfold IsPair
    omega
  cases ps with
  | nil => simp [content]
  | cons p ps =>
    cases p with
    | byte b => exact content_unit_byte _ b ps
    | unit m => exact content_unit_unit (hpair m) ps

theorem utf8_char (ch : Char) : utf8 ch.toNat = String.utf8EncodeChar ch := by
  have hval : ch.val.toNat = ch.toNat := rfl
  have hrange : ch.toNat < 0x110000 := by
    have hvalid : ch.toNat.isValidChar := ch.valid
    unfold Nat.isValidChar at hvalid
    omega
  unfold utf8 String.utf8EncodeChar
  simp only [hval]
  by_cases h1 : ch.toNat < 0x80
  · rw [if_pos h1, if_pos (Nat.le_of_lt_succ h1)]
  · have h1' : ¬ ch.toNat ≤ 127 := by omega
    rw [if_neg h1, if_neg h1']
    by_cases h2 : ch.toNat < 0x800
    · have hmod : ch.toNat / 64 % 32 = ch.toNat / 64 := Nat.mod_eq_of_lt (by omega)
      rw [if_pos h2, if_pos (Nat.le_of_lt_succ h2), hmod, Nat.add_comm 192, Nat.add_comm 128]
    · have h2' : ¬ ch.toNat ≤ 2047 := by omega
      rw [if_neg h2, if_neg h2']
      by_cases h3 : ch.toNat < 0x10000
      · have hmod : ch.toNat / 4096 % 16 = ch.toNat / 4096 := Nat.mod_eq_of_lt (by omega)
        rw [if_pos h3, if_pos (Nat.le_of_lt_succ h3), hmod, Nat.add_comm 224]
        simp only [Nat.add_comm 128]
      · have h3' : ¬ ch.toNat ≤ 65535 := by omega
        have hmod : ch.toNat / 262144 % 8 = ch.toNat / 262144 := Nat.mod_eq_of_lt (by omega)
        rw [if_neg h3, if_neg h3', hmod, Nat.add_comm 240]
        simp only [Nat.add_comm 128]

/-- A spelling in the sense of RFC 8259 is a sequence of pieces with the same content. -/
theorem pieces_of_spells {u s : Bytes} (h : Spells u s) : ∃ ps, Pieces u ps ∧ content ps = s := by
  induction h with
  | nil => exact ⟨[], .nil, rfl⟩
  | @plain u s b hb _ ih =>
    obtain ⟨ps, hpieces, rfl⟩ := ih
    exact ⟨.byte b :: ps, .cons (.plain hb) hpieces, rfl⟩
  | @short u s e b he _ ih =>
    obtain ⟨ps, hpieces, rfl⟩ := ih
    exact ⟨.byte b :: ps, .cons (.short he) hpieces, rfl⟩
  | @unit u s x ch hx _ ih =>
    obtain ⟨ps, hpieces, rfl⟩ := ih
    refine ⟨.unit ch.toNat :: ps, .cons (.unit hx) hpieces, ?_⟩
    rw [content_char, utf8_char]
  | @pair u s x y high low ch hx hy hhigh hlow hch _ ih =>
    obtain ⟨ps, hpieces, rfl⟩ := ih
    have hpair : IsPair (0xD800 + high) (0xDC00 + low) := by
      unfold IsPair
      omega
    have hvalue : pairValue (0xD800 + high) (0xDC00 + low) = ch.toNat := by
      unfold pairValue
      omega
    refine ⟨.unit (0xD800 + high) :: .unit (0xDC00 + low) :: ps,
      .cons (.unit hx) (.cons (.unit hy) hpieces), ?_⟩
    rw [content_pair hpair, hvalue, utf8_char]

/-! ## Values -/

/-- What the parts of a text stand for. -/
structure Reading (α : Type) where
  null : α
  bool : Bool → α
  number : Number → α
  string : Bytes → α
  array : List α → α
  object : List (Bytes × α) → α

def Blank (s : Bytes) : Prop := ∀ b ∈ s, IsWhitespace b

section Productions
variable {α β : Type}

/-- A text with whitespace around it. -/
inductive Padded (P : Bytes → α → Prop) : Bytes → α → Prop where
  | mk {front t behind : Bytes} {v : α} (front_blank : Blank front) (inner : P t v)
      (behind_blank : Blank behind) : Padded P (front ++ (t ++ behind)) v

/-- One or more texts with commas between them. -/
inductive Elements (P : Bytes → β → Prop) : Bytes → List β → Prop where
  | one {t : Bytes} {v : β} (last : P t v) : Elements P t [v]
  | cons {t u : Bytes} {v : β} {vs : List β} (head : P t v) (tail : Elements P u vs) :
      Elements P (t ++ chr ',' :: u) (v :: vs)

/-- A key in quotes, a colon and a value. -/
inductive Member (P : Bytes → α → Prop) : Bytes → Bytes × α → Prop where
  | mk {front spelling blank t : Bytes} {ps : List Piece} {v : α} (front_blank : Blank front)
      (key : Pieces spelling ps) (blank_blank : Blank blank) (value : P t v) :
      Member P (front ++ chr '"' :: (spelling ++ chr '"' :: (blank ++ chr ':' :: t))) (content ps, v)

/-- The text of one value whose parts are texts in the sense of `P`. -/
inductive Value (reading : Reading α) (P : Bytes → α → Prop) : Bytes → α → Prop where
  | null : Value reading P (ascii "null") reading.null
  | true : Value reading P (ascii "true") (reading.bool true)
  | false : Value reading P (ascii "false") (reading.bool false)
  | number (n : Number) : Value reading P n.text (reading.number n)
  | string {u : Bytes} {ps : List Piece} (spelled : Pieces u ps) :
      Value reading P (chr '"' :: (u ++ [chr '"'])) (reading.string (content ps))
  | emptyArray {blank : Bytes} (blank_blank : Blank blank) :
      Value reading P (chr '[' :: (blank ++ [chr ']'])) (reading.array [])
  | array {t : Bytes} {vs : List α} (elements : Elements P t vs) :
      Value reading P (chr '[' :: (t ++ [chr ']'])) (reading.array vs)
  | emptyObject {blank : Bytes} (blank_blank : Blank blank) :
      Value reading P (0x7b :: (blank ++ [0x7d])) (reading.object [])
  | object {t : Bytes} {ms : List (Bytes × α)} (members : Elements (Member P) t ms) :
      Value reading P (0x7b :: (t ++ [0x7d])) (reading.object ms)

/-- The text of a value that nests at most `levels` values, without whitespace around it. -/
def IsValue (reading : Reading α) : ℕ → Bytes → α → Prop
  | 0 => fun _ _ => False
  | levels + 1 => Value reading (Padded (IsValue reading levels))

/-- A JSON text of `v`. -/
def IsText (reading : Reading α) (levels : ℕ) : Bytes → α → Prop := Padded (IsValue reading levels)

/-! ## Whitespace in front -/

theorem blank_nil : Blank [] := by
  intro b hb
  cases hb

theorem Blank.append {s t : Bytes} (hs : Blank s) (ht : Blank t) : Blank (s ++ t) := by
  intro b hb
  rcases List.mem_append.mp hb with hb | hb
  · exact hs b hb
  · exact ht b hb

theorem Padded.bare {P : Bytes → α → Prop} {t : Bytes} {v : α} (h : P t v) : Padded P t v := by
  have hpadded := Padded.mk blank_nil h blank_nil
  rwa [List.nil_append, List.append_nil] at hpadded

theorem Padded.exists_inner {P : Bytes → α → Prop} {t : Bytes} {v : α} (h : Padded P t v) :
    ∃ u, P u v := by
  obtain ⟨-, hinner, -⟩ := h
  exact ⟨_, hinner⟩

/-- Whitespace in front of a text changes nothing. -/
def Indented (P : Bytes → β → Prop) : Prop :=
  ∀ {blank t : Bytes} {v : β}, Blank blank → P t v → P (blank ++ t) v

theorem padded_indented (P : Bytes → α → Prop) : Indented (Padded P) := by
  intro blank t v hblank ht
  obtain ⟨hfront, inner, hbehind⟩ := ht
  rw [← List.append_assoc]
  exact .mk (hblank.append hfront) inner hbehind

theorem member_indented (P : Bytes → α → Prop) : Indented (Member P) := by
  intro blank t m hblank ht
  obtain ⟨hfront, key, hcolon, value⟩ := ht
  rw [← List.append_assoc]
  exact .mk (hblank.append hfront) key hcolon value

theorem elements_indented {P : Bytes → β → Prop} (h : Indented P) : Indented (Elements P) := by
  intro blank t vs hblank ht
  cases ht with
  | one last => exact .one (h hblank last)
  | cons head tail =>
    rw [← List.append_assoc]
    exact .cons (h hblank head) tail

/-- Every element has a text. -/
theorem Elements.exists_mem {P : Bytes → β → Prop} {t : Bytes} {vs : List β} (h : Elements P t vs)
    {v : β} (hv : v ∈ vs) : ∃ u, P u v := by
  induction h with
  | one last =>
    rw [List.mem_singleton] at hv
    exact ⟨_, hv ▸ last⟩
  | cons head _ ih =>
    rcases List.mem_cons.mp hv with rfl | hv
    · exact ⟨_, head⟩
    · exact ih hv

/-- Every element but the first brings a comma. -/
theorem Elements.length_le {P : Bytes → β → Prop} {t : Bytes} {vs : List β} (h : Elements P t vs) :
    vs.length ≤ t.count (chr ',') + 1 := by
  induction h with
  | one _ => simp
  | cons _ _ ih =>
    simp only [List.length_cons, List.count_append, List.count_cons_self]
    omega

theorem Blank.count_comma {s : Bytes} (h : Blank s) : s.count (chr ',') = 0 := by
  rw [List.count_eq_zero]
  intro hmem
  exact absurd (h _ hmem) (by unfold IsWhitespace; decide)

end Productions

/-! ## Two readings -/

section Related
variable {α β γ δ : Type}

/-- What two readings make of equal parts is related. -/
structure Reading.Related (r₁ : Reading α) (r₂ : Reading β) (R : α → β → Prop) : Prop where
  null : R r₁.null r₂.null
  bool (b : Bool) : R (r₁.bool b) (r₂.bool b)
  number (n : Number) : R (r₁.number n) (r₂.number n)
  string (s : Bytes) : R (r₁.string s) (r₂.string s)
  array {vs : List α} {ws : List β} (h : List.Forall₂ R vs ws) : R (r₁.array vs) (r₂.array ws)
  object {ms : List (Bytes × α)} {ns : List (Bytes × β)}
    (h : List.Forall₂ (fun m n => m.1 = n.1 ∧ R m.2 n.2) ms ns) : R (r₁.object ms) (r₂.object ns)

/-- Texts of the values of `P` are texts of related values of `Q`. -/
def Carried (P : Bytes → γ → Prop) (Q : Bytes → δ → Prop) (R : γ → δ → Prop) : Prop :=
  ∀ (t : Bytes) (v : γ), P t v → ∃ w, Q t w ∧ R v w

theorem Carried.padded {P : Bytes → α → Prop} {Q : Bytes → β → Prop} {R : α → β → Prop}
    (h : Carried P Q R) : Carried (Padded P) (Padded Q) R := by
  rintro t v ⟨hfront, inner, hbehind⟩
  obtain ⟨w, hw, hR⟩ := h _ _ inner
  exact ⟨w, .mk hfront hw hbehind, hR⟩

theorem Carried.elements {P : Bytes → γ → Prop} {Q : Bytes → δ → Prop} {R : γ → δ → Prop}
    (h : Carried P Q R) : Carried (Elements P) (Elements Q) (List.Forall₂ R) := by
  intro t vs ht
  induction ht with
  | one last =>
    obtain ⟨w, hw, hR⟩ := h _ _ last
    exact ⟨[w], .one hw, .cons hR .nil⟩
  | cons head _ ih =>
    obtain ⟨w, hw, hR⟩ := h _ _ head
    obtain ⟨ws, hws, hRs⟩ := ih
    exact ⟨w :: ws, .cons hw hws, .cons hR hRs⟩

theorem Carried.member {P : Bytes → α → Prop} {Q : Bytes → β → Prop} {R : α → β → Prop}
    (h : Carried P Q R) :
    Carried (Member P) (Member Q) (fun m n => m.1 = n.1 ∧ R m.2 n.2) := by
  rintro t m ⟨hfront, key, hblank, value⟩
  obtain ⟨w, hw, hR⟩ := h _ _ value
  exact ⟨_, .mk hfront key hblank hw, rfl, hR⟩

/-- **A text has a value in every reading**, and related readings give it related values. -/
theorem Reading.Related.isText {r₁ : Reading α} {r₂ : Reading β} {R : α → β → Prop}
    (h : r₁.Related r₂ R) (levels : ℕ) : Carried (IsText r₁ levels) (IsText r₂ levels) R := by
  refine Carried.padded ?_
  induction levels with
  | zero =>
    intro t v ht
    cases ht
  | succ levels ih =>
    intro t v ht
    cases ht with
    | null => exact ⟨_, .null, h.null⟩
    | true => exact ⟨_, .true, h.bool _⟩
    | false => exact ⟨_, .false, h.bool _⟩
    | number n => exact ⟨_, .number n, h.number n⟩
    | string spelled => exact ⟨_, .string spelled, h.string _⟩
    | emptyArray hblank => exact ⟨_, .emptyArray hblank, h.array .nil⟩
    | array elements =>
      obtain ⟨ws, hws, hR⟩ := ih.padded.elements _ _ elements
      exact ⟨_, .array hws, h.array hR⟩
    | emptyObject hblank => exact ⟨_, .emptyObject hblank, h.object .nil⟩
    | object members =>
      obtain ⟨ns, hns, hR⟩ := ih.padded.member.elements _ _ members
      exact ⟨_, .object hns, h.object hR⟩

end Related

end Foundations.JsonText
