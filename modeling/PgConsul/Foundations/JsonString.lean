import PgConsul.Foundations.Percent

/-! # The spellings of a JSON string

`Spells u s` says that `u`, between two quotes, is a JSON text (RFC 8259) of the string with the
bytes `s`: characters stand for themselves or are escaped, one code unit or a surrogate pair at a
time, and an escaped character contributes its UTF-8 bytes.
-/
namespace Foundations.JsonString
set_option autoImplicit false

/-- The escapes of one character, with the bytes they stand for. -/
def shortEscapes : List (UInt8 × UInt8) :=
  [(chr '"', chr '"'), (chr '\\', chr '\\'), (chr '/', chr '/'), (chr 'b', 0x08), (chr 'f', 0x0c),
    (chr 'n', 0x0a), (chr 'r', 0x0d), (chr 't', 0x09)]

/-- A byte that stands for itself. -/
def IsPlain (b : UInt8) : Prop := 0x20 ≤ b ∧ b ≠ chr '"' ∧ b ≠ chr '\\'

instance (b : UInt8) : Decidable (IsPlain b) := by unfold IsPlain; infer_instance

/-- Four hexadecimal digits. -/
structure Hex4 where
  a : UInt8
  b : UInt8
  c : UInt8
  d : UInt8

def Hex4.text (h : Hex4) : Bytes := [h.a, h.b, h.c, h.d]

def Hex4.value (h : Hex4) : Option ℕ :=
  match hexValue h.a, hexValue h.b, hexValue h.c, hexValue h.d with
  | some a, some b, some c, some d => some (((a * 16 + b) * 16 + c) * 16 + d)
  | _, _, _, _ => none

theorem hexValue_lt {c : UInt8} {n : ℕ} (h : hexValue c = some n) : n < 16 ∧ c < 0x80 := by
  unfold hexValue at h
  have hle : ∀ a b : UInt8, a ≤ b → a.toNat ≤ b.toNat := fun a b => UInt8.le_iff_toNat_le.mp
  have h80 : (0x80 : UInt8).toNat = 128 := rfl
  rw [UInt8.lt_iff_toNat_lt, h80]
  split at h
  · next hc =>
    cases h
    have hc9 := hle _ _ hc.2
    have h9 : (chr '9').toNat = 57 := rfl
    omega
  · split at h
    · next hc =>
      cases h
      have hcf := hle _ _ hc.2
      have hf : (chr 'f').toNat = 102 := rfl
      omega
    · split at h
      · next hc =>
        cases h
        have hcf := hle _ _ hc.2
        have hf : (chr 'F').toNat = 70 := rfl
        omega
      · cases h

theorem Hex4.value_lt {x : Hex4} {n : ℕ} (h : x.value = some n) :
    n < 0x10000 ∧ ∀ b ∈ x.text, b < 0x80 := by
  unfold Hex4.value at h
  split at h
  · next a b c d ha hb hc hd =>
    cases h
    obtain ⟨ha, hxa⟩ := hexValue_lt ha
    obtain ⟨hb, hxb⟩ := hexValue_lt hb
    obtain ⟨hc, hxc⟩ := hexValue_lt hc
    obtain ⟨hd, hxd⟩ := hexValue_lt hd
    refine ⟨by omega, ?_⟩
    simp only [Hex4.text, List.forall_mem_cons]
    exact ⟨hxa, hxb, hxc, hxd, fun b hb => absurd hb List.not_mem_nil⟩
  · cases h

def escape (h : Hex4) : Bytes := chr '\\' :: chr 'u' :: h.text

inductive Spells : Bytes → Bytes → Prop where
  | nil : Spells [] []
  | plain {u s : Bytes} {b : UInt8} (hb : IsPlain b) (h : Spells u s) : Spells (b :: u) (b :: s)
  | short {u s : Bytes} {e b : UInt8} (he : (e, b) ∈ shortEscapes) (h : Spells u s) :
      Spells (chr '\\' :: e :: u) (b :: s)
  | unit {u s : Bytes} {x : Hex4} {ch : Char} (hx : x.value = some ch.toNat) (h : Spells u s) :
      Spells (escape x ++ u) (String.utf8EncodeChar ch ++ s)
  | pair {u s : Bytes} {x y : Hex4} {high low : ℕ} {ch : Char} (hx : x.value = some (0xD800 + high))
      (hy : y.value = some (0xDC00 + low)) (hhigh : high < 0x400) (hlow : low < 0x400)
      (hch : ch.toNat = 0x10000 + high * 0x400 + low) (h : Spells u s) :
      Spells (escape x ++ (escape y ++ u)) (String.utf8EncodeChar ch ++ s)

def IsWhitespace (b : UInt8) : Prop := b = 0x20 ∨ b = 0x0d ∨ b = 0x0a ∨ b = 0x09

/-- A JSON text of a string: the spelling in quotes, with whitespace around. -/
structure Text (text s : Bytes) where
  front : Bytes
  spelling : Bytes
  behind : Bytes
  text_eq : text = front ++ chr '"' :: (spelling ++ chr '"' :: behind)
  front_blank : ∀ b ∈ front, IsWhitespace b
  behind_blank : ∀ b ∈ behind, IsWhitespace b
  spells : Spells spelling s

end Foundations.JsonString
