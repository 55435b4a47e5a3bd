import PgConsul.Foundations.JsonText
import PgConsul.Foundations.Utf8

/-! # JSON texts in UTF-8

A `\u` escape can name half of a surrogate pair, which has no encoding in UTF-8. In a JSON text that
is UTF-8 nothing else can go wrong: its strings are UTF-8 exactly when each surrogate escaped in it is
half of a pair.
-/
namespace Foundations.JsonText
set_option autoImplicit false
open JsonString

/-! ## Code points -/

theorem uint8_ofNat_inj {i j : ℕ} (hi : i < 256) (hj : j < 256) :
    UInt8.ofNat i = UInt8.ofNat j ↔ i = j := by
  refine ⟨fun h => ?_, congrArg UInt8.ofNat⟩
  have h := congrArg UInt8.toNat h
  rwa [UInt8.toNat_ofNat', UInt8.toNat_ofNat', Nat.mod_eq_of_lt hi, Nat.mod_eq_of_lt hj] at h

/-- The encodings of two code points never begin alike. -/
theorem utf8_append_inj {n m : ℕ} (hn : n < 0x110000) (hm : m < 0x110000) {s t : Bytes}
    (h : utf8 n ++ s = utf8 m ++ t) : n = m := by
  unfold utf8 at h
  split_ifs at h <;>
    simp (disch := omega) only [List.cons_append, List.nil_append, List.cons.injEq,
      uint8_ofNat_inj] at h <;> omega

def IsSurrogate (n : ℕ) : Prop := 0xD800 ≤ n ∧ n ≤ 0xDFFF

instance (n : ℕ) : Decidable (IsSurrogate n) := by unfold IsSurrogate; infer_instance

/-- A surrogate is encoded to bytes that begin like those of a character, but are none. -/
theorem not_isUtf8_surrogate {n : ℕ} (hn : IsSurrogate n) (s t : Bytes) :
    ¬ IsUtf8 (s ++ (utf8 n ++ t)) := by
  obtain ⟨hlow, hhigh⟩ := hn
  intro h
  have hlead : ∃ rest, utf8 n = 0xED :: rest := by
    have hdiv : n / 4096 = 13 := by omega
    refine ⟨[UInt8.ofNat (0x80 + n / 64 % 64), UInt8.ofNat (0x80 + n % 64)], ?_⟩
    rw [utf8, if_neg (by omega), if_neg (by omega), if_pos (by omega), hdiv]
    rfl
  obtain ⟨rest, hrest⟩ := hlead
  have hcut : IsUtf8 (s ++ 0xED :: (rest ++ t)) := by rwa [hrest] at h
  have hvalid := (isUtf8_cut (by decide) hcut).2
  rw [← List.cons_append, ← hrest] at hvalid
  obtain ⟨cs, hcs⟩ := isUtf8_iff_chars.mp hvalid
  cases cs with
  | nil => simp [hrest] at hcs
  | cons c cs =>
    have hc : c.toNat.isValidChar := c.valid
    rw [List.flatMap_cons, ← utf8_char] at hcs
    unfold Nat.isValidChar at hc
    have hsame := utf8_append_inj (by omega) (by omega) hcs
    omega

theorem isUtf8_codePoint {n : ℕ} (hn : n < 0x110000) (s t : Bytes) :
    IsUtf8 (s ++ (utf8 n ++ t)) ↔ ¬ IsSurrogate n ∧ IsUtf8 s ∧ IsUtf8 t := by
  by_cases hsurrogate : IsSurrogate n
  · exact iff_of_false (not_isUtf8_surrogate hsurrogate s t) fun h => h.1 hsurrogate
  · have hvalid : n.isValidChar := by
      unfold IsSurrogate at hsurrogate
      unfold Nat.isValidChar
      omega
    have hchar : utf8 n = String.utf8EncodeChar (Char.ofNat n) := by
      rw [← utf8_char, charOfNat_toNat hvalid]
    rw [hchar, isUtf8_split, and_iff_right hsurrogate]

/-! ## Strings -/

/-- Each surrogate among the units is half of a pair. -/
def paired : List Piece → Bool
  | [] => true
  | .byte _ :: ps => paired ps
  | .unit n :: .unit m :: ps =>
    if IsPair n m then paired ps else !IsSurrogate n && paired (.unit m :: ps)
  | .unit n :: ps => !IsSurrogate n && paired ps

theorem paired_unit_byte (n : ℕ) (b : UInt8) (ps : List Piece) :
    paired (.unit n :: .byte b :: ps) = (!IsSurrogate n && paired ps) := by
  rw [paired, paired]
  rintro m qs ⟨⟩

theorem paired_scalar {n : ℕ} (hn : ¬ IsSurrogate n) (ps : List Piece) :
    paired (.unit n :: ps) = paired ps := by
  cases ps with
  | nil => simp [paired, hn]
  | cons p ps =>
    cases p with
    | byte b => rw [paired_unit_byte, decide_eq_false hn, Bool.not_false, Bool.true_and, paired]
    | unit m =>
      have hpair : ¬ IsPair n m := by
        unfold IsPair
        unfold IsSurrogate at hn
        omega
      rw [paired, if_neg hpair, decide_eq_false hn, Bool.not_false, Bool.true_and]

/-- A byte ends what a unit before it could be half of. -/
theorem paired_append_byte (ps : List Piece) (b : UInt8) (qs : List Piece) :
    paired (ps ++ .byte b :: qs) = (paired ps && paired qs) := by
  fun_induction paired ps with
  | case1 => rw [List.nil_append, paired, Bool.true_and]
  | case2 _ ps ih => rw [List.cons_append, paired, ih]
  | case3 n m ps hpair ih =>
    rw [List.cons_append, List.cons_append, paired, if_pos hpair, ih]
  | case4 n m ps hpair ih =>
    rw [List.cons_append] at ih
    rw [List.cons_append, List.cons_append, paired, if_neg hpair, ih, Bool.and_assoc]
  | case5 n ps hunit ih =>
    cases ps with
    | nil =>
      rw [List.cons_append, List.nil_append, paired_unit_byte, paired, Bool.and_true]
    | cons p ps =>
      cases p with
      | byte c =>
        rw [List.cons_append, paired] at ih
        rw [List.cons_append, List.cons_append, paired_unit_byte, ih, Bool.and_assoc, paired]
      | unit m => exact absurd rfl (hunit m ps)

theorem escape_ascii {x : Hex4} {n : ℕ} (hx : x.value = some n) : IsAscii (escape x) := by
  have hmarks : chr '\\' < 0x80 ∧ chr 'u' < 0x80 := by decide
  exact List.forall_mem_cons.mpr ⟨hmarks.1, List.forall_mem_cons.mpr ⟨hmarks.2,
    (Hex4.value_lt hx).2⟩⟩

theorem shortEscapes_ascii : ∀ p ∈ shortEscapes, p.1 < 0x80 ∧ p.2 < 0x80 := by
  intro p hp
  simp only [shortEscapes, List.mem_cons, List.not_mem_nil, or_false] at hp
  rcases hp with rfl | rfl | rfl | rfl | rfl | rfl | rfl | rfl <;> decide

theorem isUtf8_ascii_between {t : Bytes} (h : IsAscii t) (hne : t ≠ []) (s u : Bytes) :
    IsUtf8 (s ++ (t ++ u)) ↔ IsUtf8 s ∧ IsUtf8 u := by
  cases t with
  | nil => exact absurd rfl hne
  | cons b t =>
    obtain ⟨hb, ht⟩ := List.forall_mem_cons.mp h
    have ht : IsAscii t := ht
    rw [List.cons_append, isUtf8_ascii_split hb, ht.isUtf8_append]

theorem isUtf8_escape {x : Hex4} {n : ℕ} (hx : x.value = some n) {s u : Bytes}
    (h : IsUtf8 (s ++ (escape x ++ u))) : IsUtf8 s ∧ IsUtf8 u :=
  (isUtf8_ascii_between (escape_ascii hx) (List.cons_ne_nil _ _) s u).mp h

/-- **A string spelled in UTF-8 is UTF-8 exactly when its surrogates are paired.** The bytes in front
may be the first ones of a character that is spelled byte by byte. -/
theorem isUtf8_content {u : Bytes} {ps : List Piece} (h : Pieces u ps) (s : Bytes)
    (hu : IsUtf8 (s ++ u)) : IsUtf8 (s ++ content ps) ↔ paired ps = true := by
  fun_induction content ps generalizing u s with
  | case1 =>
    cases h
    rw [paired]
    exact iff_of_true hu rfl
  | case2 b ps ih =>
    rw [paired]
    cases h with
    | cons head tail =>
      cases head with
      | plain hb =>
        have hcons := ih tail (s ++ [b]) (by rwa [List.append_assoc])
        rwa [List.append_assoc, List.singleton_append] at hcons
      | @short e _ he =>
        have hmark : chr '\\' < 0x80 := by decide
        obtain ⟨hescape, hb⟩ := shortEscapes_ascii _ he
        have hcut := (isUtf8_ascii_split hmark s _).mp hu
        have hrest := (isUtf8_ascii_cons hescape _).mp hcut.2
        rw [isUtf8_ascii_split hb, and_iff_right hcut.1]
        exact ih tail [] hrest
  | case3 n m ps hpair ih =>
    rw [paired, if_pos hpair]
    cases h with
    | cons head tail =>
      cases head with
      | unit hx =>
        obtain ⟨hs, hu⟩ := isUtf8_escape hx hu
        cases tail with
        | cons head tail =>
          cases head with
          | unit hy =>
            have hrest := (isUtf8_escape (s := []) hy hu).2
            have hvalue : pairValue n m < 0x110000 ∧ ¬ IsSurrogate (pairValue n m) := by
              unfold IsPair at hpair
              unfold pairValue IsSurrogate
              omega
            rw [isUtf8_codePoint hvalue.1, and_iff_right hvalue.2, and_iff_right hs]
            exact ih tail [] hrest
  | case4 n m ps hpair ih =>
    rw [paired, if_neg hpair]
    cases h with
    | cons head tail =>
      cases head with
      | unit hx =>
        obtain ⟨hs, hu⟩ := isUtf8_escape hx hu
        have hn := (Hex4.value_lt hx).1
        rw [isUtf8_codePoint (by omega), and_iff_right hs, Bool.and_eq_true]
        exact and_congr (by simp) (ih tail [] hu)
  | case5 n ps hunit ih =>
    cases h with
    | cons head tail =>
      cases head with
      | unit hx =>
        obtain ⟨hs, hu⟩ := isUtf8_escape hx hu
        have hn := (Hex4.value_lt hx).1
        rw [paired, isUtf8_codePoint (by omega), and_iff_right hs, Bool.and_eq_true]
        · exact and_congr (by simp) (ih tail [] hu)
        · exact hunit

/-- A spelling is UTF-8 when its string is: escapes stand for whole characters. -/
theorem spells_isUtf8_iff {u s : Bytes} (h : Spells u s) (t : Bytes) :
    IsUtf8 (t ++ u) ↔ IsUtf8 (t ++ s) := by
  induction h generalizing t with
  | nil => rfl
  | @plain u s b hb _ ih =>
    have hstep := ih (t ++ [b])
    rwa [List.append_assoc, List.append_assoc] at hstep
  | @short u s e b he _ ih =>
    have hmark : chr '\\' < 0x80 := by decide
    obtain ⟨hescape, hb⟩ := shortEscapes_ascii _ he
    rw [isUtf8_ascii_split hmark, isUtf8_ascii_cons hescape, isUtf8_ascii_split hb]
    exact and_congr_right' (ih [])
  | @unit u s x ch hx _ ih =>
    rw [isUtf8_ascii_between (escape_ascii hx) (List.cons_ne_nil _ _), isUtf8_split]
    exact and_congr_right' (ih [])
  | @pair u s x y high low ch hx hy _ _ _ _ ih =>
    rw [isUtf8_ascii_between (escape_ascii hx) (List.cons_ne_nil _ _),
      (escape_ascii hy).isUtf8_append, isUtf8_split]
    exact and_congr_right' (ih [])

/-! ## Texts -/

/-- The characters and escapes of a text, its strings and what is around them alike. -/
def escapes : Bytes → List Piece
  | [] => []
  | c :: s =>
    if c ≠ chr '\\' then .byte c :: escapes s
    else
      match s with
      | [] => []
      | e :: s =>
        if e = chr 'u' then
          match s with
          | a :: b :: c :: d :: s =>
            match (Hex4.mk a b c d).value with
            | some n => .unit n :: escapes s
            | none => escapes s
          | _ => []
        else .byte ((shortEscapes.lookup e).getD e) :: escapes s

/-- Each surrogate escaped in the text is half of a pair. -/
def surrogatesPaired (text : Bytes) : Bool := paired (escapes text)

theorem escapes_cons {c : UInt8} (hc : c ≠ chr '\\') (s : Bytes) :
    escapes (c :: s) = .byte c :: escapes s := by
  rw [escapes.eq_def]
  exact if_pos hc

theorem lookup_shortEscapes :
    ∀ p ∈ shortEscapes, p.1 ≠ chr 'u' ∧ shortEscapes.lookup p.1 = some p.2 := by
  intro p hp
  simp only [shortEscapes, List.mem_cons, List.not_mem_nil, or_false] at hp
  rcases hp with rfl | rfl | rfl | rfl | rfl | rfl | rfl | rfl <;> decide

theorem escapes_short {e b : UInt8} (he : (e, b) ∈ shortEscapes) (s : Bytes) :
    escapes (chr '\\' :: e :: s) = .byte b :: escapes s := by
  obtain ⟨hu, hvalue⟩ := lookup_shortEscapes _ he
  rw [escapes.eq_def]
  simp only [ne_eq, not_true_eq_false, if_false, hu, hvalue, Option.getD_some]

theorem escapes_unit {x : Hex4} {n : ℕ} (hx : x.value = some n) (s : Bytes) :
    escapes (escape x ++ s) = .unit n :: escapes s := by
  obtain ⟨a, b, c, d⟩ := x
  rw [escape, Hex4.text, escapes.eq_def]
  simp only [List.cons_append, List.nil_append, ne_eq, not_true_eq_false, if_false, if_true, hx]

theorem escapes_pieces {u : Bytes} {ps : List Piece} (h : Pieces u ps) (s : Bytes) :
    escapes (u ++ s) = ps ++ escapes s := by
  induction h with
  | nil => rfl
  | cons head _ ih =>
    rw [List.append_assoc, List.cons_append, ← ih]
    cases head with
    | plain hb => exact escapes_cons hb.2.2 _
    | short he => exact escapes_short he _
    | unit hx => exact escapes_unit hx _

/-- A spelling has no surrogate that is half of no pair. -/
theorem surrogatesPaired_spells {u s : Bytes} (h : Spells u s) (t : Bytes) :
    surrogatesPaired (u ++ t) = surrogatesPaired t := by
  unfold surrogatesPaired
  induction h with
  | nil => rfl
  | plain hb _ ih =>
    rw [List.cons_append, escapes_cons hb.2.2, paired, ih]
  | short he _ ih =>
    rw [List.cons_append, List.cons_append, escapes_short he, paired, ih]
  | @unit u s x ch hx _ ih =>
    have hscalar : ¬ IsSurrogate ch.toNat := by
      have hvalid : ch.toNat.isValidChar := ch.valid
      unfold Nat.isValidChar at hvalid
      unfold IsSurrogate
      omega
    rw [List.append_assoc, escapes_unit hx, paired_scalar hscalar, ih]
  | @pair u s x y high low ch hx hy hhigh hlow _ _ ih =>
    have hpair : IsPair (0xD800 + high) (0xDC00 + low) := by
      unfold IsPair
      omega
    rw [List.append_assoc, List.append_assoc, escapes_unit hx, escapes_unit hy, paired,
      if_pos hpair, ih]

/-- A part of a text whose strings are `ss`, as it stands between what is before and behind it. -/
structure Part (t : Bytes) (ss : List Bytes) : Prop where
  cut : ∀ s, IsUtf8 (s ++ t) → IsUtf8 s ∧ IsUtf8 t
  paired_append : ∀ s,
    surrogatesPaired (t ++ s) = (surrogatesPaired t && surrogatesPaired s)
  utf8_iff : IsUtf8 t → ((∀ s ∈ ss, IsUtf8 s) ↔ surrogatesPaired t = true)

theorem Part.append {t u : Bytes} {ss rs : List Bytes} (ht : Part t ss) (hu : Part u rs) :
    Part (t ++ u) (ss ++ rs) where
  cut s h := by
    rw [← List.append_assoc] at h
    obtain ⟨hst, hu'⟩ := hu.cut _ h
    obtain ⟨hs, ht'⟩ := ht.cut s hst
    exact ⟨hs, ht'.append hu'⟩
  paired_append s := by
    rw [List.append_assoc, ht.paired_append, hu.paired_append, ht.paired_append, Bool.and_assoc]
  utf8_iff h := by
    obtain ⟨ht', hu'⟩ := hu.cut _ h
    rw [List.forall_mem_append, ht.utf8_iff ht', hu.utf8_iff hu', ht.paired_append,
      Bool.and_eq_true]

/-- The bytes of a text that are not between quotes. -/
def IsMark (b : UInt8) : Prop := b < 0x80 ∧ b ≠ chr '\\'

instance (b : UInt8) : Decidable (IsMark b) := inferInstanceAs (Decidable (b < 0x80 ∧ b ≠ chr '\\'))

def Marks (t : Bytes) : Prop := ∀ b ∈ t, IsMark b

instance (t : Bytes) : Decidable (Marks t) := List.decidableBAll IsMark t

theorem surrogatesPaired_marks {t : Bytes} (h : Marks t) (s : Bytes) :
    surrogatesPaired (t ++ s) = surrogatesPaired s := by
  induction t with
  | nil => rfl
  | cons b t ih =>
    obtain ⟨hb, ht⟩ := List.forall_mem_cons.mp h
    rw [List.cons_append, surrogatesPaired, escapes_cons hb.2, paired]
    exact ih ht

theorem Part.marks {t : Bytes} (h : Marks t) : Part t [] := by
  have hascii : IsAscii t := fun b hb => (h b hb).1
  have ht : surrogatesPaired t = true := by
    have hnil := surrogatesPaired_marks h []
    rwa [List.append_nil] at hnil
  refine ⟨fun s hs => ⟨(hascii.append_isUtf8 s).mp hs, hascii.isUtf8⟩, fun s => ?_, fun _ => ?_⟩
  · rw [surrogatesPaired_marks h, ht, Bool.true_and]
  · exact iff_of_true (List.forall_mem_nil _) ht

theorem Part.quoted {u : Bytes} {ps : List Piece} (h : Pieces u ps) :
    Part (chr '"' :: (u ++ [chr '"'])) [content ps] := by
  have hquote : chr '"' < 0x80 := by decide
  have hbackslash : chr '"' ≠ chr '\\' := by decide
  have hescapes : ∀ s, surrogatesPaired (chr '"' :: (u ++ [chr '"']) ++ s) =
      (paired ps && surrogatesPaired s) := by
    intro s
    rw [surrogatesPaired, List.cons_append, escapes_cons hbackslash, paired, List.append_assoc,
      escapes_pieces h, List.singleton_append, escapes_cons hbackslash, paired_append_byte]
    rfl
  have hquoted : surrogatesPaired (chr '"' :: (u ++ [chr '"'])) = paired ps := by
    have hnil := hescapes []
    have hempty : surrogatesPaired [] = true := rfl
    rwa [List.append_nil, hempty, Bool.and_true] at hnil
  have hcut : ∀ s, IsUtf8 (s ++ chr '"' :: (u ++ [chr '"'])) ↔ IsUtf8 s ∧ IsUtf8 u := by
    intro s
    rw [isUtf8_ascii_split hquote, isUtf8_ascii_split hquote, and_iff_left isUtf8_nil]
  refine ⟨fun s hs => ?_, fun s => ?_, fun hu => ?_⟩
  · obtain ⟨hs, hu⟩ := (hcut s).mp hs
    exact ⟨hs, (hcut []).mpr ⟨isUtf8_nil, hu⟩⟩
  · rw [hescapes, hquoted]
  · rw [List.forall_mem_singleton, hquoted]
    exact isUtf8_content h [] ((hcut []).mp hu).2

/-- The strings of a text, the keys of its objects included, in the order in which they stand. -/
def spellings : Reading (List Bytes) where
  null := []
  bool _ := []
  number _ := []
  string s := [s]
  array := List.flatten
  object ms := ms.flatMap fun m => m.1 :: m.2

theorem marks_blank {s : Bytes} (h : Blank s) : Marks s := by
  intro b hb
  rcases h b hb with rfl | rfl | rfl | rfl <;> decide

theorem marks_digits {s : Bytes} (h : ∀ b ∈ s, isDigit b = true) : Marks s := by
  refine fun b hb => ⟨isAscii_digits h b hb, ?_⟩
  rintro rfl
  exact absurd (h _ hb) (by decide)

theorem marks_number (n : Number) : Marks n.text := by
  have hsigns : IsMark (chr '-') ∧ IsMark (chr '+') ∧ IsMark (chr '.') := by decide
  have hletters : IsMark (chr 'e') ∧ IsMark (chr 'E') := by decide
  have hnone : Marks [] := List.forall_mem_nil _
  have hexponent : ∀ x : Exponent, Marks x.text := by
    intro x
    rw [Marks, Exponent.text, List.forall_mem_cons, List.forall_mem_append]
    refine ⟨?_, ?_, marks_digits x.digits_numeral.2⟩
    · rcases x.letter_e with h | h
      · exact h ▸ hletters.1
      · exact h ▸ hletters.2
    · rcases x.sign_cases with h | h | h <;> rw [h]
      · exact hnone
      · exact List.forall_mem_singleton.mpr hsigns.2.1
      · exact List.forall_mem_singleton.mpr hsigns.1
  rw [Marks, Number.text, List.forall_mem_append, List.forall_mem_append, List.forall_mem_append]
  refine ⟨?_, marks_digits n.whole_numeral.2, ?_, ?_⟩
  · rw [Number.signText]
    split
    · exact List.forall_mem_singleton.mpr hsigns.1
    · exact hnone
  · cases hfraction : n.fraction with
    | none => exact hnone
    | some digits =>
      exact List.forall_mem_cons.mpr
        ⟨hsigns.2.2, marks_digits (n.fraction_numeral digits hfraction).2⟩
  · cases n.exponent with
    | none => exact hnone
    | some x => exact hexponent x

section Parts
variable {P : Bytes → List Bytes → Prop}

theorem Part.padded (h : ∀ t ss, P t ss → Part t ss) {t : Bytes} {ss : List Bytes}
    (ht : Padded P t ss) : Part t ss := by
  obtain ⟨hfront, inner, hbehind⟩ := ht
  have hpart := (Part.marks (marks_blank hfront)).append
    ((h _ _ inner).append (.marks (marks_blank hbehind)))
  rwa [List.nil_append, List.append_nil] at hpart

theorem Part.elements {α : Type} {Q : Bytes → α → Prop} {f : α → List Bytes}
    (h : ∀ t v, Q t v → Part t (f v)) {t : Bytes} {vs : List α} (ht : Elements Q t vs) :
    Part t (vs.flatMap f) := by
  induction ht with
  | one last =>
    rw [List.flatMap_singleton]
    exact h _ _ last
  | cons head _ ih =>
    rw [List.flatMap_cons, ← List.nil_append (List.flatMap _ _), ← List.singleton_append]
    exact (h _ _ head).append ((Part.marks (by decide)).append ih)

theorem Part.member (h : ∀ t ss, P t ss → Part t ss) (t : Bytes) (m : Bytes × List Bytes)
    (ht : Member P t m) : Part t (m.1 :: m.2) := by
  obtain ⟨hfront, key, hblank, value⟩ := ht
  have hcolon : Marks [chr ':'] := by decide
  have hpart := (Part.marks (marks_blank hfront)).append ((Part.quoted key).append
    ((Part.marks (marks_blank hblank)).append ((Part.marks hcolon).append (h _ _ value))))
  simpa only [List.nil_append, List.append_assoc, List.cons_append] using hpart

/-- Every production is made of marks and strings. -/
theorem Part.isText {levels : ℕ} {t : Bytes} {ss : List Bytes} (h : IsText spellings levels t ss) :
    Part t ss := by
  refine Part.padded (fun t ss ht => ?_) h
  clear h
  induction levels generalizing t ss with
  | zero => cases ht
  | succ levels ih =>
    have hbracket : ∀ {o c : UInt8} {t : Bytes} {ss : List Bytes}, IsMark o → IsMark c → Part t ss →
        Part (o :: (t ++ [c])) ss := by
      intro o c t ss ho hc ht
      have hpart := (Part.marks (List.forall_mem_singleton.mpr ho)).append
        (ht.append (.marks (List.forall_mem_singleton.mpr hc)))
      rwa [List.nil_append, List.append_nil] at hpart
    cases ht with
    | null => exact .marks (by decide)
    | true => exact .marks (by decide)
    | false => exact .marks (by decide)
    | number n => exact .marks (marks_number n)
    | string spelled => exact .quoted spelled
    | emptyArray hblank => exact hbracket (by decide) (by decide) (.marks (marks_blank hblank))
    | array elements =>
      have hpart := Part.elements (f := id) (fun t ss => Part.padded ih) elements
      rw [List.flatMap_id] at hpart
      exact hbracket (by decide) (by decide) hpart
    | emptyObject hblank => exact hbracket (by decide) (by decide) (.marks (marks_blank hblank))
    | object members =>
      have hpart := Part.elements (Part.member fun t ss => Part.padded ih) members
      exact hbracket (by decide) (by decide) hpart

end Parts

/-- **The strings of a text in UTF-8 are UTF-8 exactly when its surrogates are paired.** -/
theorem IsText.isUtf8_iff {levels : ℕ} {t : Bytes} {ss : List Bytes}
    (h : IsText spellings levels t ss) (ht : IsUtf8 t) :
    (∀ s ∈ ss, IsUtf8 s) ↔ surrogatesPaired t = true :=
  (Part.isText h).utf8_iff ht

end Foundations.JsonText
