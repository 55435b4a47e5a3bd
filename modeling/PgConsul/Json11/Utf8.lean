import PgConsul.Foundations.JsonUtf8
import PgConsul.Json11.DumpRoundTrip

/-! # The parser, `dump` and UTF-8

Neither looks at the encoding. What `dump` writes is UTF-8 exactly when the strings of the value are.
A text in UTF-8 can be read into strings that are not, by the escape of a surrogate that is half of no
pair, and only so.
-/
namespace PgConsul.Json11
set_option autoImplicit false
open Foundations JsonString JsonText

/-- Every string in the value has the property, the keys of its objects included. -/
inductive AllStrings (P : Bytes → Prop) : Json → Prop where
  | null : AllStrings P .null
  | double (d : Double) : AllStrings P (.double d)
  | int (i : Int32) : AllStrings P (.int i)
  | bool (b : Bool) : AllStrings P (.bool b)
  | string {s : Bytes} (h : P s) : AllStrings P (.string s)
  | array {values : List Json} (elements : ∀ v ∈ values, AllStrings P v) :
      AllStrings P (.array values)
  | object {values : Object} (keys : ∀ m ∈ values, P m.1)
      (members : ∀ m ∈ values, AllStrings P m.2) : AllStrings P (.object values)

theorem AllStrings.mono {P Q : Bytes → Prop} (h : ∀ s, P s → Q s) {j : Json}
    (hj : AllStrings P j) : AllStrings Q j := by
  induction hj with
  | null => exact .null
  | double d => exact .double d
  | int i => exact .int i
  | bool b => exact .bool b
  | string hs => exact .string (h _ hs)
  | array _ ih => exact .array ih
  | object keys _ ih => exact .object (fun m hm => h _ (keys m hm)) ih

/-! ## What is read -/

/-- The strings of the value are among those of the text; members that a later one with their key
replaces are only in the text. -/
theorem reading_related :
    reading.Related spellings (fun j ss => AllStrings (· ∈ ss) j) where
  null := .null
  bool b := .bool b
  number n := by
    show AllStrings _ (numberReading n)
    unfold numberReading
    split
    · exact .int _
    · exact .double _
  string s := .string (List.mem_singleton.mpr rfl)
  array {vs ss} h := by
    refine .array fun v hv => ?_
    obtain ⟨rs, hrs, hall⟩ := forall₂_right h.flip hv
    exact hall.mono fun s hs => List.mem_flatten.mpr ⟨rs, hrs, hs⟩
  object {ms ns} h := by
    have hmember : ∀ m ∈ ms.foldl (fun data m => assign m.1 m.2 data) [],
        m.1 ∈ spellings.object ns ∧ AllStrings (· ∈ spellings.object ns) m.2 := by
      intro m hm
      rcases mem_foldl_assign hm with hm | hm
      · cases hm
      · obtain ⟨n, hn, hkey, hall⟩ := forall₂_right h.flip hm
        have hsub : ∀ s ∈ n.1 :: n.2, s ∈ spellings.object ns :=
          fun s hs => List.mem_flatMap.mpr ⟨n, hn, hs⟩
        exact ⟨hsub _ (hkey ▸ List.mem_cons_self),
          hall.mono fun s hs => hsub s (List.mem_cons_of_mem _ hs)⟩
    exact .object (fun m hm => (hmember m hm).1) fun m hm => (hmember m hm).2

/-- **What the parser reads from a text in UTF-8**: strings of the text, which are all UTF-8 exactly
when its surrogates are paired. -/
theorem parseText_utf8 {text : Bytes} {j : Json} (htext : IsUtf8 text) (h : parseText text = .ok j) :
    ∃ ss, IsText spellings (maxDepth + 1) text ss ∧ AllStrings (· ∈ ss) j ∧
      ((∀ s ∈ ss, IsUtf8 s) ↔ surrogatesPaired text = true) := by
  obtain ⟨ss, hss, hall⟩ := reading_related.isText _ _ _ (parseText_sound h)
  exact ⟨ss, hss, hall, hss.isUtf8_iff htext⟩

/-- Half of a pair in front of a letter. -/
def loneSurrogate : Bytes := ascii "[\"\\ud83da\"]"

theorem parseText_utf8_loneSurrogate :
    ∃ ss, IsText spellings (maxDepth + 1) loneSurrogate ss ∧
      AllStrings (· ∈ ss) (.array [.string [0xED, 0xA0, 0xBD, chr 'a']]) ∧
        ((∀ s ∈ ss, IsUtf8 s) ↔ surrogatesPaired loneSurrogate = true) :=
  parseText_utf8 (by decide) (by decide +kernel)

/-- A text in UTF-8 whose escapes name no lone surrogate. -/
structure UnicodeText (text : Bytes) : Prop where
  utf8 : IsUtf8 text
  paired : surrogatesPaired text = true

theorem UnicodeText.allStrings {text : Bytes} (ht : UnicodeText text) {j : Json}
    (h : parseText text = .ok j) : AllStrings IsUtf8 j := by
  obtain ⟨ss, hss, hall⟩ := reading_related.isText _ _ _ (parseText_sound h)
  exact hall.mono ((hss.isUtf8_iff ht.utf8).mpr ht.paired)

theorem allStrings_array {P : Bytes → Prop} {values : List Json} :
    AllStrings P (.array values) ↔ ∀ v ∈ values, AllStrings P v := by
  refine ⟨fun h => ?_, .array⟩
  cases h with
  | array elements => exact elements

theorem allStrings_object {P : Bytes → Prop} {values : Object} :
    AllStrings P (.object values) ↔ ∀ m ∈ values, P m.1 ∧ AllStrings P m.2 := by
  refine ⟨fun h m hm => ?_, fun h => .object (fun m hm => (h m hm).1) fun m hm => (h m hm).2⟩
  cases h with
  | object keys members => exact ⟨keys m hm, members m hm⟩

theorem UnicodeText.elements {text : Bytes} (ht : UnicodeText text) {arr : List Json}
    (h : parseText text = .ok (.array arr)) : ∀ j ∈ arr, AllStrings IsUtf8 j :=
  allStrings_array.mp (ht.allStrings h)

/-! ## What is written -/

/-- A part of what `dump` writes: it escapes no surrogate, and is UTF-8 exactly when `q` holds. -/
structure DumpPart (t : Bytes) (q : Prop) : Prop where
  cut : ∀ s, IsUtf8 (s ++ t) → IsUtf8 s ∧ IsUtf8 t
  paired_append : ∀ s, surrogatesPaired (t ++ s) = surrogatesPaired s
  utf8_iff : IsUtf8 t ↔ q

theorem DumpPart.marks {t : Bytes} (h : Marks t) {q : Prop} (hq : q) : DumpPart t q where
  cut := (Part.marks h).cut
  paired_append := surrogatesPaired_marks h
  utf8_iff := iff_of_true (IsAscii.isUtf8 fun b hb => (h b hb).1) hq

theorem DumpPart.append {t u : Bytes} {q r : Prop} (ht : DumpPart t q) (hu : DumpPart u r) :
    DumpPart (t ++ u) (q ∧ r) where
  cut s h := by
    rw [← List.append_assoc] at h
    obtain ⟨hst, hu'⟩ := hu.cut _ h
    obtain ⟨hs, ht'⟩ := ht.cut s hst
    exact ⟨hs, ht'.append hu'⟩
  paired_append s := by rw [List.append_assoc, ht.paired_append, hu.paired_append]
  utf8_iff := by
    rw [← ht.utf8_iff, ← hu.utf8_iff]
    refine ⟨fun h => ?_, fun h => h.1.append h.2⟩
    obtain ⟨ht', hu'⟩ := hu.cut _ h
    exact ⟨ht', hu'⟩

theorem DumpPart.congr {t : Bytes} {q r : Prop} (h : DumpPart t q) (hqr : q ↔ r) : DumpPart t r where
  cut := h.cut
  paired_append := h.paired_append
  utf8_iff := h.utf8_iff.trans hqr

theorem dumpPart_string (s : Bytes) : DumpPart (dumpString s) (IsUtf8 s) := by
  have hspells : Spells (dumpChars 0 s) s := spells_dumpChars 0 s
  obtain ⟨ps, hpieces, -⟩ := pieces_of_spells hspells
  have hquote : chr '"' < 0x80 := by decide
  refine ⟨(Part.quoted hpieces).cut, fun t => ?_, ?_⟩
  · have hmark : Marks [chr '"'] := by decide
    rw [dumpString, List.append_assoc, List.append_assoc, surrogatesPaired_marks hmark,
      surrogatesPaired_spells hspells, surrogatesPaired_marks hmark]
  · rw [dumpString, isUtf8_ascii_split hquote, and_iff_left isUtf8_nil, List.singleton_append,
      isUtf8_ascii_cons hquote]
    exact spells_isUtf8_iff hspells []

theorem dumpPart_number (n : Number) {q : Prop} (hq : q) : DumpPart n.text q :=
  .marks (marks_number n) hq

theorem dumpPart_double (d : Double) {q : Prop} (hq : q) : DumpPart (dumpDouble d) q := by
  cases d with
  | finite negative a =>
    obtain ⟨n, htext, -⟩ := dumpDouble_text negative a
    exact htext ▸ dumpPart_number n hq
  | infinite _ | nan =>
    have hnull : Marks (ascii "null") := by decide
    exact .marks hnull hq

theorem dumpPart_separator (first : Bool) : DumpPart (if first then [] else ascii ", ") True := by
  have hcomma : Marks (ascii ", ") := by decide
  cases first with
  | true => exact .marks (List.forall_mem_nil _) trivial
  | false => exact .marks hcomma trivial

theorem DumpPart.bracketed {o c : UInt8} (ho : IsMark o) (hc : IsMark c) {t : Bytes} {q : Prop}
    (h : DumpPart t q) : DumpPart ([o] ++ t ++ [c]) q := by
  have hopen : DumpPart [o] True := .marks (List.forall_mem_singleton.mpr ho) trivial
  have hclose : DumpPart [c] True := .marks (List.forall_mem_singleton.mpr hc) trivial
  exact ((hopen.append h).append hclose).congr (by simp)

mutual

theorem dumpPart_dump : ∀ j : Json, DumpPart (dump j) (AllStrings IsUtf8 j)
  | .null => .marks (by decide) .null
  | .double d => dumpPart_double d (.double d)
  | .int i => by
    obtain ⟨n, htext, -⟩ := dumpInt_text i
    rw [dump, ← htext]
    exact dumpPart_number n (.int i)
  | .bool b => by
    have hmarks : Marks (dump (.bool b)) := by cases b <;> decide
    exact .marks hmarks (.bool b)
  | .string s => by
    refine (dumpPart_string s).congr ⟨.string, fun h => ?_⟩
    cases h with
    | string hs => exact hs
  | .array values => by
    rw [allStrings_array]
    exact (dumpPart_array true values).bracketed (by decide) (by decide)
  | .object values => by
    rw [allStrings_object]
    exact (dumpPart_object true values).bracketed (by decide) (by decide)

theorem dumpPart_array (first : Bool) : ∀ values : List Json,
    DumpPart (dumpArray first values) (∀ v ∈ values, AllStrings IsUtf8 v)
  | [] => .marks (List.forall_mem_nil _) (List.forall_mem_nil _)
  | value :: values => by
    have hvalue := (dumpPart_separator first).append (dumpPart_dump value)
    refine (hvalue.append (dumpPart_array false values)).congr ?_
    rw [true_and, List.forall_mem_cons]

theorem dumpPart_object (first : Bool) : ∀ values : List (Bytes × Json),
    DumpPart (dumpObject first values) (∀ m ∈ values, IsUtf8 m.1 ∧ AllStrings IsUtf8 m.2)
  | [] => .marks (List.forall_mem_nil _) (List.forall_mem_nil _)
  | kv :: values => by
    have hmember := (dumpPart_separator first).append (dumpPart_member kv)
    refine (hmember.append (dumpPart_object false values)).congr ?_
    rw [true_and, List.forall_mem_cons]

theorem dumpPart_member : ∀ kv : Bytes × Json,
    DumpPart (dumpMember kv) (IsUtf8 kv.1 ∧ AllStrings IsUtf8 kv.2)
  | (key, value) => by
    have hcolon : DumpPart (ascii ": ") True := .marks (by decide) trivial
    refine (((dumpPart_string key).append hcolon).append (dumpPart_dump value)).congr ?_
    rw [and_true]

end

/-- **What `dump` writes is a Unicode text exactly when the strings of the value are UTF-8**: it
escapes no half of a pair. -/
theorem dump_unicodeText_iff (j : Json) : UnicodeText (dump j) ↔ AllStrings IsUtf8 j := by
  have h := dumpPart_dump j
  have hpaired : surrogatesPaired (dump j) = true := by
    have hnil := h.paired_append []
    rwa [List.append_nil] at hnil
  exact ⟨fun ht => h.utf8_iff.mp ht.utf8, fun hj => ⟨h.utf8_iff.mpr hj, hpaired⟩⟩

end PgConsul.Json11
