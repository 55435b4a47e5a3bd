import PgConsul.Cpr.Header

/-! # The headers of several responses

curl hands over the header of every response it got, those in front of the last one included. HTTP
allows any number of blanks between the colon of a field and its value, and any text behind a status
code; the parser drops one character behind a colon and takes a status line with a colon for a field
too.
-/
namespace PgConsul.Cpr
set_option autoImplicit false
open Foundations

def isBlank (b : UInt8) : Bool := b = chr ' ' || b = chr '\t'

/-- A header field as HTTP has it: any number of blanks between the colon and the value. -/
structure Field where
  name : Bytes
  blanks : Bytes
  value : Bytes
  name_token : ∀ b ∈ name, b ∉ [chr ':', chr '/', chr '\n']
  blanks_blank : blanks.all isBlank = true
  value_start : ∀ b ∈ value.head?, isBlank b = false
  value_line : chr '\n' ∉ value

/-- The header of one response; the reason behind the status code is any text. -/
structure Message where
  status : Bytes
  fields : List Field
  status_http : isStatusLine status = true
  status_line : chr '\n' ∉ status

def Field.line (f : Field) : Bytes := f.name ++ chr ':' :: (f.blanks ++ f.value)

/-- What the parser takes for the value: the character behind the colon is left out. -/
def Field.kept (f : Field) : Bytes := (f.blanks ++ f.value).drop 1

def Field.pair (f : Field) : Bytes × Bytes := (f.name, f.kept)

/-- The lines as they are sent, the empty line behind the fields included. -/
def Message.lines (m : Message) : List Bytes :=
  (m.status :: m.fields.map Field.line ++ [[]]).map (· ++ [chr '\r'])

def Message.text (m : Message) : Bytes := m.lines.flatMap (· ++ [chr '\n'])

/-- What the parser takes for fields: a colon in the status line makes one of it. -/
def Message.pairs (m : Message) : List (Bytes × Bytes) :=
  (fieldOf (m.status ++ [chr '\r'])).toList ++ m.fields.map Field.pair

/-- Something stands behind the first colon of every line. -/
structure Message.Whole (m : Message) : Prop where
  status : ∀ name rest, chr ':' ∉ name → m.status = name ++ chr ':' :: rest → rest ≠ []
  fields : ∀ f ∈ m.fields, f.blanks ++ f.value ≠ []

section Messages
variable {lib : StdLib}

theorem Field.line_eq (f : Field) :
    f.line ++ [chr '\r'] = f.name ++ chr ':' :: (f.blanks ++ f.value ++ [chr '\r']) := by
  simp [Field.line]

theorem Field.colon_not_mem (f : Field) : chr ':' ∉ f.name :=
  fun h => f.name_token _ h List.mem_cons_self

/-- The value is kept as it was sent exactly when one blank stands in front of it. -/
theorem Field.kept_eq_iff (f : Field) (h : f.blanks ++ f.value ≠ []) :
    f.kept = f.value ↔ f.blanks.length = 1 := by
  have hlength : f.kept.length = f.blanks.length + f.value.length - 1 := by
    rw [Field.kept, List.length_drop, List.length_append]
  have hsome : 0 < f.blanks.length + f.value.length := by
    rw [← List.length_append]
    exact List.length_pos_iff.mpr h
  constructor
  · intro hkept
    rw [hkept] at hlength
    omega
  · intro hone
    rw [Field.kept, ← hone, List.drop_left]

theorem dropReturn_concat (value : Bytes) : dropReturn (value ++ [chr '\r']) = value := by
  rw [dropReturn, List.getLast?_concat, if_pos rfl, List.dropLast_concat]

theorem fieldOf_line (f : Field) (h : f.blanks ++ f.value ≠ []) :
    fieldOf (f.line ++ [chr '\r']) = some f.pair := by
  have hdrop : (f.blanks ++ f.value ++ [chr '\r']).drop 1 = f.kept ++ [chr '\r'] := by
    rw [Field.kept]
    cases htext : f.blanks ++ f.value with
    | nil => exact absurd htext h
    | cons b rest => rfl
  rw [f.line_eq, fieldOf_colon f.colon_not_mem, hdrop, dropReturn_concat]
  rfl

/-- A name is a token, so no field looks like a status line. -/
theorem isStatusLine_line (f : Field) : isStatusLine (f.line ++ [chr '\r']) = false := by
  rw [isStatusLine, decide_eq_false_iff_not, f.line_eq]
  intro h
  by_cases hshort : f.name.length < 5
  · have hcolon : chr ':' ∈ ascii "HTTP/" := by
      obtain ⟨k, hk⟩ := Nat.exists_eq_add_of_lt hshort
      rw [← h, List.take_append, hk, Nat.add_assoc, Nat.add_sub_cancel_left, List.take_succ_cons]
      exact List.mem_append_right _ List.mem_cons_self
    exact absurd hcolon (by decide)
  · have hslash : chr '/' ∈ f.name.take 5 := by
      rw [← List.take_append_of_le_length (by omega), h]
      decide
    exact f.name_token _ (List.mem_of_mem_take hslash) (by decide)

theorem readable_plain {line : Bytes} (h : chr ':' ∉ line) : Readable line := by
  rintro name rest - rfl
  exact absurd (List.mem_append_right name List.mem_cons_self) h

/-- A line that ends in a carriage return is readable when it has something behind its colon. -/
theorem readable_concat_iff (line : Bytes) : Readable (line ++ [chr '\r']) ↔
    ∀ name rest, chr ':' ∉ name → line = name ++ chr ':' :: rest → rest ≠ [] := by
  constructor
  · rintro h name rest hname rfl rfl
    have htwo := h name [chr '\r'] hname (by simp)
    exact absurd htwo (by decide)
  · intro h name rest hname hline
    rcases List.eq_nil_or_concat rest with rfl | ⟨rest, b, rfl⟩
    · exact absurd (List.append_inj_right' hline rfl) (by decide)
    · rw [List.concat_eq_append, ← List.cons_append, ← List.append_assoc] at hline
      have hne := h name rest hname (List.append_inj_left' hline rfl)
      have hpos : 0 < rest.length := List.length_pos_iff.mpr hne
      rw [List.concat_eq_append, List.length_append, List.length_singleton]
      omega

theorem readable_field_iff (f : Field) :
    Readable (f.line ++ [chr '\r']) ↔ f.blanks ++ f.value ≠ [] := by
  rw [readable_concat_iff]
  constructor
  · exact fun h => h f.name _ f.colon_not_mem rfl
  · intro h name rest hname hline
    have hfirst := congrArg (List.idxOf? (chr ':')) hline
    rw [Field.line, idxOf?_colon f.colon_not_mem, idxOf?_colon hname, Option.some_inj] at hfirst
    cases (List.append_inj hline hfirst).2
    exact h

/-- Every line of a message is the status line, a field or empty. -/
theorem Message.forall_lines (m : Message) {P : Bytes → Prop} :
    (∀ line ∈ m.lines, P line) ↔
      P (m.status ++ [chr '\r']) ∧ (∀ f ∈ m.fields, P (f.line ++ [chr '\r'])) ∧
        P [chr '\r'] := by
  simp only [Message.lines, List.forall_mem_map, List.cons_append, List.forall_mem_cons,
    List.forall_mem_append, List.nil_append, List.not_mem_nil, IsEmpty.forall_iff, implies_true,
    and_true]

theorem Message.newline_not_mem (m : Message) : ∀ line ∈ m.lines, chr '\n' ∉ line := by
  refine m.forall_lines.mpr ⟨fun hmem => ?_, fun f _ hmem => ?_, by decide⟩
  · have hmark : chr '\n' ≠ chr '\r' := by decide
    simp [m.status_line, hmark] at hmem
  · have hname : chr '\n' ∉ f.name := fun h => f.name_token _ h (by decide)
    have hmark : chr '\n' ≠ chr ':' ∧ chr '\n' ≠ chr '\r' := by decide
    have hblanks : chr '\n' ∉ f.blanks := fun h =>
      absurd (List.all_eq_true.mp f.blanks_blank _ h) (by decide)
    simp [f.line_eq, hname, hblanks, hmark, f.value_line] at hmem

theorem Message.readable_iff (m : Message) : (∀ line ∈ m.lines, Readable line) ↔ m.Whole := by
  rw [m.forall_lines, readable_concat_iff]
  simp only [readable_field_iff]
  constructor
  · rintro ⟨hstatus, hfields, -⟩
    exact ⟨hstatus, hfields⟩
  · rintro ⟨hstatus, hfields⟩
    exact ⟨hstatus, hfields, readable_plain (by decide)⟩

theorem lastMessage_append (before : List Bytes) {status : Bytes} {lines : List Bytes}
    (hstatus : isStatusLine status = true) (hlines : lines.any isStatusLine = false) :
    lastMessage (before ++ status :: lines) = status :: lines := by
  induction before with
  | nil => rw [List.nil_append, lastMessage, if_neg (by rw [hlines]; decide)]
  | cons line before ih =>
    have hany : (before ++ status :: lines).any isStatusLine = true := by
      simp [hstatus]
    rw [List.cons_append, lastMessage, if_pos hany, ih]

theorem fields_messages (before : List Bytes) {m : Message} (h : m.Whole) :
    fields (before ++ m.lines) = m.pairs := by
  have hstatus : isStatusLine (m.status ++ [chr '\r']) = true := by
    have h := m.status_http
    rw [isStatusLine, decide_eq_true_eq] at h ⊢
    have hlong : 5 ≤ m.status.length := by
      have hlength := congrArg List.length h
      rw [List.length_take] at hlength
      have hfive : (ascii "HTTP/").length = 5 := by decide
      omega
    rw [List.take_append_of_le_length hlong, h]
  have hrest : ((m.fields.map Field.line ++ [[]]).map (· ++ [chr '\r'])).any isStatusLine =
      false := by
    rw [List.any_eq_false]
    intro line hline
    obtain ⟨text, htext, rfl⟩ := List.mem_map.mp hline
    rcases List.mem_append.mp htext with htext | htext
    · obtain ⟨f, -, rfl⟩ := List.mem_map.mp htext
      rw [isStatusLine_line]
      exact Bool.false_ne_true
    · rw [List.mem_singleton.mp htext]
      decide
  have hlines : m.lines = (m.status ++ [chr '\r']) ::
      (m.fields.map Field.line ++ [[]]).map (· ++ [chr '\r']) := rfl
  have hlast : fieldOf ([] ++ [chr '\r']) = none := fieldOf_plain (by decide)
  have hfields : ∀ fs : List Field, (∀ f ∈ fs, f.blanks ++ f.value ≠ []) →
      (fs.map fun f => f.line ++ [chr '\r']).filterMap fieldOf = fs.map Field.pair := by
    intro fs hfs
    induction fs with
    | nil => rfl
    | cons f fs ih =>
      obtain ⟨hf, hfs⟩ := List.forall_mem_cons.mp hfs
      rw [List.map_cons, List.filterMap_cons_some (fieldOf_line f hf), ih hfs, List.map_cons]
  have htail : ((m.fields.map Field.line ++ [[]]).map (· ++ [chr '\r'])).filterMap fieldOf =
      m.fields.map Field.pair := by
    rw [List.map_append, List.map_map, List.filterMap_append, List.map_singleton,
      List.filterMap_cons_none hlast, List.filterMap_nil, List.append_nil]
    exact hfields m.fields h.fields
  rw [fields, hlines, lastMessage_append before hstatus hrest, List.filterMap_cons, htail,
    Message.pairs]
  cases fieldOf (m.status ++ [chr '\r']) <;> rfl

theorem readLines_messages (messages : List Message) :
    readLines (chr '\n') (messages.flatMap Message.text) = messages.flatMap Message.lines := by
  have htext : messages.flatMap Message.text =
      (messages.flatMap Message.lines).flatMap (· ++ [chr '\n']) := by
    rw [List.flatMap_assoc]
    rfl
  rw [htext]
  refine readLines_flatMap fun line hline => ?_
  obtain ⟨m, -, hline⟩ := List.mem_flatMap.mp hline
  exact m.newline_not_mem line hline

/-- **The header read is that of the last response**: whatever responses come before it, and
whatever the case of a name, the value found is that of the last field of this name. Reading is
defined exactly when something stands behind every colon, and a value is found as it was sent exactly
when one blank stands in front of it. -/
theorem parseHeader_messages (lib : StdLib) (earlier : List Message) (last : Message) :
    ((∃ header : Header lib,
        parseHeader lib ((earlier ++ [last]).flatMap Message.text) = .ok header) ↔
      ∀ m ∈ earlier ++ [last], m.Whole) ∧
      (∀ header : Header lib,
        parseHeader lib ((earlier ++ [last]).flatMap Message.text) = .ok header →
          ∀ name, header.find name = OrderedMap.lastValue lib.caseless name last.pairs) ∧
      (last.Whole → ∀ f ∈ last.fields, f.kept = f.value ↔ f.blanks.length = 1) ∧
      (chr ':' ∉ last.status → last.pairs = last.fields.map Field.pair) := by
  have hreadable : (∀ line ∈ (earlier ++ [last]).flatMap Message.lines, Readable line) ↔
      ∀ m ∈ earlier ++ [last], m.Whole := by
    simp only [List.forall_mem_flatMap, Message.readable_iff]
  have hempty : (Header.empty : Header lib).entries = [] := rfl
  refine ⟨⟨?_, fun hwhole => ?_⟩, fun header hparse name => ?_,
    fun hwhole f hf => f.kept_eq_iff (hwhole.fields f hf), fun hcolon => ?_⟩
  · rintro ⟨header, hparse⟩
    rw [parseHeader, readLines_messages] at hparse
    exact hreadable.mp (readable_of_foldlM hparse)
  · obtain ⟨header, hparse, -⟩ := foldlM_readable (hreadable.mpr hwhole) (.empty : Header lib)
    exact ⟨header, by rw [parseHeader, readLines_messages, hparse]⟩
  · rw [parseHeader, readLines_messages] at hparse
    have hread := readable_of_foldlM hparse
    have hwhole : last.Whole := hreadable.mp hread last (by simp)
    obtain ⟨header', hparse', hentries⟩ := foldlM_readable hread (.empty : Header lib)
    obtain rfl : header' = header := Except.ok.inj (hparse'.symm.trans hparse)
    rw [Header.find, hentries, List.flatMap_append, List.flatMap_singleton,
      fields_messages _ hwhole, OrderedMap.find_assignAll, hempty, ite_self]
    exact Option.or_none
  · have hplain : chr ':' ∉ last.status ++ [chr '\r'] := by
      have hmark : chr ':' ≠ chr '\r' := by decide
      simp [hcolon, hmark]
    rw [Message.pairs, fieldOf_plain hplain]
    rfl

/-- A reason with a colon and a value with no blank in front of it: one field too many, and a value
without its first character. -/
example :
    (parseHeader .gnu (ascii "HTTP/1.1 200 a: b\x0D\nX:12\x0D\n\x0D\n")).toOption.map Header.entries =
      some [(ascii "HTTP/1.1 200 a", ascii "b"), (ascii "X", ascii "2")] := by decide +kernel

end Messages

end PgConsul.Cpr
