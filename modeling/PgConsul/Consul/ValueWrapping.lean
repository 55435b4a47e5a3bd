import PgConsul.Consul.KVPair

/-! # The value of a pair as wrapped base64

A value is written in lines of 72 characters and read back from any wrapped text. The encoder ends
its output with a line break; when the last line is full it has broken that line already, and only
one of the two breaks is taken off.
-/
namespace PgConsul.Consul
set_option autoImplicit false
open Foundations Json11 B64

/-! ## Writing -/

/-- The RFC 4648 text in lines of 72 characters, joined by single newlines. -/
def wrapped (v : Bytes) : Bytes :=
  [chr '\n'].intercalate (lines CHARS_PER_LINE (Base64.encode v))

theorem mem_encodedLines {v line : Bytes} (h : line ∈ lines CHARS_PER_LINE (Base64.encode v)) :
    line ≠ [] ∧ chr '\n' ∉ line := by
  obtain ⟨hne, hsub⟩ := mem_lines (by decide) h
  exact ⟨hne, fun hmem => Base64.newline_not_mem_encode v (hsub hmem)⟩

theorem encode_ne_nil {v : Bytes} (hv : v ≠ []) : Base64.encode v ≠ [] := by
  have hpos := List.length_pos_of_ne_nil hv
  rw [← List.length_pos_iff_ne_nil, Base64.length_encode]
  omega

theorem encode_wrapped {v : Bytes} (hv : v ≠ []) :
    B64.encode v = wrapped v ++ [chr '\n'] ++ finalBreak v := by
  have hlines := lines_ne_nil (n := CHARS_PER_LINE) (by decide) (encode_ne_nil hv)
  rw [encode_lines, flatMap_terminated _ hlines, wrapped]

/-- **One break too many stays behind a full last line.** -/
theorem valueEncoded_eq (kvp : KVPair) :
    kvp.valueEncoded =
      wrapped kvp.value ++ if kvp.value = [] then [] else finalBreak kvp.value := by
  unfold KVPair.valueEncoded
  by_cases hv : kvp.value = []
  · rw [hv]
    decide +kernel
  · rw [encode_wrapped hv, if_neg hv]
    unfold finalBreak
    split
    · simp
    · simp

/-- Lines of 72 characters of the RFC 4648 text, joined by single newlines: no newline at the end
and no empty line. -/
def WellWrapped (v text : Bytes) : Prop :=
  text = wrapped v ∧ text.getLast? ≠ some (chr '\n') ∧
    (text ≠ [] → [] ∉ text.splitOn (chr '\n'))

theorem wellWrapped_wrapped (v : Bytes) : WellWrapped v (wrapped v) := by
  refine ⟨rfl, getLast?_intercalate fun l hl => mem_encodedLines hl, ?_⟩
  intro hne hempty
  have hlines : lines CHARS_PER_LINE (Base64.encode v) ≠ [] := by
    intro h
    rw [wrapped, h] at hne
    exact hne rfl
  rw [wrapped, List.splitOn_intercalate _ (fun l hl => (mem_encodedLines hl).2) hlines] at hempty
  exact (mem_encodedLines hempty).1 rfl

/-- **`valueEncoded` wraps well exactly when the last line is not full.** -/
theorem valueEncoded_wellWrapped_iff (kvp : KVPair) :
    WellWrapped kvp.value kvp.valueEncoded ↔ kvp.value = [] ∨ ¬ 54 ∣ kvp.value.length := by
  rw [valueEncoded_eq]
  by_cases hv : kvp.value = []
  · simpa [hv] using wellWrapped_wrapped []
  · rw [if_neg hv]
    unfold finalBreak
    split
    · next hfull =>
      constructor
      · rintro ⟨-, hlast, -⟩
        simp at hlast
      · rintro (h | h)
        · exact absurd h hv
        · exact absurd hfull h
    · next hfull =>
      rw [List.append_nil]
      exact ⟨fun _ => .inr hfull, fun _ => wellWrapped_wrapped kvp.value⟩

def fullLinePair : KVPair := ⟨0, 0, 0, 0, ascii "k", [], List.replicate 54 0⟩

theorem fullLinePair_not_wellWrapped :
    ¬ WellWrapped fullLinePair.value fullLinePair.valueEncoded := by
  rintro ⟨-, hlast, -⟩
  have hlength : 54 ∣ fullLinePair.value.length := by decide
  have hne : fullLinePair.value ≠ [] := by decide
  rw [valueEncoded_eq, if_neg hne, finalBreak, if_pos hlength] at hlast
  simp at hlast

/-! ## Reading -/

/-- An object with the member `Value` decodes when its other members have their types, and the
value that comes out is `v`. -/
def DecodesTo (platform : Platform) (v text : Bytes) : Prop :=
  ∀ (kvp : KVPair) (obj : Json) (err : Bytes),
    find (Textual.name .Value) obj.objectItems = some (.string text) →
      ((kvp.initFromJson platform obj err).ok = true ↔
        ∀ m, m ≠ .textual .Value → WellTyped obj.objectItems m) ∧
      ((kvp.initFromJson platform obj err).ok = true →
        (kvp.initFromJson platform obj err).target.value = v)

theorem decodesTo_of_decode {platform : Platform} {v text : Bytes} (h : B64.decode text = v) :
    DecodesTo platform v text := by
  intro kvp obj err hfind
  have hne : obj.objectItems ≠ [] := by
    intro h0
    rw [h0] at hfind
    cases hfind
  have hvalue : WellTyped obj.objectItems (.textual .Value) := by
    intro w hw
    rw [hfind] at hw
    cases hw
    rfl
  constructor
  · rw [KVPair.initFromJson_ok_iff]
    constructor
    · exact fun hdecodable m _ => hdecodable.2 m
    · intro hothers
      refine ⟨hne, fun m => ?_⟩
      by_cases hm : m = .textual .Value
      · exact hm ▸ hvalue
      · exact hothers m hm
  · intro hok
    have hdecodable := (KVPair.initFromJson_ok_iff platform kvp obj err).mp hok
    have hfield := KVPair.decoded_textual platform obj kvp .Value
    rw [hfind] at hfield
    rw [KVPair.initFromJson_eq platform hdecodable]
    exact hfield.trans h

theorem inserted_wrapped (v : Bytes) : Inserted (chr '\n') (Base64.encode v) (wrapped v) := by
  have h := Inserted.intercalate (c := chr '\n') (lines CHARS_PER_LINE (Base64.encode v))
  rwa [lines_flatten (by decide)] at h

theorem inserted_valueEncoded (kvp : KVPair) :
    Inserted (chr '\n') (Base64.encode kvp.value) kvp.valueEncoded := by
  have hbreak : Inserted (chr '\n') []
      (if kvp.value = [] then [] else finalBreak kvp.value) := by
    unfold finalBreak
    split
    · exact .nil
    · split
      · exact .insert .nil
      · exact .nil
  have h := (inserted_wrapped kvp.value).append hbreak
  rwa [List.append_nil, ← valueEncoded_eq] at h

/-- **Every wrapped text of a value decodes to the value**, cut by whatever reads, and the text
`valueEncoded` writes is one of them. -/
theorem initFromJson_wrapped (platform : Platform) :
    (∀ v text : Bytes, Inserted (chr '\n') (Base64.encode v) text →
      DecodesTo platform v text ∧
        ∀ reads : List Bytes, reads.flatten = text →
          decodeReads reads base64InitDecodestate = v) ∧
      ∀ kvp : KVPair, DecodesTo platform kvp.value kvp.valueEncoded := by
  have hdecode : ∀ v text : Bytes, Inserted (chr '\n') (Base64.encode v) text →
      B64.decode text = v :=
    fun v text h => decodeReads_wrapped h (streamReads_flatten BUFFERSIZE text)
  constructor
  · intro v text h
    exact ⟨decodesTo_of_decode (hdecode v text h), fun reads => decodeReads_wrapped h⟩
  · intro kvp
    exact decodesTo_of_decode (hdecode kvp.value _ (inserted_valueEncoded kvp))

def brokenValue : Json := .object [(ascii "Value", .string (ascii "d\nG\n\nVzd\nA==\n"))]

theorem initFromJson_brokenValue :
    ((KVPair.uninitialised ⟨0, 0, 0, 0⟩).initFromJson .amd64 brokenValue []).ok = true ∧
      ((KVPair.uninitialised ⟨0, 0, 0, 0⟩).initFromJson .amd64 brokenValue []).target.value =
        ascii "test" := by
  have hinserted : Inserted (chr '\n') (Base64.encode (ascii "test"))
      (ascii "d\nG\n\nVzd\nA==\n") := by
    have htext : Base64.encode (ascii "test") = ascii "dGVzdA==" := by decide +kernel
    rw [htext]
    exact .keep _ (.insert (.keep _ (.insert (.insert (.keep _ (.keep _ (.keep _ (.insert
      (.keep _ (.keep _ (.keep _ (.insert .nil))))))))))))
  have hfind : find (Textual.name .Value) brokenValue.objectItems =
      some (.string (ascii "d\nG\n\nVzd\nA==\n")) := by decide +kernel
  obtain ⟨hok, hvalue⟩ := ((initFromJson_wrapped .amd64).1 (ascii "test") _ hinserted).1
    (KVPair.uninitialised ⟨0, 0, 0, 0⟩) brokenValue [] hfind
  have htyped : ∀ m ∈ members, m ≠ .textual .Value → WellTyped brokenValue.objectItems m := by
    decide +kernel
  have htrue := hok.mpr fun m hm => htyped m (mem_members m) hm
  exact ⟨htrue, hvalue htrue⟩

end PgConsul.Consul
