import PgConsul.Consul.Explanations
import PgConsul.Consul.ListDecoders
import PgConsul.Json11.Utf8

/-! # The texts the decoders keep

Hosts, keys and sessions are strings of the agent's answer, or the parts of one around a colon. They
are UTF-8 when the answer is a Unicode text. The value of a pair is decoded from base64 and may be any
bytes.
-/
namespace PgConsul.Consul
set_option autoImplicit false
open Foundations Json11

/-! ## Strings of a value -/

theorem isUtf8_stringValue {j : Json} (h : AllStrings IsUtf8 j) : IsUtf8 j.stringValue := by
  cases h with
  | string hs => exact hs
  | null | double | int | bool | array | object => exact isUtf8_nil

theorem allStrings_find {P : Bytes → Prop} {obj v : Json} (h : AllStrings P obj) {name : Bytes}
    (hfind : find name obj.objectItems = some v) : AllStrings P v := by
  obtain ⟨front, behind, hitems, -⟩ := List.lookup_eq_some_iff.mp hfind
  have hmem : (name, v) ∈ obj.objectItems := by
    rw [hitems]
    exact List.mem_append_right front List.mem_cons_self
  cases h with
  | object keys members => exact members _ hmem
  | null | double | int | bool | string | array => cases hmem

/-! ## Peers -/

/-- The host is what stands in front of a colon. -/
theorem Peer.decoded_host_utf8 {j : Json} (h : AllStrings IsUtf8 j) (haccepts : Peer.Accepts j) :
    IsUtf8 (Peer.decoded j).host := by
  obtain ⟨s, rfl⟩ := Peer.accepts_string haccepts
  have hs : IsUtf8 s := isUtf8_stringValue h
  by_cases hempty : s = []
  · subst hempty
    exact isUtf8_nil
  · obtain ⟨t, rfl⟩ := Peer.peerText_of_accepted hempty haccepts
    have hcolon : chr ':' < 0x80 := by decide
    rw [Peer.decoded, Peer.initFromJson_peerText]
    exact ((isUtf8_ascii_split hcolon _ _).mp hs).1

theorem Peer.initFromText_utf8 {text : Bytes} (ht : UnicodeText text)
    (h : (({} : Peer).initFromText text []).ok = true) :
    IsUtf8 (({} : Peer).initFromText text []).target.host ∧
      (({} : Peer).initFromText text []).err = [] := by
  obtain ⟨s, hparse⟩ := Peer.parseText_of_accepted h
  rw [Peer.initFromText_string hparse] at h ⊢
  refine ⟨Peer.decoded_host_utf8 (ht.allStrings hparse) h, ?_⟩
  rw [(Peer.initFromJson_err {} (.string s) []).1 h]

theorem Peer.str_utf8 {peer : Peer} (h : IsUtf8 peer.host) : IsUtf8 peer.str :=
  (isUtf8_ascii_split (by decide) _ _).mpr ⟨h, isUtf8_decimal _⟩

theorem Peer.json_utf8 {peer : Peer} (h : IsUtf8 peer.host) : IsUtf8 peer.json :=
  (dumpPart_dump _).utf8_iff.mpr (.string (Peer.str_utf8 h))

theorem initFromJsonPeers_utf8 {text : Bytes} (ht : UnicodeText text)
    (h : (initFromJsonPeers [] text []).ok = true) :
    ∀ peer ∈ (initFromJsonPeers [] text []).target, IsUtf8 peer.host := by
  cases hparse : parseText text with
  | error message =>
    obtain ⟨herror, hne⟩ := parse_error hparse
    rw [initFromJsonPeers, herror, if_pos hne] at h
    cases h
  | ok j =>
    obtain ⟨arr, rfl, hne, haccepts⟩ := initFromJsonPeers_accepts hparse h
    rw [initFromJsonPeers_eq hparse hne haccepts]
    intro peer hpeer
    obtain ⟨j, hj, rfl⟩ := List.mem_map.mp hpeer
    exact Peer.decoded_host_utf8 (ht.elements hparse j hj) (haccepts j hj)

/-! ## Pairs -/

/-- The texts of a pair that are strings of the answer. -/
structure KVPair.TextsUtf8 (kvp : KVPair) : Prop where
  key : IsUtf8 kvp.key
  session : IsUtf8 kvp.session

theorem KVPair.decoded_utf8 (platform : Platform) {obj : Json} (h : AllStrings IsUtf8 obj)
    (memory : Indeterminate) :
    ((KVPair.uninitialised memory).decoded platform obj).TextsUtf8 := by
  have htext : ∀ t : Textual, textOf t = Json.stringValue →
      (KVPair.uninitialised memory).textual t = [] →
      IsUtf8 (((KVPair.uninitialised memory).decoded platform obj).textual t) := by
    intro t hstring hempty
    rw [KVPair.decoded_textual, hempty, hstring]
    cases hfind : find t.name obj.objectItems with
    | none => exact isUtf8_nil
    | some v => exact isUtf8_stringValue (allStrings_find h hfind)
  exact ⟨htext .Key rfl rfl, htext .Session rfl rfl⟩

theorem initFromJsonPairs_utf8 {platform : Platform} {memory : ℕ → Indeterminate} {text : Bytes}
    (ht : UnicodeText text) (h : (initFromJsonPairs platform memory [] text []).ok = true) :
    ∀ kvp ∈ (initFromJsonPairs platform memory [] text []).target, kvp.TextsUtf8 := by
  obtain ⟨arr, hparse⟩ := initFromJsonPairs_array h
  rw [initFromJsonPairs_eq hparse (initFromJsonPairs_accepts hparse h)]
  intro kvp hkvp
  obtain ⟨i, hi⟩ := List.getElem?_of_mem hkvp
  rw [decodedElements_getElem?, Option.map_eq_some_iff] at hi
  obtain ⟨obj, hobj, rfl⟩ := hi
  exact KVPair.decoded_utf8 platform (ht.elements hparse obj (List.mem_of_getElem? hobj)) _

end PgConsul.Consul
