import PgConsul.Consul.KVPairFidelity
import PgConsul.Consul.PeerGrammar

/-! # The list decoders element by element

Both lists are arrays whose elements are decoded in order, each into a new value, until one is
refused. A list that is accepted is the image of the array.
-/
namespace PgConsul.Consul
set_option autoImplicit false
open Foundations Json11

/-! ## Peers -/

namespace Peer

/-- A peer decodes from this JSON value. -/
def Accepts (j : Json) : Prop := (({} : Peer).initFromJson j []).ok = true

/-- What a new peer becomes. -/
def decoded (j : Json) : Peer := (({} : Peer).initFromJson j []).target

/-- The error reference is only written on failure, and it decides nothing. -/
theorem initFromJson_err (peer : Peer) (j : Json) (err : Bytes) :
    ((peer.initFromJson j []).ok = true →
        peer.initFromJson j err = ⟨true, (peer.initFromJson j []).target, err⟩) ∧
      ((peer.initFromJson j err).ok = true → (peer.initFromJson j []).ok = true) := by
  unfold initFromJson
  by_cases hstring : j.isString = true
  · by_cases hempty : j.stringValue.length = 0
    · simp [hstring, hempty]
    · simp only [hstring, hempty, Bool.not_true, Bool.false_eq_true, if_false, setHost]
      split
      · next host port hsplit =>
        cases hport : Boost.lexicalCastPort port with
        | none => simp [setPortStr, hport]
        | some n => simp [setPortStr, hport]
      · simp
  · simp [hstring]

theorem accepts_string {j : Json} (h : Accepts j) : ∃ s, j = .string s := by
  cases j with
  | string s => exact ⟨s, rfl⟩
  | null | double | int | bool | array | object =>
    simp [Accepts, initFromJson, Json.isString, Json.type] at h

end Peer

theorem initPeers_ok {arr : List Json} (h : ∀ j ∈ arr, Peer.Accepts j) (err : Bytes)
    (peers : List Peer) : initPeers err arr peers = ⟨true, peers ++ arr.map Peer.decoded, err⟩ := by
  induction arr generalizing peers with
  | nil => simp [initPeers]
  | cons j arr ih =>
    rw [List.forall_mem_cons] at h
    rw [initPeers, (Peer.initFromJson_err {} j err).1 h.1]
    simp only [if_true]
    rw [ih h.2, List.map_cons, ← List.append_cons]
    rfl

theorem initPeers_accepts {arr : List Json} {err : Bytes} {peers : List Peer}
    (h : (initPeers err arr peers).ok = true) : ∀ j ∈ arr, Peer.Accepts j := by
  induction arr generalizing err peers with
  | nil =>
    intro j hj
    cases hj
  | cons j arr ih =>
    rw [initPeers] at h
    by_cases hok : (({} : Peer).initFromJson j err).ok = true
    · simp only [hok, if_true] at h
      intro j' hj'
      cases List.mem_cons.mp hj' with
      | inl heq => exact heq ▸ (Peer.initFromJson_err {} j err).2 hok
      | inr hmem => exact ih h j' hmem
    · simp only [hok, Bool.false_eq_true, if_false] at h

/-- **The peers are a non-empty array of accepted values, and they are its image.** -/
theorem initFromJsonPeers_eq {json : Bytes} {arr : List Json}
    (hparse : parseText json = .ok (.array arr)) (hne : arr ≠ [])
    (h : ∀ j ∈ arr, Peer.Accepts j) :
    initFromJsonPeers [] json [] = ⟨true, arr.map Peer.decoded, []⟩ := by
  unfold initFromJsonPeers
  rw [parse_of_parseText hparse]
  simpa [Json.isArray, Json.type, Json.arrayItems, hne] using initPeers_ok h [] []

theorem initFromJsonPeers_accepts {json : Bytes} {j : Json} (hparse : parseText json = .ok j)
    (h : (initFromJsonPeers [] json []).ok = true) :
    ∃ arr, j = .array arr ∧ arr ≠ [] ∧ ∀ e ∈ arr, Peer.Accepts e := by
  unfold initFromJsonPeers at h
  rw [parse_of_parseText hparse] at h
  cases j with
  | array arr =>
    by_cases hne : arr = []
    · simp [hne, Json.isArray, Json.type, Json.arrayItems] at h
    · simp only [ne_eq, not_true_eq_false, if_false, Json.isArray, Json.type, decide_true,
        Bool.not_true, Bool.false_eq_true, Json.arrayItems, hne] at h
      exact ⟨arr, rfl, hne, initPeers_accepts h⟩
  | null | double | int | bool | string | object => simp [Json.isArray, Json.type] at h

/-! ## Pairs -/

theorem decodedElements_getElem? (platform : Platform) (memory : ℕ → Indeterminate)
    (arr : List Json) (i j : ℕ) :
    (decodedElements platform memory j arr)[i]? =
      arr[i]?.map fun obj => (KVPair.uninitialised (memory (j + i))).decoded platform obj := by
  induction arr generalizing i j with
  | nil => rfl
  | cons obj arr ih =>
    cases i with
    | zero => rfl
    | succ i =>
      rw [decodedElements, List.getElem?_cons_succ, List.getElem?_cons_succ, ih]
      have hindex : j + 1 + i = j + (i + 1) := by omega
      rw [hindex]

/-- Two pairs agree in the texts and in every number the object has. -/
structure AgreeOn (obj : Json) (kvp kvp' : KVPair) : Prop where
  key : kvp.key = kvp'.key
  session : kvp.session = kvp'.session
  value : kvp.value = kvp'.value
  numeric : ∀ n : Numeric, Present obj (.numeric n) → kvp.numeric n = kvp'.numeric n

theorem uninitialised_textual (memory memory' : Indeterminate) (platform : Platform) (obj : Json)
    (t : Textual) :
    ((KVPair.uninitialised memory).decoded platform obj).textual t =
      ((KVPair.uninitialised memory').decoded platform obj).textual t := by
  rw [KVPair.decoded_textual, KVPair.decoded_textual]
  cases t <;> rfl

theorem agreeOn_decoded (memory memory' : Indeterminate) (platform : Platform) (obj : Json) :
    AgreeOn obj ((KVPair.uninitialised memory).decoded platform obj)
      ((KVPair.uninitialised memory').decoded platform obj) where
  key := uninitialised_textual memory memory' platform obj .Key
  session := uninitialised_textual memory memory' platform obj .Session
  value := uninitialised_textual memory memory' platform obj .Value
  numeric _ h := decoded_numeric_present h platform _ _

/-- A non-empty object whose known members have their types, or null for `Value`. -/
structure WellFormed (obj : Json) : Prop where
  object : ∃ o, obj = .object o ∧ o ≠ []
  numeric : ∀ (n : Numeric) (v : Json), find n.name obj.objectItems = some v → v.isNumber = true
  session : ∀ v, find (Textual.name .Session) obj.objectItems = some v → v.isString = true
  key : ∀ v, find (Textual.name .Key) obj.objectItems = some v → v.isString = true
  value : ∀ v, find (Textual.name .Value) obj.objectItems = some v →
    v.isString = true ∨ v.isNull = true

theorem Decodable.wellFormed {obj : Json} (h : Decodable obj) : WellFormed obj where
  object := by
    cases obj with
    | object o => exact ⟨o, rfl, h.1⟩
    | null | double | int | bool | string | array => exact absurd rfl h.1
  numeric n := h.2 (.numeric n)
  session := h.2 (.textual .Session)
  key := h.2 (.textual .Key)
  value v hv := .inl (h.2 (.textual .Value) v hv)

/-! ## Both decoders -/

/-- `KVPairs::InitFromJson` on a text that parses to `j`. -/
structure PairsElementwise (platform : Platform) (memory : ℕ → Indeterminate) (json : Bytes)
    (j : Json) : Prop where
  accepts_iff : (initFromJsonPairs platform memory [] json []).ok = true ↔
    ∃ arr, j = .array arr ∧ ∀ obj ∈ arr, ∀ fresh,
      ((KVPair.uninitialised fresh).initFromJson platform obj []).ok = true
  elements : (initFromJsonPairs platform memory [] json []).ok = true →
    (initFromJsonPairs platform memory [] json []).target.length = j.arrayItems.length ∧
      ∀ (i : ℕ) (obj : Json), j.arrayItems[i]? = some obj → ∀ fresh,
        ∃ kvp, (initFromJsonPairs platform memory [] json []).target[i]? = some kvp ∧
          AgreeOn obj kvp ((KVPair.uninitialised fresh).initFromJson platform obj []).target
  wellFormed : (initFromJsonPairs platform memory [] json []).ok = true →
    ∀ obj ∈ j.arrayItems, WellFormed obj

/-- `Peers::InitFromJson` on a text that parses to `j`. -/
structure PeersElementwise (json : Bytes) (j : Json) : Prop where
  accepts_iff : (initFromJsonPeers [] json []).ok = true ↔
    ∃ arr, j = .array arr ∧ arr ≠ [] ∧ ∀ e ∈ arr, ∃ s, e = .string s ∧
      (({} : Peer).initFromJson (.string s) []).ok = true
  elements : (initFromJsonPeers [] json []).ok = true →
    (initFromJsonPeers [] json []).target.length = j.arrayItems.length ∧
      ∀ (i : ℕ) (s : Bytes), j.arrayItems[i]? = some (.string s) →
        (initFromJsonPeers [] json []).target[i]? =
          some (({} : Peer).initFromJson (.string s) []).target

theorem pairs_elementwise (platform : Platform) (memory : ℕ → Indeterminate) {json : Bytes}
    {j : Json} (hparse : parseText json = .ok j) : PairsElementwise platform memory json j := by
  have haccepted : (initFromJsonPairs platform memory [] json []).ok = true →
      ∃ arr, j = .array arr ∧ ∀ obj ∈ arr, Decodable obj := by
    intro hok
    obtain ⟨arr, harr⟩ := initFromJsonPairs_array hok
    rw [hparse, Except.ok.injEq] at harr
    subst harr
    exact ⟨arr, rfl, initFromJsonPairs_accepts hparse hok⟩
  refine ⟨⟨?_, ?_⟩, ?_, ?_⟩
  · intro hok
    obtain ⟨arr, rfl, hdecodable⟩ := haccepted hok
    exact ⟨arr, rfl, fun obj hobj fresh =>
      (KVPair.initFromJson_ok_iff platform _ obj []).mpr (hdecodable obj hobj)⟩
  · rintro ⟨arr, rfl, hall⟩
    have hdecodable : ∀ obj ∈ arr, Decodable obj := fun obj hobj =>
      (KVPair.initFromJson_ok_iff platform _ obj []).mp (hall obj hobj zeros)
    rw [initFromJsonPairs_eq hparse hdecodable]
  · intro hok
    obtain ⟨arr, rfl, hdecodable⟩ := haccepted hok
    rw [initFromJsonPairs_eq hparse hdecodable]
    refine ⟨decodedElements_length platform memory 0 arr, fun i obj hobj fresh => ?_⟩
    have hget : arr[i]? = some obj := hobj
    have hpair := decodedElements_getElem? platform memory arr i 0
    rw [hget] at hpair
    refine ⟨_, hpair, ?_⟩
    rw [KVPair.initFromJson_eq platform (hdecodable obj (List.mem_of_getElem? hget))]
    exact agreeOn_decoded _ _ platform obj
  · intro hok obj hobj
    obtain ⟨arr, rfl, hdecodable⟩ := haccepted hok
    exact (hdecodable obj hobj).wellFormed

theorem peers_elementwise {json : Bytes} {j : Json} (hparse : parseText json = .ok j) :
    PeersElementwise json j := by
  refine ⟨⟨?_, ?_⟩, ?_⟩
  · intro hok
    obtain ⟨arr, rfl, hne, haccepts⟩ := initFromJsonPeers_accepts hparse hok
    refine ⟨arr, rfl, hne, fun e he => ?_⟩
    obtain ⟨s, rfl⟩ := Peer.accepts_string (haccepts e he)
    exact ⟨s, rfl, haccepts _ he⟩
  · rintro ⟨arr, rfl, hne, hall⟩
    have haccepts : ∀ e ∈ arr, Peer.Accepts e := by
      intro e he
      obtain ⟨s, rfl, hok⟩ := hall e he
      exact hok
    rw [initFromJsonPeers_eq hparse hne haccepts]
  · intro hok
    obtain ⟨arr, rfl, hne, haccepts⟩ := initFromJsonPeers_accepts hparse hok
    rw [initFromJsonPeers_eq hparse hne haccepts]
    refine ⟨List.length_map _, fun i s hs => ?_⟩
    have hget : arr[i]? = some (.string s) := hs
    rw [List.getElem?_map, hget]
    rfl

/-- **The list decoders are element-wise maps that accept exactly the arrays whose elements all
decode.** -/
theorem list_decoders_elementwise (platform : Platform) (memory : ℕ → Indeterminate) {json : Bytes}
    {j : Json} (hparse : parseText json = .ok j) :
    PairsElementwise platform memory json j ∧ PeersElementwise json j :=
  ⟨pairs_elementwise platform memory hparse, peers_elementwise hparse⟩

theorem list_decoders_peers :
    PairsElementwise .amd64 (fun _ => zeros) (ascii "[\"a:1\", \"\"]")
        (.array [.string (ascii "a:1"), .string []]) ∧
      PeersElementwise (ascii "[\"a:1\", \"\"]") (.array [.string (ascii "a:1"), .string []]) :=
  list_decoders_elementwise .amd64 (fun _ => zeros) (by decide +kernel)

end PgConsul.Consul
