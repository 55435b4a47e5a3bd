import PgConsul.Consul.KVPairFidelity
import PgConsul.Json11.RoundTrip

/-! # Writing a list of pairs

`KVPairs::to_json` is `json11::Json::array{objs_}`. Braces prefer the constructor from a list of
elements, and the whole vector converts to one element, so the array holds one array.
-/
namespace PgConsul.Consul
set_option autoImplicit false
open Foundations Json11

/-! ## Conversions to JSON -/

/-- The implicit constructors of `Json` that are templates. -/
class ToJson (α : Type) where
  toJson : α → Json

/-- Anything with a `to_json()`. -/
instance : ToJson KVPair := ⟨KVPair.toJson⟩

/-- Vector-like objects: `Json(array(v.begin(), v.end()))`. -/
instance {α : Type} [ToJson α] : ToJson (List α) := ⟨fun v => .array (v.map ToJson.toJson)⟩

/-- `Json::array{e}` for an `e` that converts to `Json`. -/
def bracedArray {α : Type} [ToJson α] (e : α) : List Json := [ToJson.toJson e]

/-- `KVPairs::to_json`. -/
def toJsonPairs (objs : List KVPair) : Json := .array (bracedArray objs)

/-- `KVPairs::json`. -/
def jsonPairs (objs : List KVPair) : Bytes := dump (toJsonPairs objs)

theorem toJsonPairs_eq (objs : List KVPair) :
    toJsonPairs objs = .array [.array (objs.map KVPair.toJson)] := rfl

/-! ## Reading it back -/

theorem readable_toJson (kvp : KVPair) (levels : ℕ) : Readable (levels + 2) kvp.toJson := by
  refine .object ?_ ?_
  · intro m hm
    simp only [List.mem_cons, List.not_mem_nil, or_false] at hm
    rcases hm with rfl | rfl | rfl | rfl | rfl | rfl | rfl <;> exact .string _
  · simp only [List.map_cons, List.map_nil]
    decide

theorem readable_toJsonPairs (objs : List KVPair) (levels : ℕ) :
    Readable (levels + 4) (toJsonPairs objs) := by
  rw [toJsonPairs_eq]
  refine .array fun v hv => ?_
  rw [List.mem_singleton] at hv
  subst hv
  refine .array fun w hw => ?_
  obtain ⟨kvp, -, rfl⟩ := List.mem_map.mp hw
  exact readable_toJson kvp levels

theorem parseText_jsonPairs (objs : List KVPair) :
    parseText (jsonPairs objs) = .ok (toJsonPairs objs) :=
  parseText_dump (readable_toJsonPairs objs 197)

/-- The decoder meets the inner array in place of an object. -/
theorem initFromJsonPairs_jsonPairs (platform : Platform) (memory : ℕ → Indeterminate)
    (objs kvps : List KVPair) :
    initFromJsonPairs platform memory kvps (jsonPairs objs) [] =
      ⟨false, kvps, ascii "Parsing JSON Objects failed: " ++
        ascii "Unexpected empty object in KV Pair response"⟩ := by
  rw [initFromJsonPairs, parse_of_parseText (parseText_jsonPairs objs), toJsonPairs_eq]
  rfl

/-! ## One element for each pair -/

/-- An array with one element for each pair, in order: what the pair's own `to_json` is. -/
structure Elementwise (objs : List KVPair) (j : Json) : Prop where
  array : j.isArray = true
  length : j.arrayItems.length = objs.length
  element : ∀ (i : ℕ) (kvp : KVPair), objs[i]? = some kvp → j.arrayItems[i]? = some kvp.toJson

theorem not_elementwise (objs : List KVPair) : ¬ Elementwise objs (toJsonPairs objs) := by
  intro h
  have hlength : 1 = objs.length := h.length
  obtain ⟨kvp, rfl⟩ := List.length_eq_one_iff.mp hlength.symm
  have hfirst := h.element 0 kvp rfl
  rw [toJsonPairs_eq] at hfirst
  exact Json.noConfusion (Option.some.inj hfirst)

/-- **No list of pairs is written element by element**: neither the value nor what its text parses
to has one element for each pair, and the decoder refuses the text. -/
theorem pairs_json_nested (objs : List KVPair) :
    ¬ Elementwise objs (toJsonPairs objs) ∧
      (∃ j, parseText (jsonPairs objs) = .ok j ∧ ¬ Elementwise objs j) ∧
      ∀ (platform : Platform) (memory : ℕ → Indeterminate) (kvps : List KVPair),
        (initFromJsonPairs platform memory kvps (jsonPairs objs) []).ok = false := by
  refine ⟨not_elementwise objs, ⟨_, parseText_jsonPairs objs, not_elementwise objs⟩, ?_⟩
  intro platform memory kvps
  rw [initFromJsonPairs_jsonPairs]

/-- Two pairs are written as an array of one element. -/
theorem pairs_json_two :
    (toJsonPairs [.uninitialised zeros, .uninitialised zeros]).arrayItems.length = 1 ∧
      ¬ ∀ objs, Elementwise objs (toJsonPairs objs) ∧
        ∃ j, parseText (jsonPairs objs) = .ok j ∧ Elementwise objs j := by
  refine ⟨rfl, fun h => ?_⟩
  have hlength := (h [.uninitialised zeros, .uninitialised zeros]).1.length
  exact absurd hlength (by decide)

end PgConsul.Consul
