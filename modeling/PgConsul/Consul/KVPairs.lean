import PgConsul.Consul.KVPair
import PgConsul.Json11.Parser

/-! # Lists of key-value pairs

`KVPairs::InitFromJson` parses the text of an agent and decodes the elements of the array in their
order, each into a new pair. It stops at the first element that does not decode and keeps the pairs
in front of it.
-/
namespace PgConsul.Consul
set_option autoImplicit false
open Foundations Json11

/-- The loop over the elements; `memory i` is what the `i`-th new pair holds. -/
def initElements (platform : Platform) (memory : ℕ → Indeterminate) (err : Bytes) :
    ℕ → List Json → List KVPair → Init (List KVPair)
  | _, [], objs => ⟨true, objs, err⟩
  | i, obj :: arr, objs =>
    let r := (KVPair.uninitialised (memory i)).initFromJson platform obj err
    if r.ok then initElements platform memory r.err (i + 1) arr (objs ++ [r.target])
    else ⟨false, objs, ascii "Parsing JSON Objects failed: " ++ r.err⟩

/-- `KVPairs::InitFromJson`; `objs` is the list already there. -/
def initFromJsonPairs (platform : Platform) (memory : ℕ → Indeterminate) (objs : List KVPair)
    (json err : Bytes) : Init (List KVPair) :=
  let parsed := parse json err
  let jr := parsed.1
  let err := parsed.2
  if err ≠ [] then ⟨false, objs, ascii "Parsing JSON failed: " ++ err⟩
  else if !jr.isArray then
    ⟨false, objs, ascii "Expected array, received " ++ jr.typeStr ++ ascii " as input."⟩
  else initElements platform memory err 0 jr.arrayItems objs

def decodedElements (platform : Platform) (memory : ℕ → Indeterminate) :
    ℕ → List Json → List KVPair
  | _, [] => []
  | i, obj :: arr =>
    (KVPair.uninitialised (memory i)).decoded platform obj ::
      decodedElements platform memory (i + 1) arr

theorem initElements_ok {platform : Platform} {memory : ℕ → Indeterminate} {arr : List Json}
    (h : ∀ obj ∈ arr, Decodable obj) (err : Bytes) (i : ℕ) (objs : List KVPair) :
    initElements platform memory err i arr objs =
      ⟨true, objs ++ decodedElements platform memory i arr, err⟩ := by
  induction arr generalizing i objs with
  | nil => simp [initElements, decodedElements]
  | cons obj arr ih =>
    have hobj := h obj List.mem_cons_self
    have hrest : ∀ o ∈ arr, Decodable o := fun o ho => h o (List.mem_cons_of_mem obj ho)
    rw [initElements, KVPair.initFromJson_eq platform hobj, if_pos rfl, ih hrest, decodedElements]
    simp

theorem initElements_accepts {platform : Platform} {memory : ℕ → Indeterminate} {arr : List Json}
    {err : Bytes} {i : ℕ} {objs : List KVPair}
    (h : (initElements platform memory err i arr objs).ok = true) :
    ∀ obj ∈ arr, Decodable obj := by
  induction arr generalizing i objs err with
  | nil =>
    intro obj hobj
    cases hobj
  | cons obj arr ih =>
    rw [initElements] at h
    split at h
    · next hok =>
      intro o ho
      rcases List.mem_cons.mp ho with rfl | ho
      · exact (KVPair.initFromJson_ok_iff platform _ o err).mp hok
      · exact ih h o ho
    · exact Bool.noConfusion h

theorem parse_of_parseText {json : Bytes} {j : Json} (h : parseText json = .ok j) (err : Bytes) :
    parse json err = (j, err) := by
  rw [parse, h]

/-- **An array of decodable objects is decoded element by element.** -/
theorem initFromJsonPairs_eq {platform : Platform} {memory : ℕ → Indeterminate} {json : Bytes}
    {arr : List Json} (hparse : parseText json = .ok (.array arr))
    (h : ∀ obj ∈ arr, Decodable obj) :
    initFromJsonPairs platform memory [] json [] =
      ⟨true, decodedElements platform memory 0 arr, []⟩ := by
  unfold initFromJsonPairs
  rw [parse_of_parseText hparse]
  simpa [Json.isArray, Json.type, Json.arrayItems] using initElements_ok h [] 0 []

theorem initFromJsonPairs_accepts {platform : Platform} {memory : ℕ → Indeterminate}
    {objs : List KVPair} {json : Bytes} {arr : List Json}
    (hparse : parseText json = .ok (.array arr))
    (h : (initFromJsonPairs platform memory objs json []).ok = true) :
    ∀ obj ∈ arr, Decodable obj := by
  unfold initFromJsonPairs at h
  rw [parse_of_parseText hparse] at h
  simp only [ne_eq, not_true_eq_false, if_false] at h
  exact initElements_accepts h

theorem initFromJsonPairs_array {platform : Platform} {memory : ℕ → Indeterminate}
    {objs : List KVPair} {json : Bytes}
    (h : (initFromJsonPairs platform memory objs json []).ok = true) :
    ∃ arr, parseText json = .ok (.array arr) := by
  unfold initFromJsonPairs at h
  cases hparse : parseText json with
  | error message =>
    rw [parse, hparse] at h
    by_cases hmessage : message = [] <;> simp [hmessage, Json.isArray, Json.type] at h
  | ok j =>
    rw [parse_of_parseText hparse] at h
    cases j with
    | array arr => exact ⟨arr, rfl⟩
    | null | double | int | bool | string | object => simp [Json.isArray, Json.type] at h

theorem decodedElements_length (platform : Platform) (memory : ℕ → Indeterminate) (i : ℕ)
    (arr : List Json) : (decodedElements platform memory i arr).length = arr.length := by
  induction arr generalizing i with
  | nil => rfl
  | cons obj arr ih => simp [decodedElements, ih]

theorem decodedElements_map {α : Type} {platform : Platform} {memory : ℕ → Indeterminate}
    {field : KVPair → α} {read : Json → α} {arr : List Json}
    (h : ∀ m, ∀ obj ∈ arr, field ((KVPair.uninitialised m).decoded platform obj) = read obj)
    (i : ℕ) : (decodedElements platform memory i arr).map field = arr.map read := by
  induction arr generalizing i with
  | nil => rfl
  | cons obj arr ih =>
    have hrest := ih (fun m o ho => h m o (List.mem_cons_of_mem obj ho)) (i + 1)
    simp only [decodedElements, List.map_cons, h _ obj List.mem_cons_self, hrest]

theorem decodedElements_agree {α : Type} {platform : Platform} {memory memory' : ℕ → Indeterminate}
    {field : KVPair → α} {arr : List Json} {i : ℕ}
    (h : (decodedElements platform memory i arr).map field =
      (decodedElements platform memory' i arr).map field) :
    ∀ obj ∈ arr, ∃ j, field ((KVPair.uninitialised (memory j)).decoded platform obj) =
      field ((KVPair.uninitialised (memory' j)).decoded platform obj) := by
  induction arr generalizing i with
  | nil =>
    intro obj hobj
    cases hobj
  | cons obj arr ih =>
    simp only [decodedElements, List.map_cons, List.cons.injEq] at h
    intro o ho
    rcases List.mem_cons.mp ho with rfl | ho
    · exact ⟨i, h.1⟩
    · exact ih h.2 o ho

end PgConsul.Consul
