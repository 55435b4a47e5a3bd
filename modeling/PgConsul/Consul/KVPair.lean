import PgConsul.B64.Encode
import PgConsul.Boost.LexicalCast
import PgConsul.Json11.Dump

/-! # Key-value pairs

`KVPair::InitFromJson` looks at seven members one after the other and returns at the first one of a
wrong type; a member that is absent is passed over and its field keeps what it held. Four members
are numbers and three are strings, and within each kind they differ in names and messages only.
-/
namespace PgConsul.Consul
set_option autoImplicit false
open Foundations Json11

structure KVPair where
  createIndex : UInt64
  modifyIndex : UInt64
  lockIndex : UInt64
  flags : UInt64
  key : Bytes
  session : Bytes
  value : Bytes
deriving DecidableEq

/-- What the memory of a new pair holds in the four members without an initialiser. -/
structure Indeterminate where
  createIndex : UInt64
  modifyIndex : UInt64
  lockIndex : UInt64
  flags : UInt64

def KVPair.uninitialised (memory : Indeterminate) : KVPair where
  createIndex := memory.createIndex
  modifyIndex := memory.modifyIndex
  lockIndex := memory.lockIndex
  flags := memory.flags
  key := []
  session := []
  value := []

/-- `KVPair::IndexStr` and `KVPair::FlagsStr`. -/
def indexStr (index : UInt64) : Bytes := Boost.lcastPutUnsigned index.toNat

/-! ## Members -/

inductive Numeric where
  | CreateIndex | ModifyIndex | LockIndex | Flags
deriving DecidableEq

inductive Textual where
  | Session | Key | Value
deriving DecidableEq

def Numeric.name : Numeric → Bytes
  | CreateIndex => ascii "CreateIndex"
  | ModifyIndex => ascii "ModifyIndex"
  | LockIndex => ascii "LockIndex"
  | Flags => ascii "Flags"

def Numeric.invalid : Numeric → Bytes
  | CreateIndex => ascii "CreateIndex is not a valid Index: "
  | ModifyIndex => ascii "ModifyIndex is not a valid Index: "
  | LockIndex => ascii "LockIndex is not a valid Index: "
  | Flags => ascii "Flags is not valid: "

def Textual.name : Textual → Bytes
  | Session => ascii "Session"
  | Key => ascii "Key"
  | Value => ascii "Value"

namespace KVPair

def numeric (kvp : KVPair) : Numeric → UInt64
  | .CreateIndex => kvp.createIndex
  | .ModifyIndex => kvp.modifyIndex
  | .LockIndex => kvp.lockIndex
  | .Flags => kvp.flags

def setNumeric (kvp : KVPair) (n : Numeric) (index : UInt64) : KVPair :=
  match n with
  | .CreateIndex => { kvp with createIndex := index }
  | .ModifyIndex => { kvp with modifyIndex := index }
  | .LockIndex => { kvp with lockIndex := index }
  | .Flags => { kvp with flags := index }

def textual (kvp : KVPair) : Textual → Bytes
  | .Session => kvp.session
  | .Key => kvp.key
  | .Value => kvp.value

def setTextual (kvp : KVPair) (t : Textual) (s : Bytes) : KVPair :=
  match t with
  | .Session => { kvp with session := s }
  | .Key => { kvp with key := s }
  | .Value => { kvp with value := B64.decode s }

theorem ext_members {a b : KVPair} (hn : ∀ n, a.numeric n = b.numeric n)
    (ht : ∀ t, a.textual t = b.textual t) : a = b := by
  cases a
  cases b
  simp only [KVPair.mk.injEq]
  exact ⟨hn .CreateIndex, hn .ModifyIndex, hn .LockIndex, hn .Flags, ht .Key, ht .Session,
    ht .Value⟩

end KVPair

/-! ## Decoding -/

/-- A block of `InitFromJson` for a number: the pair it leaves or the message it reports. -/
def initNumeric (platform : Platform) (o : Object) (n : Numeric) (kvp : KVPair) :
    Except Bytes KVPair :=
  match find n.name o with
  | none => .ok kvp
  | some v =>
    if !v.isNumber then .error (n.name ++ ascii "'s value is not a number: " ++ v.typeStr)
    else
      match Boost.lexicalCastIndex (v.intValue platform) with
      | some index => .ok (kvp.setNumeric n index)
      | none => .error (n.invalid ++ dump v)

/-- The name `typeid` gives the enumeration of JSON types. -/
def typeidName : Bytes := ascii "N6json114Json4TypeE"

def initTextual (o : Object) (t : Textual) (kvp : KVPair) : Except Bytes KVPair :=
  match find t.name o with
  | none => .ok kvp
  | some v =>
    if !v.isString then .error (t.name ++ ascii "'s value is not a string: " ++ typeidName)
    else .ok (kvp.setTextual t v.stringValue)

inductive Member where
  | numeric (n : Numeric)
  | textual (t : Textual)
deriving DecidableEq

def initMember (platform : Platform) (o : Object) : Member → KVPair → Except Bytes KVPair
  | .numeric n => initNumeric platform o n
  | .textual t => initTextual o t

def members : List Member :=
  [.numeric .CreateIndex, .numeric .ModifyIndex, .numeric .LockIndex, .numeric .Flags,
    .textual .Session, .textual .Key, .textual .Value]

/-- What an `InitFromJson` leaves in its two references, and what it returns. -/
structure Init (α : Type) where
  ok : Bool
  target : α
  err : Bytes
deriving DecidableEq

def initMembers (platform : Platform) (o : Object) (err : Bytes) :
    List Member → KVPair → Init KVPair
  | [], kvp => ⟨true, kvp, err⟩
  | m :: ms, kvp =>
    match initMember platform o m kvp with
    | .ok kvp => initMembers platform o err ms kvp
    | .error message => ⟨false, kvp, message⟩

/-- `KVPair::InitFromJson`. -/
def KVPair.initFromJson (platform : Platform) (kvp : KVPair) (obj : Json) (err : Bytes) :
    Init KVPair :=
  let objMap := obj.objectItems
  if objMap = [] then ⟨false, kvp, ascii "Unexpected empty object in KV Pair response"⟩
  else initMembers platform objMap err members kvp

/-! ## Encoding -/

def KVPair.valueEncoded (kvp : KVPair) : Bytes :=
  let s := B64.encode kvp.value
  if s.getLast? = some (chr '\n') then s.dropLast else s

/-- `KVPair::to_json`: a map from strings to strings, ordered by its keys. -/
def KVPair.toJson (kvp : KVPair) : Json :=
  .object
    [(ascii "CreateIndex", .string (indexStr kvp.createIndex)),
      (ascii "Flags", .string (indexStr kvp.flags)),
      (ascii "Key", .string kvp.key),
      (ascii "LockIndex", .string (indexStr kvp.lockIndex)),
      (ascii "ModifyIndex", .string (indexStr kvp.modifyIndex)),
      (ascii "Session", .string kvp.session),
      (ascii "Value", .string kvp.valueEncoded)]

/-! ## What decoding does -/

def indexOf (platform : Platform) (v : Json) : UInt64 :=
  (Boost.lexicalCastIndex (v.intValue platform)).getD 0

def WellTyped (o : Object) : Member → Prop
  | .numeric n => ∀ v, find n.name o = some v → v.isNumber = true
  | .textual t => ∀ v, find t.name o = some v → v.isString = true

def stored (platform : Platform) (o : Object) (kvp : KVPair) : Member → KVPair
  | .numeric n =>
    match find n.name o with
    | none => kvp
    | some v => kvp.setNumeric n (indexOf platform v)
  | .textual t =>
    match find t.name o with
    | none => kvp
    | some v => kvp.setTextual t v.stringValue

theorem initMember_ok {platform : Platform} {o : Object} {m : Member} (h : WellTyped o m)
    (kvp : KVPair) : initMember platform o m kvp = .ok (stored platform o kvp m) := by
  cases m with
  | numeric n =>
    simp only [initMember, initNumeric, stored]
    cases hfind : find n.name o with
    | none => rfl
    | some v =>
      obtain ⟨index, hcast, -⟩ := Boost.lexicalCastIndex_spec (v.intValue platform)
      simp [h v hfind, indexOf, hcast]
  | textual t =>
    simp only [initMember, initTextual, stored]
    cases hfind : find t.name o with
    | none => rfl
    | some v => simp [h v hfind]

theorem initMember_error {platform : Platform} {o : Object} {m : Member} (h : ¬ WellTyped o m)
    (kvp : KVPair) : ∃ message, initMember platform o m kvp = .error message := by
  cases m with
  | numeric n =>
    simp only [WellTyped, not_forall] at h
    obtain ⟨v, hfind, hv⟩ := h
    simp [initMember, initNumeric, hfind, hv]
  | textual t =>
    simp only [WellTyped, not_forall] at h
    obtain ⟨v, hfind, hv⟩ := h
    simp [initMember, initTextual, hfind, hv]

theorem initMembers_ok {platform : Platform} {o : Object} {ms : List Member}
    (h : ∀ m ∈ ms, WellTyped o m) (err : Bytes) (kvp : KVPair) :
    initMembers platform o err ms kvp = ⟨true, ms.foldl (stored platform o) kvp, err⟩ := by
  induction ms generalizing kvp with
  | nil => rfl
  | cons m ms ih =>
    rw [initMembers, initMember_ok (h m List.mem_cons_self)]
    exact ih (fun m' hm' => h m' (List.mem_cons_of_mem m hm')) _

theorem initMembers_accepts {platform : Platform} {o : Object} {ms : List Member} {err : Bytes}
    {kvp : KVPair} (h : (initMembers platform o err ms kvp).ok = true) :
    ∀ m ∈ ms, WellTyped o m := by
  induction ms generalizing kvp with
  | nil =>
    intro m hm
    cases hm
  | cons m ms ih =>
    by_cases hm : WellTyped o m
    · rw [initMembers, initMember_ok hm] at h
      intro m' hm'
      rcases List.mem_cons.mp hm' with rfl | hm'
      · exact hm
      · exact ih h m' hm'
    · obtain ⟨message, herror⟩ := initMember_error hm kvp
      rw [initMembers, herror] at h
      exact Bool.noConfusion h

/-- A non-empty object each of whose known members has its type. -/
def Decodable (obj : Json) : Prop :=
  obj.objectItems ≠ [] ∧ ∀ m, WellTyped obj.objectItems m

theorem mem_members (m : Member) : m ∈ members := by
  rcases m with n | t
  · cases n <;> decide
  · cases t <;> decide

instance (o : Object) (m : Member) : Decidable (WellTyped o m) :=
  match m with
  | .numeric n => decidable_of_iff ((find n.name o).all Json.isNumber = true) (by
      simp [WellTyped, Option.all_eq_true])
  | .textual t => decidable_of_iff ((find t.name o).all Json.isString = true) (by
      simp [WellTyped, Option.all_eq_true])

instance (obj : Json) : Decidable (Decodable obj) :=
  decidable_of_iff (obj.objectItems ≠ [] ∧ ∀ m ∈ members, WellTyped obj.objectItems m)
    (and_congr_right' ⟨fun h m => h m (mem_members m), fun h m _ => h m⟩)

def KVPair.decoded (platform : Platform) (obj : Json) (kvp : KVPair) : KVPair :=
  members.foldl (stored platform obj.objectItems) kvp

/-- **`InitFromJson` accepts exactly the decodable objects**, whatever the pair held before. -/
theorem KVPair.initFromJson_ok_iff (platform : Platform) (kvp : KVPair) (obj : Json) (err : Bytes) :
    (kvp.initFromJson platform obj err).ok = true ↔ Decodable obj := by
  unfold KVPair.initFromJson
  constructor
  · intro h
    simp only at h
    split at h
    · exact Bool.noConfusion h
    · next hne => exact ⟨hne, fun m => initMembers_accepts h m (mem_members m)⟩
  · rintro ⟨hne, htyped⟩
    simp only
    rw [if_neg hne, initMembers_ok fun m _ => htyped m]

theorem KVPair.initFromJson_eq (platform : Platform) {obj : Json} (h : Decodable obj)
    (kvp : KVPair) (err : Bytes) :
    kvp.initFromJson platform obj err = ⟨true, kvp.decoded platform obj, err⟩ := by
  unfold KVPair.initFromJson
  simp only
  rw [if_neg h.1, initMembers_ok fun m _ => h.2 m]
  rfl

theorem setNumeric_numeric (kvp : KVPair) (n n' : Numeric) (index : UInt64) :
    (kvp.setNumeric n index).numeric n' = if n' = n then index else kvp.numeric n' := by
  cases n <;> cases n' <;> rfl

@[simp] theorem setNumeric_textual (kvp : KVPair) (n : Numeric) (index : UInt64) (t : Textual) :
    (kvp.setNumeric n index).textual t = kvp.textual t := by
  cases n <;> cases t <;> rfl

@[simp] theorem setTextual_numeric (kvp : KVPair) (t : Textual) (s : Bytes) (n : Numeric) :
    (kvp.setTextual t s).numeric n = kvp.numeric n := by
  cases t <;> cases n <;> rfl

def textOf : Textual → Json → Bytes
  | .Session, v => v.stringValue
  | .Key, v => v.stringValue
  | .Value, v => B64.decode v.stringValue

theorem setTextual_textual (kvp : KVPair) (t t' : Textual) (v : Json) :
    (kvp.setTextual t v.stringValue).textual t' =
      if t' = t then textOf t v else kvp.textual t' := by
  cases t <;> cases t' <;> rfl

theorem stored_numeric (platform : Platform) (o : Object) (kvp : KVPair) (m : Member)
    (n : Numeric) :
    (stored platform o kvp m).numeric n =
      if m = .numeric n then ((find n.name o).map (indexOf platform)).getD (kvp.numeric n)
      else kvp.numeric n := by
  cases m with
  | numeric n' =>
    simp only [stored, Member.numeric.injEq]
    by_cases hn : n' = n
    · subst hn
      cases find n'.name o <;> simp [setNumeric_numeric]
    · cases find n'.name o <;> simp [setNumeric_numeric, hn, Ne.symm hn]
  | textual t =>
    simp only [stored]
    cases find t.name o <;> simp

theorem stored_textual (platform : Platform) (o : Object) (kvp : KVPair) (m : Member)
    (t : Textual) :
    (stored platform o kvp m).textual t =
      if m = .textual t then ((find t.name o).map (textOf t)).getD (kvp.textual t)
      else kvp.textual t := by
  cases m with
  | numeric n =>
    simp only [stored]
    cases find n.name o <;> simp
  | textual t' =>
    simp only [stored, Member.textual.injEq]
    by_cases ht : t' = t
    · subst ht
      cases find t'.name o <;> simp [setTextual_textual]
    · cases find t'.name o <;> simp [setTextual_textual, ht, Ne.symm ht]

theorem KVPair.decoded_numeric (platform : Platform) (obj : Json) (kvp : KVPair) (n : Numeric) :
    (kvp.decoded platform obj).numeric n =
      ((find n.name obj.objectItems).map (indexOf platform)).getD (kvp.numeric n) := by
  cases n <;> simp [KVPair.decoded, members, stored_numeric]

theorem KVPair.decoded_textual (platform : Platform) (obj : Json) (kvp : KVPair) (t : Textual) :
    (kvp.decoded platform obj).textual t =
      ((find t.name obj.objectItems).map (textOf t)).getD (kvp.textual t) := by
  cases t <;> simp [KVPair.decoded, members, stored_textual]

/-! ## The round trip -/

def KVPair.RoundTrips (platform : Platform) (kvp₀ kvp : KVPair) : Prop :=
  (kvp₀.initFromJson platform kvp.toJson []).ok = true ∧
    (kvp₀.initFromJson platform kvp.toJson []).target = kvp

/-- The numbers were written as strings. -/
theorem KVPair.initFromJson_toJson (platform : Platform) (kvp₀ kvp : KVPair) (err : Bytes) :
    kvp₀.initFromJson platform kvp.toJson err =
      ⟨false, kvp₀, ascii "CreateIndex's value is not a number: string"⟩ := by
  have hfind : find (Numeric.name .CreateIndex) kvp.toJson.objectItems =
      some (.string (indexStr kvp.createIndex)) := by
    simp [find, KVPair.toJson, Json.objectItems, Numeric.name]
  have hmember : initMember platform kvp.toJson.objectItems (.numeric .CreateIndex) kvp₀ =
      .error (ascii "CreateIndex's value is not a number: string") := by
    have hmessage : ascii "CreateIndex" ++ ascii "'s value is not a number: " ++ ascii "string" =
        ascii "CreateIndex's value is not a number: string" := by decide
    rw [initMember, initNumeric, hfind]
    simpa [Json.isNumber, Json.type, Json.typeStr, Numeric.name] using hmessage
  have hne : kvp.toJson.objectItems ≠ [] := by simp [KVPair.toJson, Json.objectItems]
  rw [KVPair.initFromJson, if_neg hne, members, initMembers, hmember]

/-- **No pair survives the round trip.** -/
theorem pair_never_round_trips (platform : Platform) (kvp₀ kvp : KVPair) :
    ¬ KVPair.RoundTrips platform kvp₀ kvp := by
  rintro ⟨hok, -⟩
  rw [KVPair.initFromJson_toJson] at hok
  exact Bool.noConfusion hok

def testPair : KVPair := ⟨469, 469, 0, 0, ascii "test", [], ascii "test-value"⟩

theorem testPair_does_not_round_trip :
    ¬ KVPair.RoundTrips .amd64 (KVPair.uninitialised ⟨0, 0, 0, 0⟩) testPair := by
  unfold KVPair.RoundTrips
  decide +kernel

end PgConsul.Consul
