import PgConsul.Consul.KVPairFidelity
import PgConsul.Extension.Requests

/-! # The rows of consul_kv_get

An answer of the agent becomes rows in three steps: the text is parsed, each element is decoded into
a pair, and the fields of a pair become C strings. The results follow values, numbers and absent
members through all of them.
-/
namespace PgConsul.Extension
set_option autoImplicit false
open Foundations Consul Cpr Json11

/-! ## Columns -/

def KvRow.numeric (row : KvRow) : Numeric → Bytes
  | .CreateIndex => row.createIndex
  | .ModifyIndex => row.modifyIndex
  | .LockIndex => row.lockIndex
  | .Flags => row.flags

def KvRow.textual (row : KvRow) : Textual → Bytes
  | .Session => row.session
  | .Key => row.key
  | .Value => row.value

theorem column_eq_iff (s : Bytes) : column s = s ↔ 0 ∉ s := cStr_terminated_iff s

theorem column_indexStr (index : UInt64) : column (indexStr index) = decimal index.toNat := by
  rw [indexStr, Boost.lcastPutUnsigned_eq, column_eq_iff]
  exact not_mem_decimal (by decide) _

theorem kvRow_numeric (kvp : KVPair) (n : Numeric) :
    (kvRow kvp).numeric n = decimal (kvp.numeric n).toNat := by
  cases n <;> exact column_indexStr _

theorem kvRow_textual (kvp : KVPair) (t : Textual) :
    (kvRow kvp).textual t = column (kvp.textual t) := by
  cases t <;> rfl

theorem KvRow.ext_members {a b : KvRow} (hn : ∀ n, a.numeric n = b.numeric n)
    (ht : ∀ t, a.textual t = b.textual t) : a = b := by
  cases a
  cases b
  simp only [KvRow.mk.injEq]
  exact ⟨ht .Key, ht .Value, hn .Flags, hn .CreateIndex, hn .ModifyIndex, hn .LockIndex,
    ht .Session⟩

/-! ## Numbers -/

/-- A message of the form "… is not a valid …". -/
def NotValid (obj : Json) (message : Bytes) : Prop :=
  ∃ n v, find (Numeric.name n) obj.objectItems = some v ∧ message = n.invalid ++ dump v

/-- A pair is accepted exactly when its numbers are natural; each of them up to `2 ^ 53` arrives in
its field and its column; one that is negative or has a fraction is reported. -/
structure NumbersFaithful (platform : Platform) (kvp : KVPair) (obj : Json) (err : Bytes) :
    Prop where
  accepts_iff : (kvp.initFromJson platform obj err).ok = true ↔
    ∀ n v, find (Numeric.name n) obj.objectItems = some v →
      ∃ k : ℕ, v.numberValue = some (k : ℚ)
  exact : (kvp.initFromJson platform obj err).ok = true →
    ∀ n v (k : ℕ), find (Numeric.name n) obj.objectItems = some v →
      v.numberValue = some (k : ℚ) → k ≤ 2 ^ 53 →
        ((kvp.initFromJson platform obj err).target.numeric n).toNat = k ∧
          (kvRow (kvp.initFromJson platform obj err).target).numeric n = decimal k
  rejects : ∀ n v (q : ℚ), find (Numeric.name n) obj.objectItems = some v →
    v.numberValue = some q → (q < 0 ∨ ∀ k : ℤ, q ≠ k) →
      (kvp.initFromJson platform obj err).ok = false ∧
        NotValid obj (kvp.initFromJson platform obj err).err

theorem decoded_numeric_of_find {obj : Json} {n : Numeric} {v : Json}
    (h : find n.name obj.objectItems = some v) (platform : Platform) (kvp : KVPair) :
    (kvp.decoded platform obj).numeric n = indexOf platform v := by
  rw [KVPair.decoded_numeric, h]
  rfl

/-- A natural number in the range arrives in its field exactly when an `int` holds it. -/
theorem initFromJson_numeric_iff {obj : Json} (h : Decodable obj) (platform : Platform)
    (kvp : KVPair) (err : Bytes) {n : Numeric} {v : Json} {k : ℕ}
    (hfind : find n.name obj.objectItems = some v) (hk : v.numberValue = some (k : ℚ))
    (hexact : k ≤ 2 ^ 53) :
    ((kvp.initFromJson platform obj err).target.numeric n).toNat = k ↔ k < 2 ^ 31 := by
  rw [KVPair.initFromJson_eq platform h, decoded_numeric_of_find hfind]
  exact indexOf_nat_iff hk hexact platform

/-- **The numbers of a pair are decoded faithfully exactly when each of them is a natural number
below `2 ^ 31`, or one beyond the range in question.** -/
theorem numbers_faithful_iff (platform : Platform) (kvp : KVPair) {obj : Json} (err : Bytes)
    (h : Decodable obj) :
    NumbersFaithful platform kvp obj err ↔
      ∀ n v, find (Numeric.name n) obj.objectItems = some v →
        ∃ k : ℕ, v.numberValue = some (k : ℚ) ∧ (k < 2 ^ 31 ∨ 2 ^ 53 < k) := by
  have hok : (kvp.initFromJson platform obj err).ok = true :=
    (KVPair.initFromJson_ok_iff platform kvp obj err).mpr h
  constructor
  · intro hfaithful n v hfind
    obtain ⟨k, hk⟩ := hfaithful.accepts_iff.mp hok n v hfind
    refine ⟨k, hk, ?_⟩
    by_cases hexact : k ≤ 2 ^ 53
    · have hfield := (hfaithful.exact hok n v k hfind hk hexact).1
      exact Or.inl ((initFromJson_numeric_iff h platform kvp err hfind hk hexact).mp hfield)
    · exact Or.inr (by omega)
  · intro hsmall
    refine ⟨⟨fun _ n v hfind => ?_, fun _ => hok⟩, fun _ n v k hfind hk hexact => ?_, ?_⟩
    · obtain ⟨k, hk, -⟩ := hsmall n v hfind
      exact ⟨k, hk⟩
    · obtain ⟨k', hk', hrange⟩ := hsmall n v hfind
      have hkk : k' = k := by
        rw [hk', Option.some_inj] at hk
        exact_mod_cast hk
      have hfield := (initFromJson_numeric_iff h platform kvp err hfind hk hexact).mpr (by omega)
      exact ⟨hfield, by rw [kvRow_numeric, hfield]⟩
    · intro n v q hfind hq hbad
      obtain ⟨k, hk, -⟩ := hsmall n v hfind
      rw [hk, Option.some_inj] at hq
      subst hq
      cases hbad with
      | inl hnegative => exact absurd hnegative (not_lt.mpr (Nat.cast_nonneg k))
      | inr hfraction => exact absurd (by norm_cast) (hfraction k)

theorem numbers_faithful_test :
    NumbersFaithful .amd64 (KVPair.uninitialised zeros)
      (.object [(ascii "CreateIndex", .int 469), (ascii "Flags", .int 0)]) [] := by
  refine (numbers_faithful_iff .amd64 (KVPair.uninitialised zeros) [] (by decide)).mpr ?_
  intro n v hfind
  cases n with
  | CreateIndex =>
    obtain rfl : Json.int 469 = v := Option.some.inj hfind
    exact ⟨469, by decide +kernel, by norm_num⟩
  | Flags =>
    obtain rfl : Json.int 0 = v := Option.some.inj hfind
    exact ⟨0, by decide +kernel, by norm_num⟩
  | ModifyIndex | LockIndex => exact absurd hfind.symm (Option.some_ne_none v)

/-- `{"ModifyIndex": 2147483648}` -/
def largeIndex : Json :=
  .object [(ascii "ModifyIndex", .double (Double.ofRat false (2147483648 : ℕ)))]

/-- The index 2147483648 arrives as 18446744071562067968. -/
theorem numbers_not_faithful_large :
    Decodable largeIndex ∧
      ¬ NumbersFaithful .amd64 (KVPair.uninitialised zeros) largeIndex [] := by
  refine ⟨by decide +kernel, ?_⟩
  intro h
  have hvalue := Double.value_ofRat_natCast false (n := 2147483648) (by norm_num)
  have hfield := (h.exact (by decide +kernel) .ModifyIndex _ 2147483648 rfl hvalue
    (by norm_num)).1
  exact absurd hfield (by decide +kernel)

/-! ## Absent members -/

def RowsDetermined (platform : Platform) (text : Bytes) : Prop :=
  ∀ memory memory' : ℕ → Indeterminate,
    (initFromJsonPairs platform memory [] text []).ok = true →
      (initFromJsonPairs platform memory' [] text []).ok = true ∧
        (initFromJsonPairs platform memory [] text []).target.map kvRow =
          (initFromJsonPairs platform memory' [] text []).target.map kvRow

theorem rows_determined_iff (platform : Platform) (text : Bytes) :
    RowsDetermined platform text ↔
      ∀ arr, parseText text = .ok (.array arr) → (∀ obj ∈ arr, Decodable obj) →
        ∀ obj ∈ arr, ∀ n : Numeric, Present obj (.numeric n) := by
  constructor
  · intro h arr hparse hdecodable obj hobj n habsent
    have hinit : ∀ memory, initFromJsonPairs platform memory [] text [] =
        ⟨true, decodedElements platform memory 0 arr, []⟩ :=
      fun memory => initFromJsonPairs_eq hparse hdecodable
    have hrows := (h (fun _ => zeros) (fun _ => ones) (by rw [hinit])).2
    rw [hinit, hinit] at hrows
    obtain ⟨j, hrow⟩ := decodedElements_agree hrows obj hobj
    have hcolumn := congrArg (fun row => row.numeric n) hrow
    simp only [kvRow_numeric, decoded_numeric_absent habsent] at hcolumn
    have hindex := decimal_inj hcolumn
    cases n <;> exact absurd hindex (by decide)
  · intro h memory memory' hok
    obtain ⟨arr, hparse⟩ := initFromJsonPairs_array hok
    have hdecodable := initFromJsonPairs_accepts hparse hok
    have hpresent := h arr hparse hdecodable
    rw [initFromJsonPairs_eq hparse hdecodable, initFromJsonPairs_eq hparse hdecodable]
    refine ⟨rfl, ?_⟩
    have hrow : ∀ m, ∀ obj ∈ arr, kvRow ((KVPair.uninitialised m).decoded platform obj) =
        kvRow ((KVPair.uninitialised zeros).decoded platform obj) := by
      intro m obj hobj
      apply KvRow.ext_members
      · intro n
        rw [kvRow_numeric, kvRow_numeric,
          decoded_numeric_present (hpresent obj hobj n) platform _ (KVPair.uninitialised zeros)]
      · intro t
        rw [kvRow_textual, kvRow_textual, KVPair.decoded_textual, KVPair.decoded_textual]
        cases t <;> rfl
    simp only [decodedElements_map hrow]

/-- **A decoded pair is determined by its JSON exactly when all seven members are there, and the rows
of a response exactly when all four numbers are there in every element.** -/
theorem decoding_determined_iff (platform : Platform) :
    (∀ obj, Determined platform obj ↔ (Decodable obj → ∀ m, Present obj m)) ∧
      ∀ text, RowsDetermined platform text ↔
        ∀ arr, parseText text = .ok (.array arr) → (∀ obj ∈ arr, Decodable obj) →
          ∀ obj ∈ arr, ∀ n : Numeric, Present obj (.numeric n) :=
  ⟨determined_iff platform, rows_determined_iff platform⟩

/-- An answer whose one element has no `LockIndex`. -/
def answerUnlocked : Bytes :=
  ascii "[\x7b\"CreateIndex\": 1, \"ModifyIndex\": 1, \"Flags\": 0, \"Key\": \"k\"\x7d]"

/-- It is accepted and shows what the memory held. -/
theorem decoding_not_determined :
    ((initFromJsonPairs .amd64 (fun _ => zeros) [] answerUnlocked []).ok = true ∧
        (initFromJsonPairs .amd64 (fun _ => zeros) [] answerUnlocked []).target.map
          (fun kvp => (kvRow kvp).lockIndex) = [ascii "0"]) ∧
      (initFromJsonPairs .amd64 (fun _ => ones) [] answerUnlocked []).ok = true ∧
        (initFromJsonPairs .amd64 (fun _ => ones) [] answerUnlocked []).target.map
          (fun kvp => (kvRow kvp).lockIndex) = [ascii "1"] := by
  decide +kernel

/-! ## Values -/

/-- The element carries the value `v`: as base64 text, or as null when there are no bytes. The other
members have their types. -/
structure Carries (v : Bytes) (obj : Json) : Prop where
  others : ∀ m, m ≠ .textual .Value → WellTyped obj.objectItems m
  value : find (Textual.name .Value) obj.objectItems = some (.string (Base64.encode v)) ∨
    (v = [] ∧ find (Textual.name .Value) obj.objectItems = some .null)

def ValueIsNull (obj : Json) : Prop := find (Textual.name .Value) obj.objectItems = some .null

theorem Carries.decodable_iff {v : Bytes} {obj : Json} (h : Carries v obj) :
    Decodable obj ↔ ¬ ValueIsNull obj := by
  have hne : obj.objectItems ≠ [] := by
    intro hnil
    have hnone : find (Textual.name .Value) obj.objectItems = none := by rw [hnil]; rfl
    rcases h.value with hvalue | ⟨-, hvalue⟩ <;> rw [hnone] at hvalue <;> cases hvalue
  constructor
  · rintro ⟨-, htyped⟩ hnull
    exact Bool.noConfusion (htyped (.textual .Value) .null hnull)
  · intro hnull
    have hvalue := h.value.resolve_right fun hnone => hnull hnone.2
    refine ⟨hne, fun m => ?_⟩
    by_cases hm : m = .textual .Value
    · subst hm
      intro w hw
      rw [hvalue] at hw
      cases hw
      rfl
    · exact h.others m hm

theorem Carries.valueColumn {v : Bytes} {obj : Json} (h : Carries v obj) (hnull : ¬ ValueIsNull obj)
    (platform : Platform) (kvp : KVPair) :
    (kvRow (kvp.decoded platform obj)).value = column v := by
  have hvalue := h.value.resolve_right fun hnone => hnull hnone.2
  have htext := KVPair.decoded_textual platform obj kvp .Value
  rw [hvalue] at htext
  have hdecoded : (kvp.decoded platform obj).value = v := by
    rw [← B64.decode_encode v]
    exact htext
  exact congrArg column hdecoded

/-- What a call makes of an answer with status 200. -/
theorem v1KvGet_answered {platform : Platform} {network : Network} {memory : ℕ → Indeterminate}
    {args : KvGetArgs} {agent : Agent} {body : Bytes} (hkey : args.key ≠ none)
    (hanswer : ∀ r ∈ (v1KvGet platform network memory args agent).requests,
      network r = .answered 200 body) :
    let kvps := initFromJsonPairs platform memory [] (parseResponse body) []
    (v1KvGet platform network memory args agent).result =
      if !kvps.ok then
        .error ⟨.FDW_REPLY_HANDLE, ascii "Failed to load KV pairs from JSON: " ++
          cStr kvps.err ++ ascii ": " ++ cStr (parseResponse body)⟩
      else if !args.recurseParam ∧ 1 < kvps.target.length then
        .error ⟨.OBJECT_NOT_IN_PREREQUISITE_STATE,
          ascii "consul_kv_get() performed a non-recursive GET but received " ++
            decimal kvps.target.length ++ ascii " responses"⟩
      else .ok (some kvps.target) := by
  obtain ⟨keyp, hkeyp⟩ := Option.ne_none_iff_exists'.mp hkey
  unfold v1KvGet at hanswer ⊢
  rw [hkeyp] at hanswer ⊢
  have hresponse := get_answered (hanswer _ (List.mem_singleton.mpr rfl))
  simp only [getFrom] at hresponse ⊢
  rw [hresponse]
  rfl

theorem v1KvGet_result {platform : Platform} {network : Network} {memory : ℕ → Indeterminate}
    {args : KvGetArgs} {agent : Agent} {body : Bytes} (hkey : args.key ≠ none)
    (hanswer : ∀ r ∈ (v1KvGet platform network memory args agent).requests,
      network r = .answered 200 body) :
    let kvps := initFromJsonPairs platform memory [] (parseResponse body) []
    (∀ pairs, (v1KvGet platform network memory args agent).result = .ok (some pairs) →
        kvps.ok = true ∧ pairs = kvps.target) ∧
      (kvps.ok = true → (args.recurseParam = true ∨ kvps.target.length ≤ 1) →
        (v1KvGet platform network memory args agent).result = .ok (some kvps.target)) := by
  intro kvps
  rw [v1KvGet_answered hkey hanswer]
  constructor
  · intro pairs h
    cases hok : kvps.ok with
    | false =>
      rw [if_pos (by rw [hok]; rfl)] at h
      cases h
    | true =>
      rw [if_neg (by rw [hok]; decide)] at h
      split at h
      · cases h
      · cases h
        exact ⟨rfl, rfl⟩
  · intro hok hfew
    have hone : ¬ ((!args.recurseParam) = true ∧ 1 < kvps.target.length) := by
      rintro ⟨hrecurse, hmany⟩
      cases hfew with
      | inl hfew =>
        rw [hfew] at hrecurse
        exact Bool.noConfusion hrecurse
      | inr hfew => omega
    rw [if_neg (by rw [hok]; decide), if_neg hone]

/-- The call succeeds and the value columns are the values. -/
def ValuesFaithful (platform : Platform) (network : Network) (memory : ℕ → Indeterminate)
    (args : KvGetArgs) (agent : Agent) (values : List Bytes) : Prop :=
  ∃ pairs, (v1KvGet platform network memory args agent).result = .ok (some pairs) ∧
    pairs.map (fun kvp => (kvRow kvp).value) = values

theorem decodable_of_carries {values : List Bytes} {arr : List Json}
    (h : List.Forall₂ Carries values arr) :
    (∀ obj ∈ arr, Decodable obj) ↔ ∀ obj ∈ arr, ¬ ValueIsNull obj := by
  induction h with
  | nil => simp
  | cons hobj _ ih =>
    rw [List.forall_mem_cons, List.forall_mem_cons, hobj.decodable_iff, ih]

theorem valueColumns_of_carries {values : List Bytes} {arr : List Json}
    (h : List.Forall₂ Carries values arr) (hnull : ∀ obj ∈ arr, ¬ ValueIsNull obj)
    (platform : Platform) (memory : ℕ → Indeterminate) (i : ℕ) :
    (decodedElements platform memory i arr).map (fun kvp => (kvRow kvp).value) =
      values.map column := by
  induction h generalizing i with
  | nil => rfl
  | cons hobj _ ih =>
    rw [List.forall_mem_cons] at hnull
    simp only [decodedElements, List.map_cons, hobj.valueColumn hnull.1, ih hnull.2]

theorem map_column_eq_iff (values : List Bytes) :
    values.map column = values ↔ ∀ v ∈ values, 0 ∉ v := by
  induction values with
  | nil => simp
  | cons v values ih =>
    rw [List.map_cons, List.cons.injEq, column_eq_iff, ih, List.forall_mem_cons]

/-- **The values of an answer arrive in their rows exactly when none of them is sent as null and none
holds a NUL.** -/
theorem values_faithful_iff (platform : Platform) (network : Network)
    (memory : ℕ → Indeterminate) {args : KvGetArgs} (agent : Agent) {values : List Bytes}
    {body : Bytes} (arr : List Json) (hkey : args.key ≠ none)
    (hanswer : ∀ r ∈ (v1KvGet platform network memory args agent).requests,
      network r = .answered 200 body)
    (hparse : parseText (parseResponse body) = .ok (.array arr))
    (hcarries : List.Forall₂ Carries values arr)
    (hmany : args.recurseParam = true ∨ values.length ≤ 1) :
    ValuesFaithful platform network memory args agent values ↔
      (∀ obj ∈ arr, ¬ ValueIsNull obj) ∧ ∀ v ∈ values, 0 ∉ v := by
  obtain ⟨haccepts, hsucceeds⟩ := v1KvGet_result hkey hanswer
  constructor
  · rintro ⟨pairs, hresult, hvalues⟩
    obtain ⟨hok, rfl⟩ := haccepts pairs hresult
    have hdecodable := initFromJsonPairs_accepts hparse hok
    have hnull := (decodable_of_carries hcarries).mp hdecodable
    rw [initFromJsonPairs_eq hparse hdecodable, valueColumns_of_carries hcarries hnull] at hvalues
    exact ⟨hnull, (map_column_eq_iff values).mp hvalues⟩
  · rintro ⟨hnull, hnul⟩
    have hinit : initFromJsonPairs platform memory [] (parseResponse body) [] =
        ⟨true, decodedElements platform memory 0 arr, []⟩ :=
      initFromJsonPairs_eq hparse ((decodable_of_carries hcarries).mpr hnull)
    rw [hinit] at hsucceeds
    refine ⟨decodedElements platform memory 0 arr, hsucceeds rfl ?_, ?_⟩
    · rw [decodedElements_length, ← hcarries.length_eq]
      exact hmany
    · rw [valueColumns_of_carries hcarries hnull]
      exact (map_column_eq_iff values).mpr hnul

/-- An element with a key and a value. -/
def element (key : Bytes) (value : Json) : Json :=
  .object [(ascii "Key", .string key), (ascii "Value", value)]

theorem carries_element (key : Bytes) {v : Bytes} {value : Json}
    (h : value = .string (Base64.encode v) ∨ (v = [] ∧ value = .null)) :
    Carries v (element key value) := by
  have hvalue : find (Textual.name .Value) (element key value).objectItems = some value := rfl
  refine ⟨?_, by rwa [hvalue, Option.some_inj, Option.some_inj]⟩
  intro m hm
  cases m with
  | numeric n =>
    intro u hu
    cases n <;> cases hu
  | textual t =>
    intro u hu
    cases t with
    | Session => cases hu
    | Key =>
      cases hu
      rfl
    | Value => exact absurd rfl hm

def recurseA : KvGetArgs := ⟨some textA, some true, none⟩

def answerVal : Bytes := ascii "[\x7b\"Key\": \"a\", \"Value\": \"dmFs\"\x7d]"

/-- The answer of a recursive call. -/
def answerVals : Bytes :=
  ascii "[\x7b\"Key\": \"a\", \"Value\": \"dmFs\"\x7d, " ++
    ascii "\x7b\"Key\": \"a/b\", \"Value\": \"djI=\"\x7d]"

theorem values_faithful_val :
    ValuesFaithful .amd64 (fun _ => .answered 200 answerVals) (fun _ => zeros) recurseA {}
      [ascii "val", ascii "v2"] := by
  refine (values_faithful_iff .amd64 (fun _ => .answered 200 answerVals) (fun _ => zeros) {}
    [element (ascii "a") (.string (ascii "dmFs")), element (ascii "a/b") (.string (ascii "djI="))]
    (by decide) (fun _ _ => rfl) (by decide +kernel)
    (.cons (carries_element _ (Or.inl (by decide +kernel)))
      (.cons (carries_element _ (Or.inl (by decide +kernel))) .nil))
    (by decide)).mpr ⟨?_, by decide⟩
  intro obj hobj hnull
  rcases List.mem_pair.mp hobj with rfl | rfl
  · cases hnull
  · cases hnull

def answerNull : Bytes := ascii "[\x7b\"Key\": \"a/\", \"Value\": null\x7d]"

/-- An answer that carries an empty value as null fails the whole call. -/
theorem values_not_faithful_null :
    (∃ arr, parseText (parseResponse answerNull) = .ok (.array arr) ∧
        List.Forall₂ Carries [[]] arr) ∧
      ¬ ValuesFaithful .amd64 (fun _ => .answered 200 answerNull) (fun _ => zeros) recurseA {}
        [[]] := by
  constructor
  · refine ⟨[element (ascii "a/") .null], by decide +kernel, ?_⟩
    exact .cons (carries_element _ (Or.inr ⟨rfl, rfl⟩)) .nil
  · rintro ⟨pairs, hresult, -⟩
    have herror : (v1KvGet .amd64 (fun _ => .answered 200 answerNull) (fun _ => zeros) recurseA
        {}).result = .error ⟨.FDW_REPLY_HANDLE,
          ascii "Failed to load KV pairs from JSON: Parsing JSON Objects failed: " ++
            ascii "Value's value is not a string: N6json114Json4TypeE: " ++ answerNull⟩ := by
      decide +kernel
    rw [herror] at hresult
    cases hresult

end PgConsul.Extension
