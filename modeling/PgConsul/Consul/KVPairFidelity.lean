import PgConsul.Consul.KVPairs

/-! # What a decoded pair holds

A number passes through a 32-bit `int` on its way to a 64-bit field, and a member that is absent
leaves its field as the memory was. Both are described exactly here: which numbers arrive, and which
objects determine the pair.
-/
namespace PgConsul.Consul
set_option autoImplicit false
open Foundations Json11

/-! ## Numbers -/

theorem indexOf_range (platform : Platform) (v : Json) :
    (indexOf platform v).toNat < 2 ^ 31 ∨ 2 ^ 64 - 2 ^ 31 ≤ (indexOf platform v).toNat := by
  obtain ⟨index, hcast, hindex⟩ := Boost.lexicalCastIndex_spec (v.intValue platform)
  have hlt := (v.intValue platform).toInt_lt
  have hge := (v.intValue platform).le_toInt
  rw [indexOf, hcast, Option.getD_some]
  split at hindex <;> omega

theorem intValue_of_nat {v : Json} {k : ℕ} (hv : v.numberValue = some (k : ℚ))
    (hk : k < 2 ^ 31) (platform : Platform) : (v.intValue platform).toInt = k := by
  cases v with
  | int i =>
    have hi : (i.toInt : ℚ) = k := by simpa [Json.numberValue] using hv
    exact_mod_cast hi
  | double d =>
    have htrunc : d.trunc = some (k : ℤ) := Double.trunc_of_nat hv
    have hrange : -2 ^ 31 ≤ (k : ℤ) ∧ (k : ℤ) < 2 ^ 31 := by omega
    simp only [Json.intValue, Json.doubleToInt, htrunc]
    rw [if_pos hrange]
    exact Int32.toInt_ofInt_of_le (by omega) (by omega)
  | null | bool | string | array | object => simp [Json.numberValue] at hv

/-- **A natural number up to `2 ^ 53` arrives exactly when it is below `2 ^ 31`.** -/
theorem indexOf_nat_iff {v : Json} {k : ℕ} (hv : v.numberValue = some (k : ℚ))
    (hk : k ≤ 2 ^ 53) (platform : Platform) :
    (indexOf platform v).toNat = k ↔ k < 2 ^ 31 := by
  constructor
  · intro h
    rcases indexOf_range platform v with hrange | hrange
    · omega
    · omega
  · intro hsmall
    obtain ⟨index, hcast, hindex⟩ := Boost.lexicalCastIndex_spec (v.intValue platform)
    rw [intValue_of_nat hv hsmall, if_neg (by omega)] at hindex
    rw [indexOf, hcast, Option.getD_some]
    omega

/-! ## Determinacy -/

def Present (obj : Json) : Member → Prop
  | .numeric n => find n.name obj.objectItems ≠ none
  | .textual t => find t.name obj.objectItems ≠ none

def Determined (platform : Platform) (obj : Json) : Prop :=
  ∀ (kvp kvp' : KVPair) (err : Bytes), (kvp.initFromJson platform obj err).ok = true →
    (kvp'.initFromJson platform obj err).ok = true ∧
      (kvp.initFromJson platform obj err).target = (kvp'.initFromJson platform obj err).target

theorem decoded_numeric_absent {obj : Json} {n : Numeric}
    (h : find n.name obj.objectItems = none) (platform : Platform) (kvp : KVPair) :
    (kvp.decoded platform obj).numeric n = kvp.numeric n := by
  rw [KVPair.decoded_numeric, h]
  rfl

theorem decoded_textual_absent {obj : Json} {t : Textual}
    (h : find t.name obj.objectItems = none) (platform : Platform) (kvp : KVPair) :
    (kvp.decoded platform obj).textual t = kvp.textual t := by
  rw [KVPair.decoded_textual, h]
  rfl

theorem decoded_numeric_present {obj : Json} {n : Numeric}
    (h : find n.name obj.objectItems ≠ none) (platform : Platform) (kvp kvp' : KVPair) :
    (kvp.decoded platform obj).numeric n = (kvp'.decoded platform obj).numeric n := by
  obtain ⟨v, hv⟩ := Option.ne_none_iff_exists'.mp h
  rw [KVPair.decoded_numeric, KVPair.decoded_numeric, hv]
  rfl

theorem decoded_textual_present {obj : Json} {t : Textual}
    (h : find t.name obj.objectItems ≠ none) (platform : Platform) (kvp kvp' : KVPair) :
    (kvp.decoded platform obj).textual t = (kvp'.decoded platform obj).textual t := by
  obtain ⟨v, hv⟩ := Option.ne_none_iff_exists'.mp h
  rw [KVPair.decoded_textual, KVPair.decoded_textual, hv]
  rfl

def zeros : Indeterminate := ⟨0, 0, 0, 0⟩

def ones : Indeterminate := ⟨1, 1, 1, 1⟩

def zeroPair : KVPair := ⟨0, 0, 0, 0, [0], [0], [0]⟩

def onePair : KVPair := ⟨1, 1, 1, 1, [1], [1], [1]⟩

/-- **The pair is determined exactly when a decodable object has all seven members.** -/
theorem determined_iff (platform : Platform) (obj : Json) :
    Determined platform obj ↔ (Decodable obj → ∀ m, Present obj m) := by
  constructor
  · intro h hdecodable m
    have hok := (KVPair.initFromJson_ok_iff platform zeroPair obj []).mpr hdecodable
    have hsame := (h zeroPair onePair [] hok).2
    rw [KVPair.initFromJson_eq platform hdecodable,
      KVPair.initFromJson_eq platform hdecodable] at hsame
    cases m with
    | numeric n =>
      intro habsent
      have hfield := congrArg (fun kvp => kvp.numeric n) hsame
      simp only [decoded_numeric_absent habsent] at hfield
      exact absurd hfield (by cases n <;> decide)
    | textual t =>
      intro habsent
      have hfield := congrArg (fun kvp => kvp.textual t) hsame
      simp only [decoded_textual_absent habsent] at hfield
      exact absurd hfield (by cases t <;> decide)
  · intro h kvp kvp' err hok
    have hdecodable := (KVPair.initFromJson_ok_iff platform kvp obj err).mp hok
    rw [KVPair.initFromJson_eq platform hdecodable, KVPair.initFromJson_eq platform hdecodable]
    refine ⟨rfl, KVPair.ext_members (fun n => ?_) fun t => ?_⟩
    · exact decoded_numeric_present (h hdecodable (.numeric n)) platform kvp kvp'
    · exact decoded_textual_present (h hdecodable (.textual t)) platform kvp kvp'

end PgConsul.Consul
