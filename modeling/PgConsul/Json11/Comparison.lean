import PgConsul.Json11.Value

/-! # Comparing values

`operator==` of `json11::Json`: values of one type compare by their contents, and two numbers as
doubles, whether each is an `int` or a `double`.
-/
namespace PgConsul.Json11
set_option autoImplicit false
open Foundations

/-- `==` of two doubles: zeros of either sign agree, a NaN agrees with nothing. -/
def doubleEquals : Double → Double → Bool
  | .finite s a, .finite t b => Double.signed s a.value = Double.signed t b.value
  | .infinite s, .infinite t => s = t
  | _, _ => false

/-- `static_cast<double>(i)`. -/
def intDouble (i : Int32) : Double := Double.ofRat (i.toInt < 0) (i.toInt.natAbs : ℚ)

mutual

def equals : Json → Json → Bool
  | .null, .null => true
  | .double d, .double e => doubleEquals d e
  | .double d, .int j => doubleEquals d (intDouble j)
  | .int i, .double e => doubleEquals (intDouble i) e
  | .int i, .int j => doubleEquals (intDouble i) (intDouble j)
  | .bool b, .bool c => b = c
  | .string s, .string t => s = t
  | .array xs, .array ys => equalsArray xs ys
  | .object xs, .object ys => equalsObject xs ys
  | _, _ => false

def equalsArray : List Json → List Json → Bool
  | [], [] => true
  | x :: xs, y :: ys => equals x y && equalsArray xs ys
  | _, _ => false

def equalsObject : List (Bytes × Json) → List (Bytes × Json) → Bool
  | [], [] => true
  | x :: xs, y :: ys => equalsMember x y && equalsObject xs ys
  | _, _ => false

def equalsMember : Bytes × Json → Bytes × Json → Bool
  | (k, v), (l, w) => k = l && equals v w

end

/-- `number_value()` of a number. -/
def numberDouble : Json → Option Double
  | .double d => some d
  | .int i => some (intDouble i)
  | _ => none

theorem equals_numbers {a b : Json} {d e : Double} (ha : numberDouble a = some d)
    (hb : numberDouble b = some e) : equals a b = doubleEquals d e := by
  cases a <;> cases ha <;> cases b <;> cases hb <;> rw [equals]

theorem forall₂_right {α β : Type} {R : α → β → Prop} {xs : List α} {ys : List β}
    (h : List.Forall₂ R xs ys) {y : β} (hy : y ∈ ys) : ∃ x ∈ xs, R x y := by
  induction h with
  | nil => cases hy
  | cons hxy _ ih =>
    rcases List.mem_cons.mp hy with rfl | hy
    · exact ⟨_, List.mem_cons_self, hxy⟩
    · obtain ⟨x, hx, hxy⟩ := ih hy
      exact ⟨x, List.mem_cons_of_mem _ hx, hxy⟩

theorem equalsMember_iff (m n : Bytes × Json) :
    equalsMember m n = true ↔ m.1 = n.1 ∧ equals m.2 n.2 = true := by
  obtain ⟨k, v⟩ := m
  obtain ⟨l, w⟩ := n
  rw [equalsMember, Bool.and_eq_true, decide_eq_true_eq]

theorem equalsArray_forall {xs ys : List Json} :
    equalsArray xs ys = true ↔ List.Forall₂ (fun x y => equals x y = true) xs ys := by
  induction xs generalizing ys with
  | nil => cases ys <;> simp [equalsArray]
  | cons x xs ih => cases ys <;> simp [equalsArray, ih]

theorem equalsObject_forall {xs ys : Object} :
    equalsObject xs ys = true ↔
      List.Forall₂ (fun x y => x.1 = y.1 ∧ equals x.2 y.2 = true) xs ys := by
  induction xs generalizing ys with
  | nil => cases ys <;> simp [equalsObject]
  | cons x xs ih => cases ys <;> simp [equalsObject, equalsMember_iff, ih]

theorem signed_natAbs (i : ℤ) : Double.signed (i < 0) (i.natAbs : ℚ) = i := by
  rw [← Int.cast_natCast]
  rcases lt_or_ge i 0 with h | h
  · rw [Double.signed, if_pos (decide_eq_true h), Int.ofNat_natAbs_of_nonpos h.le, Int.cast_neg,
      neg_neg]
  · rw [Double.signed, if_neg (by simpa using h), Int.natAbs_of_nonneg h]

/-- An `int` is a double exactly. -/
theorem intDouble_value (i : Int32) : (intDouble i).value = some (i.toInt : ℚ) := by
  have hbound : i.toInt.natAbs ≤ 2 ^ 53 := by
    have hlow := Int32.le_toInt i
    have hhigh := Int32.toInt_lt i
    omega
  rw [intDouble, Double.value_ofRat_natCast _ hbound, signed_natAbs]

/-- Finite doubles are equal when their values are. -/
theorem doubleEquals_iff {d e : Double} {q : ℚ} (hd : d.value = some q) :
    doubleEquals d e = true ↔ e.value = some q := by
  cases d with
  | infinite s => cases hd
  | nan => cases hd
  | finite s a =>
    have hq : Double.signed s a.value = q := Option.some.inj hd
    cases e with
    | infinite t => simp [doubleEquals, Double.value]
    | nan => simp [doubleEquals, Double.value]
    | finite t b =>
      rw [doubleEquals, decide_eq_true_eq, Double.value, Option.some.injEq, hq]
      exact eq_comm

end PgConsul.Json11
