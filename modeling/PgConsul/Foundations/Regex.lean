import Mathlib.Computability.RegularExpressions
import PgConsul.Foundations.Bytes

/-! # Character classes and the letters of a regular expression

Mathlib's `RegularExpression` is the expression language and `rmatch` the whole-string matcher.
Added here: bracket classes, `Over`, the property that an expression is written over some letters
only, which every string it matches inherits, and repetitions with a separator.
-/
namespace Foundations.Regex
set_option autoImplicit false
open RegularExpression

def charClass (bs : Bytes) : RegularExpression UInt8 := bs.foldr (fun b r => char b + r) 0

def byteRange (a b : Char) : Bytes :=
  (List.range (b.toNat + 1 - a.toNat)).map fun i => UInt8.ofNat (a.toNat + i)

theorem mem_byteRange {a b : Char} (hb : b.toNat < 256) {x : UInt8} :
    x ∈ byteRange a b ↔ a.toNat ≤ x.toNat ∧ x.toNat ≤ b.toNat := by
  rw [byteRange, List.mem_map]
  constructor
  · rintro ⟨i, hi, rfl⟩
    rw [List.mem_range] at hi
    rw [UInt8.toNat_ofNat', Nat.mod_eq_of_lt (by omega)]
    omega
  · rintro ⟨hlow, hhigh⟩
    refine ⟨x.toNat - a.toNat, List.mem_range.mpr (by omega), ?_⟩
    rw [Nat.add_sub_cancel' hlow, UInt8.ofNat_toNat]

section Over
variable {α : Type}

/-- Every letter of the expression satisfies `p`. -/
def Over (p : α → Prop) : RegularExpression α → Prop
  | .zero => True
  | .epsilon => True
  | .char a => p a
  | .plus r s => Over p r ∧ Over p s
  | .comp r s => Over p r ∧ Over p s
  | .star r => Over p r

/-- A matched string is written over the letters of the expression. -/
theorem Over.of_matches {p : α → Prop} {r : RegularExpression α} (hr : Over p r) {w : List α}
    (hw : w ∈ r.matches') : ∀ a ∈ w, p a := by
  induction r generalizing w with
  | zero => exact absurd hw (Language.notMem_zero w)
  | epsilon =>
    rw [one_def, matches'_epsilon, Language.mem_one] at hw
    simp [hw]
  | char b =>
    have hwb : w = [b] := hw
    intro a ha
    rw [hwb, List.mem_singleton] at ha
    exact ha ▸ hr
  | plus r s ihr ihs =>
    rw [plus_def, matches'_add, Language.mem_add] at hw
    rcases hw with hw | hw
    · exact ihr hr.1 hw
    · exact ihs hr.2 hw
  | comp r s ihr ihs =>
    rw [comp_def, matches'_mul, Language.mem_mul] at hw
    obtain ⟨u, hu, v, hv, rfl⟩ := hw
    intro a ha
    rcases List.mem_append.mp ha with ha | ha
    · exact ihr hr.1 hu a ha
    · exact ihs hr.2 hv a ha
  | star r ih =>
    rw [matches'_star, Language.mem_kstar] at hw
    obtain ⟨words, rfl, hwords⟩ := hw
    intro a ha
    obtain ⟨word, hword, ha⟩ := List.mem_flatten.mp ha
    exact ih hr (hwords word hword) a ha

end Over

theorem over_charClass {p : UInt8 → Prop} {bs : Bytes} (h : ∀ b ∈ bs, p b) :
    Over p (charClass bs) := by
  induction bs with
  | nil => exact True.intro
  | cons b bs ih =>
    exact ⟨h b List.mem_cons_self, ih fun x hx => h x (List.mem_cons_of_mem b hx)⟩

/-! ## Words of a class -/

theorem mem_charClass {bs w : Bytes} : w ∈ (charClass bs).matches' ↔ ∃ b ∈ bs, w = [b] := by
  induction bs with
  | nil =>
    constructor
    · intro h
      exact absurd h (Language.notMem_zero w)
    · rintro ⟨b, hb, -⟩
      cases hb
  | cons b bs ih =>
    have hcons : w ∈ (charClass (b :: bs)).matches' ↔ w = [b] ∨ w ∈ (charClass bs).matches' := by
      rw [charClass, List.foldr_cons, matches'_add, Language.mem_add, matches'_char]
      rfl
    rw [hcons, ih]
    simp

theorem mem_star_charClass {bs w : Bytes} :
    w ∈ (star (charClass bs)).matches' ↔ ∀ b ∈ w, b ∈ bs := by
  constructor
  · exact Over.of_matches (r := star (charClass bs)) (over_charClass fun b hb => hb)
  · intro h
    rw [matches'_star, Language.mem_kstar]
    refine ⟨w.map fun b => [b], (List.flatMap_def.symm.trans (List.flatMap_singleton' w)).symm, ?_⟩
    intro word hword
    obtain ⟨b, hb, rfl⟩ := List.mem_map.mp hword
    exact mem_charClass.mpr ⟨b, h b hb, rfl⟩

/-! ## Words between separators -/

section Separated
variable {α : Type}

theorem mem_separated_singleton {r : RegularExpression α} (c : α) {u : List α}
    (hu : u ∈ r.matches') : u ∈ (star (r * char c) * r).matches' := by
  rw [matches'_mul, Language.mem_mul]
  exact ⟨[], by rw [matches'_star]; exact Language.nil_mem_kstar _, u, hu, rfl⟩

theorem mem_separated_cons {r : RegularExpression α} {c : α} {u w : List α} (hu : u ∈ r.matches')
    (hw : w ∈ (star (r * char c) * r).matches') :
    u ++ c :: w ∈ (star (r * char c) * r).matches' := by
  rw [matches'_mul, Language.mem_mul] at hw ⊢
  obtain ⟨front, hfront, last, hlast, rfl⟩ := hw
  rw [matches'_star, Language.mem_kstar] at hfront
  obtain ⟨words, rfl, hwords⟩ := hfront
  have hword : u ++ [c] ∈ (r * char c).matches' := by
    rw [matches'_mul, Language.mem_mul]
    exact ⟨u, hu, [c], rfl, rfl⟩
  refine ⟨((u ++ [c]) :: words).flatten, ?_, last, hlast, by simp⟩
  rw [matches'_star, Language.mem_kstar]
  exact ⟨(u ++ [c]) :: words, rfl, List.forall_mem_cons.mpr ⟨hword, hwords⟩⟩

theorem mem_separated_intercalate {r : RegularExpression α} {c : α} {pieces : List (List α)}
    (hne : pieces ≠ []) (h : ∀ piece ∈ pieces, piece ∈ r.matches') :
    [c].intercalate pieces ∈ (star (r * char c) * r).matches' := by
  induction pieces with
  | nil => exact absurd rfl hne
  | cons piece pieces ih =>
    rw [List.forall_mem_cons] at h
    cases pieces with
    | nil =>
      rw [List.intercalate_singleton]
      exact mem_separated_singleton c h.1
    | cons next pieces =>
      rw [List.intercalate_cons_cons, List.append_assoc]
      exact mem_separated_cons h.1 (ih (List.cons_ne_nil _ _) h.2)

/-- Words of `r` with the letter `c` between them are the strings that split into words of `r`. -/
theorem mem_separated [DecidableEq α] {r : RegularExpression α} {c : α}
    (hr : ∀ u ∈ r.matches', c ∉ u) (w : List α) :
    w ∈ (star (r * char c) * r).matches' ↔ ∀ piece ∈ w.splitOn c, piece ∈ r.matches' := by
  constructor
  · rw [matches'_mul, Language.mem_mul]
    rintro ⟨front, hfront, last, hlast, rfl⟩
    rw [matches'_star, Language.mem_kstar] at hfront
    obtain ⟨words, rfl, hwords⟩ := hfront
    induction words with
    | nil =>
      rw [List.flatten_nil, List.nil_append, List.splitOn_eq_singleton (hr last hlast)]
      simpa using hlast
    | cons word words ih =>
      rw [List.forall_mem_cons] at hwords
      obtain ⟨hword, hrest⟩ := hwords
      rw [matches'_mul, Language.mem_mul] at hword
      obtain ⟨u, hu, v, hv, rfl⟩ := hword
      have hsep : v = [c] := hv
      have hcut : ((u ++ v) :: words).flatten ++ last = u ++ c :: (words.flatten ++ last) := by
        simp [hsep]
      rw [hcut, List.splitOn_append_cons_self_of_not_mem (hr u hu), List.forall_mem_cons]
      exact ⟨hu, ih hrest⟩
  · intro h
    have hjoined := mem_separated_intercalate (c := c) (List.splitOn_ne_nil c w) h
    rwa [List.intercalate_splitOn] at hjoined

end Separated

end Foundations.Regex
