import PgConsul.Json11.Parser

/-! # The messages of the parser

A parse that fails says why: no exit of the parser fails with an empty message.
-/
namespace PgConsul.Json11
set_option autoImplicit false
open Foundations

/-- A failure comes with a message. -/
def Explained {α : Type} (r : Except Bytes α) : Prop := ∀ message, r = .error message → message ≠ []

theorem explained_ok {α : Type} (a : α) : Explained (.ok a : Except Bytes α) := by
  intro message h
  cases h

theorem explained_error {α : Type} {message : Bytes} (h : message ≠ []) :
    Explained (.error message : Except Bytes α) := by
  intro m hm
  cases hm
  exact h

theorem Explained.bind {α β : Type} {r : Except Bytes α} {f : α → Except Bytes β}
    (hr : Explained r) (hf : ∀ a, Explained (f a)) : Explained (r >>= f) := by
  cases r with
  | error message =>
    have hmessage := hr message rfl
    exact explained_error hmessage
  | ok a => exact hf a

/-- A literal in front makes a message non-empty. -/
theorem literal_append_ne_nil {front : Bytes} (h : front ≠ []) (behind : Bytes) :
    front ++ behind ≠ [] := by
  intro hnil
  exact h (List.append_eq_nil_iff.mp hnil).1

theorem explained_message {α : Type} (s : String) (behind : Bytes) (h : ascii s ≠ []) :
    Explained (.error (ascii s ++ behind) : Except Bytes α) :=
  explained_error (literal_append_ne_nil h behind)

/-! ## Tokens, strings and numbers -/

theorem explained_getNextToken (s : Bytes) : Explained (getNextToken s) := by
  unfold getNextToken
  split
  · exact explained_error (by decide)
  · exact explained_ok _

theorem explained_parseString (s : Bytes) (last : ℤ) (out : Bytes) :
    Explained (parseString s last out) := by
  fun_induction parseString s last out with
  | case1 => exact explained_error (by decide)
  | case2 => exact explained_ok _
  | case3 =>
    exact explained_error (literal_append_ne_nil (literal_append_ne_nil (by decide) _) _)
  | case4 _ _ _ _ _ _ _ ih => exact ih
  | case5 => exact explained_error (by decide)
  | case6 => exact explained_message _ _ (by decide)
  | case7 _ _ _ _ _ _ _ _ _ _ _ _ _ _ ih => exact ih
  | case8 _ _ _ _ _ _ _ _ _ _ _ _ _ _ ih => exact ih
  | case9 => exact explained_message _ _ (by decide)
  | case10 _ _ _ _ _ _ _ _ _ _ _ ih => exact ih
  | case11 => exact explained_message _ _ (by decide)

theorem explained_parseInteger (s : Bytes) : Explained (parseInteger s) := by
  unfold parseInteger
  split
  · split
    · exact explained_error (by decide)
    · exact explained_ok _
  · split
    · exact explained_ok _
    · exact explained_error (literal_append_ne_nil (literal_append_ne_nil (by decide) _) _)

theorem explained_parseFraction (s : Bytes) : Explained (parseFraction s) := by
  unfold parseFraction
  split
  · split
    · exact explained_ok _
    · exact explained_error (by decide)
  · exact explained_ok _

theorem explained_parseExponent (s : Bytes) : Explained (parseExponent s) := by
  unfold parseExponent
  split
  · simp only
    split
    · split
      · exact explained_ok _
      · exact explained_error (by decide)
    · split
      · exact explained_ok _
      · exact explained_error (by decide)
  · exact explained_ok _

theorem explained_parseNumber (s : Bytes) : Explained (parseNumber s) := by
  unfold parseNumber
  refine (explained_parseInteger _).bind fun behind => ?_
  split
  · exact explained_ok _
  · refine (explained_parseFraction _).bind fun behind => ?_
    refine (explained_parseExponent _).bind fun behind => ?_
    exact explained_ok _

/-! ## Values -/

theorem explained_expect (expected : Bytes) (res : Json) (s : Bytes) :
    Explained (expect expected res s) := by
  unfold expect
  split
  · exact explained_ok _
  · refine explained_error (literal_append_ne_nil (literal_append_ne_nil ?_ _) _)
    exact literal_append_ne_nil (by decide) expected

section Levels
variable {element : Bytes → Except Bytes (Json × Bytes)} (he : ∀ s, Explained (element s))
include he

theorem explained_parseArray (fuel : ℕ) (s : Bytes) (data : List Json) :
    Explained (parseArray element fuel s data) := by
  induction fuel generalizing s data with
  | zero => exact explained_error (by decide)
  | succ fuel ih =>
    rw [parseArray]
    refine (he s).bind fun r => ?_
    refine (explained_getNextToken _).bind fun token => ?_
    dsimp only
    split
    · exact explained_ok _
    · split
      · exact explained_message _ _ (by decide)
      · exact (explained_getNextToken _).bind fun token => ih _ _

theorem explained_parseObject (fuel : ℕ) (ch : UInt8) (s : Bytes) (data : Object) :
    Explained (parseObject element fuel ch s data) := by
  induction fuel generalizing ch s data with
  | zero => exact explained_error (by decide)
  | succ fuel ih =>
    rw [parseObject]
    dsimp only
    split
    · exact explained_message _ _ (by decide)
    · refine (explained_parseString _ _ _).bind fun key => ?_
      refine (explained_getNextToken _).bind fun token => ?_
      split
      · exact explained_message _ _ (by decide)
      · refine (he _).bind fun value => ?_
        refine (explained_getNextToken _).bind fun token => ?_
        split
        · exact explained_ok _
        · split
          · exact explained_message _ _ (by decide)
          · exact (explained_getNextToken _).bind fun token => ih _ _ _

end Levels

theorem explained_parseJson (levels : ℕ) (s : Bytes) : Explained (parseJson levels s) := by
  induction levels generalizing s with
  | zero => exact explained_error (by decide)
  | succ levels ih =>
    rw [parseJson]
    refine (explained_getNextToken s).bind fun token => ?_
    dsimp only
    split
    · exact explained_parseNumber _
    split
    · exact explained_expect _ _ _
    split
    · exact explained_expect _ _ _
    split
    · exact explained_expect _ _ _
    split
    · exact (explained_parseString _ _ _).bind fun value => explained_ok _
    split
    · refine (explained_getNextToken _).bind fun token => ?_
      split
      · exact explained_ok _
      · exact explained_parseObject ih _ _ _ _
    split
    · refine (explained_getNextToken _).bind fun token => ?_
      split
      · exact explained_ok _
      · exact explained_parseArray ih _ _ _
    · exact explained_message _ _ (by decide)

/-- **A text that does not parse leaves a message**, so `err` tells the caller of `parse` which of
the two happened. -/
theorem explained_parseText (text : Bytes) : Explained (parseText text) := by
  unfold parseText
  refine (explained_parseJson _ _).bind fun result => ?_
  dsimp only
  split
  · exact explained_ok _
  · exact explained_message _ _ (by decide)

end PgConsul.Json11
