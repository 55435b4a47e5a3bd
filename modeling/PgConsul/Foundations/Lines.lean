import Mathlib.Data.List.Basic

/-! # Lines

`lines n s` cuts `s` into lines of `n` elements, the last one possibly shorter, and `Inserted c s t`
says that `t` is `s` with copies of `c` put in at any places. `readLines c s` cuts `s` behind every
`c`.
-/
namespace Foundations
set_option autoImplicit false

section Lines
variable {α : Type}

def lines (n : ℕ) (s : List α) : List (List α) :=
  (List.range ((s.length + n - 1) / n)).map fun i => (s.drop (n * i)).take n

theorem lines_nil {n : ℕ} (hn : 0 < n) : lines n ([] : List α) = [] := by
  have hcount : (([] : List α).length + n - 1) / n = 0 := by
    rw [List.length_nil, Nat.div_eq_of_lt]
    omega
  rw [lines, hcount]
  rfl

theorem lines_count {n l : ℕ} (hn : 0 < n) (hl : 0 < l) :
    (l + n - 1) / n = (l - n + n - 1) / n + 1 := by
  by_cases h : n ≤ l
  · have hleft : l + n - 1 = l - n + n - 1 + n := by omega
    rw [hleft, Nat.add_div_right _ hn]
  · have hleft : l + n - 1 = l - 1 + n := by omega
    have hright : l - n + n - 1 = n - 1 := by omega
    rw [hleft, hright, Nat.add_div_right _ hn, Nat.div_eq_of_lt (by omega),
      Nat.div_eq_of_lt (by omega)]

theorem lines_step {n : ℕ} {s : List α} (hn : 0 < n) (hs : s ≠ []) :
    lines n s = s.take n :: lines n (s.drop n) := by
  have hcount := lines_count hn (List.length_pos_of_ne_nil hs)
  rw [lines, hcount, List.range_succ_eq_map, List.map_cons, List.map_map, lines, List.length_drop]
  refine congrArg₂ _ (by simp) (List.map_congr_left fun i _ => ?_)
  simp only [Function.comp_apply, List.drop_drop, Nat.succ_eq_add_one, Nat.mul_add, Nat.mul_one]
  rw [Nat.add_comm]

theorem lines_append {n : ℕ} {u : List α} (hn : 0 < n) (hu : u.length = n) (w : List α) :
    lines n (u ++ w) = u :: lines n w := by
  have hne : u ++ w ≠ [] := by
    intro h
    have hlen := congrArg List.length h
    simp only [List.length_append, List.length_nil] at hlen
    omega
  rw [lines_step hn hne, List.take_left' hu, List.drop_left' hu]

theorem lines_short {n : ℕ} {s : List α} (hs : s ≠ []) (hle : s.length ≤ n) : lines n s = [s] := by
  have hpos := List.length_pos_of_ne_nil hs
  have hn : 0 < n := by omega
  rw [lines_step hn hs, List.take_of_length_le hle, List.drop_eq_nil_of_le hle, lines_nil hn]

/-- A property of the lines of `s` is shown from the first line on. -/
theorem lines_induction {n : ℕ} (hn : 0 < n) {motive : List α → Prop} (nil : motive [])
    (step : ∀ s, s ≠ [] → motive (s.drop n) → motive s) (s : List α) : motive s := by
  induction hlen : s.length using Nat.strongRecOn generalizing s with
  | ind l ih =>
    by_cases hs : s = []
    · exact hs ▸ nil
    · have hpos := List.length_pos_of_ne_nil hs
      exact step s hs (ih (s.drop n).length (by rw [List.length_drop]; omega) _ rfl)

theorem lines_flatten {n : ℕ} (hn : 0 < n) (s : List α) : (lines n s).flatten = s := by
  induction s using lines_induction hn with
  | nil => rw [lines_nil hn, List.flatten_nil]
  | step s hs ih => rw [lines_step hn hs, List.flatten_cons, ih, List.take_append_drop]

theorem mem_lines {n : ℕ} (hn : 0 < n) {s line : List α} (h : line ∈ lines n s) :
    line ≠ [] ∧ line ⊆ s := by
  induction s using lines_induction hn with
  | nil =>
    rw [lines_nil hn] at h
    cases h
  | step s hs ih =>
    rw [lines_step hn hs, List.mem_cons] at h
    cases h with
    | inl h =>
      subst h
      refine ⟨?_, List.take_subset n s⟩
      intro h0
      rcases List.take_eq_nil_iff.mp h0 with h0 | h0
      · omega
      · exact hs h0
    | inr h => exact ⟨(ih h).1, List.Subset.trans (ih h).2 (List.drop_subset n s)⟩

theorem lines_ne_nil {n : ℕ} {s : List α} (hn : 0 < n) (hs : s ≠ []) : lines n s ≠ [] := by
  rw [lines_step hn hs]
  exact List.cons_ne_nil _ _

end Lines

/-! ## Joining -/

section Join
variable {α : Type}

theorem flatMap_terminated (c : α) {ls : List (List α)} (h : ls ≠ []) :
    ls.flatMap (· ++ [c]) = [c].intercalate ls ++ [c] := by
  induction ls with
  | nil => exact absurd rfl h
  | cons l ls ih =>
    cases ls with
    | nil => simp
    | cons l' ls =>
      rw [List.flatMap_cons, ih (List.cons_ne_nil _ _), List.intercalate_cons_cons]
      simp

theorem getLast?_intercalate {c : α} {ls : List (List α)} (hmem : ∀ l ∈ ls, l ≠ [] ∧ c ∉ l) :
    ([c].intercalate ls).getLast? ≠ some c := by
  induction ls with
  | nil => simp
  | cons l ls ih =>
    obtain ⟨hne, hc⟩ := hmem l List.mem_cons_self
    cases ls with
    | nil =>
      rw [List.intercalate_singleton]
      exact fun h => hc (List.mem_of_getLast? h)
    | cons l' ls =>
      have hrest := ih fun x hx => hmem x (List.mem_cons_of_mem l hx)
      have hne' : [c].intercalate (l' :: ls) ≠ [] := by
        have hl' := (hmem l' (by simp)).1
        cases ls <;> simp [List.intercalate_cons_cons, hl']
      rw [List.intercalate_cons_cons, List.getLast?_append_of_ne_nil _ hne']
      exact hrest

end Join

/-! ## Inserting -/

section Inserted
variable {α : Type} {c : α}

inductive Inserted (c : α) : List α → List α → Prop where
  | nil : Inserted c [] []
  | keep {s t : List α} (b : α) (h : Inserted c s t) : Inserted c (b :: s) (b :: t)
  | insert {s t : List α} (h : Inserted c s t) : Inserted c s (c :: t)

theorem Inserted.refl (s : List α) : Inserted c s s := by
  induction s with
  | nil => exact .nil
  | cons b s ih => exact .keep b ih

theorem Inserted.append {s t s' t' : List α} (h : Inserted c s t) (h' : Inserted c s' t') :
    Inserted c (s ++ s') (t ++ t') := by
  induction h with
  | nil => exact h'
  | keep b _ ih => exact .keep b ih
  | insert _ ih => exact .insert ih

theorem Inserted.intercalate (ls : List (List α)) :
    Inserted c ls.flatten ([c].intercalate ls) := by
  induction ls with
  | nil => exact .nil
  | cons l ls ih =>
    cases ls with
    | nil => simpa using Inserted.refl (c := c) l
    | cons l' ls =>
      rw [List.flatten_cons, List.intercalate_cons_cons, List.append_assoc]
      exact (Inserted.refl l).append (.insert ih)

end Inserted

/-! ## Lines that end in a mark -/

section Ended
variable {α : Type} [DecidableEq α]

/-- The lines of `s`, each without the mark that ends it. -/
def readLines (c : α) : List α → List (List α)
  | [] => []
  | b :: s =>
    if b = c then [] :: readLines c s
    else
      match readLines c s with
      | [] => [[b]]
      | l :: ls => (b :: l) :: ls

theorem readLines_append {c : α} {l : List α} (h : c ∉ l) (rest : List α) :
    readLines c (l ++ c :: rest) = l :: readLines c rest := by
  induction l with
  | nil => rw [List.nil_append, readLines, if_pos rfl]
  | cons b l ih =>
    rw [List.mem_cons, not_or] at h
    rw [List.cons_append, readLines, if_neg (Ne.symm h.1), ih h.2]

theorem readLines_flatMap {c : α} {ls : List (List α)} (h : ∀ l ∈ ls, c ∉ l) :
    readLines c (ls.flatMap fun l => l ++ [c]) = ls := by
  induction ls with
  | nil => rfl
  | cons l ls ih =>
    rw [List.forall_mem_cons] at h
    rw [List.flatMap_cons, List.append_assoc, List.singleton_append, readLines_append h.1, ih h.2]

end Ended

end Foundations
