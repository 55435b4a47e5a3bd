import Mathlib.Data.List.Basic

/-! # Server settings with hooks

A `Setting` is a variable of a server extension as the server handles it: a check says which values
are admitted, an assign hook runs before the server stores an admitted value. Values that were
stored before, the reset value and the values saved for a roll-back, are stored again without a
check. `step_cases` says what any change does to the globals and `step_admitted` that only admitted
values are ever stored.
-/
namespace Foundations
set_option autoImplicit false

structure Setting (σ α : Type) where
  check : α → Bool
  get : σ → α
  put : α → σ → σ
  assign : α → σ → σ

/-- `rollBack k` brings back the value saved `k` changes ago. -/
inductive Change (α : Type) where
  | set (a : α)
  | reset
  | rollBack (k : ℕ)

structure Past (α : Type) where
  resetVal : α
  saved : List α

namespace Setting
variable {σ α : Type} (v : Setting σ α)

def apply (a : α) (s : σ) : σ := v.put a (v.assign a s)

/-- One change: whether it was accepted, and what it leaves. -/
def step (c : Change α) (s : σ) (past : Past α) : Bool × σ × Past α :=
  match c with
  | .set a =>
    if v.check a then (true, v.apply a s, { past with saved := v.get s :: past.saved })
    else (false, s, past)
  | .reset => (true, v.apply past.resetVal s, { past with saved := v.get s :: past.saved })
  | .rollBack k =>
    match past.saved[k]? with
    | some a => (true, v.apply a s, { past with saved := past.saved.drop (k + 1) })
    | none => (false, s, past)

/-- The value stored, the reset value and the saved ones pass the check. -/
structure Admitted (s : σ) (past : Past α) : Prop where
  current : v.check (v.get s) = true
  reset : v.check past.resetVal = true
  saved : ∀ a ∈ past.saved, v.check a = true

variable {v}

/-- A change leaves the globals alone or applies an admitted value. -/
theorem step_cases {s : σ} {past : Past α} (h : v.Admitted s past) (c : Change α) :
    (v.step c s past).2.1 = s ∨
      ∃ a, v.check a = true ∧ (v.step c s past).2.1 = v.apply a s := by
  cases c with
  | set a =>
    by_cases ha : v.check a = true
    · exact Or.inr ⟨a, ha, by simp [step, ha]⟩
    · exact Or.inl (by simp [step, ha])
  | reset => exact Or.inr ⟨past.resetVal, h.reset, rfl⟩
  | rollBack k =>
    cases hk : past.saved[k]? with
    | none => exact Or.inl (by simp [step, hk])
    | some a => exact Or.inr ⟨a, h.saved a (List.mem_of_getElem? hk), by simp [step, hk]⟩

theorem step_admitted (hget : ∀ a s, v.check a = true → v.get (v.apply a s) = a) {s : σ}
    {past : Past α} (h : v.Admitted s past) (c : Change α) :
    v.Admitted (v.step c s past).2.1 (v.step c s past).2.2 := by
  have hcurrent : v.check (v.get (v.step c s past).2.1) = true := by
    rcases step_cases h c with hs | ⟨a, ha, hs⟩
    · rw [hs]
      exact h.current
    · rw [hs, hget a s ha]
      exact ha
  have hpush : ∀ a ∈ v.get s :: past.saved, v.check a = true := by
    intro a ha
    rcases List.mem_cons.mp ha with rfl | ha
    · exact h.current
    · exact h.saved a ha
  refine ⟨hcurrent, ?_, ?_⟩
  · cases c with
    | set a =>
      simp only [step]
      split
      · exact h.reset
      · exact h.reset
    | reset => exact h.reset
    | rollBack k =>
      simp only [step]
      split
      · exact h.reset
      · exact h.reset
  · cases c with
    | set a =>
      simp only [step]
      split
      · exact hpush
      · exact h.saved
    | reset => exact hpush
    | rollBack k =>
      simp only [step]
      split
      · exact fun a ha => h.saved a (List.mem_of_mem_drop ha)
      · exact h.saved

/-- What applying an admitted value keeps, every change keeps. -/
theorem step_invariant {I : σ → Prop} (hI : ∀ a s, v.check a = true → I s → I (v.apply a s))
    {s : σ} {past : Past α} (h : v.Admitted s past) (hs : I s) (c : Change α) :
    I (v.step c s past).2.1 := by
  rcases step_cases h c with heq | ⟨a, ha, heq⟩
  · rw [heq]
    exact hs
  · rw [heq]
    exact hI a s ha hs

/-- A change of one setting leaves another setting's values admitted. -/
theorem Admitted.step_other {β : Type} {w : Setting σ β}
    (hframe : ∀ a s, w.get (v.apply a s) = w.get s) {s : σ} {past : Past α} {past' : Past β}
    (h : v.Admitted s past) (hw : w.Admitted s past') (c : Change α) :
    w.Admitted (v.step c s past).2.1 past' := by
  refine step_invariant (I := fun s => w.Admitted s past') ?_ h hw c
  intro a s _ hs
  exact ⟨(hframe a s).symm ▸ hs.current, hs.reset, hs.saved⟩

/-! ## Two keepers of one setting -/

/-- What two keepers of a setting agree on before a change they agree on behind it, when they admit
the same values. -/
theorem step_related {τ : Type} {w : Setting τ α} {R : σ → τ → Prop}
    (hcheck : ∀ a, v.check a = w.check a) (hget : ∀ {s t}, R s t → v.get s = w.get t)
    (happly : ∀ {s t} a, R s t → R (v.apply a s) (w.apply a t)) {s : σ} {t : τ} (h : R s t)
    (past : Past α) (c : Change α) :
    (v.step c s past).1 = (w.step c t past).1 ∧
      R (v.step c s past).2.1 (w.step c t past).2.1 ∧
      (v.step c s past).2.2 = (w.step c t past).2.2 := by
  have hsaved := hget h
  cases c with
  | set a =>
    simp only [step, hcheck]
    split
    · exact ⟨rfl, happly a h, by rw [hsaved]⟩
    · exact ⟨rfl, h, rfl⟩
  | reset => exact ⟨rfl, happly _ h, by simp only [step, hsaved]⟩
  | rollBack k =>
    simp only [step]
    split
    · exact ⟨rfl, happly _ h, rfl⟩
    · exact ⟨rfl, h, rfl⟩

end Setting

end Foundations
