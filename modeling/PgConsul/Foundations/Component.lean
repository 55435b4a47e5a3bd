import PgConsul.Foundations.Machine

/-! # Components of a machine

A component of a machine is a part of its state that moves like a machine of its own: it hears some
of the inputs, answers them as the small machine does, and is left alone by all others. What it
answers in any run is then a run of the small machine, however the inputs of other components are
interleaved with its own.
-/
namespace Foundations
set_option autoImplicit false

namespace Machine

section Component
variable {σ τ ι ο κ ρ : Type} (m : Machine σ ι ο)

/-- What the inputs of a run are to the component. -/
def heard (hears : σ → ι → Option κ) : σ → List ι → List κ
  | _, [] => []
  | s, i :: is => (hears s i).toList ++ heard hears (m.step s i).1 is

/-- The answers in a run to the inputs that are the component's. -/
def said (mine : ι → Bool) (tells : ο → ρ) : σ → List ι → List ρ
  | _, [] => []
  | s, i :: is =>
    if mine i then tells (m.step s i).2 :: said mine tells (m.step s i).1 is
    else said mine tells (m.step s i).1 is

/-- The part `view` of the states of `m` moves as `n` does. -/
structure HasComponent (n : Machine τ κ ρ) (view : σ → τ) (mine : ι → Bool)
    (hears : σ → ι → Option κ) (tells : ο → ρ) : Prop where
  hears_iff : ∀ s i, (hears s i).isSome = mine i
  moved : ∀ {s i k}, hears s i = some k → view (m.step s i).1 = (n.step (view s) k).1
  answered : ∀ {s i k}, hears s i = some k → tells (m.step s i).2 = (n.step (view s) k).2
  kept : ∀ {s i}, hears s i = none → view (m.step s i).1 = view s

variable {m} {n : Machine τ κ ρ} {view : σ → τ} {mine : ι → Bool} {hears : σ → ι → Option κ}
  {tells : ο → ρ}

/-- **What a component answers in a run of the whole is a run of the component.** -/
theorem HasComponent.said_eq (h : m.HasComponent n view mine hears tells) (s : σ) (is : List ι) :
    m.said mine tells s is = n.outputs (view s) (m.heard hears s is) := by
  induction is generalizing s with
  | nil => rfl
  | cons i is ih =>
    have hmine := h.hears_iff s i
    rw [said, ih, heard]
    cases hk : hears s i with
    | none =>
      rw [hk, Option.isSome_none] at hmine
      rw [← hmine, if_neg Bool.false_ne_true, h.kept hk, Option.toList_none, List.nil_append]
    | some k =>
      rw [hk, Option.isSome_some] at hmine
      rw [← hmine, if_pos rfl, h.moved hk, h.answered hk, Option.toList_some,
        List.singleton_append, outputs]

theorem HasComponent.length_heard (h : m.HasComponent n view mine hears tells) (s : σ)
    (is : List ι) : (m.heard hears s is).length = is.countP mine := by
  induction is generalizing s with
  | nil => rfl
  | cons i is ih =>
    have hmine := h.hears_iff s i
    rw [heard, List.length_append, ih, List.countP_cons, ← hmine, Nat.add_comm]
    cases hears s i <;> rfl

theorem mem_heard {k : κ} {s : σ} {is : List ι} (h : k ∈ m.heard hears s is) :
    ∃ t, ∃ i ∈ is, hears t i = some k := by
  induction is generalizing s with
  | nil => cases h
  | cons i is ih =>
    rcases List.mem_append.mp h with hk | hk
    · exact ⟨s, i, List.mem_cons_self, Option.mem_toList.mp hk⟩
    · obtain ⟨t, j, hj, htj⟩ := ih hk
      exact ⟨t, j, List.mem_cons_of_mem i hj, htj⟩

/-- A simulation keeps what is said. -/
theorem Simulates.said {n : Machine τ ι ο} {R : σ → τ → Prop} (h : Simulates m n R) {s : σ} {t : τ}
    (hst : R s t) (is : List ι) : m.said mine tells s is = n.said mine tells t is := by
  induction is generalizing s t with
  | nil => rfl
  | cons i is ih =>
    simp only [Machine.said, h.answers i hst, ih (h.related i hst)]

end Component

end Machine

end Foundations
