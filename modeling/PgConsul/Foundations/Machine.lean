import Mathlib.Data.List.Basic

/-! # Deterministic machines with outputs

A `Machine` answers every input with an output and a new state. A run consumes a list of inputs:
`run` is the state reached, `outputs` what was answered, `trace` the pairs of a state and the
input consumed in it. Invariants and simulations are proved for one step and lifted to runs here,
once.
-/
namespace Foundations
set_option autoImplicit false

structure Machine (σ ι ο : Type) where
  step : σ → ι → σ × ο

namespace Machine

section Runs
variable {σ ι ο : Type} (m : Machine σ ι ο)

def run : σ → List ι → σ
  | s, [] => s
  | s, i :: is => run (m.step s i).1 is

def outputs : σ → List ι → List ο
  | _, [] => []
  | s, i :: is => (m.step s i).2 :: outputs (m.step s i).1 is

/-- The states a run passes through, each with the input it consumes there. -/
def trace : σ → List ι → List (σ × ι)
  | _, [] => []
  | s, i :: is => (s, i) :: trace (m.step s i).1 is

theorem length_trace (s : σ) (is : List ι) : (m.trace s is).length = is.length := by
  induction is generalizing s with
  | nil => rfl
  | cons i is ih => rw [trace, List.length_cons, ih, List.length_cons]

/-- A step-preserved property that holds at the start holds after every run. -/
theorem run_invariant {I : σ → Prop} (hstep : ∀ s i, I s → I (m.step s i).1) {s : σ} (h : I s)
    (is : List ι) : I (m.run s is) := by
  induction is generalizing s with
  | nil => exact h
  | cons i is ih => exact ih (hstep s i h)

theorem trace_invariant {I : σ → Prop} (hstep : ∀ s i, I s → I (m.step s i).1) {s : σ} (h : I s)
    (is : List ι) : ∀ p ∈ m.trace s is, I p.1 := by
  induction is generalizing s with
  | nil =>
    intro p hp
    cases hp
  | cons i is ih =>
    intro p hp
    rcases List.mem_cons.mp hp with rfl | hp
    · exact h
    · exact ih (hstep s i h) p hp

/-- The same where a step keeps the property only on the inputs of a kind. -/
theorem trace_invariant_on {I : σ → Prop} {Q : ι → Prop}
    (hstep : ∀ s i, Q i → I s → I (m.step s i).1) {s : σ} (h : I s) {is : List ι}
    (hinputs : ∀ i ∈ is, Q i) : ∀ p ∈ m.trace s is, I p.1 ∧ Q p.2 := by
  induction is generalizing s with
  | nil =>
    intro p hp
    cases hp
  | cons i is ih =>
    obtain ⟨hi, his⟩ := List.forall_mem_cons.mp hinputs
    intro p hp
    rcases List.mem_cons.mp hp with rfl | hp
    · exact ⟨h, hi⟩
    · exact ih (hstep s i hi h) his p hp

/-- The steps of a run up to the first whose output does not let it go on. -/
def liveTrace (live : ο → Bool) : σ → List ι → List (σ × ι)
  | _, [] => []
  | s, i :: is => (s, i) :: if live (m.step s i).2 then liveTrace live (m.step s i).1 is else []

theorem liveTrace_invariant {live : ο → Bool} {I : σ → Prop}
    (hstep : ∀ s i, I s → live (m.step s i).2 = true → I (m.step s i).1) {s : σ} (h : I s)
    (is : List ι) : ∀ p ∈ m.liveTrace live s is, I p.1 := by
  induction is generalizing s with
  | nil =>
    intro p hp
    cases hp
  | cons i is ih =>
    intro p hp
    rcases List.mem_cons.mp hp with rfl | hp
    · exact h
    · split at hp
      · next hlive => exact ih (hstep s i h hlive) p hp
      · cases hp

end Runs

/-! ## Simulation -/

section Simulation
variable {σ τ ι ο : Type}

/-- Related states answer every input alike and stay related. -/
structure Simulates (m : Machine σ ι ο) (n : Machine τ ι ο) (R : σ → τ → Prop) : Prop where
  related : ∀ {s t} (i : ι), R s t → R (m.step s i).1 (n.step t i).1
  answers : ∀ {s t} (i : ι), R s t → (m.step s i).2 = (n.step t i).2

variable {m : Machine σ ι ο} {n : Machine τ ι ο} {R : σ → τ → Prop}

theorem Simulates.run (h : Simulates m n R) {s : σ} {t : τ} (hst : R s t) (is : List ι) :
    R (m.run s is) (n.run t is) := by
  induction is generalizing s t with
  | nil => exact hst
  | cons i is ih => exact ih (h.related i hst)

theorem Simulates.outputs (h : Simulates m n R) {s : σ} {t : τ} (hst : R s t) (is : List ι) :
    m.outputs s is = n.outputs t is := by
  induction is generalizing s t with
  | nil => rfl
  | cons i is ih =>
    have hrest := ih (h.related i hst)
    simp only [Machine.outputs, h.answers i hst, hrest]

end Simulation

end Machine

end Foundations
