import JPype.Foundation.Runs
import Mathlib.Data.List.Forall2

/-!
# Machines that answer

Where each step of a machine gives an answer, its `trace` over a list of inputs lists the answers
with the states after them. Two machines are compared input by input: if they match in a step
exactly when the step meets a condition, and the steps that meet it keep the machines in an
invariant, their traces match exactly when all steps of the run meet it (`forall₂_trace_iff`).
-/

namespace Foundation

variable {σ τ ι ω ω' : Type*}

/-- The answers to the inputs, each with the state after it. -/
def trace (step : σ → ι → ω × σ) (s : σ) : List ι → List (ω × σ)
  | [] => []
  | i :: inputs => step s i :: trace step (step s i).2 inputs

@[simp]
theorem trace_nil (step : σ → ι → ω × σ) (s : σ) : trace step s [] = [] :=
  rfl

@[simp]
theorem trace_cons (step : σ → ι → ω × σ) (s : σ) (i : ι) (inputs : List ι) :
    trace step s (i :: inputs) = step s i :: trace step (step s i).2 inputs :=
  rfl

/-- The answers of a machine whose state does not change. -/
theorem map_trace_stateless (f : ι → ω) (s : σ) (inputs : List ι) :
    (trace (fun s i ↦ (f i, s)) s inputs).map Prod.fst = inputs.map f := by
  induction inputs with
  | nil => rfl
  | cons i inputs ih => rw [trace_cons, List.map_cons, List.map_cons, ih]

variable {step : σ → ι → ω × σ} {step' : τ → ι → ω' × τ} {cond : σ → ι → Prop}
  {agree : ω × σ → ω' × τ → Prop} (inv : σ → τ → Prop)

/-- Two traces match exactly if all steps of the first machine meet the condition for it. -/
theorem forall₂_trace_iff
    (hstep : ∀ s t i, inv s t → (agree (step s i) (step' t i) ↔ cond s i))
    (hinv : ∀ s t i, inv s t → cond s i → inv (step s i).2 (step' t i).2) (inputs : List ι) :
    ∀ s t, inv s t → (List.Forall₂ agree (trace step s inputs) (trace step' t inputs) ↔
      Admissible cond (fun s i ↦ (step s i).2) s inputs) := by
  induction inputs with
  | nil => exact fun s t _ ↦ iff_of_true .nil trivial
  | cons i inputs ih =>
    intro s t hst
    rw [trace_cons, trace_cons, List.forall₂_cons, hstep s t i hst, Admissible]
    exact and_congr_right fun hi ↦ ih _ _ (hinv s t i hst hi)

/-- Where every step matches and keeps the invariant, all traces match. -/
theorem forall₂_trace (hstep : ∀ s t i, inv s t → agree (step s i) (step' t i))
    (hinv : ∀ s t i, inv s t → inv (step s i).2 (step' t i).2) (inputs : List ι) :
    ∀ s t, inv s t → List.Forall₂ agree (trace step s inputs) (trace step' t inputs) := by
  induction inputs with
  | nil => exact fun s t _ ↦ .nil
  | cons i inputs ih => exact fun s t hst ↦ .cons (hstep s t i hst) (ih _ _ (hinv s t i hst))

end Foundation
