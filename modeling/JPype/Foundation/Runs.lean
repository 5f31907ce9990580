import Mathlib.Data.List.Basic

/-!
# Runs of a step function

A deterministic system is a step function `step : σ → ι → σ` from states and inputs to states,
and `run` folds it over a list of inputs. Two rules go with it: what every step keeps, every run
keeps (`invariant_run`), and bookkeeping added to the states does not change the runs
(`run_projection`).

Where a step can fail, the inputs are those that a second system, a history, admits
(`Admissible`); a relation between histories and states that every admitted step keeps shows that
no admissible run fails (`exists_run`). Where the states themselves say which inputs are in order,
the runs are those of `Orderly`.
-/

namespace Foundation

variable {σ ι : Type*}

/-- The state after the inputs, in order. -/
def run (step : σ → ι → σ) (s : σ) (inputs : List ι) : σ :=
  inputs.foldl step s

@[simp]
theorem run_nil (step : σ → ι → σ) (s : σ) : run step s [] = s :=
  rfl

@[simp]
theorem run_cons (step : σ → ι → σ) (s : σ) (i : ι) (inputs : List ι) :
    run step s (i :: inputs) = run step (step s i) inputs :=
  rfl

theorem run_append (step : σ → ι → σ) (s : σ) (inputs inputs' : List ι) :
    run step s (inputs ++ inputs') = run step (run step s inputs) inputs' :=
  List.foldl_append

/-- A run of inputs that change nothing. -/
theorem run_eq_self {step : σ → ι → σ} {inputs : List ι} (h : ∀ i ∈ inputs, ∀ s, step s i = s) :
    ∀ s, run step s inputs = s := by
  induction inputs with
  | nil => exact fun _ ↦ rfl
  | cons i inputs ih =>
    intro s
    rw [run_cons, h i List.mem_cons_self, ih fun j hj ↦ h j (List.mem_cons_of_mem i hj)]

/-- Inputs that change nothing can be left out. -/
theorem run_filter {step : σ → ι → σ} {keeps : ι → Bool}
    (hstep : ∀ i, keeps i = false → ∀ s, step s i = s) (inputs : List ι) :
    ∀ s, run step s (inputs.filter keeps) = run step s inputs := by
  induction inputs with
  | nil => exact fun _ ↦ rfl
  | cons i inputs ih =>
    intro s
    cases hi : keeps i with
    | true => rw [List.filter_cons_of_pos hi, run_cons, run_cons, ih]
    | false => rw [List.filter_cons_of_neg (by simp [hi]), run_cons, hstep i hi, ih]

/-- A property of states kept by every step holds after every run. -/
theorem invariant_run {step : σ → ι → σ} {inv : σ → Prop}
    (hstep : ∀ s i, inv s → inv (step s i)) (inputs : List ι) :
    ∀ s, inv s → inv (run step s inputs) := by
  induction inputs with
  | nil => exact fun s hs ↦ hs
  | cons i inputs ih => exact fun s hs ↦ ih _ (hstep s i hs)

/-- The runs of a system that carries extra bookkeeping project to the runs of the system. -/
theorem run_projection {τ : Type*} {step : σ → ι → σ} {step' : τ → ι → τ} {proj : τ → σ}
    (hproj : ∀ t i, proj (step' t i) = step (proj t) i) (inputs : List ι) :
    ∀ t, proj (run step' t inputs) = run step (proj t) inputs := by
  induction inputs with
  | nil => exact fun t ↦ rfl
  | cons i inputs ih =>
    intro t
    rw [run_cons, run_cons, ih, hproj]

section Admissible

variable {τ : Type*} (allows : τ → ι → Prop) (next : τ → ι → τ)

/-- Each input of the list is allowed by the history at its time. -/
def Admissible (t : τ) : List ι → Prop
  | [] => True
  | i :: inputs => allows t i ∧ Admissible (next t i) inputs

variable {allows next}

theorem admissible_append {inputs inputs' : List ι} {t : τ} :
    Admissible allows next t (inputs ++ inputs') ↔
      Admissible allows next t inputs ∧ Admissible allows next (run next t inputs) inputs' := by
  induction inputs generalizing t with
  | nil => simp [Admissible]
  | cons i inputs ih =>
    rw [List.cons_append, Admissible, Admissible, ih, run_cons, and_assoc]

/-- A condition on the inputs alone is met by all of them. -/
theorem admissible_iff_forall {p : ι → Prop} {inputs : List ι} {t : τ} :
    Admissible (fun _ i ↦ p i) next t inputs ↔ ∀ i ∈ inputs, p i := by
  induction inputs generalizing t with
  | nil => simp [Admissible]
  | cons i inputs ih => rw [Admissible, ih, List.forall_mem_cons]

/-- Forward simulation: admissible runs succeed, and end in related states. -/
theorem exists_run {step : σ → ι → Option σ} {rel : τ → σ → Prop}
    (hstep : ∀ t s i, rel t s → allows t i → ∃ s', step s i = some s' ∧ rel (next t i) s')
    (inputs : List ι) :
    ∀ t s, rel t s → Admissible allows next t inputs →
      ∃ s', inputs.foldlM step s = some s' ∧ rel (run next t inputs) s' := by
  induction inputs with
  | nil => exact fun t s hs _ ↦ ⟨s, rfl, hs⟩
  | cons i inputs ih =>
    intro t s hs hadm
    obtain ⟨s', hs', hrel⟩ := hstep t s i hs hadm.1
    obtain ⟨s'', hs'', hrel'⟩ := ih _ s' hrel hadm.2
    exact ⟨s'', by rw [List.foldlM_cons, hs']; exact hs'', hrel'⟩

/-- What every allowed step keeps, every admissible run keeps. -/
theorem invariant_of_admissible {inv : τ → Prop}
    (hstep : ∀ t i, inv t → allows t i → inv (next t i)) (inputs : List ι) :
    ∀ t, inv t → Admissible allows next t inputs → inv (run next t inputs) := by
  induction inputs with
  | nil => exact fun t ht _ ↦ ht
  | cons i inputs ih => exact fun t ht hadm ↦ ih _ (hstep t i ht hadm.1) hadm.2

/-- Safety with its exact condition: where the invariant is kept by the steps that meet a condition,
and safety is lost at once by those that do not, a run is safe throughout exactly if its steps all
meet the condition. -/
theorem safe_prefixes_iff {cond : τ → ι → Prop} {inv safe : τ → Prop}
    (hsafe : ∀ t, inv t → safe t)
    (hstep : ∀ t i, inv t → allows t i → cond t i → inv (next t i))
    (hbad : ∀ t i, inv t → allows t i → ¬cond t i → ¬safe (next t i)) (inputs : List ι) :
    ∀ t, inv t → Admissible allows next t inputs →
      ((∀ l, l <+: inputs → safe (run next t l)) ↔ Admissible cond next t inputs) := by
  induction inputs with
  | nil =>
    intro t ht _
    refine ⟨fun _ ↦ trivial, fun _ l hl ↦ ?_⟩
    obtain rfl := List.prefix_nil.1 hl
    exact hsafe t ht
  | cons i inputs ih =>
    intro t ht hadm
    constructor
    · intro h
      have hi : cond t i := by
        by_contra hi
        exact hbad t i ht hadm.1 hi (h [i] (List.cons_prefix_cons.2 ⟨rfl, List.nil_prefix⟩))
      refine ⟨hi, (ih _ (hstep t i ht hadm.1 hi) hadm.2).1 fun l hl ↦ ?_⟩
      exact h (i :: l) (List.cons_prefix_cons.2 ⟨rfl, hl⟩)
    · rintro ⟨hi, hrest⟩ l hl
      cases l with
      | nil => exact hsafe t ht
      | cons j l =>
        obtain ⟨rfl, hl'⟩ := List.cons_prefix_cons.1 hl
        exact (ih _ (hstep t j ht hadm.1 hi) hadm.2).2 hrest l hl'

instance decidableAdmissible [∀ t i, Decidable (allows t i)] (t : τ) :
    ∀ inputs : List ι, Decidable (Admissible allows next t inputs)
  | [] => isTrue trivial
  | i :: inputs =>
    have := decidableAdmissible (next t i) inputs
    inferInstanceAs (Decidable (_ ∧ _))

end Admissible

section Orderly

variable (step : σ → ι → Option σ) (allows : σ → ι → Prop)

/-- Each input of the list is allowed in the state at its time. -/
def Orderly (s : σ) : List ι → Prop
  | [] => True
  | i :: inputs => allows s i ∧ ∀ s', step s i = some s' → Orderly s' inputs

instance decidableOrderly [∀ s i, Decidable (allows s i)] (s : σ) :
    ∀ inputs : List ι, Decidable (Orderly step allows s inputs)
  | [] => isTrue trivial
  | i :: inputs =>
    match h : step s i with
    | none => decidable_of_iff (allows s i) (by simp [Orderly, h])
    | some s' =>
      have := decidableOrderly s' inputs
      decidable_of_iff (allows s i ∧ Orderly step allows s' inputs) (by simp [Orderly, h])

variable {step allows}

/-- Orderly runs of allowed steps that keep an invariant succeed, and keep it. -/
theorem exists_run_of_orderly {inv : σ → Prop}
    (hstep : ∀ s i, inv s → allows s i → ∃ s', step s i = some s' ∧ inv s') (inputs : List ι) :
    ∀ s, inv s → Orderly step allows s inputs →
      ∃ s', inputs.foldlM step s = some s' ∧ inv s' := by
  induction inputs with
  | nil => exact fun s hs _ ↦ ⟨s, rfl, hs⟩
  | cons i inputs ih =>
    intro s hs hadm
    obtain ⟨s', hs', hinv⟩ := hstep s i hs hadm.1
    obtain ⟨s'', hs'', hinv'⟩ := ih s' hinv (hadm.2 s' hs')
    exact ⟨s'', by rw [List.foldlM_cons, hs']; exact hs'', hinv'⟩

theorem Orderly.append {inputs inputs' : List ι} :
    ∀ {s s' : σ}, Orderly step allows s (inputs ++ inputs') →
      inputs.foldlM step s = some s' →
      Orderly step allows s inputs ∧ Orderly step allows s' inputs' := by
  induction inputs with
  | nil =>
    intro s s' h hs
    obtain rfl := Option.some.inj hs
    exact ⟨trivial, h⟩
  | cons i inputs ih =>
    intro s s' h hs
    rw [List.foldlM_cons] at hs
    obtain ⟨t, ht, hs⟩ := Option.bind_eq_some_iff.1 hs
    obtain ⟨hi, hrest⟩ := h
    refine ⟨⟨hi, fun t' ht' ↦ ?_⟩, (ih (hrest t ht) hs).2⟩
    obtain rfl := Option.some.inj (ht.symm.trans ht')
    exact (ih (hrest t ht) hs).1

end Orderly

end Foundation
