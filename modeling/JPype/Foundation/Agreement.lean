import Mathlib.Logic.Relation
import Mathlib.Data.Nat.Notation

/-!
# Agreement of fallible computations

Two `Except` computations agree up to a relation on their results when they fail alike or
succeed with related results. The relation passes through `>>=`, so two runs of a program that
differ in something the program never looks at are compared one step at a time.
-/

namespace Foundation

universe u v w

variable {ε : Type w} {α γ : Type u} {β δ : Type v}

/-- A sequence of two computations succeeds if both do. -/
theorem bind_eq_ok {x : Except ε α} {f : α → Except ε γ} {c : γ} (h : x >>= f = .ok c) :
    ∃ a, x = .ok a ∧ f a = .ok c := by
  cases x with
  | error e => cases h
  | ok a => exact ⟨a, rfl, h⟩

/-- A computation on each member of a list succeeds if all of them do. -/
theorem mapM_eq_ok {ι : Type*} {f : ι → Except ε α} {g : ι → α} {l : List ι}
    (h : ∀ i ∈ l, f i = .ok (g i)) : l.mapM f = .ok (l.map g) := by
  induction l with
  | nil => rfl
  | cons i l ih =>
    rw [List.forall_mem_cons] at h
    rw [List.mapM_cons, h.1, ih h.2]
    rfl

/-- A computation on each member of a list succeeds exactly if all of them do. -/
theorem isOk_mapM_iff {ι : Type*} {f : ι → Except ε α} {l : List ι} :
    (l.mapM f).isOk ↔ ∀ i ∈ l, (f i).isOk := by
  induction l with
  | nil => exact iff_of_true rfl fun i hi ↦ nomatch hi
  | cons i l ih =>
    rw [List.forall_mem_cons, ← ih, List.mapM_cons]
    rcases f i with e | a
    · exact iff_of_false nofun fun h ↦ nomatch h.1
    · rcases l.mapM f with e | as
      · exact iff_of_false nofun fun h ↦ nomatch h.2
      · exact iff_of_true rfl ⟨rfl, rfl⟩

/-- Only the members that are reached matter: those before which every computation succeeds. -/
theorem mapM_congr_of_isOk {ι : Type*} {f g : ι → Except ε α} {l : List ι}
    (h : ∀ (n : ℕ) (i : ι), l[n]? = some i → (∀ j ∈ l.take n, (f j).isOk) → f i = g i) :
    l.mapM f = l.mapM g := by
  induction l with
  | nil => rfl
  | cons i l ih =>
    have hi : f i = g i := h 0 i rfl fun j hj ↦ nomatch hj
    rw [List.mapM_cons, List.mapM_cons, ← hi]
    rcases hfi : f i with e | a
    · rfl
    · have hrest : l.mapM f = l.mapM g := by
        refine ih fun n j hn hok ↦ h (n + 1) j hn fun k hk ↦ ?_
        rw [List.take_succ_cons] at hk
        rcases List.mem_cons.1 hk with rfl | hk
        · rw [hfi]
          rfl
        · exact hok k hk
      rw [hrest]

/-- Both fail with the same error, or both succeed with results related by `R`. -/
inductive Agree (R : α → β → Prop) : Except ε α → Except ε β → Prop
  | error (e : ε) : Agree R (.error e) (.error e)
  | ok {a : α} {b : β} (h : R a b) : Agree R (.ok a) (.ok b)

namespace Agree

variable {R : α → β → Prop} {S : γ → δ → Prop}

theorem exists_of_ok {a : α} {y : Except ε β} (h : Agree R (.ok a) y) :
    ∃ b, y = .ok b ∧ R a b := by
  cases h with
  | ok h => exact ⟨_, rfl, h⟩

theorem bind {x : Except ε α} {y : Except ε β} {f : α → Except ε γ} {g : β → Except ε δ}
    (h : Agree R x y) (hfg : ∀ a b, R a b → Agree S (f a) (g b)) :
    Agree S (x >>= f) (y >>= g) := by
  cases h with
  | error e => exact .error e
  | ok h => exact hfg _ _ h

theorem ite {c d : Prop} [Decidable c] [Decidable d] {x x' : Except ε α} {y y' : Except ε β}
    (hcd : c ↔ d) (ht : c → Agree R x y) (hf : ¬c → Agree R x' y') :
    Agree R (if c then x else x') (if d then y else y') := by
  by_cases hc : c
  · rw [if_pos hc, if_pos (hcd.1 hc)]
    exact ht hc
  · rw [if_neg hc, if_neg (fun hd ↦ hc (hcd.2 hd))]
    exact hf hc

theorem map_right {T : α → δ → Prop} {g : β → δ} {x : Except ε α} {y : Except ε β}
    (h : Agree R x y) (hg : ∀ a b, R a b → T a (g b)) : Agree T x (y.map g) := by
  cases h with
  | error e => exact .error e
  | ok h => exact .ok (hg _ _ h)

end Agree

end Foundation
