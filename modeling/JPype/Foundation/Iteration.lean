import Mathlib.Order.Nat

/-!
# Loops

A loop is a function from states to either the next state or the value with which the loop is
left. `iterate` runs it for a bounded number of rounds, and `Ends` says that it is left with a
value. A loop ends in one way only (`Ends.unique`), one follows it round by round (`Ends.of_inl`),
what its rounds keep holds where it is left (`Ends.invariant`), and it is left if its rounds go
down a well-founded relation (`Ends.exists_of_wellFounded`).
-/

namespace Foundation

variable {σ β : Type*}

/-- The value with which the loop is left after at most `fuel` rounds. -/
def iterate (step : σ → σ ⊕ β) : ℕ → σ → Option β
  | 0, _ => none
  | fuel + 1, s =>
    match step s with
    | .inl s' => iterate step fuel s'
    | .inr b => some b

/-- The loop is left with the value `b`. -/
def Ends (step : σ → σ ⊕ β) (s : σ) (b : β) : Prop :=
  ∃ fuel, iterate step fuel s = some b

variable {step : σ → σ ⊕ β} {s s' : σ} {b b' : β}

theorem iterate_succ (fuel : ℕ) (s : σ) :
    iterate step (fuel + 1) s = (step s).elim (iterate step fuel) some := by
  rw [iterate]
  cases step s <;> rfl

theorem iterate_mono {fuel fuel' : ℕ} (hle : fuel ≤ fuel') (h : iterate step fuel s = some b) :
    iterate step fuel' s = some b := by
  induction fuel generalizing fuel' s with
  | zero => exact absurd h (Option.some_ne_none b).symm
  | succ fuel ih =>
    obtain ⟨fuel', rfl⟩ := Nat.exists_eq_add_of_le' (Nat.one_le_of_lt hle)
    rw [iterate_succ] at h ⊢
    cases hs : step s with
    | inl s' =>
      rw [hs] at h
      exact ih (Nat.le_of_succ_le_succ hle) h
    | inr b' =>
      rw [hs] at h
      exact h

namespace Ends

theorem unique (h : Ends step s b) (h' : Ends step s b') : b = b' := by
  obtain ⟨fuel, hfuel⟩ := h
  obtain ⟨fuel', hfuel'⟩ := h'
  have hmax := iterate_mono (Nat.le_max_left fuel fuel') hfuel
  rw [iterate_mono (Nat.le_max_right fuel fuel') hfuel'] at hmax
  exact (Option.some.inj hmax).symm

theorem of_inr (h : step s = .inr b) : Ends step s b :=
  ⟨1, by rw [iterate_succ, h]; rfl⟩

theorem of_inl (h : step s = .inl s') (he : Ends step s' b) : Ends step s b := by
  obtain ⟨fuel, hfuel⟩ := he
  exact ⟨fuel + 1, by rw [iterate_succ, h]; exact hfuel⟩

theorem congr (h : step s = step s') (he : Ends step s' b) : Ends step s b := by
  obtain ⟨fuel, hfuel⟩ := he
  refine ⟨fuel, ?_⟩
  cases fuel with
  | zero => exact hfuel
  | succ fuel =>
    rw [iterate_succ] at hfuel ⊢
    rw [h]
    exact hfuel

/-- A property of states that every round keeps gives a property of the value at the end. -/
theorem invariant {inv : σ → Prop} {post : β → Prop}
    (hstep : ∀ s s', inv s → step s = .inl s' → inv s')
    (hend : ∀ s b, inv s → step s = .inr b → post b) (hs : inv s) (he : Ends step s b) :
    post b := by
  obtain ⟨fuel, hfuel⟩ := he
  induction fuel generalizing s with
  | zero => exact absurd hfuel (Option.some_ne_none b).symm
  | succ fuel ih =>
    rw [iterate_succ] at hfuel
    cases hnext : step s with
    | inl s' =>
      rw [hnext] at hfuel
      exact ih (hstep s s' hs hnext) hfuel
    | inr b' =>
      rw [hnext] at hfuel
      exact hend s b hs (hnext.trans (congrArg Sum.inr (Option.some.inj hfuel)))

/-- A loop is left if its rounds go down a well-founded relation. -/
theorem exists_of_wellFounded {α : Type*} {r : α → α → Prop} (hr : WellFounded r) (measure : σ → α)
    {inv : σ → Prop}
    (hstep : ∀ s s', inv s → step s = .inl s' → inv s' ∧ r (measure s') (measure s))
    (hs : inv s) : ∃ b, Ends step s b := by
  induction hm : measure s using hr.induction generalizing s with
  | _ m ih =>
    subst hm
    cases hnext : step s with
    | inr b => exact ⟨b, of_inr hnext⟩
    | inl s' =>
      obtain ⟨hs', hlt⟩ := hstep s s' hs hnext
      obtain ⟨b, hb⟩ := ih _ hlt hs' rfl
      exact ⟨b, of_inl hnext hb⟩

end Ends

end Foundation
