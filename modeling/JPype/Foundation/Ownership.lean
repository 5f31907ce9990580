import JPype.Foundation.Faults
import Mathlib.Data.List.Perm.Subperm

/-!
# Resources that a program moves

A program that makes resources holds them loosely until it has put each into its place. `Ownership`
says what it is for a state that some resources are held loosely; a loose resource may be forgotten.
A program `Moves` resources if it ends with others held loosely than it began with; what is held
around it stays held, also where it fails.
-/

namespace Foundation

/-- What it is for a state that resources are held loosely. -/
structure Ownership (σ ρ : Type) where
  Owns : List ρ → σ → Prop
  forget {l kept : List ρ} {s : σ} : kept.Subperm l → Owns l s → Owns kept s

namespace Ownership

variable {σ ρ ε α β : Type} {o : Ownership σ ρ}

theorem forget_append {kept rest : List ρ} {s : σ} (h : o.Owns (kept ++ rest) s) : o.Owns kept s :=
  o.forget (List.sublist_append_left kept rest).subperm h

/-- The program begins with some resources held loosely and ends with those that belong to its
result. -/
def Moves (o : Ownership σ ρ) (before : List ρ) (x : Program σ ε α) (after : α → List ρ) : Prop :=
  ∀ loose, Triple (o.Owns (loose ++ before)) x (fun a ↦ o.Owns (loose ++ after a))
    fun _ ↦ o.Owns loose

namespace Moves

variable {before : List ρ} {after : α → List ρ} {x : Program σ ε α} {f : α → Program σ ε β}

theorem pure (a : α) (h : after a = before) :
    Moves o before (Pure.pure a : Program σ ε α) after := fun _ ↦
  Triple.pure fun _ hs ↦ h ▸ hs

theorem throw (e : ε) : Moves o before (MonadExcept.throw e : Program σ ε α) after :=
  fun _ ↦ Triple.throw fun _ ↦ forget_append

theorem bind {after' : β → List ρ} (hx : Moves o before x after)
    (hf : ∀ a, Moves o (after a) (f a) after') : Moves o before (x >>= f) after' :=
  fun loose ↦ (hx loose).bind fun a ↦ hf a loose

/-- What is held around the program stays held. -/
theorem frame (hx : Moves o [] x after) (kept : List ρ) :
    Moves o kept x fun a ↦ kept ++ after a := by
  intro loose
  have hframe := (hx (loose ++ kept)).consequence (fun _ ↦ id) (fun _ _ ↦ id)
    fun _ _ ↦ forget_append
  simpa only [List.append_nil, List.append_assoc] using hframe

/-- The order does not matter, nor what is forgotten. -/
theorem of_subperm {before' : List ρ} (hx : Moves o before x after) (h : before.Subperm before') :
    Moves o before' x after := fun loose ↦
  (hx loose).weaken_pre fun _ ↦ o.forget ((List.subperm_append_left loose).2 h)

theorem get : Moves o [] (MonadState.get : Program σ ε σ) fun _ ↦ [] :=
  fun _ _ h ↦ h

/-- A loop holds what its turns have made. -/
theorem mapM {f : α → Program σ ε β} {made : β → List ρ} (hf : ∀ a, Moves o [] (f a) made)
    (l : List α) : Moves o [] (l.mapM f) fun bs ↦ bs.flatMap made := by
  induction l with
  | nil => exact pure [] rfl
  | cons a l ih =>
    rw [List.mapM_cons]
    refine (hf a).bind fun b ↦ ?_
    exact (ih.frame (made b)).bind fun bs ↦ pure (b :: bs) rfl

theorem mapM_nil {f : α → Program σ ε β} (hf : ∀ a, Moves o [] (f a) fun _ ↦ []) (l : List α) :
    Moves o [] (l.mapM f) fun _ ↦ [] := by
  have hmapM := mapM hf l
  simpa only [List.flatMap_eq_nil_iff.2 fun _ _ ↦ rfl] using hmapM

/-- What the program does to the state when nothing is held around it. -/
theorem exec_snd (hx : Moves o [] x fun _ ↦ []) {s : σ} (hs : o.Owns [] s) :
    o.Owns [] (x.exec s).2 :=
  (hx []).exec_snd hs

end Moves

/-! ### Calls that may fail -/

/-- The same of the states that count calls. -/
def counted (o : Ownership σ ρ) : Ownership (σ × ℕ) ρ where
  Owns loose t := o.Owns loose t.1
  forget := o.forget

variable {before : List ρ} {after : α → List ρ} {x : Program σ ε α}

theorem Moves.step (hx : Moves o before x after) :
    Moves o.counted before (FaultyProgram.step x) after := by
  intro loose t ht
  have hexec := hx loose t.1 ht
  rw [FaultyProgram.exec_step]
  generalize x.exec t.1 = outcome at hexec ⊢
  obtain ⟨e | a, s⟩ := outcome
  · exact hexec
  · exact hexec

/-- Where the call fails, what it would have taken is forgotten. -/
theorem Moves.call (hx : Moves o before x after) (faults : ℕ → Option ε) :
    Moves o.counted before (FaultyProgram.call faults x) after := by
  intro loose t ht
  have hexec := hx loose t.1 ht
  rw [FaultyProgram.exec_call]
  cases faults t.2 with
  | some e => exact forget_append ht
  | none =>
    generalize x.exec t.1 = outcome at hexec ⊢
    obtain ⟨e | a, s⟩ := outcome
    · exact hexec
    · exact hexec

end Ownership

end Foundation
