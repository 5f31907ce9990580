import JPype.Foundation.Hoare
import Mathlib.Order.Defs.Unbundled

/-!
# Programs whose calls may fail

A program may call functions that are not its own, and any of these calls may fail. The state of a
faulty program counts its calls, and `faults` says with which exception, if any, each of them
fails. A faulty program `Agrees` with a program without faults if it does the same whenever it
returns. `Always` relates the first state to the last one however the program ends, and `OnReturn`
if it returns.
-/

namespace Foundation

/-- A program that counts its calls. -/
abbrev FaultyProgram (σ ε α : Type) := Program (σ × ℕ) ε α

namespace FaultyProgram

variable {σ ε α β : Type}

/-- A step of the program itself. -/
def step (x : Program σ ε α) : FaultyProgram σ ε α :=
  x.onPart Prod.fst fun s t ↦ (s, t.2)

/-- A call, which fails before it has done anything, or is carried out. -/
def call (faults : ℕ → Option ε) (x : Program σ ε α) : FaultyProgram σ ε α :=
  ExceptT.mk fun s ↦
    match faults s.2 with
    | some e => (.error e, (s.1, s.2 + 1))
    | none => ((x.exec s.1).1, ((x.exec s.1).2, s.2 + 1))

@[simp]
theorem exec_step (x : Program σ ε α) (s : σ × ℕ) :
    (step x).exec s = ((x.exec s.1).1, ((x.exec s.1).2, s.2)) :=
  rfl

theorem exec_call (faults : ℕ → Option ε) (x : Program σ ε α) (s : σ × ℕ) :
    (call faults x).exec s =
      match faults s.2 with
      | some e => (.error e, (s.1, s.2 + 1))
      | none => ((x.exec s.1).1, ((x.exec s.1).2, s.2 + 1)) :=
  rfl

/-- How a sequence returns. -/
theorem exec_bind_eq_ok {x : FaultyProgram σ ε α} {f : α → FaultyProgram σ ε β} {s s' : σ × ℕ}
    {b : β} (h : (x >>= f).exec s = (.ok b, s')) :
    ∃ a t, x.exec s = (.ok a, t) ∧ (f a).exec t = (.ok b, s') := by
  rw [Program.exec_bind] at h
  generalize x.exec s = outcome at h ⊢
  obtain ⟨e | a, t⟩ := outcome
  · exact absurd h Program.error_ne_ok
  · exact ⟨a, t, rfl, h⟩

/-- How a sequence fails. -/
theorem exec_bind_eq_error {x : FaultyProgram σ ε α} {f : α → FaultyProgram σ ε β}
    {s s' : σ × ℕ} {e : ε} (h : (x >>= f).exec s = (.error e, s')) :
    x.exec s = (.error e, s') ∨
      ∃ a t, x.exec s = (.ok a, t) ∧ (f a).exec t = (.error e, s') := by
  rw [Program.exec_bind] at h
  generalize x.exec s = outcome at h ⊢
  obtain ⟨e' | a, t⟩ := outcome
  · obtain ⟨he, rfl⟩ := Prod.mk.inj h
    rw [Except.error.inj he]
    exact .inl rfl
  · exact .inr ⟨a, t, rfl, h⟩

theorem exec_call_eq_ok {faults : ℕ → Option ε} {x : Program σ ε α} {s s' : σ × ℕ} {a : α}
    (h : (call faults x).exec s = (.ok a, s')) : x.exec s.1 = (.ok a, s'.1) := by
  rw [exec_call] at h
  split at h
  · exact absurd h Program.error_ne_ok
  · obtain ⟨ha, hs'⟩ := Prod.mk.inj h
    rw [← ha, ← hs']

end FaultyProgram

open FaultyProgram

variable {σ ε α β : Type}

/-! ### Agreement -/

/-- When the faulty program returns, it has done what the other one does. -/
def Agrees (x : FaultyProgram σ ε α) (y : Program σ ε α) : Prop :=
  ∀ s a s', x.exec s = (.ok a, s') → y.exec s.1 = (.ok a, s'.1)

namespace Agrees

variable {x : FaultyProgram σ ε α} {y : Program σ ε α}

theorem pure (a : α) : Agrees (Pure.pure a : FaultyProgram σ ε α) (Pure.pure a) := by
  intro s b s' h
  obtain ⟨hb, rfl⟩ := Prod.mk.inj h
  rw [← hb]
  rfl

theorem throw (e : ε) (y : Program σ ε α) :
    Agrees (MonadExcept.throw e : FaultyProgram σ ε α) y :=
  fun _ _ _ h ↦ absurd h Program.error_ne_ok

theorem step (y : Program σ ε α) : Agrees (step y) y := by
  intro s a s' h
  obtain ⟨ha, hs'⟩ := Prod.mk.inj h
  rw [← ha, ← hs']

theorem call (faults : ℕ → Option ε) (y : Program σ ε α) : Agrees (call faults y) y :=
  fun _ _ _ h ↦ exec_call_eq_ok h

theorem bind {f : α → FaultyProgram σ ε β} {g : α → Program σ ε β} (hx : Agrees x y)
    (hf : ∀ a, Agrees (f a) (g a)) : Agrees (x >>= f) (y >>= g) := by
  intro s b s' h
  obtain ⟨a, t, ht, hb⟩ := exec_bind_eq_ok h
  rw [Program.exec_bind, hx s a t ht]
  exact hf a t b s' hb

/-- A call that does nothing need not be made. -/
theorem skip {faults : ℕ → Option ε} {f : α → FaultyProgram σ ε β} {y : Program σ ε β} {a : α}
    (hf : Agrees (f a) y) : Agrees (FaultyProgram.call faults (Pure.pure a) >>= f) y := by
  intro s b s' h
  obtain ⟨a', t, ht, hb⟩ := exec_bind_eq_ok h
  obtain ⟨ha, hs⟩ := Prod.mk.inj (exec_call_eq_ok ht)
  obtain rfl := Except.ok.inj ha
  rw [hs]
  exact hf t b s' hb

theorem mapM {f : α → FaultyProgram σ ε β} {g : α → Program σ ε β}
    (hf : ∀ a, Agrees (f a) (g a)) (l : List α) : Agrees (l.mapM f) (l.mapM g) := by
  induction l with
  | nil => exact pure []
  | cons a l ih =>
    rw [List.mapM_cons, List.mapM_cons]
    exact (hf a).bind fun b ↦ ih.bind fun bs ↦ pure (b :: bs)

end Agrees

/-! ### Relations of first and last states -/

/-- However the program ends, the last state is related to the first one. -/
def Always (r : σ → σ → Prop) (x : FaultyProgram σ ε α) : Prop :=
  ∀ s, r s.1 (x.exec s).2.1

/-- When the program returns, the last state is related to the first one. -/
def OnReturn (r : σ → σ → Prop) (x : FaultyProgram σ ε α) : Prop :=
  ∀ s a s', x.exec s = (.ok a, s') → r s.1 s'.1

variable {r : σ → σ → Prop} {x : FaultyProgram σ ε α} {f : α → FaultyProgram σ ε β}

theorem Always.onReturn (h : Always r x) : OnReturn r x := by
  intro s a s' hs'
  have hrel := h s
  rwa [hs'] at hrel

theorem OnReturn.throw (e : ε) : OnReturn r (MonadExcept.throw e : FaultyProgram σ ε α) :=
  fun _ _ _ h ↦ absurd h Program.error_ne_ok

theorem OnReturn.step {x : Program σ ε α} (h : ∀ s a s', x.exec s = (.ok a, s') → r s s') :
    OnReturn r (FaultyProgram.step x) :=
  fun s a s' hs' ↦ h s.1 a s'.1 (Agrees.step x s a s' hs')

theorem Always.step {x : Program σ ε α} (h : ∀ s, r s (x.exec s).2) :
    Always r (FaultyProgram.step x) :=
  fun s ↦ h s.1

section Refl

variable [Std.Refl r]

theorem Always.pure (a : α) : Always r (Pure.pure a : FaultyProgram σ ε α) :=
  fun s ↦ Std.Refl.refl s.1

theorem Always.throw (e : ε) : Always r (MonadExcept.throw e : FaultyProgram σ ε α) :=
  fun s ↦ Std.Refl.refl s.1

theorem Always.call {faults : ℕ → Option ε} {x : Program σ ε α} (h : ∀ s, r s (x.exec s).2) :
    Always r (FaultyProgram.call faults x) := by
  intro s
  rw [exec_call]
  split
  · exact Std.Refl.refl s.1
  · exact h s.1

theorem OnReturn.pure (a : α) : OnReturn r (Pure.pure a : FaultyProgram σ ε α) :=
  (Always.pure a).onReturn

end Refl

section Trans

variable [IsTrans σ r]

theorem Always.bind (hx : Always r x) (hf : ∀ a, Always r (f a)) : Always r (x >>= f) := by
  intro s
  have hs := hx s
  rw [Program.exec_bind]
  generalize x.exec s = outcome at hs ⊢
  obtain ⟨e | a, t⟩ := outcome
  · exact hs
  · exact IsTrans.trans _ _ _ hs (hf a t)

theorem OnReturn.bind (hx : OnReturn r x) (hf : ∀ a, OnReturn r (f a)) : OnReturn r (x >>= f) := by
  intro s b s' h
  obtain ⟨a, t, ht, hb⟩ := exec_bind_eq_ok h
  exact IsTrans.trans _ _ _ (hx s a t ht) (hf a t b s' hb)

variable [Std.Refl r]

theorem Always.mapM {f : α → FaultyProgram σ ε β} (hf : ∀ a, Always r (f a)) (l : List α) :
    Always r (l.mapM f) := by
  induction l with
  | nil => exact .pure []
  | cons a l ih =>
    rw [List.mapM_cons]
    exact (hf a).bind fun b ↦ ih.bind fun bs ↦ .pure (b :: bs)

theorem OnReturn.mapM {f : α → FaultyProgram σ ε β} (hf : ∀ a, OnReturn r (f a)) (l : List α) :
    OnReturn r (l.mapM f) := by
  induction l with
  | nil => exact .pure []
  | cons a l ih =>
    rw [List.mapM_cons]
    exact (hf a).bind fun b ↦ ih.bind fun bs ↦ .pure (b :: bs)

/-- What each turn of a loop establishes holds of all at the end, if further turns keep it. -/
theorem forall₂_of_exec_mapM {f : α → FaultyProgram σ ε β} {Q : σ → α → β → Prop}
    (hr : ∀ a, OnReturn r (f a)) (hkeep : ∀ {s s' a b}, r s s' → Q s a b → Q s' a b)
    (hf : ∀ {a s b s'}, (f a).exec s = (.ok b, s') → Q s'.1 a b) {l : List α} {s s' : σ × ℕ}
    {bs : List β} (h : (l.mapM f).exec s = (.ok bs, s')) : List.Forall₂ (Q s'.1) l bs := by
  induction l generalizing s bs with
  | nil =>
    obtain ⟨hbs, -⟩ := Prod.mk.inj h
    rw [← Except.ok.inj hbs]
    exact .nil
  | cons a l ih =>
    rw [List.mapM_cons] at h
    obtain ⟨b, t, ht, h⟩ := exec_bind_eq_ok h
    obtain ⟨bs', t', ht', h⟩ := exec_bind_eq_ok h
    obtain ⟨hbs, rfl⟩ := Prod.mk.inj h
    rw [← Except.ok.inj hbs]
    exact .cons (hkeep (OnReturn.mapM hr l t bs' t' ht') (hf ht)) (ih ht')

end Trans

end Foundation
