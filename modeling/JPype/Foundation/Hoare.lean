import Mathlib.Logic.Basic
import Mathlib.Data.List.Basic

/-!
# Programs with exceptions and a state

A `Program` may raise an exception, and what it did to the state until then stays done. `Triple`
therefore has two postconditions, one for a return and one for an exception. There is one rule for
each way to build a program. Where a postcondition compares the final state with the first one,
the first state is a parameter that the precondition fixes.
-/

namespace Foundation

/-- A program with states `σ` and exceptions `ε`. -/
abbrev Program (σ ε α : Type) := ExceptT ε (StateM σ) α

variable {σ ε α β : Type}

/-- The outcome of a program and the state it leaves. -/
def Program.exec (x : Program σ ε α) (s : σ) : Except ε α × σ :=
  StateT.run (ExceptT.run x) s

theorem Program.exec_bind (x : Program σ ε α) (f : α → Program σ ε β) (s : σ) :
    (x >>= f).exec s =
      match x.exec s with
      | (.ok a, s') => (f a).exec s'
      | (.error e, s') => (.error e, s') := by
  show (StateT.bind (ExceptT.run x) (ExceptT.bindCont f)) s = _
  simp only [StateT.bind, Program.exec, StateT.run]
  obtain ⟨e | a, s'⟩ := ExceptT.run x s <;> rfl

@[simp]
theorem Program.exec_pure (a : α) (s : σ) : (pure a : Program σ ε α).exec s = (.ok a, s) :=
  rfl

@[simp]
theorem Program.exec_throw (e : ε) (s : σ) : (throw e : Program σ ε α).exec s = (.error e, s) :=
  rfl

@[simp]
theorem Program.exec_get (s : σ) : (get : Program σ ε σ).exec s = (.ok s, s) :=
  rfl

@[simp]
theorem Program.exec_modify (f : σ → σ) (s : σ) :
    (modify f : Program σ ε Unit).exec s = (.ok (), f s) :=
  rfl

@[simp]
theorem Program.exec_set (s s' : σ) : (set s' : Program σ ε Unit).exec s = (.ok (), s') :=
  rfl

theorem Program.error_ne_ok {e : ε} {a : α} {s s' : σ} :
    ((.error e, s) : Except ε α × σ) ≠ (.ok a, s') := by
  intro h
  cases h

theorem Program.exec_tryCatch (x : Program σ ε α) (handler : ε → Program σ ε α) (s : σ) :
    (tryCatch x handler).exec s =
      match x.exec s with
      | (.ok a, s') => (.ok a, s')
      | (.error e, s') => (handler e).exec s' := by
  show ExceptT.tryCatch x handler s = _
  simp only [ExceptT.tryCatch, ExceptT.mk, bind, StateT.bind, Program.exec, StateT.run, ExceptT.run]
  obtain ⟨e | a, s'⟩ := x s <;> rfl

/-- A program that works on a part of the state. -/
def Program.onPart {τ : Type} (part : σ → τ) (update : τ → σ → σ) (x : Program τ ε α) :
    Program σ ε α :=
  ExceptT.mk fun s ↦ ((x.exec (part s)).1, update (x.exec (part s)).2 s)

@[simp]
theorem Program.exec_onPart {τ : Type} (part : σ → τ) (update : τ → σ → σ) (x : Program τ ε α)
    (s : σ) : (x.onPart part update).exec s =
      ((x.exec (part s)).1, update (x.exec (part s)).2 s) :=
  rfl

/-- From every state with `pre`, a return leads to a state with `post`, and an exception to a
state with `fail`. -/
def Triple (pre : σ → Prop) (x : Program σ ε α) (post : α → σ → Prop) (fail : ε → σ → Prop) :
    Prop :=
  ∀ s, pre s →
    match x.exec s with
    | (.ok a, s') => post a s'
    | (.error e, s') => fail e s'

namespace Triple

variable {pre pre' : σ → Prop} {post post' : α → σ → Prop} {fail fail' : ε → σ → Prop}

theorem pure {a : α} (h : ∀ s, pre s → post a s) :
    Triple pre (Pure.pure a : Program σ ε α) post fail :=
  h

theorem throw {e : ε} (h : ∀ s, pre s → fail e s) :
    Triple pre (MonadExcept.throw e : Program σ ε α) post fail :=
  h

theorem modify {f : σ → σ} {post : Unit → σ → Prop} (h : ∀ s, pre s → post () (f s)) :
    Triple pre (modify f : Program σ ε Unit) post fail :=
  h

theorem modifyGet {f : σ → α × σ} (h : ∀ s, pre s → post (f s).1 (f s).2) :
    Triple pre (modifyGet f : Program σ ε α) post fail :=
  h

theorem bind {x : Program σ ε α} {f : α → Program σ ε β} {post : β → σ → Prop}
    {mid : α → σ → Prop} (hx : Triple pre x mid fail)
    (hf : ∀ a, Triple (mid a) (f a) post fail) : Triple pre (x >>= f) post fail := by
  intro s hs
  have hxs := hx s hs
  rw [Program.exec_bind]
  generalize x.exec s = outcome at hxs ⊢
  obtain ⟨e | a, s'⟩ := outcome
  · exact hxs
  · exact hf a s' hxs

/-- What is raised is handled, from the state in which it was raised. -/
theorem tryCatch {x : Program σ ε α} {handler : ε → Program σ ε α} {mid : ε → σ → Prop}
    (hx : Triple pre x post mid) (hhandler : ∀ e, Triple (mid e) (handler e) post fail) :
    Triple pre (MonadExcept.tryCatch x handler) post fail := by
  intro s hs
  have hxs := hx s hs
  rw [Program.exec_tryCatch]
  generalize x.exec s = outcome at hxs ⊢
  obtain ⟨e | a, s'⟩ := outcome
  · exact hhandler e s' hxs
  · exact hxs

/-- A program on a part of the state keeps what that part does not decide. -/
theorem onPart {τ : Type} {part : σ → τ} {update : τ → σ → σ} {x : Program τ ε α} {inv : σ → Prop}
    (h : ∀ t s, inv s → inv (update t s)) :
    Triple inv (x.onPart part update) (fun _ ↦ inv) fun _ ↦ inv := by
  intro s hs
  rw [Program.exec_onPart]
  rcases (x.exec (part s)).1 with e | a
  · exact h _ s hs
  · exact h _ s hs

theorem consequence {x : Program σ ε α} (hx : Triple pre' x post' fail')
    (hpre : ∀ s, pre s → pre' s) (hpost : ∀ a s, post' a s → post a s)
    (hfail : ∀ e s, fail' e s → fail e s) : Triple pre x post fail := by
  intro s hs
  have hxs := hx s (hpre s hs)
  generalize x.exec s = outcome at hxs ⊢
  obtain ⟨e | a, s'⟩ := outcome
  · exact hfail e s' hxs
  · exact hpost a s' hxs

/-- What holds after a return and after an exception, if there is none. -/
theorem total {x : Program σ ε α} (hx : Triple pre x post fail)
    (hreturns : Triple pre x (fun _ _ ↦ True) fun _ _ ↦ False) :
    Triple pre x post fun _ _ ↦ False := by
  intro s hs
  have hxs := hx s hs
  have hreturn := hreturns s hs
  generalize x.exec s = outcome at hxs hreturn ⊢
  obtain ⟨e | a, s'⟩ := outcome
  · exact hreturn
  · exact hxs

theorem weaken_pre {x : Program σ ε α} (hx : Triple pre' x post fail)
    (hpre : ∀ s, pre s → pre' s) : Triple pre x post fail :=
  fun s hs ↦ hx s (hpre s hs)

/-- What a program does to the state when it does not matter how it ends. -/
theorem exec_snd {x : Program σ ε α} {good : σ → Prop} {s : σ}
    (hx : Triple pre x (fun _ ↦ good) fun _ ↦ good) (hs : pre s) : good (x.exec s).2 := by
  have hexec := hx s hs
  generalize x.exec s = outcome at hexec ⊢
  obtain ⟨e | a, s'⟩ := outcome
  · exact hexec
  · exact hexec

/-- A triple may be proved for each first state on its own. -/
theorem of_forall {x : Program σ ε α} (h : ∀ s, pre s → Triple (· = s) x post fail) :
    Triple pre x post fail :=
  fun s hs ↦ h s hs s rfl

theorem of_eq {x : Program σ ε α} {s : σ} (hx : Triple pre x post fail) (hs : pre s) :
    Triple (· = s) x post fail := by
  intro s' heq
  obtain rfl : s' = s := heq
  exact hx s' hs

/-- Reading the state fixes it for what follows. -/
theorem get_bind {f : σ → Program σ ε α} (h : ∀ s, pre s → Triple (· = s) (f s) post fail) :
    Triple pre (MonadState.get >>= f) post fail :=
  fun s hs ↦ h s hs s rfl

/-- A loop that collects results, with an invariant of its state. -/
theorem mapM {f : α → Program σ ε β} {inv : σ → Prop} {l : List α}
    (hf : ∀ a ∈ l, Triple inv (f a) (fun _ ↦ inv) fail) :
    Triple inv (l.mapM f) (fun _ ↦ inv) fail := by
  induction l with
  | nil => exact pure fun s hs ↦ hs
  | cons a l ih =>
    rw [List.mapM_cons]
    refine bind (hf a List.mem_cons_self) fun b ↦ ?_
    exact bind (ih fun a' ha' ↦ hf a' (List.mem_cons_of_mem a ha')) fun bs ↦ pure fun s hs ↦ hs

/-- A loop over a list, with an invariant of what is behind it. -/
theorem forM_consumed {f : α → Program σ ε PUnit} (inv : List α → σ → Prop) {l : List α}
    (hf : ∀ done a rest, l = done ++ a :: rest →
      Triple (inv done) (f a) (fun _ ↦ inv (done ++ [a])) fail) :
    Triple (inv []) (l.forM f) (fun _ ↦ inv l) fail := by
  have hrest (rest : List α) : ∀ done, l = done ++ rest →
      Triple (inv done) (rest.forM f) (fun _ ↦ inv l) fail := by
    induction rest with
    | nil =>
      intro done heq
      rw [List.append_nil] at heq
      exact pure fun s hs ↦ heq ▸ hs
    | cons a rest ih =>
      intro done heq
      show Triple (inv done) (f a >>= fun _ ↦ rest.forM f) _ fail
      refine bind (hf done a rest heq) fun _ ↦ ih (done ++ [a]) ?_
      rw [heq, List.append_cons]
  exact hrest l [] rfl

end Triple

end Foundation
