import JPype.Dbapi2.Session

/-!
# What the cursors of a connection keep open

`Accounted` is the invariant: every open statement is held by exactly one cursor, no two cursors
hold the same statement, and a cursor that is closed holds nothing. A method of a cursor starts
`Live`, with the invariant and a cursor that is not closed, and no request harms that, since none
opens a statement (`Stable`). Only `prepare` opens one, and the cursor holds nothing then: what it
held has been closed before it was given up.

A cursor that is closed is `Spent`: whatever is done with it ends before anything is called.
-/

namespace JPype.Resources

open Foundation FaultyProgram

variable {E Thread α : Type} {D : Driver E}

/-! ### The invariant -/

/-- Nothing is held. -/
structure Cursor.Finished (cur : Cursor Thread) : Prop where
  statement : cur.statement = none
  resultSet : cur.resultSet = none
  described : cur.described = false
  last : cur.last = false

/-- Every open statement is held by one cursor. -/
structure Accounted (s : Session Thread D) : Prop where
  held : ∀ st, D.IsOpen s.db st → ∃ c cur, s.cursors c = some cur ∧ cur.statement = some st
  once : ∀ c c' cur cur' st, s.cursors c = some cur → s.cursors c' = some cur' →
    cur.statement = some st → cur'.statement = some st → c = c'
  known : ∀ c cur st, s.cursors c = some cur → cur.statement = some st → D.Made s.db st
  finished : ∀ c cur, s.cursors c = some cur → cur.closed = true → cur.Finished
  made : ∀ c, s.nextCursor ≤ c → s.cursors c = none

namespace Accounted

variable {s : Session Thread D} {db : D.State}

/-- A connection without cursors. -/
theorem initial : Accounted ({} : Session Thread D) where
  held st h := absurd h (D.not_isOpen_connected st)
  once _ _ _ _ _ h := by cases h
  known _ _ _ h := by cases h
  finished _ _ h := by cases h
  made _ _ := rfl

/-- The state of the driver changes, and no statement is opened. -/
theorem setDb (h : Accounted s) (hopen : ∀ st, D.IsOpen db st → D.IsOpen s.db st)
    (hmade : ∀ st, D.Made s.db st → D.Made db st) : Accounted { s with db := db } where
  held st hst := h.held st (hopen st hst)
  once := h.once
  known c cur st hcur hst := hmade st (h.known c cur st hcur hst)
  finished := h.finished
  made := h.made

/-- A cursor changes, and the driver may have opened a statement for it. -/
theorem replace {c : ℕ} {cur cur' : Cursor Thread} (h : Accounted s) (hcur : s.cursors c = some cur)
    (hmade : ∀ st, D.Made s.db st → D.Made db st)
    (hopen : ∀ st, D.IsOpen db st →
      cur'.statement = some st ∨ D.IsOpen s.db st ∧ cur.statement ≠ some st)
    (hnew : ∀ st, cur'.statement = some st →
      D.Made db st ∧ (cur.statement = some st ∨ ¬D.Made s.db st))
    (hfinished : cur'.closed = true → cur'.Finished) :
    Accounted { s with db := db, cursors := Function.update s.cursors c (some cur') } := by
  have hself : ∀ {c₀ cur₀}, Function.update s.cursors c (some cur') c₀ = some cur₀ →
      c₀ = c ∧ cur₀ = cur' ∨ c₀ ≠ c ∧ s.cursors c₀ = some cur₀ := by
    intro c₀ cur₀ h₀
    by_cases hc : c₀ = c
    · rw [hc, Function.update_self] at h₀
      exact .inl ⟨hc, (Option.some.inj h₀).symm⟩
    · rw [Function.update_of_ne hc] at h₀
      exact .inr ⟨hc, h₀⟩
  -- what the cursor holds now, no other one holds
  have hapart : ∀ {c₀ cur₀ st}, c₀ ≠ c → s.cursors c₀ = some cur₀ → cur₀.statement = some st →
      cur'.statement ≠ some st := by
    intro c₀ cur₀ st hc h₀ hst₀ hst
    obtain hsame | hfresh := (hnew st hst).2
    · exact hc (h.once c₀ c cur₀ cur st h₀ hcur hst₀ hsame)
    · exact hfresh (h.known c₀ cur₀ st h₀ hst₀)
  refine ⟨fun st hst ↦ ?_, fun c₁ c₂ cur₁ cur₂ st h₁ h₂ hst₁ hst₂ ↦ ?_,
    fun c₀ cur₀ st h₀ hst ↦ ?_, fun c₀ cur₀ h₀ hclosed ↦ ?_, fun c₀ hle₀ ↦ ?_⟩
  · obtain hst' | ⟨hold, hne⟩ := hopen st hst
    · exact ⟨c, cur', Function.update_self .., hst'⟩
    · obtain ⟨c₀, cur₀, h₀, hst₀⟩ := h.held st hold
      refine ⟨c₀, cur₀, ?_, hst₀⟩
      have hc : c₀ ≠ c := by
        intro hc
        rw [hc, hcur] at h₀
        exact hne (Option.some.inj h₀ ▸ hst₀)
      exact (Function.update_of_ne hc ..).trans h₀
  · obtain ⟨rfl, rfl⟩ | ⟨hc₁, h₁'⟩ := hself h₁
    · obtain ⟨rfl, -⟩ | ⟨hc₂, h₂'⟩ := hself h₂
      · rfl
      · exact absurd hst₁ (hapart hc₂ h₂' hst₂)
    · obtain ⟨rfl, rfl⟩ | ⟨hc₂, h₂'⟩ := hself h₂
      · exact absurd hst₂ (hapart hc₁ h₁' hst₁)
      · exact h.once c₁ c₂ cur₁ cur₂ st h₁' h₂' hst₁ hst₂
  · obtain ⟨rfl, rfl⟩ | ⟨hc, h₀⟩ := hself h₀
    · exact (hnew st hst).1
    · exact hmade st (h.known c₀ cur₀ st h₀ hst)
  · obtain ⟨rfl, rfl⟩ | ⟨hc, h₀⟩ := hself h₀
    · exact hfinished hclosed
    · exact h.finished c₀ cur₀ h₀ hclosed
  · have hc : c₀ ≠ c := by
      intro hc
      have hnone := h.made c₀ hle₀
      rw [hc, hcur] at hnone
      exact absurd hnone (Option.some_ne_none cur)
    exact (Function.update_of_ne hc ..).trans (h.made c₀ hle₀)

end Accounted

/-- No request harms it. -/
def Stable (P : Session Thread D → Prop) : Prop :=
  ∀ s q, P s → P { s with db := (D.perform q s.db).2 }

/-- Nor do several requests. -/
theorem Stable.performAll {P : Session Thread D → Prop} (h : Stable P) (qs : List Request) :
    ∀ s, P s → P { s with db := D.performAll qs s.db } := by
  induction qs with
  | nil => exact fun s hs ↦ hs
  | cons q qs ih => exact fun s hs ↦ ih { s with db := (D.perform q s.db).2 } (h s q hs)

/-- No request opens a statement, and none makes a cursor forget one. -/
theorem stable_accounted : Stable (Accounted : Session Thread D → Prop) :=
  fun s q h ↦ h.setDb (D.isOpen_perform q s.db) (D.made_perform q s.db)

/-- In a method of a cursor that is not closed. -/
structure Live (c : ℕ) (s : Session Thread D) : Prop where
  accounted : Accounted s
  cursor : ∃ cur, s.cursors c = some cur ∧ cur.closed = false

theorem stable_live (c : ℕ) : Stable (Live c : Session Thread D → Prop) :=
  fun s q h ↦ ⟨stable_accounted s q h.accounted, h.cursor⟩

/-- It holds nothing. -/
def Done (c : ℕ) (s : Session Thread D) : Prop :=
  ∀ cur, s.cursors c = some cur → cur.Finished

theorem modifyCursor_eq {s : Session Thread D} {c : ℕ} {f : Cursor Thread → Cursor Thread}
    {cur : Cursor Thread} (hcur : s.cursors c = some cur) : s.modifyCursor c f =
      { s with cursors := Function.update s.cursors c (some (f cur)) } := by
  rw [Session.modifyCursor, hcur]
  rfl

/-- The cursor is what it has been changed to. -/
theorem cursors_modifyCursor {s : Session Thread D} {c : ℕ} (f : Cursor Thread → Cursor Thread)
    {cur : Cursor Thread} (hcur : s.cursors c = some cur) :
    (s.modifyCursor c f).cursors c = some (f cur) := by
  rw [modifyCursor_eq hcur]
  exact Function.update_self ..

/-- A property that the change gives to every cursor holds of it afterwards. -/
theorem forall_modifyCursor {s : Session Thread D} {c : ℕ} {f : Cursor Thread → Cursor Thread}
    {p : Cursor Thread → Prop} (h : ∀ cur, s.cursors c = some cur → p (f cur)) :
    ∀ cur, (s.modifyCursor c f).cursors c = some cur → p cur := by
  intro cur hcur
  have hmap : (s.cursors c).map f = some cur := by
    rw [← hcur]
    exact (Function.update_self (f := s.cursors) ..).symm
  obtain ⟨cur', hcur', rfl⟩ := Option.map_eq_some_iff.1 hmap
  exact h cur' hcur'

namespace Live

variable {c : ℕ} {s : Session Thread D} {db : D.State}

/-- A statement is given up when it is closed. -/
theorem modify (h : Live c s) {f : Cursor Thread → Cursor Thread}
    (hclosed : ∀ cur, (f cur).closed = cur.closed)
    (hstatement : ∀ cur, s.cursors c = some cur → (f cur).statement = cur.statement ∨
      (f cur).statement = none ∧ ∀ st, cur.statement = some st → ¬D.IsOpen s.db st) :
    Live c (s.modifyCursor c f) := by
  obtain ⟨cur, hcur, hopen⟩ := h.cursor
  rw [modifyCursor_eq hcur]
  refine ⟨h.accounted.replace hcur (fun _ ↦ id) (fun st hst ↦ ?_) (fun st hst ↦ ?_)
    fun htrue ↦ ?_, f cur, Function.update_self .., (hclosed cur).trans hopen⟩
  · obtain hsame | ⟨-, hgone⟩ := hstatement cur hcur
    · by_cases hheld : cur.statement = some st
      · exact .inl (hsame.trans hheld)
      · exact .inr ⟨hst, hheld⟩
    · exact .inr ⟨hst, fun hheld ↦ hgone st hheld hst⟩
  · obtain hsame | ⟨hnone, -⟩ := hstatement cur hcur
    · rw [hsame] at hst
      exact ⟨h.accounted.known c cur st hcur hst, .inl hst⟩
    · rw [hnone] at hst
      cases hst
  · rw [hclosed cur, hopen] at htrue
    cases htrue

/-- A cursor that holds nothing prepares a statement. -/
theorem prepare (h : Live c s) (hdone : Done c s) {st : ℕ}
    (hprepare : D.prepare s.db = (.ok st, db)) :
    Live c (({ s with db := db } : Session Thread D).modifyCursor c
      fun cur ↦ { cur with statement := some st }) := by
  obtain ⟨cur, hcur, hclosed⟩ := h.cursor
  obtain ⟨hnew, hmade, hopen⟩ := D.prepare_ok s.db st db hprepare
  have hnone := (hdone cur hcur).statement
  have hkept (st') (hst' : D.Made s.db st') : D.Made db st' := by
    have hmade' := D.made_prepare s.db st' hst'
    rwa [hprepare] at hmade'
  rw [modifyCursor_eq (s := { s with db := db }) hcur]
  refine ⟨h.accounted.replace hcur hkept (fun st' hst' ↦ ?_) (fun st' hst' ↦ ?_)
    fun htrue ↦ ?_, _, Function.update_self .., hclosed⟩
  · obtain rfl | hold := hopen st' hst'
    · exact .inl rfl
    · refine .inr ⟨hold, ?_⟩
      rw [hnone]
      exact (Option.some_ne_none st').symm
  · obtain rfl := Option.some.inj hst'
    exact ⟨hmade, .inr hnew⟩
  · exact absurd (hclosed.symm.trans htrue) Bool.false_ne_true

/-- The driver fails to prepare a statement. -/
theorem prepare_error (h : Live c s) {e : Raised E} (hprepare : D.prepare s.db = (.error e, db)) :
    Live c ({ s with db := db } : Session Thread D) := by
  refine ⟨h.accounted.setDb (D.prepare_error s.db e db hprepare) fun st hst ↦ ?_, h.cursor⟩
  have hmade := D.made_prepare s.db st hst
  rwa [hprepare] at hmade

/-- A cursor that holds nothing is closed. -/
theorem close (h : Live c s) (hdone : Done c s) :
    Accounted (s.modifyCursor c fun cur ↦ { cur with closed := true }) := by
  obtain ⟨cur, hcur, -⟩ := h.cursor
  have hfinished := hdone cur hcur
  rw [modifyCursor_eq hcur]
  refine h.accounted.replace hcur (fun _ ↦ id) (fun st hst ↦ .inr ⟨hst, ?_⟩) (fun st hst ↦ ?_)
    fun _ ↦ ⟨hfinished.statement, hfinished.resultSet, hfinished.described, hfinished.last⟩
  · rw [hfinished.statement]
    exact (Option.some_ne_none st).symm
  · have hnone : cur.statement = some st := hst
    rw [hfinished.statement] at hnone
    cases hnone

end Live

/-! ### What the steps of a method keep -/

section Steps

variable {P F : Session Thread D → Prop} {env : Environment E} {c : ℕ}

/-- However the method ends, this holds of the session. -/
abbrev Keeps (P : Session Thread D → Prop) (x : Method Thread D α) : Prop :=
  Triple (P ·.1) x (fun _ t ↦ P t.1) fun _ t ↦ P t.1

/-- Nothing changes, and no call is made. -/
def Quiet (x : Method Thread D α) : Prop :=
  ∀ t, (x.exec t).2 = t

/-- A step that changes nothing keeps whatever holds. -/
theorem Quiet.keeps {x : Method Thread D α} (hx : Quiet x) : Keeps P x := by
  intro t ht
  have hsame := hx t
  rcases hexec : x.exec t with ⟨e | a, t'⟩
  · rw [hexec] at hsame
    obtain rfl : t' = t := hsame
    exact ht
  · rw [hexec] at hsame
    obtain rfl : t' = t := hsame
    exact ht

theorem quiet_throw (e : Raised E) : Quiet (throw e : Method Thread D α) :=
  fun _ ↦ rfl

theorem quiet_pure (a : α) : Quiet (pure a : Method Thread D α) :=
  fun _ ↦ rfl

theorem quiet_refuse (b : Bool) (e : Raised E) : Quiet (refuse b e : Method Thread D Unit) := by
  cases b with
  | false => exact quiet_pure ()
  | true => exact quiet_throw e

/-- A check that fails ends the method as it found the session. -/
theorem refuse_triple {b : Bool} {e : Raised E} (hfail : ∀ s, P s → F s) :
    Triple (P ·.1) (refuse b e : Method Thread D Unit) (fun _ t ↦ P t.1) fun _ t ↦ F t.1 := by
  cases b with
  | false => exact .pure fun _ h ↦ h
  | true => exact .throw fun t h ↦ hfail t.1 h

theorem quiet_get : Quiet (get : Method Thread D (Session Thread D × ℕ)) :=
  fun _ ↦ rfl

theorem exec_self (t : Session Thread D × ℕ) : (self c : Method Thread D (Cursor Thread)).exec t =
    (match t.1.cursors c with
      | none => .error .attributeError
      | some cur => .ok cur, t) := by
  rw [self, Program.exec_bind, Program.exec_get]
  dsimp only
  cases t.1.cursors c <;> rfl

theorem quiet_self : Quiet (self c : Method Thread D (Cursor Thread)) := by
  intro t
  rw [exec_self]

/-- What is read of the cursor is what it is in the state. -/
theorem self_triple (hfail : ∀ s, P s → F s) :
    Triple (P ·.1) (self c : Method Thread D (Cursor Thread))
      (fun cur t ↦ P t.1 ∧ t.1.cursors c = some cur) fun _ t ↦ F t.1 := by
  intro t ht
  rw [exec_self]
  cases hcur : t.1.cursors c with
  | none => exact hfail t.1 ht
  | some cur => exact ⟨ht, hcur⟩

theorem quiet_ownStatement : Quiet (ownStatement c : Method Thread D ℕ) := by
  intro t
  rw [ownStatement, Program.exec_bind, exec_self]
  cases t.1.cursors c with
  | none => rfl
  | some cur =>
    dsimp only
    cases cur.statement <;> rfl

theorem quiet_ownResultSet : Quiet (ownResultSet c : Method Thread D ℕ) := by
  intro t
  rw [ownResultSet, Program.exec_bind, exec_self]
  cases t.1.cursors c with
  | none => rfl
  | some cur =>
    dsimp only
    cases cur.resultSet <;> rfl

/-- What a method leaves behind when it does not matter how it ends. -/
theorem exec_session {x : Method Thread D α} {s : Session Thread D} {n : ℕ}
    (hx : Triple (P ·.1) x (fun _ t ↦ F t.1) fun _ t ↦ F t.1) (hs : P s) :
    F (x.exec (s, n)).2.1 :=
  @Triple.exec_snd _ _ _ _ x (F ·.1) (s, n) hx hs

theorem exec_driver (f : D.State → Except (Raised E) α × D.State) (s : Session Thread D) :
    (Session.driver f).exec s = ((f s.db).1, { s with db := (f s.db).2 }) :=
  rfl

/-- A request, which may not have reached the driver when it fails. -/
theorem ask_triple (env : Environment E) {q : Request} {Q : q.Answer → Session Thread D → Prop}
    (hfail : ∀ s, P s → F s) (herror : ∀ s, P s → F { s with db := (D.perform q s.db).2 })
    (hok : ∀ s a db, P s → D.perform q s.db = (.ok a, db) → Q a { s with db := db }) :
    Triple (P ·.1) (ask env q) (fun a t ↦ Q a t.1) fun _ t ↦ F t.1 := by
  intro t ht
  rw [ask, exec_call]
  cases env.faults t.2 with
  | some e => exact hfail t.1 ht
  | none =>
    have herror' := herror t.1 ht
    dsimp only
    rw [exec_driver]
    rcases hperform : D.perform q t.1.db with ⟨e | a, db⟩
    · rwa [hperform] at herror'
    · exact hok t.1 a db ht hperform

/-- What no request harms holds after a request, whatever the answer is. -/
theorem keeps_ask (hP : Stable P) (q : Request) : Keeps P (ask env q) := by
  refine ask_triple env (fun _ ↦ id) (fun s ↦ hP s q) fun s a db hs hperform ↦ ?_
  have hkept := hP s q hs
  rwa [hperform] at hkept

/-- What Python code asks of the driver does no harm either. -/
theorem keeps_work (hP : Stable P) : Keeps P (work env) := by
  have hcall : Keeps P (call env.faults (pure ()) : Method Thread D Unit) := by
    intro t ht
    rw [exec_call]
    cases env.faults t.2 with
    | none => exact ht
    | some e => exact ht
  refine .get_bind fun t ht ↦ ?_
  have hrequests : Keeps P (step (Session.driver fun db ↦
      (.ok (), D.performAll (env.requests t.2) db)) : Method Thread D Unit) :=
    fun t' ht' ↦ hP.performAll _ t'.1 ht'
  exact .of_eq (.bind hrequests fun _ ↦ hcall) ht

/-- The attributes are set in one step. -/
theorem setSelf_triple {Q : Session Thread D → Prop} {g : Cursor Thread → Cursor Thread}
    (h : ∀ s, P s → Q (s.modifyCursor c g)) :
    Triple (P ·.1) (setSelf c g : Method Thread D Unit) (fun _ t ↦ Q t.1) fun _ t ↦ F t.1 :=
  fun t ht ↦ h t.1 ht

/-- Attributes that say nothing of the statement may change. -/
theorem keeps_setSelf {g : Cursor Thread → Cursor Thread}
    (hclosed : ∀ cur, (g cur).closed = cur.closed)
    (hstatement : ∀ cur, (g cur).statement = cur.statement) :
    Keeps (Live c) (setSelf c g : Method Thread D Unit) :=
  setSelf_triple fun _ h ↦ h.modify hclosed fun cur _ ↦ .inl (hstatement cur)

theorem keeps_forM {f : α → Method Thread D PUnit} (hf : ∀ a, Keeps P (f a)) (l : List α) :
    Keeps P (l.forM f) :=
  Triple.forM_consumed (fun _ (t : Session Thread D × ℕ) ↦ P t.1) fun _ a _ _ ↦ hf a

theorem keeps_ite {x y : Method Thread D α} (hx : Keeps P x) (hy : Keeps P y) (b : Bool) :
    Keeps P (if b then x else y) := by
  cases b with
  | false => exact hy
  | true => exact hx

end Steps

/-! ### The methods of a cursor -/

namespace Cursor

variable {env : Environment E} {c : ℕ}

theorem keeps_request (q : Request) :
    Keeps (Live c) (ask env q : Method Thread D q.Answer) :=
  keeps_ask (stable_live c) q

theorem keeps_call : Keeps (Live c) (work env : Method Thread D Unit) :=
  keeps_work (stable_live c)

/-- The cursor has given up its result set. -/
def NoResultSet (c : ℕ) (s : Session Thread D) : Prop :=
  ∀ cur, s.cursors c = some cur → cur.resultSet = none

/-- The result set is given up after it has been closed. -/
theorem finishResultSet_triple : Triple (fun t ↦ Live c t.1)
    (finishResultSet env c : Method Thread D Unit)
    (fun _ t ↦ Live c t.1 ∧ NoResultSet c t.1) fun _ t ↦ Live c t.1 := by
  refine .bind (self_triple fun _ ↦ id) fun cur ↦ ?_
  cases hrs : cur.resultSet with
  | none =>
    refine .pure fun t ⟨hlive, hcur⟩ ↦ ⟨hlive, fun cur' hcur' ↦ ?_⟩
    obtain rfl := Option.some.inj (hcur.symm.trans hcur')
    exact hrs
  | some r =>
    refine .bind ((keeps_request (.closeResultSet r)).weaken_pre fun t ht ↦ ht.1) fun _ ↦ ?_
    refine setSelf_triple (P := Live c) (F := Live c)
      (Q := fun s : Session Thread D ↦ Live c s ∧ NoResultSet c s)
      fun s h ↦ ?_
    exact ⟨h.modify (fun _ ↦ rfl) fun _ _ ↦ .inl rfl, forall_modifyCursor fun _ _ ↦ rfl⟩

/-- The statement is given up only when the driver has closed it. -/
theorem finishStatement_triple : Triple (fun t ↦ Live c t.1 ∧ NoResultSet c t.1)
    (finishStatement env c : Method Thread D Unit)
    (fun _ t ↦ Live c t.1 ∧ NoResultSet c t.1 ∧
      ∀ cur, t.1.cursors c = some cur → cur.statement = none) fun _ t ↦ Live c t.1 := by
  refine .bind (self_triple (P := fun s ↦ Live c s ∧ NoResultSet c s) fun _ ↦ And.left) fun cur ↦ ?_
  cases hst : cur.statement with
  | none =>
    refine .pure fun t ⟨⟨hlive, hnone⟩, hcur⟩ ↦ ⟨hlive, hnone, fun cur' hcur' ↦ ?_⟩
    obtain rfl := Option.some.inj (hcur.symm.trans hcur')
    exact hst
  | some st =>
    have hask := ask_triple env (q := .closeStatement st) (F := Live c)
      (P := fun s : Session Thread D ↦ (Live c s ∧ NoResultSet c s) ∧ s.cursors c = some cur)
      (Q := fun _ s ↦ (Live c s ∧ NoResultSet c s) ∧ s.cursors c = some cur ∧
        ¬D.IsOpen s.db st)
      (fun s h ↦ h.1.1) (fun s h ↦ stable_live c s _ h.1.1) (by
        intro s _ db ⟨⟨hlive, hnone⟩, hcur⟩ hperform
        have hlive' := stable_live c s (.closeStatement st) hlive
        rw [hperform] at hlive'
        exact ⟨⟨hlive', hnone⟩, hcur, D.closeStatement_ok st s.db db hperform⟩)
    refine .bind hask fun _ ↦ setSelf_triple (F := Live c)
      (P := fun s ↦ (Live c s ∧ NoResultSet c s) ∧ s.cursors c = some cur ∧ ¬D.IsOpen s.db st)
      (Q := fun s ↦ Live c s ∧ NoResultSet c s ∧
        ∀ cur, s.cursors c = some cur → cur.statement = none) ?_
    intro s ⟨⟨hlive, hnone⟩, hcur, hclosed⟩
    have hgone : ∀ cur', s.cursors c = some cur' → ∀ st', cur'.statement = some st' →
        ¬D.IsOpen s.db st' := by
      intro cur' hcur' st' hst'
      obtain rfl := Option.some.inj (hcur.symm.trans hcur')
      rwa [← Option.some.inj (hst.symm.trans hst')]
    exact ⟨hlive.modify (fun _ ↦ rfl) fun cur' hcur' ↦ .inr ⟨rfl, hgone cur' hcur'⟩,
      forall_modifyCursor hnone, forall_modifyCursor fun _ _ ↦ rfl⟩

/-- What a cursor has opened is closed, or it is still held. -/
theorem finish_triple : Triple (fun t ↦ Live c t.1) (finish env c : Method Thread D Unit)
    (fun _ t ↦ Live c t.1 ∧ Done c t.1) fun _ t ↦ Live c t.1 := by
  refine .bind finishResultSet_triple fun _ ↦ .bind finishStatement_triple fun _ ↦ ?_
  refine setSelf_triple (F := Live c) (Q := fun s ↦ Live c s ∧ Done c s)
    (P := fun s ↦ Live c s ∧ NoResultSet c s ∧
      ∀ cur, s.cursors c = some cur → cur.statement = none) ?_
  intro s ⟨hlive, hnone, hidle⟩
  exact ⟨hlive.modify (fun _ ↦ rfl) fun _ _ ↦ .inl rfl, forall_modifyCursor
    fun cur hcur ↦ ⟨hidle cur hcur, hnone cur hcur, rfl, rfl⟩⟩

/-- Only here a statement is opened, and the cursor takes it at once. -/
theorem prepare_triple : Triple (fun t ↦ Live c t.1 ∧ Done c t.1)
    (prepare env c : Method Thread D Unit) (fun _ t ↦ Live c t.1) fun _ t ↦ Live c t.1 := by
  intro t ⟨hlive, hdone⟩
  rw [prepare, exec_call]
  cases env.faults t.2 with
  | some e => exact hlive
  | none =>
    dsimp only
    rw [Program.exec_bind, exec_driver]
    rcases hprepare : D.prepare t.1.db with ⟨e | st, db⟩
    · exact hlive.prepare_error hprepare
    · exact hlive.prepare hdone hprepare

theorem keeps_setParam : Keeps (Live c) (setParam env c : Method Thread D Unit) :=
  .bind keeps_call fun _ ↦ .bind quiet_ownStatement.keeps fun st ↦ keeps_request (.useStatement st)

/-- Parameters are set on a statement that is there. -/
theorem keeps_setParams (params : Params) :
    Keeps (Live c) (setParams env c params : Method Thread D Unit) := by
  cases params with
  | notIterable => exact (quiet_throw _).keeps
  | unsupported => exact (quiet_throw _).keeps
  | values n =>
    refine .bind keeps_call fun _ ↦ ?_
    split
    · exact (quiet_pure ()).keeps
    · exact .bind quiet_ownStatement.keeps fun st ↦ .bind (keeps_request (.getParameterCount st))
        fun count ↦ .bind (quiet_refuse _ _).keeps fun _ ↦ keeps_forM (fun _ ↦ keeps_setParam) _

/-- The result set of a statement becomes that of the cursor. -/
theorem keeps_onResultSet (r : Option ℕ) :
    Keeps (Live c) (onResultSet env c r : Method Thread D Unit) := by
  cases r with
  | none => exact (quiet_throw _).keeps
  | some r =>
    exact .bind (keeps_request (.useResultSet r)) fun _ ↦
      .bind (keeps_setSelf (fun _ ↦ rfl) fun _ ↦ rfl) fun _ ↦
      .bind (keeps_request (.getColumnCount r)) fun _ ↦ keeps_setSelf (fun _ ↦ rfl) fun _ ↦ rfl

theorem keeps_takeResultSet (isResultSet : Bool) :
    Keeps (Live c) (takeResultSet env c isResultSet : Method Thread D Unit) :=
  keeps_ite (.bind quiet_ownStatement.keeps fun st ↦ .bind (keeps_request (.getResultSet st))
    fun r ↦ keeps_onResultSet r) (quiet_pure ()).keeps isResultSet

theorem keeps_updateCount : Keeps (Live c) (updateCount env c : Method Thread D Unit) :=
  .bind quiet_ownStatement.keeps fun st ↦ keeps_request (.useStatement st)

/-- An execution opens no statement, only result sets of its own. -/
theorem keeps_executeStatement :
    Keeps (Live c) (executeStatement env c : Method Thread D Unit) :=
  .bind quiet_ownStatement.keeps fun st ↦ .bind (keeps_request (.execute st)) fun isResultSet ↦
    .bind (keeps_takeResultSet isResultSet) fun _ ↦ keeps_updateCount

theorem keeps_executeone (params : Params) :
    Keeps (Live c) (executeone env c params : Method Thread D Unit) :=
  .bind (keeps_setParams params) fun _ ↦ keeps_executeStatement

theorem keeps_addBatch (params : Params) :
    Keeps (Live c) (addBatch env c params : Method Thread D Unit) :=
  .bind keeps_call fun _ ↦ .bind (keeps_setParams params) fun _ ↦
    .bind quiet_ownStatement.keeps fun st ↦ keeps_request (.useStatement st)

/-- A batch is sent in one request. -/
theorem keeps_executeBatch (seq : Option (List Params)) :
    Keeps (Live c) (executeBatch env c seq : Method Thread D Unit) := by
  cases seq with
  | none => exact (quiet_throw _).keeps
  | some seq =>
    exact .bind (keeps_forM keeps_addBatch seq) fun _ ↦ .bind quiet_ownStatement.keeps fun st ↦
      .bind (keeps_request (.executeBatch st)) fun _ ↦ keeps_call

/-- Without batches, each row is an execution of the same statement. -/
theorem keeps_executeRepeat (seq : Option (List Params)) :
    Keeps (Live c) (executeRepeat env c seq : Method Thread D Unit) := by
  cases seq with
  | none => exact (quiet_throw _).keeps
  | some seq =>
    exact keeps_forM (fun params ↦ .bind keeps_call fun _ ↦ keeps_executeone params) seq

/-- A parameter that comes out ends the call with the statement held by the cursor. -/
theorem keeps_bindParameter (n i : ℕ) :
    Keeps (Live c) (bindParameter env c n i : Method Thread D Bool) := by
  refine .bind (quiet_refuse _ _).keeps fun _ ↦ .bind keeps_call fun _ ↦
    .bind quiet_ownStatement.keeps fun st ↦
    .bind (keeps_request (.getParameterMode st (i + 1))) fun mode ↦ ?_
  -- the modes of the metadata, and any other number
  split
  · exact .bind keeps_setParam fun _ ↦ .bind keeps_call fun _ ↦ (quiet_pure false).keeps
  · exact .bind keeps_setParam fun _ ↦ (quiet_throw _).keeps
  · exact (quiet_throw _).keeps
  · exact (quiet_pure true).keeps

theorem keeps_callCount (n : ℕ) : Keeps (Live c) (callCount env c n : Method Thread D ℕ) := by
  rw [callCount]
  split
  · exact (quiet_pure 0).keeps
  · exact .bind quiet_ownStatement.keeps fun st ↦ .bind (keeps_request (.getParameterCount st))
      fun count ↦ .bind keeps_call fun _ ↦ (quiet_pure count).keeps

theorem keeps_readParameter (stays : Bool) :
    Keeps (Live c) (readParameter env c stays : Method Thread D Unit) :=
  keeps_ite (.bind quiet_ownStatement.keeps fun st ↦ .bind (keeps_request (.useStatement st))
    fun _ ↦ keeps_call) (quiet_pure ()).keeps stays

theorem keeps_findColumnTypes (cur : Cursor Thread) :
    Keeps (Live c) (findColumnTypes env c cur : Method Thread D Unit) := by
  rw [findColumnTypes]
  cases cur.columnTypes with
  | some count => exact (quiet_pure ()).keeps
  | none =>
    refine .bind (keeps_forM (fun _ ↦ ?_) _) fun _ ↦ keeps_setSelf (fun _ ↦ rfl) fun _ ↦ rfl
    exact .bind keeps_call fun _ ↦ .bind quiet_ownResultSet.keeps fun r ↦
      keeps_request (.useResultSet r)

/-- A row is read column by column. -/
theorem keeps_fetchRow (converters : Option ℕ) :
    Keeps (Live c) (fetchRow env c converters : Method Thread D Unit) := by
  refine .bind quiet_self.keeps fun cur ↦ .bind (quiet_refuse _ _).keeps fun _ ↦
    .bind (keeps_findColumnTypes cur) fun _ ↦ .bind (quiet_refuse _ _).keeps fun _ ↦
    keeps_forM (fun _ ↦ ?_) _
  exact .bind quiet_ownResultSet.keeps fun r ↦ .bind (keeps_request (.useResultSet r)) fun _ ↦
    keeps_call

theorem keeps_setTypes (types : Option ℕ) :
    Keeps (Live c) (setTypes c types : Method Thread D Unit) := by
  cases types with
  | none => exact (quiet_pure ()).keeps
  | some count => exact keeps_setSelf (fun _ ↦ rfl) fun _ ↦ rfl

theorem keeps_nextRow : Keeps (Live c) (nextRow env c : Method Thread D Bool) :=
  .bind quiet_ownResultSet.keeps fun r ↦ keeps_request (.next r)

/-- The rows come one after the other, and any of them may fail. -/
theorem keeps_fetchLoop (converters : Option ℕ) (n : ℕ) :
    Keeps (Live c) (fetchLoop env c converters n : Method Thread D Bool) := by
  induction n with
  | zero => exact (quiet_pure true).keeps
  | succ n ih =>
    exact .bind keeps_nextRow fun more ↦
      keeps_ite (.bind (keeps_fetchRow converters) fun _ ↦ ih) (quiet_pure false).keeps more

theorem keeps_iterate : Keeps (Live c) (iterate env c : Method Thread D Unit) :=
  .bind keeps_nextRow fun more ↦ keeps_ite (keeps_fetchRow none) (quiet_pure ()).keeps more

/-- The current result set is closed before the next one is asked for. -/
theorem keeps_nextset : Keeps (Live c) (nextset env c : Method Thread D Unit) :=
  .bind quiet_ownResultSet.keeps fun r ↦ .bind (keeps_request (.closeResultSet r)) fun _ ↦
    .bind quiet_ownStatement.keeps fun st ↦ .bind (keeps_request (.getMoreResults st))
      fun isResultSet ↦ keeps_ite (keeps_takeResultSet true) keeps_updateCount isResultSet

theorem keeps_description : Keeps (Live c) (description env c : Method Thread D Unit) := by
  refine .bind quiet_self.keeps fun cur ↦ ?_
  cases cur.described with
  | true => exact (quiet_pure ()).keeps
  | false =>
    cases cur.resultSet with
    | none => exact (quiet_pure ()).keeps
    | some r =>
      refine .bind (keeps_request (.getColumnCount r)) fun count ↦
        .bind (keeps_forM (fun _ ↦ ?_) _) fun _ ↦ keeps_setSelf (fun _ ↦ rfl) fun _ ↦ rfl
      exact .bind (keeps_request (.useResultSet r)) fun _ ↦ keeps_call

theorem keeps_parameters : Keeps (Live c) (parameters env c : Method Thread D Unit) := by
  refine .bind quiet_self.keeps fun cur ↦ ?_
  cases cur.statement with
  | none => exact (quiet_throw _).keeps
  | some st =>
    exact .bind (keeps_request (.getParameterCount st)) fun count ↦
      keeps_forM (fun _ ↦ .bind (keeps_request (.useStatement st)) fun _ ↦ keeps_call) _

/-- The keys are read row by row. -/
theorem keeps_keysLoop (r fuel n : ℕ) :
    Keeps (Live c) (keysLoop env r fuel n : Method Thread D ℕ) := by
  induction fuel generalizing n with
  | zero => exact (quiet_throw _).keeps
  | succ fuel ih =>
    exact .bind (keeps_request (.next r)) fun more ↦
      keeps_ite (.bind (keeps_request (.useResultSet r)) fun _ ↦ ih (n + 1))
        (quiet_pure n).keeps more

/-- The result set is closed at the end, be it after an exception. -/
theorem keeps_withResultSet (r : ℕ) {body : Method Thread D Unit} (hbody : Keeps (Live c) body) :
    Keeps (Live c) (withResultSet env r body) := by
  have hclose : Keeps (Live c) (ask env (.closeResultSet r) : Method Thread D Unit) :=
    keeps_request (.closeResultSet r)
  refine .bind (.tryCatch hbody fun e ↦ ?_) fun _ ↦ hclose
  exact .bind (.tryCatch hclose fun _ ↦ (quiet_pure ()).keeps) fun _ ↦ (quiet_throw e).keeps

/-- The result set with the keys is not kept by the cursor. -/
theorem keeps_lastrowid (fuel : ℕ) :
    Keeps (Live c) (lastrowid env c fuel : Method Thread D Unit) := by
  refine .bind quiet_self.keeps fun cur ↦ keeps_ite (quiet_pure ()).keeps ?_ cur.last
  refine .bind quiet_ownStatement.keeps fun st ↦ .bind (keeps_request (.getGeneratedKeys st))
    fun keys ↦ ?_
  cases keys with
  | none => exact (quiet_throw _).keeps
  | some r =>
    refine keeps_withResultSet r (.bind (keeps_request (.isResultSetClosed r)) fun isClosed ↦
      keeps_ite (quiet_pure ()).keeps ?_ isClosed)
    exact .bind (keeps_keysLoop r fuel 0) fun n ↦ keeps_setSelf (fun _ ↦ rfl) fun _ ↦ rfl

/-- The keys of the last execution are given up. -/
theorem keeps_forget : Keeps (Live c) (setSelf c (fun cur ↦ { cur with last := false }) :
    Method Thread D Unit) :=
  keeps_setSelf (fun _ ↦ rfl) fun _ ↦ rfl

/-- A cursor is closed when it holds nothing any more. -/
theorem keeps_close_ : Triple (fun t ↦ Live c t.1) (close_ env c : Method Thread D Unit)
    (fun _ t ↦ Accounted t.1) fun _ t ↦ Accounted t.1 := by
  refine .bind (self_triple (P := Live c) (F := Accounted) fun _ h ↦ h.accounted) fun cur ↦ ?_
  cases hclosed : cur.closed with
  | true => exact .pure fun t h ↦ h.1.accounted
  | false =>
    refine .bind (finish_triple.consequence (fun _ ↦ And.left) (fun _ _ ↦ id)
      fun _ t h ↦ h.accounted) fun _ ↦ ?_
    exact setSelf_triple (P := fun s ↦ Live c s ∧ Done c s) (F := Accounted) (Q := Accounted)
      fun s ⟨hlive, hdone⟩ ↦ hlive.close hdone

variable [DecidableEq Thread]

theorem keeps_validate (t : Thread) :
    Keeps (Live c) (validate env c t : Method Thread D Unit) :=
  .bind quiet_self.keeps fun _ ↦ .bind (quiet_refuse _ _).keeps fun _ ↦
    .bind (keeps_request .isClosed) fun _ ↦ .bind (quiet_refuse _ _).keeps fun _ ↦
      (quiet_refuse _ _).keeps

theorem keeps_checkExecuted (t : Thread) :
    Keeps (Live c) (checkExecuted env c t : Method Thread D Unit) :=
  .bind (keeps_validate t) fun _ ↦ .bind quiet_self.keeps fun _ ↦ (quiet_refuse _ _).keeps

theorem keeps_close (t : Thread) : Triple (fun t ↦ Live c t.1)
    (close env c t : Method Thread D Unit) (fun _ t ↦ Accounted t.1) fun _ t ↦ Accounted t.1 :=
  .bind ((keeps_validate t).consequence (fun _ ↦ id) (fun _ _ ↦ id) fun _ _ h ↦ h.accounted)
    fun _ ↦ keeps_close_

/-- Where an execution begins, the last statement has been closed, or the cursor still holds it. -/
theorem keeps_execute (t : Thread) (params : Params) :
    Keeps (Live c) (execute env c t params : Method Thread D Unit) :=
  .bind keeps_forget fun _ ↦ .bind (keeps_validate t) fun _ ↦ .bind finish_triple fun _ ↦
    .bind (refuse_triple fun _ ↦ And.left) fun _ ↦ .bind prepare_triple fun _ ↦
      keeps_executeone params

theorem keeps_executemany (t : Thread) (batch : Bool) (seq : Option (List Params)) :
    Keeps (Live c) (executemany env c t batch seq : Method Thread D Unit) :=
  .bind keeps_forget fun _ ↦ .bind (keeps_validate t) fun _ ↦ .bind finish_triple fun _ ↦
    .bind prepare_triple fun _ ↦ keeps_ite (keeps_executeBatch seq) (keeps_executeRepeat seq) batch

/-- So it is with a call of a procedure. -/
theorem keeps_callproc (t : Thread) (named : Bool) (params : Option ℕ) :
    Keeps (Live c) (callproc env c t named params : Method Thread D Unit) :=
  .bind (keeps_validate t) fun _ ↦ .bind finish_triple fun _ ↦
    .bind (refuse_triple fun _ ↦ And.left) fun _ ↦ .bind prepare_triple fun _ ↦
    .bind (keeps_callCount _) fun _ ↦ .bind (.mapM fun i _ ↦ keeps_bindParameter _ i) fun stays ↦
    .bind keeps_executeStatement fun _ ↦ keeps_forM keeps_readParameter stays

theorem keeps_fetchone (t : Thread) (types converters : Option ℕ) :
    Keeps (Live c) (fetchone env c t types converters : Method Thread D Unit) :=
  .bind (keeps_checkExecuted t) fun _ ↦ .bind keeps_nextRow fun more ↦
    keeps_ite (.bind (keeps_setTypes types) fun _ ↦ keeps_fetchRow converters)
      (quiet_pure ()).keeps more

theorem keeps_fetchmany (t : Thread) (size types converters : Option ℕ) :
    Keeps (Live c) (fetchmany env c t size types converters : Method Thread D Unit) :=
  .bind (keeps_checkExecuted t) fun _ ↦ .bind quiet_self.keeps fun _ ↦
    .bind quiet_ownResultSet.keeps fun r ↦ .bind (keeps_request (.useResultSet r)) fun _ ↦
    .bind (keeps_setTypes types) fun _ ↦ .bind (keeps_fetchLoop converters _) fun _ ↦
    .bind quiet_ownResultSet.keeps fun r ↦ keeps_request (.useResultSet r)

theorem keeps_fetchall (t : Thread) (fuel : ℕ) (types converters : Option ℕ) :
    Keeps (Live c) (fetchall env c t fuel types converters : Method Thread D Unit) :=
  .bind (keeps_checkExecuted t) fun _ ↦ .bind (keeps_setTypes types) fun _ ↦
    .bind (keeps_fetchLoop converters fuel) fun _ ↦ (quiet_refuse _ _).keeps

end Cursor

/-- In the methods of a cursor that is not closed. -/
theorem Op.triple [DecidableEq Thread] {env : Environment E} {c : ℕ} (t : Thread) (op : Op) :
    Triple (fun t ↦ Live c t.1) (op.run env c t : Method Thread D Unit) (fun _ t ↦ Accounted t.1)
      fun _ t ↦ Accounted t.1 := by
  have hkept {x : Method Thread D Unit} (hx : Keeps (Live c) x) :
      Triple (fun t ↦ Live c t.1) x (fun _ t ↦ Accounted t.1) fun _ t ↦ Accounted t.1 :=
    hx.consequence (fun _ ↦ id) (fun _ _ h ↦ h.accounted) fun _ _ h ↦ h.accounted
  cases op with
  | execute params => exact hkept (Cursor.keeps_execute t params)
  | executemany batch seq => exact hkept (Cursor.keeps_executemany t batch seq)
  | callproc named params => exact hkept (Cursor.keeps_callproc t named params)
  | fetchone types converters => exact hkept (Cursor.keeps_fetchone t types converters)
  | fetchmany size types converters =>
    exact hkept (Cursor.keeps_fetchmany t size types converters)
  | fetchall fuel types converters =>
    exact hkept (Cursor.keeps_fetchall t fuel types converters)
  | iterate => exact hkept Cursor.keeps_iterate
  | nextset => exact hkept Cursor.keeps_nextset
  | description => exact hkept Cursor.keeps_description
  | parameters => exact hkept Cursor.keeps_parameters
  | lastrowid fuel => exact hkept (Cursor.keeps_lastrowid fuel)
  | close => exact Cursor.keeps_close t
  | exit => exact Cursor.keeps_close_

/-! ### A cursor that is closed -/

/-- It raises, and nothing else happens. -/
def Fails (x : Method Thread D α) (t : Session Thread D × ℕ) : Prop :=
  ∃ e, x.exec t = (.error e, t)

/-- What comes after an exception is not done. -/
theorem Fails.bind {β : Type} {x : Method Thread D α} {t : Session Thread D × ℕ} (h : Fails x t)
    (f : α → Method Thread D β) : Fails (x >>= f) t := by
  obtain ⟨e, he⟩ := h
  refine ⟨e, ?_⟩
  rw [Program.exec_bind, he]

theorem Fails.snd {x : Method Thread D α} {t : Session Thread D × ℕ} (h : Fails x t) :
    (x.exec t).2 = t := by
  obtain ⟨e, he⟩ := h
  rw [he]

/-- The cursor is closed, or there is none. -/
def Spent (c : ℕ) (s : Session Thread D) : Prop :=
  ∀ cur, s.cursors c = some cur → cur.closed = true ∧ cur.Finished

namespace Spent

variable {env : Environment E} {c n : ℕ} {s : Session Thread D}

/-- What a method of a closed cursor does at first is to look at its attributes. -/
theorem fails_self_bind (h : Spent c s) {f : Cursor Thread → Method Thread D α}
    (hf : ∀ cur, cur.closed = true → cur.Finished → Fails (f cur) (s, n)) :
    Fails (self c >>= f) (s, n) := by
  cases hcur : s.cursors c with
  | none =>
    refine ⟨.attributeError, ?_⟩
    rw [Program.exec_bind, exec_self]
    dsimp only
    rw [hcur]
  | some cur =>
    obtain ⟨e, he⟩ := hf cur (h cur hcur).1 (h cur hcur).2
    refine ⟨e, ?_⟩
    rw [Program.exec_bind, exec_self]
    dsimp only
    rw [hcur]
    exact he

/-- A closed cursor has no statement to call. -/
theorem ownStatement (h : Spent c s) : Fails (ownStatement c : Method Thread D ℕ) (s, n) := by
  refine h.fails_self_bind fun cur _ hfinished ↦ ⟨.attributeError, ?_⟩
  rw [hfinished.statement]
  rfl

/-- Nor has it a result set. -/
theorem ownResultSet (h : Spent c s) : Fails (ownResultSet c : Method Thread D ℕ) (s, n) := by
  refine h.fails_self_bind fun cur _ hfinished ↦ ⟨.attributeError, ?_⟩
  rw [hfinished.resultSet]
  rfl

/-- The keys of the last execution are given up already. -/
theorem forget (h : Spent c s) :
    s.modifyCursor c (fun cur ↦ { cur with last := false }) = s := by
  have hsame : (s.cursors c).map (fun cur ↦ { cur with last := false }) = s.cursors c := by
    cases hcur : s.cursors c with
    | none => rfl
    | some cur => rw [Option.map_some, ← (h cur hcur).2.last]
  rw [Session.modifyCursor, hsame, Function.update_eq_self]

/-- Giving up the keys changes nothing, so that the method goes on to its check. -/
theorem forget_bind (h : Spent c s) {f : Unit → Method Thread D α} (hf : Fails (f ()) (s, n)) :
    Fails (setSelf c (fun cur ↦ { cur with last := false }) >>= f) (s, n) := by
  obtain ⟨e, he⟩ := hf
  refine ⟨e, ?_⟩
  rw [Program.exec_bind, setSelf, exec_step, Program.exec_modify]
  dsimp only
  rw [h.forget, he]

/-- A closed cursor has no description, and nothing is asked. -/
theorem description (h : Spent c s) :
    ((Cursor.description env c : Method Thread D Unit).exec (s, n)).2 = (s, n) := by
  rw [Cursor.description, Program.exec_bind, exec_self]
  dsimp only
  cases hcur : s.cursors c with
  | none => rfl
  | some cur =>
    have hfinished := (h cur hcur).2
    dsimp only
    rw [hfinished.described, hfinished.resultSet]
    rfl

/-- Closing a cursor again does nothing. -/
theorem exit (h : Spent c s) :
    ((Cursor.close_ env c : Method Thread D Unit).exec (s, n)).2 = (s, n) := by
  rw [Cursor.close_, Program.exec_bind, exec_self]
  dsimp only
  cases hcur : s.cursors c with
  | none => rfl
  | some cur =>
    dsimp only
    rw [(h cur hcur).1]
    rfl

variable [DecidableEq Thread]

/-- A closed cursor is noticed before the driver is asked. -/
theorem validate (h : Spent c s) (t : Thread) :
    Fails (Cursor.validate env c t : Method Thread D Unit) (s, n) := by
  refine h.fails_self_bind fun cur hclosed _ ↦ ⟨.programmingError, ?_⟩
  rw [hclosed]
  rfl

/-- Nothing is called, and nothing changes. -/
theorem exec_op (h : Spent c s) (t : Thread) (op : Op) :
    ((op.run env c t : Method Thread D Unit).exec (s, n)).2 = (s, n) := by
  cases op with
  | execute params => exact (h.forget_bind ((h.validate t).bind _)).snd
  | executemany batch seq => exact (h.forget_bind ((h.validate t).bind _)).snd
  | callproc named params => exact ((h.validate t).bind _).snd
  | fetchone types converters => exact (((h.validate t).bind _).bind _).snd
  | fetchmany size types converters => exact (((h.validate t).bind _).bind _).snd
  | fetchall fuel types converters => exact (((h.validate t).bind _).bind _).snd
  | iterate => exact ((h.ownResultSet.bind _).bind _).snd
  | nextset => exact (h.ownResultSet.bind _).snd
  | description => exact h.description
  | parameters =>
    refine (h.fails_self_bind fun cur _ hfinished ↦ ⟨.programmingError, ?_⟩).snd
    rw [hfinished.statement]
    rfl
  | lastrowid fuel =>
    refine (h.fails_self_bind fun cur _ hfinished ↦ ?_).snd
    rw [hfinished.last]
    exact h.ownStatement.bind _
  | close => exact ((h.validate t).bind _).snd
  | exit => exact h.exit

end Spent

/-! ### When closing returns -/

namespace Cursor

variable {env : Environment E} {c : ℕ} {own : ℕ → Prop}

/-- If any of the statements is open, it is the one of the cursor. -/
def Holds (c : ℕ) (own : ℕ → Prop) (s : Session Thread D) : Prop :=
  ∃ cur, s.cursors c = some cur ∧ ∀ st, own st → D.IsOpen s.db st → cur.statement = some st

/-- No request opens a statement again. -/
theorem stable_holds : Stable (Holds c own : Session Thread D → Prop) :=
  fun s q ⟨cur, hcur, hst⟩ ↦
    ⟨cur, hcur, fun st hown hopen ↦ hst st hown (D.isOpen_perform q s.db st hopen)⟩

/-- A statement that the cursor does not hold is not open. -/
theorem Holds.not_isOpen {s : Session Thread D} (h : Holds c own s) {cur : Cursor Thread}
    (hcur : s.cursors c = some cur) {st : ℕ} (hown : own st) (hne : cur.statement ≠ some st) :
    ¬D.IsOpen s.db st := by
  intro hopen
  obtain ⟨cur', hcur', hst⟩ := h
  obtain rfl := Option.some.inj (hcur.symm.trans hcur')
  exact hne (hst st hown hopen)

/-- The statements are closed. -/
def Released (c : ℕ) (own : ℕ → Prop) (s : Session Thread D) : Prop :=
  (∃ cur, s.cursors c = some cur) ∧ ∀ st, own st → ¬D.IsOpen s.db st

/-- A statement that is closed stays closed when attributes change. -/
theorem Released.modifyCursor {s : Session Thread D} (h : Released c own s)
    (g : Cursor Thread → Cursor Thread) : Released c own (s.modifyCursor c g) := by
  obtain ⟨⟨cur, hcur⟩, hst⟩ := h
  exact ⟨⟨g cur, cursors_modifyCursor g hcur⟩, hst⟩

/-- The statement is still held while the result set is closed. -/
theorem finishResultSet_releases : Triple (fun t ↦ Holds c own t.1)
    (finishResultSet env c : Method Thread D Unit) (fun _ t ↦ Holds c own t.1)
    fun _ _ ↦ True := by
  refine .bind (self_triple (F := fun _ ↦ True) fun _ _ ↦ trivial) fun cur ↦ ?_
  cases cur.resultSet with
  | none => exact .pure fun t h ↦ h.1
  | some r =>
    refine .bind ((keeps_ask (stable_holds (c := c)) (.closeResultSet r)).consequence
      (fun _ h ↦ h.1) (fun _ _ ↦ id) fun _ _ _ ↦ trivial) fun _ ↦ ?_
    refine setSelf_triple (P := Holds c own) (Q := Holds c own) (F := fun _ ↦ True) ?_
    intro s ⟨cur', hcur', hst⟩
    exact ⟨{ cur' with resultSet := none }, cursors_modifyCursor _ hcur', hst⟩

/-- The driver has closed the statement when it is given up. -/
theorem finishStatement_releases : Triple (fun t ↦ Holds c own t.1)
    (finishStatement env c : Method Thread D Unit) (fun _ t ↦ Released c own t.1)
    fun _ _ ↦ True := by
  refine .bind (self_triple (P := Holds c own) (F := fun _ ↦ True) fun _ _ ↦ trivial) fun cur ↦ ?_
  cases hheld : cur.statement with
  | none =>
    refine .pure fun t ⟨h, hcur⟩ ↦ ⟨⟨cur, hcur⟩, fun st hown ↦ h.not_isOpen hcur hown ?_⟩
    rw [hheld]
    exact (Option.some_ne_none st).symm
  | some st' =>
    have hask := ask_triple env (q := .closeStatement st') (F := fun _ ↦ True)
      (P := fun s : Session Thread D ↦ Holds c own s ∧ s.cursors c = some cur)
      (Q := fun _ ↦ Released c own) (fun _ _ ↦ trivial) (fun _ _ ↦ trivial) (by
        intro s _ db ⟨h, hcur⟩ hperform
        refine ⟨⟨cur, hcur⟩, fun st hown hopen ↦ ?_⟩
        -- it is closed by this request, or it was not open before
        by_cases hsame : st = st'
        · exact D.closeStatement_ok st' s.db db hperform (hsame ▸ hopen)
        · refine h.not_isOpen hcur hown
            (fun hst ↦ hsame (Option.some.inj (hst.symm.trans hheld))) ?_
          refine D.isOpen_perform (.closeStatement st') s.db st ?_
          rwa [hperform])
    exact .bind hask fun _ ↦ setSelf_triple (P := Released c own) (Q := Released c own)
      (F := fun _ ↦ True) fun s h ↦ h.modifyCursor _

/-- If closing a cursor returns, the cursor is closed, and its statement is. -/
theorem close_releases : Triple (fun t ↦ Holds c own t.1 ∧ Accounted t.1)
    (close_ env c : Method Thread D Unit)
    (fun _ t ↦ (∃ cur, t.1.cursors c = some cur ∧ cur.closed = true) ∧
      ∀ st, own st → ¬D.IsOpen t.1.db st) fun _ _ ↦ True := by
  refine .bind (self_triple (P := fun s ↦ Holds c own s ∧ Accounted s) (F := fun _ ↦ True)
    fun _ _ ↦ trivial) fun cur ↦ ?_
  cases hclosed : cur.closed with
  | true =>
    refine .pure fun t ⟨⟨h, haccounted⟩, hcur⟩ ↦
      ⟨⟨cur, hcur, hclosed⟩, fun st hown ↦ h.not_isOpen hcur hown ?_⟩
    rw [(haccounted.finished c cur hcur hclosed).statement]
    exact (Option.some_ne_none st).symm
  | false =>
    have hfinish : Triple (fun t ↦ Holds c own t.1) (finish env c : Method Thread D Unit)
        (fun _ t ↦ Released c own t.1) fun _ _ ↦ True :=
      .bind finishResultSet_releases fun _ ↦ .bind finishStatement_releases fun _ ↦
        setSelf_triple (P := Released c own) (Q := Released c own) (F := fun _ ↦ True)
          fun s h ↦ h.modifyCursor _
    refine .bind (hfinish.weaken_pre fun t h ↦ h.1.1) fun _ ↦ ?_
    refine setSelf_triple (P := Released c own) (F := fun _ ↦ True)
      (Q := fun s ↦ (∃ cur, s.cursors c = some cur ∧ cur.closed = true) ∧
        ∀ st, own st → ¬D.IsOpen s.db st) ?_
    intro s ⟨⟨cur', hcur'⟩, hst⟩
    exact ⟨⟨{ cur' with closed := true }, cursors_modifyCursor _ hcur', rfl⟩, hst⟩

end Cursor

/-! ### Runs of a connection and its cursors -/

namespace Accounted

variable {s : Session Thread D}

/-- There is a new cursor, which holds nothing. -/
theorem cursor (h : Accounted s) (t : Thread) : Accounted { s with
    cursors := Function.update s.cursors s.nextCursor (some { thread := t })
    nextCursor := s.nextCursor + 1 } := by
  have hself : ∀ {c cur}, Function.update s.cursors s.nextCursor (some { thread := t }) c =
      some cur → cur = { thread := t } ∨ s.cursors c = some cur := by
    intro c cur hcur
    by_cases hc : c = s.nextCursor
    · rw [hc, Function.update_self] at hcur
      exact .inl (Option.some.inj hcur).symm
    · rw [Function.update_of_ne hc] at hcur
      exact .inr hcur
  have hheld : ∀ {c cur st}, Function.update s.cursors s.nextCursor (some { thread := t }) c =
      some cur → cur.statement = some st → s.cursors c = some cur := by
    intro c cur st hcur hst
    obtain rfl | hold := hself hcur
    · cases hst
    · exact hold
  refine ⟨fun st hst ↦ ?_, fun c c' cur cur' st hcur hcur' hst hst' ↦
    h.once c c' cur cur' st (hheld hcur hst) (hheld hcur' hst') hst hst',
    fun c cur st hcur hst ↦ h.known c cur st (hheld hcur hst) hst,
    fun c cur hcur hclosed ↦ ?_, fun c hle ↦ ?_⟩
  · obtain ⟨c, cur, hcur, hst'⟩ := h.held st hst
    have hc : c ≠ s.nextCursor := by
      intro hc
      rw [hc, h.made s.nextCursor le_rfl] at hcur
      cases hcur
    exact ⟨c, cur, (Function.update_of_ne hc ..).trans hcur, hst'⟩
  · obtain rfl | hold := hself hcur
    · cases hclosed
    · exact h.finished c cur hold hclosed
  · have hlt : s.nextCursor < c := hle
    exact (Function.update_of_ne hlt.ne' ..).trans (h.made c hlt.le)

/-- The cursor is one that is not closed, or nothing can be done with it. -/
theorem live_or_spent (h : Accounted s) (c : ℕ) : Live c s ∨ Spent c s := by
  cases hcur : s.cursors c with
  | none =>
    refine .inr fun cur hcur' ↦ ?_
    rw [hcur] at hcur'
    cases hcur'
  | some cur =>
    cases hclosed : cur.closed with
    | false => exact .inl ⟨h, cur, hcur, hclosed⟩
    | true =>
      refine .inr fun cur' hcur' ↦ ?_
      obtain rfl := Option.some.inj (hcur.symm.trans hcur')
      exact ⟨hclosed, h.finished c cur hcur hclosed⟩

/-- The size of the arrays may be set even of a closed cursor. -/
theorem setArraysize (h : Accounted s) (c n : ℕ) :
    Accounted (s.modifyCursor c fun cur ↦ { cur with arraysize := n }) := by
  obtain hlive | hspent := h.live_or_spent c
  · have hmodify := hlive.modify (f := fun cur ↦ { cur with arraysize := n }) (fun _ ↦ rfl)
      fun _ _ ↦ .inl rfl
    exact hmodify.accounted
  · cases hcur : s.cursors c with
    | none =>
      rw [Session.modifyCursor, hcur, Option.map_none, ← hcur, Function.update_eq_self]
      exact h
    | some cur =>
      have hfinished := (hspent cur hcur).2
      rw [modifyCursor_eq hcur]
      refine h.replace hcur (fun _ ↦ id) (fun st hst ↦ .inr ⟨hst, ?_⟩) (fun st hst ↦
        ⟨h.known c cur st hcur hst, .inl hst⟩) fun _ ↦
          ⟨hfinished.statement, hfinished.resultSet, hfinished.described, hfinished.last⟩
      rw [hfinished.statement]
      exact (Option.some_ne_none st).symm

end Accounted

namespace Connection

variable {env : Environment E}

theorem keeps_request (q : Request) :
    Keeps Accounted (ask env q : Method Thread D q.Answer) :=
  keeps_ask stable_accounted q

theorem keeps_validate : Keeps Accounted (validate env : Method Thread D Unit) :=
  .bind quiet_get.keeps fun _ ↦ .bind (quiet_refuse _ _).keeps fun _ ↦
    .bind (keeps_request .isClosed) fun _ ↦ (quiet_refuse _ _).keeps

theorem keeps_cursor (t : Thread) : Keeps Accounted (cursor env t : Method Thread D Unit) :=
  .bind keeps_validate fun _ s (h : Accounted s.1) ↦ h.cursor t

theorem keeps_close_ : Keeps Accounted (close_ env : Method Thread D Unit) := by
  refine .bind quiet_get.keeps fun s ↦ keeps_ite (quiet_pure ()).keeps ?_ s.1.closed
  refine .bind (keeps_request .isClosed) fun isClosed ↦
    .bind (keeps_ite (quiet_pure ()).keeps (keeps_request .close) isClosed) fun _ ↦ ?_
  exact fun t (h : Accounted t.1) ↦ ⟨h.held, h.once, h.known, h.finished, h.made⟩

theorem keeps_close : Keeps Accounted (close env : Method Thread D Unit) :=
  .bind keeps_validate fun _ ↦ keeps_close_

theorem keeps_commit : Keeps Accounted (commit env : Method Thread D Unit) :=
  .bind keeps_validate fun _ ↦ .bind (keeps_request .getAutoCommit) fun _ ↦
    .bind (quiet_refuse _ _).keeps fun _ ↦ keeps_request .commit

theorem keeps_rollback : Keeps Accounted (rollback env : Method Thread D Unit) := by
  refine .bind keeps_validate fun _ ↦ .bind (keeps_request .getAutoCommit) fun autocommit ↦
    keeps_ite ?_ (keeps_request .rollback) autocommit
  exact .bind keeps_validate fun _ ↦ .bind (keeps_request .getAutoCommit) fun _ ↦
    (quiet_throw _).keeps

end Connection

variable [DecidableEq Thread]

/-- Whatever happens, every open statement is held by one cursor. -/
theorem Accounted.step {s : Session Thread D} (h : Accounted s) (event : Event Thread E) :
    Accounted (s.step event) := by
  cases event with
  | op c t op env =>
    obtain hlive | hspent := h.live_or_spent c
    · exact exec_session (op.triple t) hlive
    · rw [Session.step, hspent.exec_op t op]
      exact h
  | setArraysize c n => exact h.setArraysize c n
  | cursor t env => exact exec_session (Connection.keeps_cursor t) h
  | commit env => exact exec_session Connection.keeps_commit h
  | rollback env => exact exec_session Connection.keeps_rollback h
  | close env => exact exec_session Connection.keeps_close h
  | exit env => exact exec_session Connection.keeps_close_ h
  | direct q => exact stable_accounted s q h

/-- The invariant holds after every run. -/
theorem accounted_run (events : List (Event Thread E)) :
    Accounted (run Session.step ({} : Session Thread D) events) :=
  invariant_run (fun s event (h : Accounted s) ↦ h.step event) events {} .initial

end JPype.Resources
