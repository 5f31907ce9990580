import JPype.Dbapi2.Parameters
import Mathlib.Data.List.Basic

/-!
# Executing with parameters

`execute` and `executemany` bind one row of parameters after the other and hand each over to the
driver (`sendAll`). The parameters reach exactly their own rows, and the list of types that the
caller has passed is not modified (`Execution.BindsRows`), as long as every row whose turn comes is
proper (`Execution.bindsRows_iff`):

* `_setParams` returns at once for an empty row, whether or not the statement has parameters. Such a
  row is sent with what is bound for the one before.
* The setter that is chosen for an element is stored in the list that is in use, which is the
  caller's if it is not empty. There it also stays for the rows that follow.

What goes wrong stays wrong, since what has been sent and what the list contains only grows
(`Grows`).
-/

namespace JPype

open Foundation

variable {Py Ty JType Cell D E : Type}

namespace Cursor

variable (dr : Driver JType Py Cell D E) (cx : Connection Py Ty JType Cell E)

/-- A row is bound and handed over by `handOver`. -/
def sendOne (handOver : CursorM JType Py Cell D E Unit) (params : Parameters Py) :
    CursorM JType Py Cell D E Unit := do
  setParams cx params
  handOver

/-- The rows of a call, one after the other. -/
def sendAll (handOver : CursorM JType Py Cell D E Unit) :
    List (Parameters Py) → CursorM JType Py Cell D E Unit
  | [] => pure ()
  | params :: rest => do
    sendOne cx handOver params
    sendAll handOver rest

/-- Every row whose turn comes is proper. -/
def ProperRows (operation : String) (types : Option (List (Option JType)))
    (handOver : CursorM JType Py Cell D E Unit) (count : ℕ) :
    List (Parameters Py) → Cursor JType Py Cell D → Prop
  | [], _ => True
  | params :: rest, s =>
    Proper cx operation types count params ∧
      ∀ s', (sendOne cx handOver params).exec s = (.ok (), s') →
        ProperRows operation types handOver count rest s'

variable {cx} {operation : String} {types : Option (List (Option JType))}
  {rows : List (Parameters Py)} {handOver : CursorM JType Py Cell D E Unit} {n : ℕ}
  {s s' s'' : Cursor JType Py Cell D} {st : PreparedStatement JType Py Cell}

/-! ### What stays -/

theorem Extends.antisymm {types types' : List (Option JType)} (h : Extends types types')
    (h' : Extends types' types) : types = types' := by
  refine List.ext_getElem? fun j ↦ ?_
  rcases hj : types[j]? with - | - | t
  · rw [eq_comm, List.getElem?_eq_none_iff, h.length]
    exact List.getElem?_eq_none_iff.1 hj
  · rcases hj' : types'[j]? with - | - | t
    · rw [List.getElem?_eq_none_iff, h.length, ← List.getElem?_eq_none_iff] at hj'
      cases hj.symm.trans hj'
    · rfl
    · cases hj.symm.trans (h'.setters j t hj')
  · exact (h.setters j t hj).symm

/-- Later the list of the caller may have more entries, and more may have been sent. -/
structure Grows (st : PreparedStatement JType Py Cell) (s s' : Cursor JType Py Cell D) : Prop where
  callerTypes : Extends s.callerTypes s'.callerTypes
  statement : ∃ st', s'.statement = some st' ∧ st'.parameterCount = st.parameterCount ∧
    st.sent <+: st'.sent

theorem Grows.refl (h : s.statement = some st) : Grows st s s :=
  ⟨.refl _, st, h, rfl, List.prefix_rfl⟩

theorem Grows.trans {st' : PreparedStatement JType Py Cell} (h : Grows st s s')
    (hst' : s'.statement = some st') (h' : Grows st' s' s'') : Grows st s s'' := by
  obtain ⟨st₁, hst₁, hcount, hsent⟩ := h.statement
  obtain rfl := Option.some.inj (hst₁.symm.trans hst')
  obtain ⟨st₂, hst₂, hcount', hsent'⟩ := h'.statement
  exact ⟨h.callerTypes.trans h'.callerTypes, st₂, hst₂, hcount'.trans hcount, hsent.trans hsent'⟩

theorem HandsOver.grows {outcome : Except (DbError E) Unit × Cursor JType Py Cell D}
    (h : HandsOver st s outcome) : Grows st s outcome.2 := by
  obtain ⟨results, hst⟩ := h.statement
  refine ⟨?_, _, hst, rfl, List.prefix_append ..⟩
  rw [h.callerTypes]
  exact .refl _

theorem extends_storeTypes {types' : List (Option JType)} (h : Extends s.types types') :
    Extends s.callerTypes (s.storeTypes types').callerTypes := by
  rcases hparam : s.parameterTypes with - | - | l
  · rw [storeTypes, hparam]
    exact .refl _
  · rw [storeTypes, hparam]
    rw [Cursor.types, hparam] at h
    exact h
  · rw [storeTypes, hparam]
    exact .refl _

variable (cx) in
theorem bindOutcome_grows (elements : List Py) :
    Grows st s (bindOutcome cx s st elements).2 := by
  have hext := bindLoop_extends cx st.operation 0 elements
    (if s.types.isEmpty then List.replicate st.parameterCount none else s.types) st.bound
  rw [bindOutcome]
  rcases hfresh : s.types.isEmpty with - | -
  · rw [hfresh] at hext
    simp only [Bool.false_eq_true, if_false, Bool.and_false] at hext ⊢
    rcases hloop : bindLoop cx st.operation 0 elements s.types st.bound with
      ⟨e | ⟨⟩, types', bound⟩ <;> rw [hloop] at hext
    all_goals exact ⟨extends_storeTypes hext, _, rfl, rfl, List.prefix_rfl⟩
  · simp only [if_true, Bool.and_true]
    rcases bindLoop cx st.operation 0 elements (List.replicate st.parameterCount none) st.bound
      with ⟨e | ⟨⟩, types', bound⟩
    · exact ⟨.refl _, _, rfl, rfl, List.prefix_rfl⟩
    · rcases cx.cachable with - | - <;> exact ⟨.refl _, _, rfl, rfl, List.prefix_rfl⟩

variable (cx) in
theorem bindOutcome_callerTypes {elements : List Py} (hparam : s.parameterTypes = .caller)
    (hfresh : s.types.isEmpty = false) :
    (bindOutcome cx s st elements).2.callerTypes =
      (bindLoop cx st.operation 0 elements s.types st.bound).2.1 := by
  rw [bindOutcome, hfresh]
  simp only [Bool.false_eq_true, if_false, Bool.and_false]
  rcases bindLoop cx st.operation 0 elements s.types st.bound with ⟨e | ⟨⟩, types', bound⟩
  all_goals
    show (s.storeTypes types').callerTypes = types'
    rw [storeTypes, hparam]

variable (cx) in
theorem setParams_grows (hst : s.statement = some st) (params : Parameters Py) :
    Grows st s ((setParams cx params).exec s).2 := by
  rcases params with - | - | typeName | elements
  · exact .refl hst
  · exact .refl hst
  · exact .refl hst
  rcases eq_or_ne elements [] with rfl | hne
  · exact .refl hst
  rcases eq_or_ne elements.length st.parameterCount with hlength | hlength
  · rw [exec_setParams cx hst hne hlength]
    exact bindOutcome_grows cx elements
  · rw [exec_setParams_short cx hst hne hlength]
    exact .refl hst

variable (cx) in
theorem sendOne_grows (hand : ∀ (s : Cursor JType Py Cell D) st, s.statement = some st →
    HandsOver st s (handOver.exec s)) (hst : s.statement = some st) (params : Parameters Py) :
    Grows st s ((sendOne cx handOver params).exec s).2 := by
  have hgrows := setParams_grows cx hst params
  rw [sendOne, Program.exec_bind]
  rcases hset : (setParams cx params).exec s with ⟨e | ⟨⟩, s'⟩
  · rw [hset] at hgrows
    exact hgrows
  · rw [hset] at hgrows
    obtain ⟨st', hst', -, -⟩ := hgrows.statement
    exact hgrows.trans hst' (hand s' st' hst').grows

variable (cx) in
theorem sendAll_grows (hand : ∀ (s : Cursor JType Py Cell D) st, s.statement = some st →
    HandsOver st s (handOver.exec s)) (hst : s.statement = some st)
    (rest : List (Parameters Py)) : Grows st s ((sendAll cx handOver rest).exec s).2 := by
  induction rest generalizing s st with
  | nil => exact .refl hst
  | cons params rest ih =>
    have hgrows := sendOne_grows cx hand hst params
    rw [sendAll, Program.exec_bind]
    rcases hone : (sendOne cx handOver params).exec s with ⟨e | ⟨⟩, s'⟩
    · rw [hone] at hgrows
      exact hgrows
    · rw [hone] at hgrows
      obtain ⟨st', hst', -, -⟩ := hgrows.statement
      exact hgrows.trans hst' (ih hst')

/-! ### What has gone wrong -/

variable (cx operation types rows) in
/-- The list of the caller has been written to, or a row that has been sent is not carried. -/
def Broken (s : Cursor JType Py Cell D) : Prop :=
  Extends (types.getD []) s.callerTypes ∧ s.callerTypes ≠ types.getD [] ∨
    ∃ st, s.statement = some st ∧ ∃ (n : ℕ) (bound : Bindings JType Py),
      st.sent[n]? = some bound ∧ ¬Carries cx operation types rows st.parameterCount n bound

theorem Broken.grows (h : Broken cx operation types rows s) (hst : s.statement = some st)
    (hgrows : Grows st s s') : Broken cx operation types rows s' := by
  rcases h with ⟨hext, hne⟩ | ⟨st', hst', n, bound, hsent, hcarries⟩
  · refine .inl ⟨hext.trans hgrows.callerTypes, fun heq ↦ hne ?_⟩
    exact (hgrows.callerTypes.antisymm (heq ▸ hext)).trans heq
  · obtain rfl := Option.some.inj (hst.symm.trans hst')
    obtain ⟨st'', hst'', hcount, hprefix⟩ := hgrows.statement
    refine .inr ⟨st'', hst'', n, bound, ?_, hcount ▸ hcarries⟩
    obtain ⟨hn, -⟩ := List.getElem?_eq_some_iff.1 hsent
    rw [← hsent]
    exact (List.prefix_iff_getElem?.1 hprefix n hn).symm ▸ (List.getElem?_eq_getElem hn).symm

theorem Broken.not_faithful (h : Broken cx operation types rows s)
    {outcome : Except (DbError E) Unit} : ¬Faithful cx operation types rows outcome s := by
  intro hf
  rcases h with ⟨-, hne⟩ | ⟨st, hst, n, bound, hsent, hcarries⟩
  · exact hne hf.callerTypes
  · exact hcarries (hf.carries st hst n bound hsent)

/-! ### One row -/

/-- A proper row is sent, and the state is ready for the next one, or what the call leaves is
faithful. -/
theorem Ready.sendOne_of_proper (hand : ∀ (s : Cursor JType Py Cell D) st, s.statement = some st →
    HandsOver st s (handOver.exec s)) (h : Ready cx operation types rows n s st)
    {params : Parameters Py} (hrow : rows[n]? = some params)
    (hproper : Proper cx operation types st.parameterCount params) :
    (∃ s' st', (sendOne cx handOver params).exec s = (.ok (), s') ∧
      st'.parameterCount = st.parameterCount ∧ Ready cx operation types rows (n + 1) s' st') ∨
    ∃ e s', (sendOne cx handOver params).exec s = (.error e, s') ∧
      Faithful cx operation types rows (.error e) s' := by
  rw [sendOne, Program.exec_bind]
  obtain ⟨s', bound, hset, hst, htypes, hcarries⟩ | ⟨e, s', bound, hset, hst, hcaller, hlength⟩ :=
    h.exec_setParams hrow hproper
  · rw [hset]
    have hover := hand s' _ hst
    rcases houtcome : handOver.exec s' with ⟨e | ⟨⟩, s''⟩
    · rw [houtcome] at hover
      exact .inr ⟨e, s'', houtcome, (handOver_carried h htypes hcarries hover).2 e rfl⟩
    · rw [houtcome] at hover
      obtain ⟨st', hcount, hready⟩ := (handOver_carried h htypes hcarries hover).1 rfl
      exact .inl ⟨s'', st', houtcome, hcount, hready⟩
  · rw [hset]
    refine .inr ⟨e, s', rfl, faithful_of_carries hst hcaller h.carries ?_ fun _ ↦ ?_⟩
    · show st.taken ≤ st.sent.length
      exact Nat.le_of_eq (h.taken.trans h.length.symm)
    · intro elements hrow' hne
      have hrow' : rows[st.sent.length]? = some (.values elements) := hrow'
      rw [h.length, hrow] at hrow'
      rw [hlength elements (Option.some.inj hrow') hne]

/-- A row that is not proper breaks what the call leaves. -/
theorem Ready.broken_of_not_proper (hand : ∀ (s : Cursor JType Py Cell D) st,
    s.statement = some st → HandsOver st s (handOver.exec s))
    (h : Ready cx operation types rows n s st) {params : Parameters Py}
    (hrow : rows[n]? = some params)
    (hproper : ¬Proper cx operation types st.parameterCount params) :
    Broken cx operation types rows ((sendOne cx handOver params).exec s).2 := by
  by_cases hempty : params = .values []
  · -- an empty row for a statement with parameters is sent as it is
    subst hempty
    have hcount : st.parameterCount ≠ 0 := by
      intro hcount
      refine hproper ⟨fun _ ↦ hcount, fun elements he hlength hstores ↦ ?_⟩
      obtain rfl := Parameters.values.inj he
      nomatch hstores
    rw [sendOne, Program.exec_bind, exec_setParams_nil]
    obtain ⟨results, hst⟩ := (hand s st h.statement).statement
    refine .inr ⟨_, hst, n, st.bound, ?_, ?_⟩
    · show (st.sent ++ [st.bound])[n]? = some st.bound
      rw [← h.length, List.getElem?_concat_length]
    · rintro ⟨elements, hrow', hlength, -⟩
      obtain rfl := Parameters.values.inj (Option.some.inj (hrow.symm.trans hrow'))
      exact hcount hlength.symm
  · -- a setter is entered in the list of the caller
    have hstores : ∃ elements, params = .values elements ∧ elements.length = st.parameterCount ∧
        Stores cx operation (types.getD []) 0 elements := by
      by_contra hno
      refine hproper ⟨fun he ↦ absurd he hempty, fun elements he hlength hs ↦ hno ?_⟩
      exact ⟨elements, he, hlength, hs⟩
    obtain ⟨elements, rfl, hlength, hstores⟩ := hstores
    have hne : types.getD [] ≠ [] := by
      obtain ⟨j, hj⟩ := hstores.exists_none
      intro heq
      rw [heq] at hj
      cases hj
    have hparam := h.caller hne
    have htypes : s.types = types.getD [] := by rw [Cursor.types, hparam, h.callerTypes]
    have hset := Cursor.exec_setParams cx h.statement (fun he ↦ hempty (by rw [he])) hlength
    obtain rfl := h.sameOperation
    have hbroken : Broken cx st.operation types rows
        ((setParams cx (.values elements)).exec s).2 := by
      have hgrows := (setParams_grows cx h.statement (.values elements)).callerTypes
      rw [h.callerTypes] at hgrows
      refine .inl ⟨hgrows, ?_⟩
      rw [hset, bindOutcome_callerTypes cx hparam (by rw [htypes]; simpa using hne), htypes]
      exact (bindLoop_types_eq_iff ..).not.2 (not_not.2 hstores)
    have hgrows := setParams_grows cx h.statement (.values elements)
    obtain ⟨st', hst', -, -⟩ := hgrows.statement
    rw [sendOne, Program.exec_bind]
    rcases houtcome : (setParams cx (.values elements)).exec s with ⟨e | ⟨⟩, s'⟩
    · rw [houtcome] at hbroken
      exact hbroken
    · rw [houtcome] at hbroken hst'
      exact hbroken.grows hst' (hand s' st' hst').grows

/-! ### All rows -/

/-- The rows from the next one on: what they leave is faithful if those that are reached are
proper, and broken otherwise. -/
theorem Ready.sendAll (hand : ∀ (s : Cursor JType Py Cell D) st, s.statement = some st →
    HandsOver st s (handOver.exec s)) {rest : List (Parameters Py)} (hrest : rows.drop n = rest)
    (h : Ready cx operation types rows n s st) :
    (ProperRows cx operation types handOver st.parameterCount rest s →
      Faithful cx operation types rows ((sendAll cx handOver rest).exec s).1
        ((sendAll cx handOver rest).exec s).2) ∧
    (¬ProperRows cx operation types handOver st.parameterCount rest s →
      Broken cx operation types rows ((sendAll cx handOver rest).exec s).2) := by
  induction rest generalizing n s st with
  | nil =>
    refine ⟨fun _ ↦ ?_, fun hn ↦ absurd trivial hn⟩
    refine faithful_of_carries h.statement h.callerTypes h.carries ?_ fun _ elements hrow ↦ ?_
    · exact Nat.le_of_eq (h.taken.trans h.length.symm)
    · rw [h.length, List.getElem?_eq_none (List.drop_eq_nil_iff.1 hrest)] at hrow
      cases hrow
  | cons params rest ih =>
    have hrow : rows[n]? = some params := by
      rw [← List.head?_drop, hrest]
      rfl
    have hdrop : rows.drop (n + 1) = rest := by
      rw [← List.tail_drop, hrest]
      rfl
    rw [Cursor.sendAll, Program.exec_bind]
    by_cases hproper : Proper cx operation types st.parameterCount params
    · obtain ⟨s', st', hone, hcount, hready⟩ | ⟨e, s', hone, hfaithful⟩ :=
        h.sendOne_of_proper hand hrow hproper
      · rw [hone]
        obtain ⟨hgood, hbad⟩ := ih hdrop hready
        rw [hcount] at hgood hbad
        refine ⟨fun hp ↦ hgood (hp.2 s' hone), fun hn ↦ hbad fun hp ↦ hn ⟨hproper, ?_⟩⟩
        intro s'' hone'
        obtain rfl : s' = s'' := (Prod.mk.inj (hone.symm.trans hone')).2
        exact hp
      · rw [hone]
        refine ⟨fun _ ↦ hfaithful, fun hn ↦ absurd ⟨hproper, fun s'' hone' ↦ ?_⟩ hn⟩
        cases hone.symm.trans hone'
    · have hbroken := h.broken_of_not_proper hand hrow hproper
      have hgrows := sendOne_grows cx hand h.statement params
      obtain ⟨st', hst', -, -⟩ := hgrows.statement
      refine ⟨fun hp ↦ absurd hp.1 hproper, fun _ ↦ ?_⟩
      rcases hone : (sendOne cx handOver params).exec s with ⟨e | ⟨⟩, s'⟩
      · rw [hone] at hbroken
        exact hbroken
      · rw [hone] at hbroken hst'
        exact hbroken.grows hst' (sendAll_grows cx hand hst' rest)

/-! ### The loops of the source -/

/-- After its rows have ended like this, a call ends like that. -/
structure EndsAs (ending : Except (DbError E) Unit × Cursor JType Py Cell D)
    (outcome : Except (DbError E) Unit × Cursor JType Py Cell D) : Prop where
  statement : outcome.2.statement = ending.2.statement
  callerTypes : outcome.2.callerTypes = ending.2.callerTypes
  error : ∀ e, ending.1 = .error e → outcome.1 = .error e

variable (cx)

theorem batchLoop_eq (rows : List (Parameters Py)) :
    batchLoop dr cx rows = sendAll cx (addBatch dr) rows := by
  induction rows with
  | nil => rfl
  | cons params rest ih => rw [batchLoop, sendAll, sendOne, bind_assoc, ih]

theorem exec_executeone (params : Parameters Py) :
    (executeone dr cx params).exec s =
      match (sendOne cx (runOne dr) params).exec s with
      | (.ok (), s') => (.ok s'.rowcount, s')
      | (.error e, s') => (.error e, s') := by
  rw [executeone, sendOne, Program.exec_bind, Program.exec_bind]
  rcases (setParams cx params).exec s with ⟨e | ⟨⟩, s'⟩
  · rfl
  · simp only [runOne, Program.exec_bind]
    rcases (executeStatement dr).exec s' with ⟨e | results, s''⟩
    · rfl
    · rcases results with - | ⟨⟨columns, rows⟩ | ⟨count⟩, rest⟩ <;> rfl

theorem exec_repeatLoop (s : Cursor JType Py Cell D) (rows : List (Parameters Py))
    (counts : List ℤ) :
    ∃ counts', (repeatLoop dr cx rows counts).exec s =
      match (sendAll cx (runOne dr) rows).exec s with
      | (.ok (), s') => (.ok counts', s')
      | (.error e, s') => (.error e, s') := by
  induction rows generalizing s counts with
  | nil => exact ⟨counts, rfl⟩
  | cons params rest ih =>
    rw [repeatLoop, sendAll, Program.exec_bind, Program.exec_bind, exec_executeone]
    rcases (sendOne cx (runOne dr) params).exec s with ⟨e | ⟨⟩, s'⟩
    · exact ⟨counts, rfl⟩
    · exact ih s' (counts ++ [s'.rowcount])

theorem endsAs_runBatch : EndsAs (.ok (), s) ((runBatch dr).exec s) := by
  rw [runBatch, Program.exec_bind]
  simp only [Program.exec_get]
  rcases dr.executeBatch s.db with ⟨failure | counts, db⟩
  · rcases failure with message | e <;> exact ⟨rfl, rfl, nofun⟩
  · exact ⟨rfl, rfl, nofun⟩

/-- The call by which `executemany` hands a row over. -/
def handOverMany : CursorM JType Py Cell D E Unit :=
  if cx.batch then addBatch dr else runOne dr

theorem endsAs_executeRows (rows : List (Parameters Py)) :
    EndsAs ((sendAll cx (handOverMany dr cx) rows).exec s) ((executeRows dr cx rows).exec s) := by
  rw [executeRows, handOverMany]
  rcases cx.batch with - | -
  · simp only [Bool.false_eq_true, if_false, Program.exec_bind]
    obtain ⟨counts, hloop⟩ := exec_repeatLoop dr cx s rows []
    rw [hloop]
    rcases (sendAll cx (runOne dr) rows).exec s with ⟨e | ⟨⟩, s'⟩
    · exact ⟨rfl, rfl, fun _ ↦ id⟩
    · exact ⟨rfl, rfl, nofun⟩
  · simp only [if_true, Program.exec_bind, batchLoop_eq]
    rcases (sendAll cx (addBatch dr) rows).exec s with ⟨e | ⟨⟩, s'⟩
    · exact ⟨rfl, rfl, fun _ ↦ id⟩
    · exact endsAs_runBatch dr

variable {dr cx}

theorem handsOver_handOverMany (s : Cursor JType Py Cell D)
    (st : PreparedStatement JType Py Cell) (h : s.statement = some st) :
    HandsOver st s ((handOverMany dr cx).exec s) := by
  rw [handOverMany]
  rcases cx.batch with - | -
  · exact handsOver_runOne dr h
  · exact handsOver_addBatch dr h

theorem Faithful.endsAs {ending outcome : Except (DbError E) Unit × Cursor JType Py Cell D}
    (h : Faithful cx operation types rows ending.1 ending.2) (hends : EndsAs ending outcome) :
    Faithful cx operation types rows outcome.1 outcome.2 := by
  refine ⟨hends.callerTypes.trans h.callerTypes, hends.statement ▸ h.carries, ?_⟩
  rw [hends.statement]
  intro st hst n elements hrow hlength hn
  obtain ⟨hsent, herror⟩ := h.length st hst n elements hrow hlength hn
  exact ⟨hsent, hends.error _ herror⟩

theorem Broken.endsAs {ending outcome : Except (DbError E) Unit × Cursor JType Py Cell D}
    (h : Broken cx operation types rows ending.2) (hends : EndsAs ending outcome) :
    Broken cx operation types rows outcome.2 := by
  rw [Broken, hends.callerTypes, hends.statement]
  exact h

end Cursor

/-! ### Calls -/

/-- A call of `execute` or `executemany`. -/
inductive Execution (Py JType : Type) where
  | execute (operation : String) (parameters : Option (Parameters Py))
    (types : Option (List (Option JType))) (keys : Bool)
  | executemany (operation : String) (seq : SeqOfParameters Py)
    (types : Option (List (Option JType))) (keys : Bool)

namespace Execution

open Cursor

variable (dr : Driver JType Py Cell D E) (cx : Connection Py Ty JType Cell E)
  (c : Execution Py JType)

def operation : Execution Py JType → String
  | .execute operation .. => operation
  | .executemany operation .. => operation

def types : Execution Py JType → Option (List (Option JType))
  | .execute _ _ types _ => types
  | .executemany _ _ types _ => types

/-- The rows of parameters. -/
def rows : Execution Py JType → List (Parameters Py)
  | .execute _ parameters _ _ => [parameters.getD (.values [])]
  | .executemany _ (.rows rows) _ _ => rows
  | .executemany .. => []

def run : Execution Py JType → CursorM JType Py Cell D E Unit
  | .execute operation parameters types keys => Cursor.execute dr cx operation parameters types keys
  | .executemany operation seq types keys => Cursor.executemany dr cx operation seq types keys

/-- The preparation of the statement. -/
def prepareStatement : Execution Py JType → CursorM JType Py Cell D E Unit
  | .execute operation parameters _ keys =>
    match parameters.getD (.values []) with
    | .notIterable typeName =>
      throw (.unsupportedTypeError ("parameters are of unsupported type '" ++ typeName ++ "'"))
    | _ => prepare dr operation keys id
  | .executemany operation _ _ keys =>
    prepare dr operation keys fun _ ↦ "Failed to prepare '" ++ operation ++ "'"

/-- What a call does until its statement is prepared. -/
def prelude : CursorM JType Py Cell D E Unit := do
  modify (takeTypes c.types)
  validate dr
  modify finish
  c.prepareStatement dr

/-- The call by which a row is handed over. -/
def handOver : Execution Py JType → CursorM JType Py Cell D E Unit
  | .execute .. => runOne dr
  | .executemany .. => handOverMany dr cx

/-- What a call does with its statement. -/
def sendRows : Execution Py JType → CursorM JType Py Cell D E Unit
  | .execute _ parameters _ _ => do
    let _ ← executeone dr cx (parameters.getD (.values []))
  | .executemany _ .none _ _ => executeRows dr cx []
  | .executemany _ (.rows rows) _ _ => executeRows dr cx rows
  | .executemany _ (.notIterable typeName typeText) _ _ =>
    throw (.unsupportedTypeError
      ("'" ++ (if cx.batch then typeName else typeText) ++ "' is not supported"))

/-- **Bound parameters reach exactly their own row** in this call: unless it raises before it has
prepared a statement, what it leaves is faithful. -/
structure BindsRows (s : Cursor JType Py Cell D) : Prop where
  callerTypes : ((c.run dr cx).exec s).2.callerTypes = c.types.getD []
  unprepared : ∀ e s₀, (c.prelude dr).exec s = (.error e, s₀) →
    (c.run dr cx).exec s = (.error e, s₀) ∧ (s₀.statement = none ∨ s₀.statement = s.statement)
  prepared : ∀ s₀, (c.prelude dr).exec s = (.ok (), s₀) →
    Faithful cx c.operation c.types c.rows ((c.run dr cx).exec s).1 ((c.run dr cx).exec s).2

variable {dr cx c} {s s₀ : Cursor JType Py Cell D}

theorem exec_run : (c.run dr cx).exec s =
    match (c.prelude dr).exec s with
    | (.ok (), s₀) => (c.sendRows dr cx).exec s₀
    | (.error e, s₀) => (.error e, s₀) := by
  rcases c with ⟨operation, parameters, types, keys⟩ | ⟨operation, seq, types, keys⟩
  · simp only [run, prelude, Cursor.execute, Program.exec_bind, Program.exec_modify,
      Execution.types]
    rcases (validate dr).exec (takeTypes types s) with ⟨e | ⟨⟩, s'⟩
    · rfl
    · simp only [sendRows, prepareStatement, Program.exec_bind]
      rcases parameters.getD (.values []) with - | - | typeName | elements
      all_goals first | rfl | skip
      all_goals
        rcases hprepare : (prepare dr operation keys id).exec s'.finish with ⟨e | ⟨⟩, s''⟩
        all_goals simp only [Program.exec_bind, hprepare]
  · simp only [run, prelude, Cursor.executemany, Program.exec_bind, Program.exec_modify,
      Execution.types]
    rcases (validate dr).exec (takeTypes types s) with ⟨e | ⟨⟩, s'⟩
    · rfl
    · simp only [prepareStatement]
      rcases (prepare dr operation keys fun _ ↦ "Failed to prepare '" ++ operation ++ "'").exec
        s'.finish with ⟨e | ⟨⟩, s''⟩
      · rfl
      · rcases seq with - | rows | ⟨typeName, typeText⟩ <;> rfl

variable (dr) in
theorem exec_validate (s : Cursor JType Py Cell D) : ((validate dr).exec s).2 = s := by
  rw [validate, Program.exec_bind]
  simp only [Program.exec_get]
  split <;> rfl

variable (dr) in
theorem exec_prepare (s : Cursor JType Py Cell D) (operation : String) (keys : Bool)
    (failed : String → String) :
    ∃ db, (∃ parameterCount, (prepare dr operation keys failed).exec s =
        (.ok (), { s with statement := some { operation, parameterCount }, db })) ∨
      ∃ e, (prepare dr operation keys failed).exec s = (.error e, { s with db }) := by
  rw [prepare, Program.exec_bind]
  simp only [Program.exec_get]
  rcases dr.prepareStatement operation keys s.db with ⟨failure | parameterCount, db⟩
  · refine ⟨db, .inr ?_⟩
    rcases failure with message | message | e <;> exact ⟨_, rfl⟩
  · exact ⟨db, .inl ⟨parameterCount, rfl⟩⟩

variable (dr c) in
/-- The statement that is prepared is new. -/
theorem exec_prepareStatement (s : Cursor JType Py Cell D) :
    ∃ db, (∃ parameterCount, (c.prepareStatement dr).exec s =
        (.ok (), { s with statement := some { operation := c.operation, parameterCount }, db })) ∨
      ∃ e, (c.prepareStatement dr).exec s = (.error e, { s with db }) := by
  rcases c with ⟨operation, parameters, types, keys⟩ | ⟨operation, seq, types, keys⟩
  · rw [prepareStatement]
    split
    · exact ⟨s.db, .inr ⟨_, rfl⟩⟩
    · exact exec_prepare ..
  · exact exec_prepare ..

/-- What a call leaves before the first row: it is ready, unless it has raised and there is no new
statement. -/
theorem exec_prelude (c : Execution Py JType) {outcome : Except (DbError E) Unit}
    (h : (c.prelude dr).exec s = (outcome, s₀)) :
    s₀.callerTypes = (takeTypes c.types s).callerTypes ∧
      ((outcome = .ok () ∧ ∃ parameterCount, s₀.statement =
          some { operation := c.operation, parameterCount } ∧
          s₀.parameterTypes = (takeTypes c.types s).parameterTypes) ∨
        (∃ e, outcome = .error e) ∧ (s₀.statement = none ∨ s₀.statement = s.statement)) := by
  have hsame := exec_validate dr (takeTypes c.types s)
  simp only [prelude, Program.exec_bind, Program.exec_modify] at h
  rcases hvalidate : (validate dr).exec (takeTypes c.types s) with ⟨e | ⟨⟩, s'⟩
  · rw [hvalidate] at h hsame
    obtain ⟨rfl, rfl⟩ := Prod.mk.inj h
    obtain rfl : s' = takeTypes c.types s := hsame
    refine ⟨rfl, .inr ⟨⟨e, rfl⟩, .inr ?_⟩⟩
    rcases c.types with - | types <;> rfl
  · rw [hvalidate] at h hsame
    obtain rfl : s' = takeTypes c.types s := hsame
    obtain ⟨db, ⟨parameterCount, heq⟩ | ⟨e, heq⟩⟩ :=
      exec_prepareStatement dr c (takeTypes c.types s).finish
    · obtain ⟨rfl, rfl⟩ := Prod.mk.inj (h.symm.trans heq)
      exact ⟨rfl, .inl ⟨rfl, parameterCount, rfl, rfl⟩⟩
    · obtain ⟨rfl, rfl⟩ := Prod.mk.inj (h.symm.trans heq)
      exact ⟨rfl, .inr ⟨⟨e, rfl⟩, .inl rfl⟩⟩

theorem takeTypes_callerTypes (types : Option (List (Option JType)))
    (s : Cursor JType Py Cell D) : (takeTypes types s).callerTypes = types.getD [] := by
  rcases types with - | types <;> rfl

theorem typesReady_takeTypes {operation : String} {types : Option (List (Option JType))}
    {rows : List (Parameters Py)} (hcaller : s₀.callerTypes = types.getD [])
    (hparam : s₀.parameterTypes = (takeTypes types s).parameterTypes) :
    TypesReady cx operation types rows 0 s₀ := by
  have hsame : s₀.types = types.getD [] := by
    rcases types with - | types
    · rw [Cursor.types, show s₀.parameterTypes = .none from hparam]
      rfl
    · rw [Cursor.types, show s₀.parameterTypes = .caller from hparam]
      exact hcaller
  refine ⟨hcaller, fun hne ↦ ?_, fun i t ht ↦ .inl ?_, fun i ht ↦ ?_, fun l hl ↦ ?_⟩
  · rcases types with - | types
    · exact absurd rfl hne
    · exact hparam
  · rw [givenSetter, ← hsame, ht]
    rfl
  · rw [givenSetter, ← hsame, ht]
  · rcases types with - | types <;> cases hl.symm.trans hparam

variable (cx) in
/-- Before the first row everything is ready. -/
theorem ready_of_prelude (h : (c.prelude dr).exec s = (.ok (), s₀)) :
    ∃ st, Ready cx c.operation c.types c.rows 0 s₀ st := by
  obtain ⟨hcaller, ⟨-, parameterCount, hst, hparam⟩ | ⟨⟨e, he⟩, -⟩⟩ := exec_prelude c h
  · rw [takeTypes_callerTypes] at hcaller
    exact ⟨_, typesReady_takeTypes hcaller hparam, hst, rfl, rfl, rfl, fun j bound hj ↦ nomatch hj⟩
  · cases he

theorem endsAs_sendRows :
    EndsAs ((sendAll cx (c.handOver dr cx) c.rows).exec s₀) ((c.sendRows dr cx).exec s₀) := by
  rcases c with ⟨operation, parameters, types, keys⟩ | ⟨operation, seq, types, keys⟩
  · simp only [sendRows, rows, sendAll, handOver, Program.exec_bind, exec_executeone]
    rcases (sendOne cx (runOne dr) (parameters.getD (.values []))).exec s₀ with ⟨e | ⟨⟩, s'⟩
    · exact ⟨rfl, rfl, fun _ ↦ id⟩
    · exact ⟨rfl, rfl, nofun⟩
  · rcases seq with - | rows | ⟨typeName, typeText⟩
    · exact endsAs_executeRows dr cx []
    · exact endsAs_executeRows dr cx rows
    · exact ⟨rfl, rfl, nofun⟩

theorem handsOver_handOver (s : Cursor JType Py Cell D) (st : PreparedStatement JType Py Cell)
    (h : s.statement = some st) : HandsOver st s ((c.handOver dr cx).exec s) := by
  rcases c with ⟨operation, parameters, types, keys⟩ | ⟨operation, seq, types, keys⟩
  · exact handsOver_runOne dr h
  · exact handsOver_handOverMany s st h

theorem faithful_of_proper (h : (c.prelude dr).exec s = (.ok (), s₀))
    (hproper : ∀ st, s₀.statement = some st →
      ProperRows cx c.operation c.types (c.handOver dr cx) st.parameterCount c.rows s₀) :
    Faithful cx c.operation c.types c.rows ((c.run dr cx).exec s).1 ((c.run dr cx).exec s).2 := by
  obtain ⟨st, hready⟩ := ready_of_prelude cx h
  have hfaithful := (hready.sendAll handsOver_handOver rfl).1 (hproper st hready.statement)
  rw [exec_run, h]
  exact hfaithful.endsAs endsAs_sendRows

theorem proper_of_faithful (h : (c.prelude dr).exec s = (.ok (), s₀))
    (hfaithful : Faithful cx c.operation c.types c.rows ((c.run dr cx).exec s).1
      ((c.run dr cx).exec s).2) {st : PreparedStatement JType Py Cell}
    (hst : s₀.statement = some st) :
    ProperRows cx c.operation c.types (c.handOver dr cx) st.parameterCount c.rows s₀ := by
  obtain ⟨st', hready⟩ := ready_of_prelude cx h
  obtain rfl := Option.some.inj (hst.symm.trans hready.statement)
  by_contra hproper
  have hbroken := (hready.sendAll handsOver_handOver rfl).2 hproper
  rw [exec_run, h] at hfaithful
  exact (hbroken.endsAs endsAs_sendRows).not_faithful hfaithful

end Execution

/-! ### Rows that are not proper -/

/-- A table of one column in a database that takes everything. -/
def oneColumn : Driver String ℕ Unit Unit Unit where
  isClosed _ := false
  prepareStatement _ _ db := (.ok 1, db)
  execute _ db := (.ok [.updateCount 1], db)
  addBatch _ db := (.ok (), db)
  executeBatch db := (.ok [], db)
  closedException := ()

/-- A connection without adapters, whose setters are those by type. -/
def settersByType : Connection ℕ Unit String Unit Unit where
  typeOf _ := ()
  typeName _ := "int"
  adapters _ := none
  setters _ _ _ := .ok (some "setLong")
  cachable := false
  getters _ _ := .ok "getLong"
  converters _ := none
  batch := true
  set _ _ _ := .ok ()
  get _ _ := .ok none
  typeError _ := none

end JPype
