import JPype.Dbapi2.Cursor
import JPype.Foundation.Runs

/-!
# Binding a row of parameters

`_setParams` binds the elements of a row one after the other, by the setters in the list of types
that is in use. A loop that returns has bound each element at its own position (`bindLoop_ok`), and
the list is left as it was exactly if no setter is entered (`bindLoop_types_eq_iff`).

`Faithful` says what is expected of the rows of a whole call, and `Ready` holds between two of them.
A row that is `Proper` is carried by what is bound (`Ready.exec_setParams`), and handing it over
leaves everything ready for the next one (`handOver_carried`).
-/

namespace JPype

open Foundation

variable {Py Ty JType Cell D E : Type}

namespace Cursor

variable (dr : Driver JType Py Cell D E) (cx : Connection Py Ty JType Cell E)

/-! ### The loop over a row -/

/-- With these types, binding the elements from position `i` on enters a setter in the list: it
comes to a position without one, finds the setter, and has bound everything before. -/
inductive Stores (operation : String) (types : List (Option JType)) : ℕ → List Py → Prop
  | here {i : ℕ} {p v : Py} {rest : List Py} {t : JType} (hadapt : adapt cx p = .ok v)
      (htypes : types[i]? = some none)
      (hsetter : cx.setters operation i (cx.typeOf v) = .ok (some t)) :
      Stores operation types i (p :: rest)
  | later {i : ℕ} {p v : Py} {rest : List Py} {t : JType} (hadapt : adapt cx p = .ok v)
      (htypes : types[i]? = some (some t)) (hset : cx.set t i v = .ok ())
      (hrest : Stores operation types (i + 1) rest) : Stores operation types i (p :: rest)

/-- The element is bound at position `i` by its setter, which is in the list or is chosen for
it. -/
structure BoundAt (operation : String) (types : List (Option JType)) (i : ℕ) (p v : Py)
    (t : JType) : Prop where
  adapt : adapt cx p = .ok v
  setter : types[i]? = some (some t) ∨
    types[i]? = some none ∧ cx.setters operation i (cx.typeOf v) = .ok (some t)
  set : cx.set t i v = .ok ()

variable {cx} {operation : String}

/-- One turn of the loop that binds its element. -/
theorem bindLoop_cons {types : List (Option JType)} {i : ℕ} {p v : Py} {t : JType}
    (h : BoundAt cx operation types i p v t) (rest : List Py) (bound : Bindings JType Py) :
    bindLoop cx operation i (p :: rest) types bound =
      bindLoop cx operation (i + 1) rest (types.set i (some t))
        (Function.update bound i (some (t, v))) := by
  rw [bindLoop, h.adapt]
  rcases h.setter with htypes | ⟨htypes, hsetter⟩
  · have hsame : types.set i (some t) = types := by
      obtain ⟨hi, hget⟩ := List.getElem?_eq_some_iff.1 htypes
      rw [← hget, List.set_getElem_self]
    simp only [setterFor, htypes, h.set, hsame]
  · simp only [setterFor, htypes, hsetter, h.set]

/-- One turn of the loop that raises. -/
theorem bindLoop_cons_error {types : List (Option JType)} {i : ℕ} {p : Py}
    (h : ¬∃ v t, BoundAt cx operation types i p v t) (rest : List Py)
    (bound : Bindings JType Py) :
    ∃ e types', bindLoop cx operation i (p :: rest) types bound = (.error e, types', bound) ∧
      (types' = types ∧ ¬Stores cx operation types i (p :: rest) ∨
        types[i]? = some none ∧ Stores cx operation types i (p :: rest) ∧
          ∃ t, types' = types.set i (some t)) := by
  rw [bindLoop]
  rcases hadapt : adapt cx p with e | v
  · refine ⟨_, _, rfl, .inl ⟨rfl, ?_⟩⟩
    rintro (⟨hadapt', -, -⟩ | ⟨hadapt', -, -, -⟩) <;> cases hadapt.symm.trans hadapt'
  dsimp only
  rcases htypes : types[i]? with - | - | t
  · simp only [setterFor, htypes]
    refine ⟨_, _, rfl, .inl ⟨rfl, ?_⟩⟩
    rintro (⟨-, htypes', -⟩ | ⟨-, htypes', -, -⟩) <;> cases htypes.symm.trans htypes'
  · rcases hsetter : cx.setters operation i (cx.typeOf v) with e | - | t
    · simp only [setterFor, htypes, hsetter]
      refine ⟨_, _, rfl, .inl ⟨rfl, ?_⟩⟩
      rintro (⟨hadapt', -, hsetter'⟩ | ⟨-, htypes', -, -⟩)
      · rw [← Except.ok.inj (hadapt.symm.trans hadapt')] at hsetter'
        cases hsetter.symm.trans hsetter'
      · cases htypes.symm.trans htypes'
    · simp only [setterFor, htypes, hsetter]
      refine ⟨_, _, rfl, .inl ⟨rfl, ?_⟩⟩
      rintro (⟨hadapt', -, hsetter'⟩ | ⟨-, htypes', -, -⟩)
      · rw [← Except.ok.inj (hadapt.symm.trans hadapt')] at hsetter'
        cases hsetter.symm.trans hsetter'
      · cases htypes.symm.trans htypes'
    · simp only [setterFor, htypes, hsetter]
      rcases hset : cx.set t i v with e | ⟨⟩
      · exact ⟨_, _, rfl, .inr ⟨trivial, .here hadapt htypes hsetter, t, rfl⟩⟩
      · exact absurd ⟨v, t, hadapt, .inr ⟨htypes, hsetter⟩, hset⟩ h
  · simp only [setterFor, htypes]
    rcases hset : cx.set t i v with e | ⟨⟩
    · refine ⟨_, _, rfl, .inl ⟨rfl, ?_⟩⟩
      rintro (⟨-, htypes', -⟩ | ⟨hadapt', htypes', hset', -⟩)
      · cases htypes.symm.trans htypes'
      · rw [← Except.ok.inj (hadapt.symm.trans hadapt'),
          ← Option.some.inj (Option.some.inj (htypes.symm.trans htypes'))] at hset'
        cases hset.symm.trans hset'
    · exact absurd ⟨v, t, hadapt, .inl htypes, hset⟩ h

/-- The list has the entries of another one, and perhaps setters where that has none. -/
structure Extends (types types' : List (Option JType)) : Prop where
  length : types'.length = types.length
  setters : ∀ (j : ℕ) (t : JType), types[j]? = some (some t) → types'[j]? = some (some t)

theorem Extends.refl (types : List (Option JType)) : Extends types types :=
  ⟨rfl, fun _ _ ↦ id⟩

theorem Extends.trans {types types' types'' : List (Option JType)} (h : Extends types types')
    (h' : Extends types' types'') : Extends types types'' :=
  ⟨h'.length.trans h.length, fun j t hj ↦ h'.setters j t (h.setters j t hj)⟩

theorem Extends.set {types : List (Option JType)} {i : ℕ} {t : JType}
    (h : types[i]? = some none ∨ types[i]? = some (some t)) :
    Extends types (types.set i (some t)) := by
  refine ⟨List.length_set, fun j t' hj ↦ ?_⟩
  rw [List.getElem?_set]
  split
  · next hij =>
    subst hij
    rcases h with h | h
    · cases h.symm.trans hj
    · rw [← h, hj, if_pos (List.getElem?_eq_some_iff.1 hj).1]
  · exact hj

variable (cx operation) in
/-- What the loop leaves extends the list it was given. -/
theorem bindLoop_extends (i : ℕ) (elements : List Py) (types : List (Option JType))
    (bound : Bindings JType Py) :
    Extends types (bindLoop cx operation i elements types bound).2.1 := by
  induction elements generalizing i types bound with
  | nil => exact .refl types
  | cons p rest ih =>
    by_cases h : ∃ v t, BoundAt cx operation types i p v t
    · obtain ⟨v, t, h⟩ := h
      rw [bindLoop_cons h]
      exact (Extends.set (h.setter.symm.imp_left And.left)).trans (ih ..)
    · obtain ⟨e, types', heq, ⟨rfl, -⟩ | ⟨hnone, -, t, rfl⟩⟩ :=
        bindLoop_cons_error h rest bound
      · rw [heq]
        exact .refl _
      · rw [heq]
        exact .set (.inl hnone)

theorem ne_of_extends_set {types types' : List (Option JType)} {i : ℕ} {t : JType}
    (hnone : types[i]? = some none) (h : Extends (types.set i (some t)) types') :
    types' ≠ types := by
  rintro rfl
  have hi := (List.getElem?_eq_some_iff.1 hnone).1
  have := h.setters i t (List.getElem?_set_self hi)
  cases hnone.symm.trans this

/-- The loop leaves the list as it is exactly if it enters no setter. -/
theorem bindLoop_types_eq_iff (i : ℕ) (elements : List Py) (types : List (Option JType))
    (bound : Bindings JType Py) :
    (bindLoop cx operation i elements types bound).2.1 = types ↔
      ¬Stores cx operation types i elements := by
  induction elements generalizing i bound with
  | nil => exact iff_of_true rfl fun h ↦ nomatch h
  | cons p rest ih =>
    by_cases h : ∃ v t, BoundAt cx operation types i p v t
    · obtain ⟨v, t, h⟩ := h
      rw [bindLoop_cons h]
      rcases h.setter with htypes | ⟨hnone, hsetter⟩
      · have hsame : types.set i (some t) = types := by
          obtain ⟨hi, hget⟩ := List.getElem?_eq_some_iff.1 htypes
          rw [← hget, List.set_getElem_self]
        rw [hsame, ih]
        refine not_congr ⟨.later h.adapt htypes h.set, ?_⟩
        rintro (⟨-, hnone, -⟩ | ⟨-, -, -, hrest⟩)
        · cases htypes.symm.trans hnone
        · exact hrest
      · exact iff_of_false (ne_of_extends_set hnone (bindLoop_extends ..))
          fun hn ↦ hn (.here h.adapt hnone hsetter)
    · obtain ⟨e, types', heq, ⟨rfl, hn⟩ | ⟨hnone, hs, t, rfl⟩⟩ :=
        bindLoop_cons_error h rest bound
      · rw [heq]
        exact iff_of_true rfl hn
      · rw [heq]
        exact iff_of_false (ne_of_extends_set hnone (.refl _)) fun hn ↦ hn hs

/-- A loop that returns has bound every element, and every setter is in the list then. -/
theorem bindLoop_ok {i : ℕ} {elements : List Py} {types types' : List (Option JType)}
    {bound bound' : Bindings JType Py}
    (h : bindLoop cx operation i elements types bound = (.ok (), types', bound')) :
    (∀ j < i, bound' j = bound j) ∧
      ∀ (j : ℕ) (p : Py), elements[j]? = some p → ∃ v t,
        BoundAt cx operation types (i + j) p v t ∧
          bound' (i + j) = some (t, v) ∧ types'[i + j]? = some (some t) := by
  induction elements generalizing i types bound with
  | nil =>
    obtain ⟨-, -, rfl⟩ := Prod.mk.inj h
    exact ⟨fun _ _ ↦ rfl, fun j p hj ↦ by simp at hj⟩
  | cons p rest ih =>
    by_cases hp : ∃ v t, BoundAt cx operation types i p v t
    · obtain ⟨v, t, hp⟩ := hp
      rw [bindLoop_cons hp] at h
      obtain ⟨hbound, hrest⟩ := ih h
      refine ⟨fun j hj ↦ ?_, fun j p' hj ↦ ?_⟩
      · rw [hbound j (Nat.lt_succ_of_lt hj), Function.update_of_ne (Nat.ne_of_lt hj)]
      rcases j with - | j
      · obtain rfl : p = p' := by simpa using hj
        have hi : i < types.length := by
          rcases hp.setter with htypes | ⟨htypes, -⟩ <;>
            exact (List.getElem?_eq_some_iff.1 htypes).1
        have hext := bindLoop_extends cx operation (i + 1) rest
          (types.set i (some t)) (Function.update bound i (some (t, v)))
        rw [h] at hext
        refine ⟨v, t, hp, ?_, hext.setters i t (List.getElem?_set_self hi)⟩
        rw [Nat.add_zero, hbound i (Nat.lt_succ_self i), Function.update_self]
      · obtain ⟨v', t', hp', hb, ht⟩ := hrest j p' (by simpa using hj)
        rw [show i + (j + 1) = i + 1 + j by omega]
        refine ⟨v', t', ⟨hp'.adapt, ?_, hp'.set⟩, hb, ht⟩
        rw [← List.getElem?_set_ne (show i ≠ i + 1 + j by omega)]
        exact hp'.setter
    · obtain ⟨e, types'', heq, -⟩ := bindLoop_cons_error hp rest bound
      cases h.symm.trans heq

/-! ### The methods as functions -/

variable (cx)

variable {s : Cursor JType Py Cell D} {st : PreparedStatement JType Py Cell}

theorem exec_getStatement (h : s.statement = some st) :
    (getStatement (E := E)).exec s = (.ok st, s) := by
  rw [getStatement, Program.exec_bind]
  simp [h]

/-- What `bindRow` leaves. -/
def bindOutcome (s : Cursor JType Py Cell D) (st : PreparedStatement JType Py Cell)
    (elements : List Py) : Except (DbError E) Unit × Cursor JType Py Cell D :=
  let types := if s.types.isEmpty then List.replicate st.parameterCount none else s.types
  match bindLoop cx st.operation 0 elements types st.bound with
  | (.error e, types, bound) =>
    (.error e, { (if s.types.isEmpty then s else s.storeTypes types) with
      statement := some { st with bound } })
  | (.ok (), types, bound) =>
    (.ok (), if cx.cachable && s.types.isEmpty then
        { s with statement := some { st with bound }, parameterTypes := .own types }
      else
        { (if s.types.isEmpty then s else s.storeTypes types) with
          statement := some { st with bound } })

theorem exec_bindRow (elements : List Py) :
    (bindRow cx st elements).exec s = bindOutcome cx s st elements := by
  rw [bindRow, bindOutcome, Program.exec_bind]
  simp only [Program.exec_get]
  rcases bindLoop cx st.operation 0 elements
    (if s.types.isEmpty then List.replicate st.parameterCount none else s.types) st.bound with
    ⟨_ | _, types, bound⟩
  · rw [Program.exec_bind]
    rfl
  · rw [Program.exec_bind]
    simp only [Program.exec_modify]
    rcases cx.cachable with - | - <;> rcases s.types.isEmpty with - | - <;> rfl

theorem exec_setParams_nil : (setParams (E := E) (D := D) cx (.values [])).exec s = (.ok (), s) :=
  rfl

theorem exec_setParams_short (h : s.statement = some st) {elements : List Py}
    (hne : elements ≠ []) (hlength : elements.length ≠ st.parameterCount) :
    (setParams cx (.values elements)).exec s =
      (.error (.programmingError (incorrectNumber st.parameterCount elements.length)), s) := by
  rcases elements with - | ⟨p, rest⟩
  · exact absurd rfl hne
  · rw [setParams, Program.exec_bind, exec_getStatement h]
    simp only [if_pos hlength, Program.exec_throw]

theorem exec_setParams (h : s.statement = some st) {elements : List Py}
    (hne : elements ≠ []) (hlength : elements.length = st.parameterCount) :
    (setParams cx (.values elements)).exec s = bindOutcome cx s st elements := by
  rcases elements with - | ⟨p, rest⟩
  · exact absurd rfl hne
  · rw [setParams, Program.exec_bind, exec_getStatement h]
    simp only [ne_eq, hlength, not_true_eq_false, if_false]
    exact exec_bindRow cx (p :: rest)

/-! ### Handing a row over -/

/-- A call hands what is bound over to the driver, once, and counts it as taken if it returns. The
lists of types are as they were. -/
structure HandsOver (st : PreparedStatement JType Py Cell) (s : Cursor JType Py Cell D)
    (outcome : Except (DbError E) Unit × Cursor JType Py Cell D) : Prop where
  parameterTypes : outcome.2.parameterTypes = s.parameterTypes
  callerTypes : outcome.2.callerTypes = s.callerTypes
  statement : ∃ results, outcome.2.statement = some
    { st with
      sent := st.sent ++ [st.bound]
      taken := if outcome.1.isOk then st.taken + 1 else st.taken
      results }

variable {cx}

theorem handsOver_addBatch (h : s.statement = some st) :
    HandsOver st s ((addBatch dr).exec s) := by
  rw [addBatch, Program.exec_bind, exec_getStatement h]
  simp only [Program.exec_bind, Program.exec_get]
  rcases dr.addBatch st.bound s.db with ⟨e | ⟨⟩, db⟩
  · exact ⟨rfl, rfl, st.results, rfl⟩
  · exact ⟨rfl, rfl, st.results, rfl⟩

/-- `_executeone` after `_setParams`, less the count that it returns. -/
def runOne : CursorM JType Py Cell D E Unit := do
  let results ← executeStatement dr
  match results with
  | .resultSet columns rows :: _ => modify (onResultSet columns rows)
  | _ => pure ()
  modify fun s ↦ { s with rowcount := updateCount results }

theorem handsOver_runOne (h : s.statement = some st) :
    HandsOver st s ((runOne dr).exec s) := by
  rw [runOne, executeStatement, Program.exec_bind, Program.exec_bind, exec_getStatement h]
  simp only [Program.exec_bind, Program.exec_get]
  rcases dr.execute st.bound s.db with ⟨e | results, db⟩
  · exact ⟨rfl, rfl, st.results, rfl⟩
  · rcases results with - | ⟨⟨columns, rows⟩ | ⟨count⟩, rest⟩
    all_goals exact ⟨rfl, rfl, _, rfl⟩

/-! ### What ought to be sent -/

variable (cx) (operation)

/-- The setter that the caller has given for position `i`. -/
def givenSetter (types : Option (List (Option JType))) (i : ℕ) : Option JType :=
  ((types.getD [])[i]?).join

/-- `cx._setters` chooses this setter for the element by itself. -/
def Chosen (i : ℕ) (p : Py) (t : JType) : Prop :=
  ∃ v, adapt cx p = .ok v ∧ cx.setters operation i (cx.typeOf v) = .ok (some t)

/-- `cx._setters` chooses this setter for the element of one of the first `n` rows. -/
def ChosenBefore (rows : List (Parameters Py)) (n i : ℕ) (t : JType) : Prop :=
  ∃ j < n, ∃ elements p, rows[j]? = some (.values elements) ∧ elements[i]? = some p ∧
    Chosen cx operation i p t

/-- The setters that are in order for the `i`-th element of row `n`: the one that the caller has
given, and without that the one that is chosen for the element, or a cached one. -/
def InOrder (types : Option (List (Option JType))) (rows : List (Parameters Py)) (n i : ℕ)
    (p : Py) (t : JType) : Prop :=
  givenSetter types i = some t ∨
    givenSetter types i = none ∧ (Chosen cx operation i p t ∨
      cx.cachable = true ∧ ChosenBefore cx operation rows n i t)

/-- The bindings carry row `n`: there are as many elements as parameters, and each is bound at its
own position, by a setter that is in order. -/
def Carries (types : Option (List (Option JType))) (rows : List (Parameters Py)) (count n : ℕ)
    (bound : Bindings JType Py) : Prop :=
  ∃ elements, rows[n]? = some (.values elements) ∧ elements.length = count ∧
    ∀ (i : ℕ) (p : Py), elements[i]? = some p → ∃ v t, adapt cx p = .ok v ∧
      bound i = some (t, v) ∧ InOrder cx operation types rows n i p t

/-- **Parameters reach their own row**, when the rows are sent by a call that ends like this. -/
structure Faithful (types : Option (List (Option JType))) (rows : List (Parameters Py))
    (outcome : Except (DbError E) Unit) (s : Cursor JType Py Cell D) : Prop where
  /-- The list of the caller is as it was. -/
  callerTypes : s.callerTypes = types.getD []
  /-- What is sent carries its row. -/
  carries : ∀ st, s.statement = some st → ∀ (n : ℕ) (bound : Bindings JType Py),
    st.sent[n]? = some bound → Carries cx operation types rows st.parameterCount n bound
  /-- A row of the wrong length raises when it is its turn, and is not sent. -/
  length : ∀ st, s.statement = some st → ∀ (n : ℕ) (elements : List Py),
    rows[n]? = some (.values elements) → elements.length ≠ st.parameterCount → n ≤ st.taken →
      st.sent.length = n ∧
        outcome = .error (.programmingError (incorrectNumber st.parameterCount elements.length))

/-- The row is not empty unless the statement has no parameters, and binding it enters no setter
in the list that the caller has passed. -/
structure Proper (types : Option (List (Option JType))) (count : ℕ) (params : Parameters Py) :
    Prop where
  nonempty : params = .values [] → count = 0
  stores : ∀ elements, params = .values elements → elements.length = count →
    ¬Stores cx operation (types.getD []) 0 elements

/-! ### Between two rows -/

/-- The lists of types after `n` rows. -/
structure TypesReady (types : Option (List (Option JType))) (rows : List (Parameters Py)) (n : ℕ)
    (s : Cursor JType Py Cell D) : Prop where
  callerTypes : s.callerTypes = types.getD []
  /-- A list that the caller has filled is the one that is used. -/
  caller : types.getD [] ≠ [] → s.parameterTypes = .caller
  /-- A setter in the list is the caller's or a cached one. -/
  setters : ∀ (i : ℕ) (t : JType), s.types[i]? = some (some t) →
    givenSetter types i = some t ∨
      givenSetter types i = none ∧ cx.cachable = true ∧ ChosenBefore cx operation rows n i t
  /-- Without a setter in the list there is none of the caller. -/
  absent : ∀ i : ℕ, (s.types[i]?).join = none → givenSetter types i = none
  /-- A list of the cursor's own has all setters. -/
  own : ∀ l, s.parameterTypes = .own l → ∀ i : ℕ, l[i]? ≠ some none

/-- The state before row `n`. -/
structure Ready (types : Option (List (Option JType))) (rows : List (Parameters Py)) (n : ℕ)
    (s : Cursor JType Py Cell D) (st : PreparedStatement JType Py Cell) : Prop
    extends TypesReady cx operation types rows n s where
  statement : s.statement = some st
  sameOperation : st.operation = operation
  length : st.sent.length = n
  taken : st.taken = n
  carries : ∀ (j : ℕ) (bound : Bindings JType Py), st.sent[j]? = some bound →
    Carries cx operation types rows st.parameterCount j bound

variable {cx operation} {types : Option (List (Option JType))} {rows : List (Parameters Py)}
  {n : ℕ}

theorem ChosenBefore.mono {n' i : ℕ} {t : JType} (h : ChosenBefore cx operation rows n i t)
    (hn : n ≤ n') : ChosenBefore cx operation rows n' i t := by
  obtain ⟨j, hj, h⟩ := h
  exact ⟨j, Nat.lt_of_lt_of_le hj hn, h⟩

theorem TypesReady.succ (h : TypesReady cx operation types rows n s) :
    TypesReady cx operation types rows (n + 1) s := by
  refine { h with setters := fun i t ht ↦ ?_ }
  exact (h.setters i t ht).imp_right fun hn ↦ ⟨hn.1, hn.2.1, hn.2.2.mono (Nat.le_succ n)⟩

theorem Stores.exists_none {types : List (Option JType)} {i : ℕ} {elements : List Py}
    (h : Stores cx operation types i elements) : ∃ j : ℕ, types[j]? = some none := by
  induction h with
  | here hadapt htypes hsetter => exact ⟨_, htypes⟩
  | later hadapt htypes hset hrest ih => exact ih

theorem storeTypes_types (h : s.types.isEmpty = false) : s.storeTypes s.types = s := by
  rcases s with ⟨closed, statement, resultSet, resultSetMeta, resultSetCount, columnTypes,
    description, rowcount, arraysize, - | - | l, callerTypes, db⟩
  · cases h
  · rfl
  · rfl

theorem TypesReady.of_eq {s' : Cursor JType Py Cell D}
    (h : TypesReady cx operation types rows n s) (hparam : s'.parameterTypes = s.parameterTypes)
    (hcaller : s'.callerTypes = s.callerTypes) : TypesReady cx operation types rows n s' := by
  have htypes : s'.types = s.types := by rw [Cursor.types, Cursor.types, hparam, hcaller]
  exact ⟨hcaller.trans h.callerTypes, fun hne ↦ hparam.trans (h.caller hne), htypes ▸ h.setters,
    htypes ▸ h.absent, hparam ▸ h.own⟩

/-- In a list that is in use already, binding a row enters no setter. -/
theorem TypesReady.not_stores (h : TypesReady cx operation types rows n s)
    {elements : List Py} (hstores : ¬Stores cx operation (types.getD []) 0 elements) :
    ¬Stores cx operation s.types 0 elements := by
  intro hs
  rcases hparam : s.parameterTypes with - | - | l
  · obtain ⟨j, hj⟩ := hs.exists_none
    simp [Cursor.types, hparam] at hj
  · rw [Cursor.types, hparam] at hs
    exact hstores (h.callerTypes ▸ hs)
  · obtain ⟨j, hj⟩ := hs.exists_none
    rw [Cursor.types, hparam] at hj
    exact h.own l hparam j hj

/-- The setter by which a row has been bound is in order. -/
theorem TypesReady.inOrder (h : TypesReady cx operation types rows n s) {i : ℕ} {p v : Py}
    {t : JType} (hbound : BoundAt cx operation s.types i p v t) :
    InOrder cx operation types rows n i p t := by
  rcases hbound.setter with ht | ⟨hnone, hsetter⟩
  · exact (h.setters i t ht).imp_right fun hn ↦ ⟨hn.1, .inr hn.2⟩
  · exact .inr ⟨h.absent i (by rw [hnone]; rfl), .inl ⟨v, hbound.adapt, hsetter⟩⟩

/-- Binding a row with the list in use. -/
theorem Ready.bindOutcome_inUse (h : Ready cx operation types rows n s st) {elements : List Py}
    (hrow : rows[n]? = some (.values elements)) (hlength : elements.length = st.parameterCount)
    (hstores : ¬Stores cx operation (types.getD []) 0 elements)
    (hfresh : s.types.isEmpty = false) :
    ∃ outcome bound, bindOutcome cx s st elements =
        (outcome, { s with statement := some { st with bound } }) ∧
      (outcome = .ok () → Carries cx operation types rows st.parameterCount n bound) := by
  have hsame := (bindLoop_types_eq_iff 0 elements s.types st.bound).2 (h.not_stores hstores)
  obtain rfl := h.sameOperation
  rw [bindOutcome, hfresh]
  simp only [Bool.false_eq_true, if_false, Bool.and_false]
  rcases hloop : bindLoop cx st.operation 0 elements s.types st.bound with ⟨e | ⟨⟩, types', bound⟩
  · rw [hloop] at hsame
    obtain rfl : types' = s.types := hsame
    refine ⟨.error e, bound, ?_, fun he ↦ nomatch he⟩
    simp only [storeTypes_types hfresh]
  · rw [hloop] at hsame
    obtain rfl : types' = s.types := hsame
    refine ⟨.ok (), bound, ?_, fun _ ↦ ⟨elements, hrow, hlength, fun i p hi ↦ ?_⟩⟩
    · simp only [storeTypes_types hfresh]
    obtain ⟨v, t, hbound, hb, -⟩ := (bindLoop_ok hloop).2 i p hi
    rw [Nat.zero_add] at hbound hb
    exact ⟨v, t, hbound.adapt, hb, h.inOrder hbound⟩

/-- Binding a row with a fresh list, which is kept if the rule is cachable. -/
theorem Ready.bindOutcome_fresh (h : Ready cx operation types rows n s st) {elements : List Py}
    (hrow : rows[n]? = some (.values elements)) (hlength : elements.length = st.parameterCount)
    (hfresh : s.types.isEmpty = true) :
    ∃ outcome bound types', bindOutcome cx s st elements =
        (outcome, { s with
          statement := some { st with bound }
          parameterTypes :=
            if outcome.isOk ∧ cx.cachable then .own types' else s.parameterTypes }) ∧
      (outcome = .ok () → Carries cx operation types rows st.parameterCount n bound ∧
        types'.length = elements.length ∧ ∀ (i : ℕ) (p : Py), elements[i]? = some p →
          ∃ t, types'[i]? = some (some t) ∧ Chosen cx operation i p t) := by
  obtain rfl := h.sameOperation
  rw [bindOutcome, hfresh]
  simp only [if_true, Bool.and_true]
  have hext := bindLoop_extends cx st.operation 0 elements
    (List.replicate st.parameterCount none) st.bound
  rcases hloop : bindLoop cx st.operation 0 elements (List.replicate st.parameterCount none)
    st.bound with ⟨e | ⟨⟩, types', bound⟩
  · exact ⟨.error e, bound, types', rfl, fun he ↦ nomatch he⟩
  · rw [hloop] at hext
    have hchosen : ∀ (i : ℕ) (p : Py), elements[i]? = some p → ∃ v t,
        BoundAt cx st.operation (List.replicate st.parameterCount none) i p v t ∧
          bound i = some (t, v) ∧ types'[i]? = some (some t) ∧ Chosen cx st.operation i p t := by
      intro i p hi
      obtain ⟨v, t, hbound, hb, ht⟩ := (bindLoop_ok hloop).2 i p hi
      rw [Nat.zero_add] at hbound hb ht
      refine ⟨v, t, hbound, hb, ht, v, hbound.adapt, ?_⟩
      rcases hbound.setter with hset | hset
      · rw [List.getElem?_replicate] at hset
        split at hset <;> cases hset
      · exact hset.2
    refine ⟨.ok (), bound, types', ?_, fun _ ↦ ⟨⟨elements, hrow, hlength, fun i p hi ↦ ?_⟩, ?_,
      fun i p hi ↦ ?_⟩⟩
    · rcases cx.cachable with - | - <;> rfl
    · obtain ⟨v, t, hbound, hb, -, hc⟩ := hchosen i p hi
      refine ⟨v, t, hbound.adapt, hb, .inr ⟨h.absent i ?_, .inl hc⟩⟩
      rw [List.isEmpty_iff.1 hfresh]
      rfl
    · rw [hext.length, List.length_replicate, hlength]
    · obtain ⟨v, t, -, -, ht, hc⟩ := hchosen i p hi
      exact ⟨t, ht, hc⟩

/-- A fresh list that is kept holds the setters that were chosen for the row. -/
theorem TypesReady.cached {s' : Cursor JType Py Cell D}
    (h : TypesReady cx operation types rows n s) (hfresh : s.types.isEmpty = true)
    {elements : List Py} (hrow : rows[n]? = some (.values elements))
    (hcachable : cx.cachable = true) {types' : List (Option JType)}
    (hlength : types'.length = elements.length)
    (htypes : ∀ (i : ℕ) (p : Py), elements[i]? = some p →
      ∃ t, types'[i]? = some (some t) ∧ Chosen cx operation i p t)
    (hparam : s'.parameterTypes = .own types') (hcaller : s'.callerTypes = s.callerTypes) :
    TypesReady cx operation types rows (n + 1) s' := by
  have hempty : s.types = [] := List.isEmpty_iff.1 hfresh
  have hsame : s'.types = types' := by rw [Cursor.types, hparam]
  have hgiven : ∀ i, givenSetter types i = none := fun i ↦ h.absent i (by rw [hempty]; rfl)
  have hset : ∀ (i : ℕ) (t : Option JType), types'[i]? = some t →
      ∃ p t', elements[i]? = some p ∧ t = some t' ∧ Chosen cx operation i p t' := by
    intro i t hi
    have hlt : i < elements.length := hlength ▸ (List.getElem?_eq_some_iff.1 hi).1
    obtain ⟨t', ht', hchosen⟩ := htypes i _ (List.getElem?_eq_getElem hlt)
    exact ⟨_, t', List.getElem?_eq_getElem hlt, Option.some.inj (hi.symm.trans ht'), hchosen⟩
  refine ⟨hcaller.trans h.callerTypes, fun hne ↦ ?_, fun i t ht ↦ ?_, fun i _ ↦ hgiven i,
    fun l hl i hi ↦ ?_⟩
  · -- the caller's list would be in use
    have hparam' := h.caller hne
    rw [Cursor.types, hparam', h.callerTypes] at hempty
    exact absurd hempty hne
  · rw [hsame] at ht
    obtain ⟨p, t', hp, ht', hchosen⟩ := hset i _ ht
    obtain rfl := Option.some.inj ht'
    exact .inr ⟨hgiven i, hcachable, n, Nat.lt_succ_self n, elements, p, hrow, hp, hchosen⟩
  · obtain rfl := TypesRef.own.inj (hparam.symm.trans hl)
    obtain ⟨p, t', -, ht', -⟩ := hset i none hi
    cases ht'

/-- Binding a row that is proper: it is carried if the call returns, and otherwise the caller's list
is as it was, and a row of the wrong length is the reason if it is one. -/
theorem Ready.exec_setParams (h : Ready cx operation types rows n s st) {params : Parameters Py}
    (hrow : rows[n]? = some params)
    (hproper : Proper cx operation types st.parameterCount params) :
    (∃ s' bound, (setParams cx params).exec s = (.ok (), s') ∧
      s'.statement = some { st with bound } ∧ TypesReady cx operation types rows (n + 1) s' ∧
      Carries cx operation types rows st.parameterCount n bound) ∨
    ∃ e s' bound, (setParams cx params).exec s = (.error e, s') ∧
      s'.statement = some { st with bound } ∧ s'.callerTypes = types.getD [] ∧
      ∀ elements, params = .values elements → elements.length ≠ st.parameterCount →
        e = .programmingError (incorrectNumber st.parameterCount elements.length) := by
  rcases params with - | - | typeName | elements
  · exact .inr ⟨_, s, st.bound, rfl, h.statement, h.callerTypes, fun _ he ↦ nomatch he⟩
  · exact .inr ⟨_, s, st.bound, rfl, h.statement, h.callerTypes, fun _ he ↦ nomatch he⟩
  · exact .inr ⟨_, s, st.bound, rfl, h.statement, h.callerTypes, fun _ he ↦ nomatch he⟩
  rcases eq_or_ne elements [] with rfl | hne
  · refine .inl ⟨s, st.bound, rfl, h.statement, h.toTypesReady.succ, [], hrow,
      (hproper.nonempty rfl).symm, fun i p hi ↦ ?_⟩
    simp at hi
  rcases eq_or_ne elements.length st.parameterCount with hlength | hlength
  · rw [Cursor.exec_setParams cx h.statement hne hlength]
    have hstores := hproper.stores elements rfl hlength
    rcases hfresh : s.types.isEmpty with - | -
    · obtain ⟨outcome, bound, heq, hcarries⟩ := h.bindOutcome_inUse hrow hlength hstores hfresh
      rcases outcome with e | ⟨⟩
      · exact .inr ⟨e, _, bound, heq, rfl, h.callerTypes, fun elements' he hne' ↦
          absurd hlength (Parameters.values.inj he ▸ hne')⟩
      · exact .inl ⟨_, bound, heq, rfl, h.toTypesReady.succ.of_eq rfl rfl, hcarries rfl⟩
    · obtain ⟨outcome, bound, types', heq, hok⟩ := h.bindOutcome_fresh hrow hlength hfresh
      rcases outcome with e | ⟨⟩
      · exact .inr ⟨e, _, bound, heq, rfl, h.callerTypes, fun elements' he hne' ↦
          absurd hlength (Parameters.values.inj he ▸ hne')⟩
      obtain ⟨hcarries, hlength', htypes⟩ := hok rfl
      refine .inl ⟨_, bound, heq, rfl, ?_, hcarries⟩
      rcases hcachable : cx.cachable with - | -
      · exact h.toTypesReady.succ.of_eq rfl rfl
      · exact h.toTypesReady.cached hfresh hrow hcachable hlength' htypes rfl rfl
  · rw [exec_setParams_short cx h.statement hne hlength]
    exact .inr ⟨_, s, st.bound, rfl, h.statement, h.callerTypes, fun elements' he _ ↦
      by rw [Parameters.values.inj he]⟩

/-- What a call leaves is faithful if everything sent carries its row, and nothing is next or a row
of the wrong length raises. -/
theorem faithful_of_carries {outcome : Except (DbError E) Unit} (hst : s.statement = some st)
    (hcaller : s.callerTypes = types.getD [])
    (hcarries : ∀ (j : ℕ) (bound : Bindings JType Py), st.sent[j]? = some bound →
      Carries cx operation types rows st.parameterCount j bound)
    (htaken : st.taken ≤ st.sent.length)
    (hnext : st.taken = st.sent.length → ∀ elements,
      rows[st.sent.length]? = some (.values elements) → elements.length ≠ st.parameterCount →
        outcome = .error (.programmingError (incorrectNumber st.parameterCount elements.length))) :
    Faithful cx operation types rows outcome s := by
  refine ⟨hcaller, fun st' hst' ↦ ?_, fun st' hst' n elements hrow hlength hn ↦ ?_⟩
  · obtain rfl := Option.some.inj (hst.symm.trans hst')
    exact hcarries
  · obtain rfl := Option.some.inj (hst.symm.trans hst')
    rcases Nat.lt_or_ge n st.sent.length with hlt | hge
    · obtain ⟨elements', hrow', hlength', -⟩ := hcarries n _ (List.getElem?_eq_getElem hlt)
      have hsame := Parameters.values.inj (Option.some.inj (hrow.symm.trans hrow'))
      exact absurd (hsame ▸ hlength') hlength
    · have hlast : st.taken = st.sent.length := by omega
      obtain rfl : n = st.sent.length := by omega
      exact ⟨rfl, hnext hlast elements hrow hlength⟩

/-- Handing over a row that is carried: what is left is ready for the next row if the call returns,
and faithful if it raises. -/
theorem handOver_carried {s' s'' : Cursor JType Py Cell D} {outcome : Except (DbError E) Unit}
    (h : Ready cx operation types rows n s st) {bound : Bindings JType Py}
    (htypes : TypesReady cx operation types rows (n + 1) s')
    (hbound : Carries cx operation types rows st.parameterCount n bound)
    (hover : HandsOver { st with bound } s' (outcome, s'')) :
    (outcome = .ok () → ∃ st', st'.parameterCount = st.parameterCount ∧
      Ready cx operation types rows (n + 1) s'' st') ∧
      ∀ e, outcome = .error e → Faithful cx operation types rows (.error e) s'' := by
  obtain ⟨results, hst''⟩ := hover.statement
  have hcarries : ∀ (j : ℕ) (b : Bindings JType Py), (st.sent ++ [bound])[j]? = some b →
      Carries cx operation types rows st.parameterCount j b := by
    intro j b hj
    rcases Nat.lt_or_ge j st.sent.length with hlt | hge
    · rw [List.getElem?_append_left hlt] at hj
      exact h.carries j b hj
    · rw [List.getElem?_append_right hge] at hj
      obtain ⟨hzero, hb⟩ := List.getElem?_eq_some_iff.1 hj
      obtain rfl : bound = b := by simpa using hb
      obtain rfl : j = n := by
        have := h.length
        simp at hzero
        omega
      exact hbound
  rcases outcome with e | ⟨⟩
  · refine ⟨nofun, fun e' he ↦ ?_⟩
    obtain rfl := Except.error.inj he
    refine faithful_of_carries hst'' ?_ hcarries ?_ fun heq ↦ ?_
    · exact hover.callerTypes.trans htypes.callerTypes
    · show st.taken ≤ (st.sent ++ [bound]).length
      rw [h.taken, List.length_append, h.length]
      omega
    · have heq : st.taken = (st.sent ++ [bound]).length := heq
      rw [h.taken, List.length_append, h.length] at heq
      simp at heq
  · have hready := htypes.of_eq hover.parameterTypes hover.callerTypes
    refine ⟨fun _ ↦ ⟨{ st with bound, sent := st.sent ++ [bound], taken := st.taken + 1, results },
      rfl, ⟨hready, hst'', h.sameOperation, ?_, ?_, hcarries⟩⟩, nofun⟩
    · show (st.sent ++ [bound]).length = n + 1
      rw [List.length_append, h.length]
      rfl
    · show st.taken + 1 = n + 1
      rw [h.taken]

end Cursor

end JPype
