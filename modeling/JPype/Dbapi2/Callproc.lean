import JPype.Dbapi2.Execution

/-!
# Stored procedures

`Cursor.callproc` binds the parameters that go in, is to register those that come out, runs the
call, and reads what has come out back into a copy of the parameters.

The registration is written as a call of a method of the cursor, which has none of this name. So a
call with a parameter that comes out ends with an `AttributeError` as soon as that parameter is
reached, and the last loop of the code only ever sees calls in which nothing comes out. The list
`types` is also a scratch list: each parameter that goes in is crossed out of it, which a tuple does
not allow (`callproc_replacesOutputs_iff`).
-/

namespace JPype

open Foundation

/-- `parameterModeIn`, `parameterModeInOut` and `parameterModeOut` of
`java.sql.ParameterMetaData`. -/
inductive ParameterMode where
  | modeIn
  | modeInOut
  | modeOut
  deriving DecidableEq, Repr

/-- How `prepareCall` fails. -/
inductive PrepareCallFailure (E : Type) where
  | sqlException (message : String)
  | raised (e : E)

/-- A connection to a database with stored procedures. -/
structure CallDriver (JType Py Cell D E : Type) extends Driver JType Py Cell D E where
  prepareCall : String → D → Except (PrepareCallFailure E) Unit × D
  /-- The modes of the parameters of a call, as `getParameterMetaData` has them. -/
  getParameterMetaData : String → Except E (List ParameterMode)
  /-- `JDBCType.get` on the statement that has been called. -/
  get : JType → ℕ → D → Except E Py

/-- What `callproc` raises. -/
inductive CallError (E : Type) where
  | db (e : DbError E)
  /-- Assignment to an item of a tuple. -/
  | typeError
  /-- `cx._converters[type(value)]` -/
  | keyError

/-- An error of the code itself: not of the database, and not the one for a parameter that has no
setter or for lists of different lengths. -/
def CallError.Internal {E : Type} : CallError E → Prop
  | .db .indexError => True
  | .db .attributeError => True
  | .db _ => False
  | .typeError => True
  | .keyError => True

/-- The argument `types` of `callproc`. -/
inductive TypesArgument (JType : Type) where
  | none
  | list (types : List (Option JType))
  | tuple (types : List (Option JType))

namespace TypesArgument

variable {JType : Type}

/-- The items of `types`, if it has been given. -/
def items : TypesArgument JType → Option (List (Option JType))
  | .none => Option.none
  | .list types => some types
  | .tuple types => some types

/-- `types` cannot be assigned to. -/
def frozen : TypesArgument JType → Bool
  | .tuple _ => true
  | _ => false

/-- The type that has been given for a position. -/
def given (types : TypesArgument JType) (i : ℕ) : Option JType :=
  (types.items.bind (·[i]?)).join

end TypesArgument

variable {Py Ty JType Cell D E : Type}

/-- The cursor, the list of the caller that is called `parameters`, and the one that the call names
`types`: the caller's if it has been given. -/
structure CallState (JType Py Cell D : Type) where
  cursor : Cursor JType Py Cell D
  parameters : List Py
  types : List (Option JType) := []

abbrev CallM (JType Py Cell D E : Type) := Program (CallState JType Py Cell D) (CallError E)

namespace Cursor

/-- A method of the cursor. -/
def onCursor {α : Type} (x : CursorM JType Py Cell D E α) : CallM JType Py Cell D E α :=
  ExceptT.mk fun s ↦
    ((x.exec s.cursor).1.mapError .db, { s with cursor := (x.exec s.cursor).2 })

section

variable (cd : CallDriver JType Py Cell D E) (cx : Connection Py Ty JType Cell E)

/-- `types[i] = t` -/
def setItem (frozen : Bool) (types : List (Option JType)) (i : ℕ) (t : Option JType) :
    Except (CallError E) Unit × List (Option JType) :=
  if frozen then (.error .typeError, types) else (.ok (), types.set i t)

/-- `self.registerOutParameter(...)`: a cursor has no such attribute. -/
def registerOutParameter : Except (CallError E) Unit :=
  .error (.db .attributeError)

/-- `jdbcType`: the entry of `types`, which is looked up where it is `None`. -/
def lookUp (query : String) (frozen : Bool) (i : ℕ) (p : Py) (types : List (Option JType)) :
    Except (CallError E) JType × List (Option JType) :=
  match types[i]? with
  | none => (.error (.db .indexError), types)
  | some (some t) => (.ok t, types)
  | some none =>
    match cx.setters query i (cx.typeOf p) with
    | .error e => (.error (.db (.raised e)), types)
    | .ok t =>
      match setItem frozen types i t, t with
      | (.error e, types), _ => (.error e, types)
      | (.ok (), types), some t => (.ok t, types)
      | (.ok (), types), none =>
        (.error (.db (.unsupportedTypeError
          ("no setter found for '" ++ cx.typeName (cx.typeOf p) ++ "'"))), types)

/-- The body of the first loop of `callproc`. -/
def bindParameter (query : String) (frozen : Bool) (i : ℕ) (p : Py) (mode : ParameterMode)
    (types : List (Option JType)) (bound : Bindings JType Py) :
    Except (CallError E) Unit × List (Option JType) × Bindings JType Py :=
  match adapt cx p with
  | .error e => (.error (.db (.raised e)), types, bound)
  | .ok p =>
    match lookUp cx query frozen i p types with
    | (.error e, types) => (.error e, types, bound)
    | (.ok t, types) =>
      match mode with
      | .modeIn =>
        match cx.set t i p with
        | .error e => (.error (.db (.raised e)), types, bound)
        | .ok () =>
          let (outcome, types) := setItem frozen types i none
          (outcome, types, Function.update bound i (some (t, p)))
      | .modeInOut =>
        match cx.set t i p with
        | .error e => (.error (.db (.raised e)), types, bound)
        | .ok () => (registerOutParameter, types, Function.update bound i (some (t, p)))
      | .modeOut => (registerOutParameter, types, bound)

/-- The first loop of `callproc`, from position `i` on. -/
def callLoop (query : String) (frozen : Bool) (parameters : List Py) :
    ℕ → List ParameterMode → List (Option JType) → Bindings JType Py →
      Except (CallError E) Unit × List (Option JType) × Bindings JType Py
  | _, [], types, bound => (.ok (), types, bound)
  | i, mode :: modes, types, bound =>
    match parameters[i]? with
    | none => (.error (.db .indexError), types, bound)
    | some p =>
      match bindParameter cx query frozen i p mode types bound with
      | (.error e, types, bound) => (.error e, types, bound)
      | (.ok (), types, bound) => callLoop query frozen parameters (i + 1) modes types bound

/-- The value that comes out at a position, converted. -/
def outValue (db : D) (t : JType) (i : ℕ) : Except (CallError E) Py :=
  match cd.get t i db with
  | .error e => .error (.db (.raised e))
  | .ok value =>
    match cx.converters (cx.typeOf value) with
    | none => .error .keyError
    | some converter => (converter value).mapError fun e ↦ .db (.raised e)

/-- The last loop of `callproc`, over `types` from position `i` on. -/
def readBack (db : D) : ℕ → List (Option JType) → List Py → Except (CallError E) (List Py)
  | _, [], out => .ok out
  | i, none :: types, out => readBack db (i + 1) types out
  | i, some t :: types, out => do
    let value ← outValue cd cx db t i
    readBack db (i + 1) types (out.set i value)

/-- `"{CALL %s(%s)}" % (procname, ",".join("?" * len(parameters)))` -/
def callText (procname : String) (count : ℕ) : String :=
  "\x7bCALL " ++ procname ++ "(" ++ ",".intercalate (List.replicate count "?") ++ ")\x7d"

/-- `self._jcx.prepareCall(query)` -/
def prepareCall (query : String) (count : ℕ) : CursorM JType Py Cell D E Unit := do
  let s ← get
  match cd.prepareCall query s.db with
  | (.ok (), db) =>
    modify fun s ↦
      { s with statement := some { operation := query, parameterCount := count }, db }
  | (.error failure, db) =>
    modify fun s ↦ { s with db }
    match failure with
    | .sqlException message => throw (.programmingError message)
    | .raised e => throw (.raised e)

/-- The message for a list of types of the wrong length. -/
def wrongCount (count length : ℕ) : String :=
  "expected '" ++ toString count ++ "' types, got '" ++ toString length ++ "'"

/-- The parameter modes of the call, and its list of types. -/
def takeMetaData (query : String) (types : TypesArgument JType) :
    CallM JType Py Cell D E (List ParameterMode) := do
  let s ← get
  if s.parameters.isEmpty then
    modify fun s ↦ { s with types := [] }
    return []
  else
    match cd.getParameterMetaData query with
    | .error e => throw (.db (.raised e))
    | .ok modes =>
      match types.items with
      | none => modify fun s ↦ { s with types := List.replicate modes.length none }
      | some items =>
        modify fun s ↦ { s with types := items }
        if items.length ≠ modes.length then
          throw (.db (.programmingError (wrongCount modes.length items.length)))
      return modes

/-- The first loop, on the statement that is prepared. -/
def bindParameters (query : String) (frozen : Bool) (modes : List ParameterMode) :
    CallM JType Py Cell D E Unit := do
  let statement ← onCursor getStatement
  let s ← get
  match callLoop cx query frozen s.parameters 0 modes s.types statement.bound with
  | (outcome, types, bound) =>
    modify fun s ↦
      { s with types, cursor := { s.cursor with statement := some { statement with bound } } }
    match outcome with
    | .error e => throw e
    | .ok () => pure ()

/-- `self._statement.execute()`, and what it leaves on the cursor. -/
def runCall : CursorM JType Py Cell D E Unit := do
  let results ← executeStatement cd.toDriver
  match results with
  | .resultSet columns rows :: _ => modify (onResultSet columns rows)
  | _ => pure ()
  modify fun s ↦ { s with rowcount := updateCount results }

/-- What a call does until its parameters are bound. -/
def openCall (query : String) (types : TypesArgument JType) :
    CallM JType Py Cell D E (List ParameterMode) := do
  onCursor (validate cd.toDriver)
  onCursor (modify finish)
  let s ← get
  onCursor (prepareCall cd query s.parameters.length)
  takeMetaData cd query types

/-- `callproc`, on `parameters` of the state. -/
def callproc (procname : String) (types : TypesArgument JType) :
    CallM JType Py Cell D E (List Py) := do
  let s ← get
  let query := callText procname s.parameters.length
  let modes ← openCall cd query types
  bindParameters cx query types.frozen modes
  onCursor (runCall cd)
  let s' ← get
  match readBack cd cx s'.cursor.db 0 s'.types s.parameters with
  | .error e => throw e
  | .ok out => return out

end

/-! ### Binding one parameter -/

section

variable (cx : Connection Py Ty JType Cell E) (query : String) (frozen : Bool) (i : ℕ)

/-- The type that is used for a value, given or looked up. -/
def Picked (given : Option JType) (v : Py) (t : JType) : Prop :=
  given = some t ∨ given = none ∧ frozen = false ∧ cx.setters query i (cx.typeOf v) = .ok (some t)

/-- The parameter is refused by an adapter or by a setter, or there is no setter for it. -/
inductive Refused (p : Py) (mode : ParameterMode) (given : Option JType) : Prop
  | adapter {e : E} (h : adapt cx p = .error e)
  | lookUp {v : Py} {e : E} (hv : adapt cx p = .ok v) (hgiven : given = none)
      (h : cx.setters query i (cx.typeOf v) = .error e)
  | missing {v : Py} (hv : adapt cx p = .ok v) (hgiven : given = none) (hfrozen : frozen = false)
      (h : cx.setters query i (cx.typeOf v) = .ok none)
  | set {v : Py} {t : JType} {e : E} (hv : adapt cx p = .ok v)
      (ht : Picked cx query frozen i given v t) (hmode : mode ≠ .modeOut)
      (h : cx.set t i v = .error e)

variable {cx query frozen i} {p v : Py} {mode : ParameterMode} {given : Option JType} {t : JType}
  {types : List (Option JType)} {bound : Bindings JType Py}

theorem Picked.eq {t' : JType} (h : Picked cx query frozen i given v t)
    (h' : Picked cx query frozen i given v t') : t = t' := by
  obtain rfl | ⟨rfl, -, ht⟩ := h
  · obtain ht' | ⟨hgiven, -⟩ := h'
    · exact Option.some.inj ht'
    · exact absurd hgiven (Option.some_ne_none t)
  · obtain hgiven | ⟨-, -, ht'⟩ := h'
    · exact absurd hgiven.symm (Option.some_ne_none t')
    · exact Option.some.inj (Except.ok.inj (ht.symm.trans ht'))

/-- A parameter with a type is refused only by `JDBCType.set`. -/
theorem refused_iff_of_picked (hv : adapt cx p = .ok v) (ht : Picked cx query frozen i given v t) :
    Refused cx query frozen i p mode given ↔ mode ≠ .modeOut ∧ ∃ e, cx.set t i v = .error e := by
  constructor
  · intro h
    cases h with
    | adapter h => cases h.symm.trans hv
    | lookUp hv' hgiven h =>
      obtain rfl := Except.ok.inj (hv.symm.trans hv')
      obtain hsome | ⟨-, -, hok⟩ := ht
      · exact absurd (hgiven.symm.trans hsome).symm (Option.some_ne_none t)
      · cases h.symm.trans hok
    | missing hv' hgiven _ h =>
      obtain rfl := Except.ok.inj (hv.symm.trans hv')
      obtain hsome | ⟨-, -, hok⟩ := ht
      · exact absurd (hgiven.symm.trans hsome).symm (Option.some_ne_none t)
      · exact absurd (Except.ok.inj (h.symm.trans hok)).symm (Option.some_ne_none t)
    | set hv' ht' hmode h =>
      obtain rfl := Except.ok.inj (hv.symm.trans hv')
      obtain rfl := ht.eq ht'
      exact ⟨hmode, _, h⟩
  · rintro ⟨hmode, e, he⟩
    exact .set hv ht hmode he

variable (frozen) in
/-- The ways a look-up may go: a type, a refusal, or an assignment to a tuple. -/
theorem lookUp_cases (mode : ParameterMode) (hv : adapt cx p = .ok v)
    (htypes : types[i]? = some given) :
    (∃ t types', lookUp cx query frozen i v types = (.ok t, types') ∧
        Picked cx query frozen i given v t ∧ types'.set i none = types.set i none) ∨
      (∃ e types', lookUp cx query frozen i v types = (.error e, types') ∧ e.Internal ∧
        frozen = true ∧ ¬Refused cx query frozen i p mode given) ∨
      ∃ e types', lookUp cx query frozen i v types = (.error e, types') ∧ ¬e.Internal ∧
        Refused cx query frozen i p mode given := by
  rw [lookUp, htypes]
  cases given with
  | some t => exact .inl ⟨t, types, rfl, .inl rfl, rfl⟩
  | none =>
    dsimp only
    rcases hset : cx.setters query i (cx.typeOf v) with e | t
    · exact .inr (.inr ⟨_, _, rfl, id, .lookUp hv rfl hset⟩)
    · cases frozen with
      | true =>
        refine .inr (.inl ⟨.typeError, types, rfl, trivial, rfl, fun h ↦ ?_⟩)
        cases h with
        | adapter h => cases h.symm.trans hv
        | lookUp hv' _ h =>
          obtain rfl := Except.ok.inj (hv.symm.trans hv')
          cases h.symm.trans hset
        | missing _ _ hfrozen => exact Bool.noConfusion hfrozen
        | set _ ht =>
          obtain hsome | ⟨-, hfrozen, -⟩ := ht
          · exact absurd hsome.symm (Option.some_ne_none _)
          · exact Bool.noConfusion hfrozen
      | false =>
        cases t with
        | none => exact .inr (.inr ⟨_, _, rfl, id, .missing hv rfl rfl hset⟩)
        | some t => exact .inl ⟨t, types.set i (some t), rfl, .inr ⟨rfl, rfl, hset⟩, by simp⟩

variable (cx query frozen p mode bound) in
/-- The ways the body of the loop may go: the parameter is refused, or it goes in and is crossed
out, or the code itself fails. -/
theorem bindParameter_cases (htypes : types[i]? = some given) :
    (Refused cx query frozen i p mode given ∧ ∃ e types' bound',
        bindParameter cx query frozen i p mode types bound = (.error e, types', bound') ∧
          ¬e.Internal) ∨
      (¬Refused cx query frozen i p mode given ∧ mode = .modeIn ∧ frozen = false ∧ ∃ bound',
        bindParameter cx query frozen i p mode types bound = (.ok (), types.set i none, bound')) ∨
      (¬Refused cx query frozen i p mode given ∧ ¬(mode = .modeIn ∧ frozen = false) ∧
        ∃ e types' bound',
          bindParameter cx query frozen i p mode types bound = (.error e, types', bound') ∧
            e.Internal) := by
  rcases hv : adapt cx p with e | v
  · refine .inl ⟨.adapter hv, .db (.raised e), types, bound, ?_, id⟩
    rw [bindParameter, hv]
  -- A type is found, or the look-up fails by itself, or it refuses the parameter.
  obtain ⟨t, types', hlook, ht, hcross⟩ | ⟨e, types', hlook, he, hfrozen, hnot⟩ |
    ⟨e, types', hlook, he, hrefused⟩ := lookUp_cases frozen mode hv htypes
  · have hrefused : ∀ mode, Refused cx query frozen i p mode given ↔
        mode ≠ .modeOut ∧ ∃ e, cx.set t i v = .error e := fun _ ↦ refused_iff_of_picked hv ht
    rw [bindParameter, hv]
    dsimp only
    rw [hlook]
    dsimp only
    cases mode with
    -- A cursor has no attribute `registerOutParameter`.
    | modeOut =>
      have hnot : ¬Refused cx query frozen i p .modeOut given := fun h ↦ ((hrefused _).1 h).1 rfl
      refine .inr (.inr ⟨hnot, fun h ↦ ParameterMode.noConfusion h.1, ?_⟩)
      exact ⟨.db .attributeError, _, _, rfl, trivial⟩
    | modeInOut =>
      dsimp only
      rcases hset : cx.set t i v with e | u
      · refine .inl ⟨(hrefused _).2 ⟨ParameterMode.noConfusion, e, hset⟩, ?_⟩
        exact ⟨.db (.raised e), _, _, rfl, id⟩
      · refine .inr (.inr ⟨fun h ↦ ?_, fun h ↦ ParameterMode.noConfusion h.1, ?_⟩)
        · obtain ⟨-, e, he⟩ := (hrefused _).1 h
          cases he.symm.trans hset
        · exact ⟨.db .attributeError, _, _, rfl, trivial⟩
    | modeIn =>
      dsimp only
      rcases hset : cx.set t i v with e | u
      · refine .inl ⟨(hrefused _).2 ⟨ParameterMode.noConfusion, e, hset⟩, ?_⟩
        exact ⟨.db (.raised e), _, _, rfl, id⟩
      · have hnot : ¬Refused cx query frozen i p .modeIn given := by
          intro h
          obtain ⟨-, e, he⟩ := (hrefused _).1 h
          cases he.symm.trans hset
        cases frozen with
        | false => exact .inr (.inl ⟨hnot, rfl, rfl, _, by rw [← hcross]; rfl⟩)
        | true =>
          refine .inr (.inr ⟨hnot, fun h ↦ Bool.noConfusion h.2, ?_⟩)
          exact ⟨.typeError, _, _, rfl, trivial⟩
  · refine .inr (.inr ⟨hnot, fun h ↦ Bool.noConfusion (hfrozen.symm.trans h.2), e, types', bound,
      ?_, he⟩)
    rw [bindParameter, hv]
    dsimp only
    rw [hlook]
  · refine .inl ⟨hrefused, e, types', bound, ?_, he⟩
    rw [bindParameter, hv]
    dsimp only
    rw [hlook]

end

/-! ### Binding all parameters -/

section

variable (cx : Connection Py Ty JType Cell E) (query : String) (types : TypesArgument JType)
  (parameters : List Py) (modes : List ParameterMode)

/-- The parameter at a position is refused. -/
def RefusedAt (i : ℕ) : Prop :=
  ∃ p mode, parameters[i]? = some p ∧ modes[i]? = some mode ∧
    Refused cx query types.frozen i p mode (types.given i)

/-- From position `i` on, every parameter up to the first one that is refused goes in, and `types`
is no tuple if there is any. -/
def GoesIn (i : ℕ) : Prop :=
  ∀ k, i ≤ k → k < modes.length →
    (∀ j, i ≤ j → j ≤ k → ¬RefusedAt cx query types parameters modes j) →
      modes[k]? = some .modeIn ∧ types.frozen = false

variable {cx query types parameters modes} {i : ℕ} {bound : Bindings JType Py}

theorem goesIn_of_refused (h : RefusedAt cx query types parameters modes i) :
    GoesIn cx query types parameters modes i :=
  fun _ hik _ hnone ↦ absurd h (hnone i le_rfl hik)

/-- What is asked for at a position that is not refused. -/
theorem goesIn_iff (hi : i < modes.length) (h : ¬RefusedAt cx query types parameters modes i) :
    GoesIn cx query types parameters modes i ↔ (modes[i]? = some .modeIn ∧ types.frozen = false) ∧
      GoesIn cx query types parameters modes (i + 1) := by
  constructor
  · intro hgoes
    refine ⟨hgoes i le_rfl hi fun j hij hji ↦ le_antisymm hij hji ▸ h, fun k hk hlt hnone ↦ ?_⟩
    refine hgoes k (by omega) hlt fun j hij hjk ↦ ?_
    obtain rfl | hlt := Nat.eq_or_lt_of_le hij
    · exact h
    · exact hnone j hlt hjk
  · rintro ⟨hin, hgoes⟩ k hk hlt hnone
    obtain rfl | hik := Nat.eq_or_lt_of_le hk
    · exact hin
    · exact hgoes k hik hlt fun j hij hjk ↦ hnone j (by omega) hjk

/-- The list of types when position `i` is reached: crossed out behind it, as given from it on. -/
structure CrossedOut (types : TypesArgument JType) (count i : ℕ) (l : List (Option JType)) :
    Prop where
  length : l.length = count
  behind : ∀ j < i, ∀ t, l[j]? = some t → t = none
  ahead : ∀ j, i ≤ j → j < count → l[j]? = some (types.given j)

theorem CrossedOut.succ {count : ℕ} {l : List (Option JType)} (h : CrossedOut types count i l) :
    CrossedOut types count (i + 1) (l.set i none) := by
  refine ⟨by rw [List.length_set, h.length], fun j hj t ht ↦ ?_, fun j hj hlt ↦ ?_⟩
  · by_cases hji : j = i
    · subst hji
      rw [List.getElem?_set_self'] at ht
      obtain ⟨t', -, ht'⟩ := Option.map_eq_some_iff.1 ht
      exact ht'.symm
    · rw [List.getElem?_set_ne (Ne.symm hji)] at ht
      exact h.behind j (by omega) t ht
  · rw [List.getElem?_set_ne (by omega)]
    exact h.ahead j (by omega) hlt

variable (cx query bound) in
/-- The first loop: where it goes wrong, the code itself fails; otherwise a parameter is refused, or
all go in and are crossed out. -/
theorem callLoop_cases (hlength : parameters.length = modes.length) {rest : List ParameterMode}
    {l : List (Option JType)} (hrest : modes.drop i = rest)
    (hl : CrossedOut types modes.length i l) :
    (GoesIn cx query types parameters modes i ∧
      ((∃ e l' bound', callLoop cx query types.frozen parameters i rest l bound =
          (.error e, l', bound') ∧ ¬e.Internal) ∨
        ∃ l' bound',
          callLoop cx query types.frozen parameters i rest l bound = (.ok (), l', bound') ∧
            (∀ t ∈ l', t = none) ∧ ∀ mode ∈ rest, mode = .modeIn)) ∨
      (¬GoesIn cx query types parameters modes i ∧ ∃ e l' bound',
        callLoop cx query types.frozen parameters i rest l bound = (.error e, l', bound') ∧
          e.Internal) := by
  induction rest generalizing i l bound with
  | nil =>
    have hi : modes.length ≤ i := List.drop_eq_nil_iff.1 hrest
    refine .inl ⟨fun k hk hlt ↦ absurd hlt (by omega), .inr ⟨l, bound, rfl, fun t ht ↦ ?_, ?_⟩⟩
    · obtain ⟨j, hj, rfl⟩ := List.mem_iff_getElem.1 ht
      have hlen := hl.length
      exact hl.behind j (by omega) _ (List.getElem?_eq_getElem hj)
    · exact fun mode hmode ↦ absurd hmode List.not_mem_nil
  | cons mode rest ih =>
    have hmode : modes[i]? = some mode := by
      rw [← List.head?_drop, hrest]
      rfl
    have hi : i < modes.length := (List.getElem?_eq_some_iff.1 hmode).1
    have hdrop : modes.drop (i + 1) = rest := by
      rw [← List.tail_drop, hrest]
      rfl
    have hp : parameters[i]? = some parameters[i] := List.getElem?_eq_getElem (hlength ▸ hi)
    have hat : RefusedAt cx query types parameters modes i ↔
        Refused cx query types.frozen i parameters[i] mode (types.given i) := by
      constructor
      · rintro ⟨p, mode', hp', hmode', h⟩
        obtain rfl := Option.some.inj (hp.symm.trans hp')
        obtain rfl := Option.some.inj (hmode.symm.trans hmode')
        exact h
      · exact fun h ↦ ⟨_, mode, hp, hmode, h⟩
    rw [callLoop, hp]
    dsimp only
    have hbody := bindParameter_cases cx query types.frozen parameters[i] mode bound
      (hl.ahead i le_rfl hi)
    -- The first parameter that does not go in ends the loop, in one way or the other.
    obtain ⟨hrefused, e, l', bound', heq, he⟩ | ⟨hnot, hin, hfrozen, bound', heq⟩ |
      ⟨hnot, hout, e, l', bound', heq, he⟩ := hbody
    · rw [heq]
      exact .inl ⟨goesIn_of_refused (hat.2 hrefused), .inl ⟨e, l', bound', rfl, he⟩⟩
    · rw [heq]
      dsimp only
      rw [goesIn_iff hi (hat.not.2 hnot)]
      have hpos : modes[i]? = some .modeIn ∧ types.frozen = false :=
        ⟨hmode.trans (congrArg some hin), hfrozen⟩
      obtain ⟨hgoes, hloop⟩ | ⟨hgoes, hloop⟩ := ih bound' hdrop hl.succ
      · refine .inl ⟨⟨hpos, hgoes⟩, hloop.imp_right ?_⟩
        rintro ⟨l', bound', heq, hnone, hmodes⟩
        exact ⟨l', bound', heq, hnone, List.forall_mem_cons.2 ⟨hin, hmodes⟩⟩
      · exact .inr ⟨fun h ↦ hgoes h.2, hloop⟩
    · rw [heq, goesIn_iff hi (hat.not.2 hnot)]
      refine .inr ⟨fun h ↦ hout ⟨?_, h.1.2⟩, e, l', bound', rfl, he⟩
      exact Option.some.inj (hmode.symm.trans h.1.1)

end

/-! ### The whole call -/

section

variable (cd : CallDriver JType Py Cell D E) (cx : Connection Py Ty JType Cell E)
  {s : CallState JType Py Cell D}

theorem exec_onCursor {α : Type} (x : CursorM JType Py Cell D E α) (s : CallState JType Py Cell D) :
    (onCursor x).exec s =
      ((x.exec s.cursor).1.mapError .db, { s with cursor := (x.exec s.cursor).2 }) :=
  rfl

/-- As many types as parameters are given, or none. -/
def Typed (types : TypesArgument JType) (modes : List ParameterMode) : Prop :=
  ∀ items, types.items = some items → items.length = modes.length

/-- The call gets as far as its parameters. -/
structure Reaches (query : String) (types : TypesArgument JType) (modes : List ParameterMode)
    (s : CallState JType Py Cell D) : Prop where
  opened : (s.cursor.closed || cd.isClosed s.cursor.db) = false
  prepared : (cd.prepareCall query s.cursor.db).1 = .ok ()
  typed : Typed types modes

/-- A program ends with an error that is not of the code itself, and the caller's list is as it
was. -/
def FailsProperly {α : Type} (parameters : List Py)
    (outcome : Except (CallError E) α × CallState JType Py Cell D) : Prop :=
  ∃ e s', outcome = (.error e, s') ∧ ¬e.Internal ∧ s'.parameters = parameters

/-- The call has been prepared: there is a statement, and a list with the types that are given. -/
structure Opened (types : TypesArgument JType) (modes : List ParameterMode)
    (s s' : CallState JType Py Cell D) : Prop where
  parameters : s'.parameters = s.parameters
  statement : s'.cursor.statement.isSome
  types : CrossedOut types modes.length 0 s'.types

theorem crossedOut_items {types : TypesArgument JType} {items : List (Option JType)}
    (h : types.items = some items) : CrossedOut types items.length 0 items := by
  refine ⟨rfl, fun j hj ↦ absurd hj (Nat.not_lt_zero j), fun j _ hj ↦ ?_⟩
  rw [TypesArgument.given, h, Option.bind_some, List.getElem?_eq_getElem hj, Option.join_some]

theorem crossedOut_none {types : TypesArgument JType} (count : ℕ) (h : types.items = none) :
    CrossedOut types count 0 (List.replicate count none) := by
  refine ⟨List.length_replicate, fun j hj ↦ absurd hj (Nat.not_lt_zero j), fun j _ hj ↦ ?_⟩
  rw [TypesArgument.given, h, Option.bind_none, Option.join_none, List.getElem?_replicate_of_lt hj]

theorem exec_takeMetaData {query : String} (types : TypesArgument JType)
    {modes : List ParameterMode}
    (hmodes : s.parameters ≠ [] → cd.getParameterMetaData query = .ok modes)
    (hlength : s.parameters.length = modes.length) (hstatement : s.cursor.statement.isSome) :
    (∃ s', (takeMetaData cd query types).exec s = (.ok modes, s') ∧ Opened types modes s s' ∧
      (Typed types modes ∨ modes = [])) ∨
    (¬Typed types modes ∧ FailsProperly s.parameters ((takeMetaData cd query types).exec s)) := by
  rw [takeMetaData, Program.exec_bind, Program.exec_get]
  dsimp only
  cases hparameters : s.parameters with
  | nil =>
    rw [hparameters] at hlength
    obtain rfl : modes = [] := List.length_eq_zero_iff.1 hlength.symm
    refine .inl ⟨{ s with types := [] }, rfl, ⟨rfl, hstatement, ?_⟩, .inr rfl⟩
    have hnone : ∀ j, ¬j < 0 := Nat.not_lt_zero
    exact ⟨rfl, fun j hj ↦ absurd hj (hnone j), fun j _ hj ↦ absurd hj (hnone j)⟩
  | cons p rest =>
    rw [hparameters] at hmodes
    rw [if_neg (by simp), hmodes (List.cons_ne_nil p rest)]
    dsimp only
    cases hitems : types.items with
    | none =>
      refine .inl ⟨{ s with types := List.replicate modes.length none }, rfl,
        ⟨rfl, hstatement, crossedOut_none _ hitems⟩, .inl fun items h ↦ ?_⟩
      exact absurd (hitems.symm.trans h).symm (Option.some_ne_none items)
    | some items =>
      by_cases hlen : items.length = modes.length
      · refine .inl ⟨{ s with types := items }, ?_, ⟨rfl, hstatement, ?_⟩, .inl fun items' h ↦ ?_⟩
        · rw [Program.exec_bind, Program.exec_modify]
          dsimp only
          rw [if_neg (not_not.2 hlen)]
          rfl
        · exact hlen ▸ crossedOut_items hitems
        · exact Option.some.inj (hitems.symm.trans h) ▸ hlen
      · refine .inr ⟨fun h ↦ hlen (h items hitems), ?_⟩
        refine ⟨.db (.programmingError (wrongCount modes.length items.length)),
          { s with types := items }, ?_, id, hparameters⟩
        rw [Program.exec_bind, Program.exec_modify]
        dsimp only
        rw [if_pos hlen]
        rfl

theorem exec_prepareCall (query : String) (count : ℕ) (s : Cursor JType Py Cell D) :
    (∃ s', (prepareCall cd query count).exec s = (.ok (), s') ∧ s'.statement.isSome ∧
      (cd.prepareCall query s.db).1 = .ok ()) ∨
    ∃ e s', (prepareCall cd query count).exec s = (.error e, s') ∧
      ¬(CallError.db e).Internal ∧ (cd.prepareCall query s.db).1 ≠ .ok () := by
  rw [prepareCall, Program.exec_bind, Program.exec_get]
  dsimp only
  rcases cd.prepareCall query s.db with ⟨failure | ⟨⟩, db⟩
  · refine .inr ?_
    cases failure with
    | sqlException message =>
      exact ⟨.programmingError message, { s with db }, rfl, id, fun h ↦ by cases h⟩
    | raised e => exact ⟨.raised e, { s with db }, rfl, id, fun h ↦ by cases h⟩
  · exact .inl ⟨_, rfl, rfl, rfl⟩

theorem exec_openCall {query : String} (types : TypesArgument JType) {modes : List ParameterMode}
    (hmodes : s.parameters ≠ [] → cd.getParameterMetaData query = .ok modes)
    (hlength : s.parameters.length = modes.length) :
    (∃ s', (openCall cd query types).exec s = (.ok modes, s') ∧ Opened types modes s s' ∧
      (Reaches cd query types modes s ∨ modes = [])) ∨
    (¬Reaches cd query types modes s ∧
      FailsProperly s.parameters ((openCall cd query types).exec s)) := by
  rw [openCall, Program.exec_bind, exec_onCursor]
  by_cases hopened : s.cursor.closed || cd.isClosed s.cursor.db
  · have hvalidate : (validate cd.toDriver).exec s.cursor =
        (.error (.programmingError "Cursor is closed"), s.cursor) := by
      rw [validate, Program.exec_bind, Program.exec_get]
      dsimp only
      rw [if_pos hopened]
      rfl
    rw [hvalidate]
    refine .inr ⟨fun h ↦ ?_, .db (.programmingError _), s, rfl, id, rfl⟩
    exact Bool.noConfusion (h.opened.symm.trans hopened)
  have hvalidate : (validate cd.toDriver).exec s.cursor = (.ok (), s.cursor) := by
    rw [validate, Program.exec_bind, Program.exec_get]
    dsimp only
    rw [if_neg hopened]
    rfl
  rw [hvalidate]
  simp only [Except.mapError, Program.exec_bind, exec_onCursor, Program.exec_modify,
    Program.exec_get]
  obtain ⟨s', hprepare, hstatement, hprepared⟩ | ⟨e, s', hprepare, he, hprepared⟩ :=
    exec_prepareCall cd query s.parameters.length s.cursor.finish
  · rw [hprepare]
    simp only
    obtain ⟨s'', heq, hopen, htyped⟩ | ⟨htyped, hfails⟩ := exec_takeMetaData cd types
      (s := { s with cursor := s' }) hmodes hlength hstatement
    · refine .inl ⟨s'', heq, ⟨hopen.parameters, hopen.statement, hopen.types⟩, htyped.imp_left ?_⟩
      exact fun h ↦ ⟨Bool.eq_false_iff.2 hopened, hprepared, h⟩
    · exact .inr ⟨fun h ↦ htyped h.typed, hfails⟩
  · rw [hprepare]
    exact .inr ⟨fun h ↦ hprepared h.prepared, _, _, rfl, he, rfl⟩

/-- Once there is a statement, only the database fails. -/
theorem exec_runCall {s : Cursor JType Py Cell D} (hstatement : s.statement.isSome) :
    (∃ s', (runCall cd).exec s = (.ok (), s')) ∨
      ∃ e s', (runCall cd).exec s = (.error (.raised e), s') := by
  obtain ⟨statement, hstatement⟩ := Option.isSome_iff_exists.1 hstatement
  rw [runCall, Program.exec_bind, executeStatement, Program.exec_bind, exec_getStatement hstatement]
  dsimp only
  rw [Program.exec_bind, Program.exec_get]
  dsimp only
  rcases cd.execute statement.bound s.db with ⟨e | results, db⟩
  · exact .inr ⟨e, _, rfl⟩
  · rcases results with - | ⟨⟨columns, rows⟩ | ⟨count⟩, rest⟩ <;> exact .inl ⟨_, rfl⟩

/-- Nothing is read back when everything is crossed out. -/
theorem readBack_none (db : D) {i : ℕ} {l : List (Option JType)} (hl : ∀ t ∈ l, t = none)
    (out : List Py) : readBack cd cx db i l out = .ok out := by
  induction l generalizing i with
  | nil => rfl
  | cons t l ih =>
    obtain ⟨rfl, hrest⟩ := List.forall_mem_cons.1 hl
    exact ih hrest

/-- A value that the call has produced at a position, converted. -/
def Produced (i : ℕ) (x : Py) : Prop :=
  ∃ db t, outValue cd cx db t i = .ok x

/-- The call does not end with an error of the code itself; what it returns is a copy of the
parameters in which exactly those that come out are replaced by what the call produced; and the list
of the caller is as it was. -/
structure ReplacesOutputs (modes : List ParameterMode) (parameters : List Py)
    (outcome : Except (CallError E) (List Py) × CallState JType Py Cell D) : Prop where
  completes : ∀ e, outcome.1 = .error e → ¬e.Internal
  length : ∀ out, outcome.1 = .ok out → out.length = parameters.length
  inputs : ∀ (out : List Py) (i : ℕ), outcome.1 = .ok out → modes[i]? = some .modeIn →
    out[i]? = parameters[i]?
  outputs : ∀ (out : List Py) (i : ℕ) (mode : ParameterMode), outcome.1 = .ok out →
    modes[i]? = some mode → mode ≠ .modeIn → ∃ x, out[i]? = some x ∧ Produced cd cx i x
  parameters : outcome.2.parameters = parameters

theorem FailsProperly.replacesOutputs {modes : List ParameterMode} {parameters : List Py}
    {outcome : Except (CallError E) (List Py) × CallState JType Py Cell D}
    (h : FailsProperly parameters outcome) : ReplacesOutputs cd cx modes parameters outcome := by
  obtain ⟨e, s', rfl, he, hparameters⟩ := h
  refine ⟨fun e' h ↦ ?_, fun out h ↦ ?_, fun out i h ↦ ?_, fun out i mode h ↦ ?_, hparameters⟩
  · exact Except.error.inj h ▸ he
  · cases h
  · cases h
  · cases h

/-- Where all parameters go in, the copy of the parameters is what is returned. -/
theorem replacesOutputs_copy {modes : List ParameterMode} {parameters : List Py}
    {s' : CallState JType Py Cell D} (hmodes : ∀ mode ∈ modes, mode = .modeIn)
    (hparameters : s'.parameters = parameters) :
    ReplacesOutputs cd cx modes parameters (.ok parameters, s') := by
  refine ⟨fun e h ↦ ?_, fun out h ↦ ?_, fun out i h _ ↦ ?_, fun out i mode _ hmode hout ↦ ?_,
    hparameters⟩
  · cases h
  · rw [Except.ok.inj h]
  · rw [Except.ok.inj h]
  · exact absurd (hmodes mode (List.mem_of_getElem? hmode)) hout

/-- The first loop, and the statement and the list of types that it leaves. -/
theorem exec_bindParameters {query : String} {frozen : Bool} {modes : List ParameterMode}
    {statement : PreparedStatement JType Py Cell} {outcome : Except (CallError E) Unit}
    {types : List (Option JType)} {bound : Bindings JType Py}
    {parameters : List Py} (hparameters : s.parameters = parameters)
    (hstatement : s.cursor.statement = some statement)
    (hloop : callLoop cx query frozen parameters 0 modes s.types statement.bound =
      (outcome, types, bound)) :
    (bindParameters cx query frozen modes).exec s =
      (outcome, { s with
        types
        cursor := { s.cursor with statement := some { statement with bound } } }) := by
  subst hparameters
  have hget : (onCursor getStatement : CallM JType Py Cell D E _).exec s = (.ok statement, s) := by
    rw [exec_onCursor, exec_getStatement hstatement]
    rfl
  rw [bindParameters, Program.exec_bind, hget]
  dsimp only
  rw [Program.exec_bind, Program.exec_get]
  dsimp only
  rw [hloop]
  cases outcome <;> rfl

/-- What a call does once it has been opened. -/
theorem exec_callproc {procname : String} {types : TypesArgument JType}
    {modes : List ParameterMode} {s' : CallState JType Py Cell D}
    (hopen : (openCall cd (callText procname s.parameters.length) types).exec s = (.ok modes, s'))
    (hopened : Opened types modes s s') (hlength : s.parameters.length = modes.length) :
    ReplacesOutputs cd cx modes s.parameters ((callproc cd cx procname types).exec s) ↔
      GoesIn cx (callText procname s.parameters.length) types s.parameters modes 0 := by
  obtain ⟨statement, hstatement⟩ := Option.isSome_iff_exists.1 hopened.statement
  have hcall : (callproc cd cx procname types).exec s =
      (do
        bindParameters cx (callText procname s.parameters.length) types.frozen modes
        onCursor (runCall cd)
        let s' ← get
        match readBack cd cx s'.cursor.db 0 s'.types s.parameters with
        | .error e => throw e
        | .ok out => return out : CallM JType Py Cell D E (List Py)).exec s' := by
    rw [callproc, Program.exec_bind, Program.exec_get]
    dsimp only
    rw [Program.exec_bind, hopen]
  rw [hcall, Program.exec_bind]
  obtain ⟨hgoes, ⟨e, l', bound', hloop, he⟩ | ⟨l', bound', hloop, hnone, hmodes⟩⟩ |
    ⟨hgoes, e, l', bound', hloop, he⟩ :=
      callLoop_cases cx (callText procname s.parameters.length) statement.bound hlength
        List.drop_zero hopened.types
  · rw [exec_bindParameters cx hopened.parameters hstatement hloop]
    refine iff_of_true (FailsProperly.replacesOutputs cd cx ?_) hgoes
    exact ⟨e, _, rfl, he, hopened.parameters⟩
  · rw [exec_bindParameters cx hopened.parameters hstatement hloop]
    refine iff_of_true ?_ hgoes
    dsimp only
    rw [Program.exec_bind, exec_onCursor]
    obtain ⟨s'', hrun⟩ | ⟨e, s'', hrun⟩ := exec_runCall cd
      (s := { s'.cursor with statement := some { statement with bound := bound' } }) rfl
    · rw [hrun]
      simp only [Except.mapError, Program.exec_bind, Program.exec_get]
      rw [readBack_none cd cx s''.db hnone]
      exact replacesOutputs_copy cd cx hmodes hopened.parameters
    · rw [hrun]
      exact FailsProperly.replacesOutputs cd cx ⟨.db (.raised e), _, rfl, id, hopened.parameters⟩
  · rw [exec_bindParameters cx hopened.parameters hstatement hloop]
    exact iff_of_false (fun h ↦ h.completes e rfl he) hgoes

/-- `callproc` replaces exactly the output parameters if, when it gets as far as the parameters, all
up to the first one that is refused go in, and `types` is no tuple; and only then. Without
parameters there is no metadata to be asked for. -/
theorem callproc_replacesOutputs_iff (procname : String) (types : TypesArgument JType)
    {modes : List ParameterMode}
    (hmodes : s.parameters ≠ [] →
      cd.getParameterMetaData (callText procname s.parameters.length) = .ok modes)
    (hlength : s.parameters.length = modes.length) :
    ReplacesOutputs cd cx modes s.parameters ((callproc cd cx procname types).exec s) ↔
      (Reaches cd (callText procname s.parameters.length) types modes s →
        GoesIn cx (callText procname s.parameters.length) types s.parameters modes 0) := by
  obtain ⟨s', hopen, hopened, hreaches⟩ | ⟨hreaches, e, s', hopen, he, hparameters⟩ :=
    exec_openCall cd types hmodes hlength
  · rw [exec_callproc cd cx hopen hopened hlength]
    refine ⟨fun h _ ↦ h, fun h ↦ hreaches.elim h ?_⟩
    rintro rfl k - hk
    exact absurd hk (Nat.not_lt_zero k)
  · refine iff_of_true (FailsProperly.replacesOutputs cd cx ?_) fun h ↦ absurd h hreaches
    refine ⟨e, s', ?_, he, hparameters⟩
    rw [callproc, Program.exec_bind, Program.exec_get]
    dsimp only
    rw [Program.exec_bind, hopen]

end

end Cursor

/-- A procedure whose parameters have these modes, in the database that takes everything. -/
def withModes (modes : List ParameterMode) : CallDriver String ℕ Unit Unit Unit where
  toDriver := oneColumn
  prepareCall _ db := (.ok (), db)
  getParameterMetaData _ := .ok modes
  get _ _ _ := .ok 7

/-- Two parameters that go in. -/
theorem Cursor.callproc_replacesOutputs_in :
    ReplacesOutputs (withModes [.modeIn, .modeIn]) settersByType [.modeIn, .modeIn] [1, 2]
      ((callproc (withModes [.modeIn, .modeIn]) settersByType "booth" .none).exec
        { cursor := { db := () }, parameters := [1, 2] }) := by
  have hmodes : (withModes [.modeIn, .modeIn]).getParameterMetaData (callText "booth" 2) =
      .ok [.modeIn, .modeIn] := rfl
  refine (callproc_replacesOutputs_iff (withModes [.modeIn, .modeIn]) settersByType
    (s := { cursor := { db := () }, parameters := [1, 2] }) "booth" .none (fun _ ↦ hmodes) rfl).2 ?_
  intro _ k _ hk _
  obtain rfl | rfl : k = 0 ∨ k = 1 := by
    change k < 2 at hk
    omega
  · exact ⟨rfl, rfl⟩
  · exact ⟨rfl, rfl⟩

/-- A parameter that comes out ends the call with an `AttributeError`. -/
theorem Cursor.not_callproc_replacesOutputs :
    ¬ReplacesOutputs (withModes [.modeIn, .modeOut]) settersByType [.modeIn, .modeOut] [1, 0]
      ((callproc (withModes [.modeIn, .modeOut]) settersByType "booth" .none).exec
        { cursor := { db := () }, parameters := [1, 0] }) :=
  fun h ↦ h.completes (.db .attributeError) rfl trivial

end JPype
