import JPype.Dbapi2.Execution
import JPype.Foundation.Agreement

/-!
# The current result set

What a cursor keeps about its result set has to change along with it: its columns, the types by
which these are read, and the description. `BelongsToCurrent` says of a run that the description
is always that of the result set that is current, and that every fetch reads its rows by the types
of this result set and by the converters that are given.

The steps keep this, as `Current`, but for two slips (`Suits`):

* `_onResultSet` forgets the types of the columns but not the description, as `_finish` does. After
  `nextset` the description is still that of the result set before, if it has been read.
* A mapping that is given as `converters` is not looked at, as the connection's mapping is used in
  its place.
-/

namespace JPype

open Foundation

variable {Py Ty JType Cell D E : Type}

/-! ### What belongs to a result set -/

namespace ResultSet

/-- The result set is read with these types from now on, if types are given. -/
def giving (types : Option (List JType)) (rs : ResultSet JType Cell) : ResultSet JType Cell :=
  match types with
  | none => rs
  | some types => { rs with given := some types }

variable (cx : Connection Py Ty JType Cell E) (rs : ResultSet JType Cell)

/-- The types of the columns: those that have been given for this result set, or those that the
getters of the connection choose for its columns. -/
def types : Except (DbError E) (List JType) :=
  match rs.given with
  | some types => .ok types
  | none =>
    ((List.range rs.columns.length).mapM (cx.getters rs.columns)).mapError .raised

end ResultSet

namespace Connection

variable (cx : Connection Py Ty JType Cell E)

/-- A value, converted by its type. -/
def convert (converters : Ty → Option (Py → Except E Py)) (value : Py) : Except E Py :=
  match converters (cx.typeOf value) with
  | none => .ok value
  | some converter => converter value

/-- How the value of a cell is to be read: by the type of its column and the converters that are
given. -/
def readCell (converters : Converters Py Ty E) (types : List JType) (row : ℕ → Cell) (idx : ℕ) :
    Except (DbError E) (Option Py) :=
  match types[idx]? with
  | none => .error .indexError
  | some tp =>
    match cx.get tp (row idx) with
    | .error e => .error (.raised e)
    | .ok none => .ok none
    | .ok (some value) =>
      match converters with
      | .none => .ok (some value)
      | .list converters =>
        match converters[idx]? with
        | none => .error .indexError
        | some converter => ((converter value).map some).mapError .raised
      | .default => ((cx.convert cx.converters value).map some).mapError .raised
      | .mapping converters => ((cx.convert converters value).map some).mapError .raised

/-- How a row whose converters fit is to be read. -/
def readCells (converters : Converters Py Ty E) (rs : ResultSet JType Cell) (row : ℕ → Cell) :
    Except (DbError E) (List (Option Py)) := do
  let types ← rs.types cx
  if types.length ≠ rs.columns.length then throw (.programmingError "incorrect number of columns")
  ((List.range rs.columns.length).mapM (cx.readCell converters types row)).mapError
    (Cursor.asUnsupported cx)

/-- How a row of the result set is to be read. -/
def readRow (converters : Converters Py Ty E) (rs : ResultSet JType Cell) (row : ℕ → Cell) :
    Except (DbError E) (List (Option Py)) := do
  if let .list l := converters then
    if l.length ≠ rs.columns.length then
      throw (.programmingError "converter list size incorrect")
  cx.readCells converters rs row

end Connection

/-! ### Calls -/

/-- `fetchone`, `fetchmany` and `fetchall`. -/
inductive Fetch where
  | one
  | many (size : Option ℕ)
  | all

namespace Fetch

variable (dr : Driver JType Py Cell D E) (cx : Connection Py Ty JType Cell E)

/-- The rows that are fetched. -/
def run (types : Option (List JType)) (converters : Converters Py Ty E) :
    Fetch → CursorM JType Py Cell D E (List (List (Option Py)))
  | .one => do
    let row ← Cursor.fetchone dr cx types converters
    return row.toList
  | .many size => Cursor.fetchmany dr cx size types converters
  | .all => Cursor.fetchall dr cx types converters

/-- How many rows are fetched at most. -/
def limit (s : Cursor JType Py Cell D) (rs : ResultSet JType Cell) : Fetch → ℕ
  | .one => 1
  | .many size => size.getD s.arraysize
  | .all => rs.remaining.length

end Fetch

/-- What is done with a cursor. -/
inductive CursorEvent (Py Ty JType E : Type) where
  | execute (c : Execution Py JType)
  | nextset
  /-- Reading `description`. -/
  | description
  | fetch (f : Fetch) (types : Option (List JType)) (converters : Converters Py Ty E)
  | setArraysize (n : ℕ)
  | close

namespace Cursor

variable (dr : Driver JType Py Cell D E) (cx : Connection Py Ty JType Cell E)

def step (s : Cursor JType Py Cell D) : CursorEvent Py Ty JType E → Cursor JType Py Cell D
  | .execute c => ((c.run dr cx).exec s).2
  | .nextset => ((nextset (E := E)).exec s).2
  | .description => ((getDescription dr).exec s).2
  | .fetch f types converters => ((f.run dr cx types converters).exec s).2
  | .setArraysize n => { s with arraysize := n }
  | .close => ((close dr).exec s).2

/-- The result set is current: the cursor has it, and it is open. -/
structure IsCurrent (s : Cursor JType Py Cell D) (rs : ResultSet JType Cell) : Prop where
  resultSet : s.resultSet = some rs
  isOpen : rs.closed = false

/-- The description is that of the current result set. -/
def DescribesCurrent (s : Cursor JType Py Cell D) : Prop :=
  ∀ rs, s.IsCurrent rs →
    ((getDescription dr).exec s).1 = .ok (some (rs.columns.map describe))

/-- A fetch reads its rows as they are to be read in the current result set, while cursor and
connection are open. -/
def ReadsCurrent (s : Cursor JType Py Cell D) (f : Fetch) (types : Option (List JType))
    (converters : Converters Py Ty E) : Prop :=
  ∀ rs, s.IsCurrent rs → s.closed = false → dr.isClosed s.db = false →
    ((f.run dr cx types converters).exec s).1 =
      (rs.remaining.take (f.limit s rs)).mapM (cx.readRow converters (rs.giving types))

/-- **The description and the rows always belong to the current result set**, in a run from `s`. -/
structure BelongsToCurrent (s : Cursor JType Py Cell D)
    (events : List (CursorEvent Py Ty JType E)) : Prop where
  description : ∀ l, l <+: events → DescribesCurrent dr (Foundation.run (step dr cx) s l)
  rows : ∀ l f types converters, l ++ [.fetch f types converters] <+: events →
    ReadsCurrent dr cx (Foundation.run (step dr cx) s l) f types converters

/-! ### When they do -/

/-- The values that are read from these rows are converted alike by the mapping that is given, if
one is, and by the connection's; none is read with a wrong number of types. -/
def ConvertsAlike (converters : Converters Py Ty E) (rs : ResultSet JType Cell)
    (rows : List (ℕ → Cell)) : Prop :=
  ∀ mapping, converters = .mapping mapping → ∀ types, rs.types cx = .ok types →
    types.length = rs.columns.length →
      ∀ n row, rows[n]? = some row → (∀ r ∈ rows.take n, (cx.readRow converters rs r).isOk) →
        ∀ idx < rs.columns.length,
          (∀ j < idx, (cx.readCell converters types row j).isOk) →
            ∀ tp value, types[idx]? = some tp → cx.get tp (row idx) = .ok (some value) →
              cx.convert mapping value = cx.convert cx.converters value

/-- The result that comes next is no result set, or one of the same description as the one that has
been read, if any has. -/
def KeepsDescription (s : Cursor JType Py Cell D) : Prop :=
  ∀ desc, s.description = some desc → ∀ st, s.statement = some st →
    ∀ columns rows rest, st.results.tail = .resultSet columns rows :: rest →
      desc = columns.map describe

/-- The condition on a step. -/
def Suits (s : Cursor JType Py Cell D) : CursorEvent Py Ty JType E → Prop
  | .nextset => KeepsDescription s
  | .fetch f types converters =>
    ∀ rs, s.IsCurrent rs → s.closed = false → dr.isClosed s.db = false →
      ConvertsAlike cx converters (rs.giving types) (rs.remaining.take (f.limit s rs))
  | _ => True

/-! ### The invariant -/

/-- What the cursor keeps about the result set is about this one. -/
structure Keeps (s : Cursor JType Py Cell D) (rs : ResultSet JType Cell) : Prop where
  resultSetMeta : s.resultSetMeta = rs.columns
  resultSetCount : s.resultSetCount = rs.columns.length
  columnTypes : (s.columnTypes = none ∧ rs.given = none) ∨
    ∃ types, s.columnTypes = some types ∧ rs.types cx = .ok types
  description : ∀ desc, s.description = some desc → desc = rs.columns.map describe

/-- What the cursor keeps is about its current result set. -/
def Current (s : Cursor JType Py Cell D) : Prop :=
  ∀ rs, s.IsCurrent rs → Keeps cx s rs

variable {cx} {s s' : Cursor JType Py Cell D}

/-- What the cursor keeps about its result set. -/
def reading (s : Cursor JType Py Cell D) :=
  (s.resultSet, s.resultSetMeta, s.resultSetCount, s.columnTypes, s.description)

theorem Current.of_reading (h : Current cx s) (hsame : s'.reading = s.reading) :
    Current cx s' := by
  simp only [reading, Prod.mk.injEq] at hsame
  obtain ⟨hrs, hmeta, hcount, htypes, hdesc⟩ := hsame
  intro rs hcurrent
  have hkeeps := h rs ⟨hrs ▸ hcurrent.resultSet, hcurrent.isOpen⟩
  exact ⟨hmeta.trans hkeeps.resultSetMeta, hcount.trans hkeeps.resultSetCount,
    htypes ▸ hkeeps.columnTypes, hdesc ▸ hkeeps.description⟩

theorem current_of_none (h : s.resultSet = none) : Current cx s := by
  intro rs hcurrent
  cases h.symm.trans hcurrent.resultSet

variable (s) in
theorem current_closeResultSet : Current cx (closeResultSet s) := by
  intro rs hcurrent
  obtain ⟨rs', -, rfl⟩ := Option.map_eq_some_iff.1 hcurrent.resultSet
  cases hcurrent.isOpen

theorem current_onResultSet {columns : List Column} {rows : List (ℕ → Cell)}
    (h : ∀ desc, s.description = some desc → desc = columns.map describe) :
    Current cx (onResultSet columns rows s) := by
  intro rs hcurrent
  obtain rfl := Option.some.inj hcurrent.resultSet
  exact ⟨rfl, rfl, .inl ⟨rfl, rfl⟩, h⟩

/-! ### Methods that do not touch the result set -/

/-- The method leaves what is kept about the result set as it is. -/
def Quiet {α : Type} (x : CursorM JType Py Cell D E α) : Prop :=
  ∀ s, (x.exec s).2.reading = s.reading

namespace Quiet

variable {α β : Type}

theorem pure (a : α) : Quiet (Pure.pure a : CursorM JType Py Cell D E α) :=
  fun _ ↦ rfl

theorem throw (e : DbError E) :
    Quiet (MonadExcept.throw e : CursorM JType Py Cell D E α) :=
  fun _ ↦ rfl

theorem modify {f : Cursor JType Py Cell D → Cursor JType Py Cell D}
    (h : ∀ s, (f s).reading = s.reading) :
    Quiet (modify f : CursorM JType Py Cell D E Unit) :=
  h

theorem bind {x : CursorM JType Py Cell D E α} {f : α → CursorM JType Py Cell D E β}
    (hx : Quiet x) (hf : ∀ a, Quiet (f a)) : Quiet (x >>= f) := by
  intro s
  have hxs := hx s
  rw [Program.exec_bind]
  rcases hexec : x.exec s with ⟨e | a, s'⟩
  · rw [hexec] at hxs
    exact hxs
  · rw [hexec] at hxs
    exact (hf a s').trans hxs

theorem get_bind {f : Cursor JType Py Cell D → CursorM JType Py Cell D E α}
    (hf : ∀ s, Quiet (f s)) : Quiet (get >>= f) :=
  fun s ↦ hf s s

/-- What follows from what is kept stays true. -/
theorem triple {x : CursorM JType Py Cell D E α} (hx : Quiet x)
    {P : Cursor JType Py Cell D → Prop} (hP : ∀ s s', P s → s'.reading = s.reading → P s') :
    Triple P x (fun _ ↦ P) fun _ ↦ P := by
  intro s hs
  have hxs := hx s
  rcases hexec : x.exec s with ⟨e | a, s'⟩
  · rw [hexec] at hxs
    exact hP s s' hs hxs
  · rw [hexec] at hxs
    exact hP s s' hs hxs

end Quiet

theorem quiet_getStatement :
    Quiet (getStatement : CursorM JType Py Cell D E (PreparedStatement JType Py Cell)) := by
  refine .get_bind fun s ↦ ?_
  rcases s.statement with - | st
  · exact .throw _
  · exact .pure _

variable (cx) in
theorem quiet_setParams (params : Parameters Py) :
    Quiet (setParams cx params : CursorM JType Py Cell D E Unit) := by
  rcases params with - | - | typeName | elements
  · exact .throw _
  · exact .throw _
  · exact .throw _
  rcases elements with - | ⟨p, rest⟩
  · exact .pure _
  refine quiet_getStatement.bind fun st ↦ ?_
  split
  · exact .throw _
  intro s
  have hstore : ∀ types, (s.storeTypes types).reading = s.reading := by
    intro types
    rw [storeTypes]
    split <;> rfl
  rw [exec_bindRow, bindOutcome]
  rcases s.types.isEmpty with - | -
  · simp only [Bool.false_eq_true, if_false, Bool.and_false]
    split <;> exact hstore _
  · simp only [if_true, Bool.and_true]
    split
    · rfl
    · rcases cx.cachable with - | - <;> rfl

theorem quiet_validate : Quiet (validate dr : CursorM JType Py Cell D E Unit) := by
  refine .get_bind fun s ↦ ?_
  split
  · exact .throw _
  · exact .pure _

theorem quiet_addBatch : Quiet (addBatch dr) := by
  refine quiet_getStatement.bind fun st ↦ .get_bind fun s ↦ ?_
  split
  · exact .bind (.modify fun _ ↦ rfl) fun _ ↦ .throw _
  · exact .modify fun _ ↦ rfl

theorem quiet_runBatch : Quiet (runBatch dr) := by
  refine .get_bind fun s ↦ ?_
  split
  · exact .modify fun _ ↦ rfl
  · next failure db _ =>
    refine .bind (.modify fun _ ↦ rfl) fun _ ↦ ?_
    rcases failure with message | e <;> exact .throw _

theorem quiet_prepare (operation : String) (keys : Bool) (failed : String → String) :
    Quiet (prepare dr operation keys failed : CursorM JType Py Cell D E Unit) := by
  refine .get_bind fun s ↦ ?_
  split
  · exact .modify fun _ ↦ rfl
  · next failure db _ =>
    refine .bind (.modify fun _ ↦ rfl) fun _ ↦ ?_
    rcases failure with message | message | e <;> exact .throw _

theorem quiet_prepareStatement (c : Execution Py JType) : Quiet (c.prepareStatement dr) := by
  rcases c with ⟨operation, parameters, types, keys⟩ | ⟨operation, seq, types, keys⟩
  · rw [Execution.prepareStatement]
    split
    · exact .throw _
    · exact quiet_prepare dr _ _ _
  · exact quiet_prepare dr _ _ _

/-! ### Executing -/

/-- The description has not been read. -/
structure Undescribed (cx : Connection Py Ty JType Cell E) (s : Cursor JType Py Cell D) : Prop where
  current : Current cx s
  description : s.description = none

theorem Undescribed.of_reading (s s' : Cursor JType Py Cell D) (h : Undescribed cx s)
    (hsame : s'.reading = s.reading) : Undescribed cx s' := by
  refine ⟨h.current.of_reading hsame, ?_⟩
  simp only [reading, Prod.mk.injEq] at hsame
  exact hsame.2.2.2.2.trans h.description

variable (cx) in
theorem executeStatement_undescribed : Triple (Undescribed cx) (executeStatement dr)
    (fun _ ↦ Undescribed cx) fun _ ↦ Undescribed cx := by
  refine .bind (quiet_getStatement.triple Undescribed.of_reading) fun st ↦ ?_
  refine .get_bind fun s hs ↦ ?_
  have hclosed : ∀ s' : Cursor JType Py Cell D, s'.description = none →
      Undescribed cx (closeResultSet s') := fun s' hs' ↦ ⟨current_closeResultSet s', hs'⟩
  split
  · refine .bind (.modify ?_) fun _ ↦ .throw fun _ ↦ id
    rintro _ rfl
    exact hclosed _ hs.description
  · refine .bind (.modify ?_) fun _ ↦ .pure fun _ ↦ id
    rintro _ rfl
    exact hclosed _ hs.description

variable (cx) in
theorem executeone_undescribed (params : Parameters Py) : Triple (Undescribed cx)
    (executeone dr cx params) (fun _ ↦ Undescribed cx) fun _ ↦ Undescribed cx := by
  refine .bind ((quiet_setParams cx params).triple Undescribed.of_reading) fun _ ↦ ?_
  refine .bind (executeStatement_undescribed dr cx) fun results ↦ ?_
  have hrowcount : Triple (Undescribed cx)
      ((modify fun s ↦ { s with rowcount := updateCount results }) : CursorM JType Py Cell D E Unit)
      (fun _ ↦ Undescribed cx) fun _ ↦ Undescribed cx :=
    .modify fun s hs ↦ hs.of_reading s _ rfl
  rcases results with - | ⟨⟨columns, rows⟩ | count, rest⟩
  · exact .bind hrowcount fun _ ↦ .pure fun _ ↦ id
  · refine .bind ?_ fun _ ↦ .bind hrowcount fun _ ↦ .pure fun _ ↦ id
    refine .modify fun s hs ↦ ⟨current_onResultSet fun desc hdesc ↦ ?_, hs.description⟩
    cases hs.description.symm.trans hdesc
  · exact .bind hrowcount fun _ ↦ .pure fun _ ↦ id

variable (cx) in
theorem batchLoop_undescribed (rows : List (Parameters Py)) : Triple (Undescribed cx)
    (batchLoop dr cx rows) (fun _ ↦ Undescribed cx) fun _ ↦ Undescribed cx := by
  induction rows with
  | nil => exact .pure fun _ ↦ id
  | cons params rest ih =>
    refine .bind ((quiet_setParams cx params).triple Undescribed.of_reading) fun _ ↦ ?_
    exact .bind ((quiet_addBatch dr).triple Undescribed.of_reading) fun _ ↦ ih

variable (cx) in
theorem repeatLoop_undescribed (rows : List (Parameters Py)) (counts : List ℤ) :
    Triple (Undescribed cx) (repeatLoop dr cx rows counts) (fun _ ↦ Undescribed cx)
      fun _ ↦ Undescribed cx := by
  induction rows generalizing counts with
  | nil => exact .pure fun _ ↦ id
  | cons params rest ih =>
    exact .bind (executeone_undescribed dr cx params) fun count ↦ ih (counts ++ [count])

variable (cx) in
theorem executeRows_undescribed (rows : List (Parameters Py)) : Triple (Undescribed cx)
    (executeRows dr cx rows) (fun _ ↦ Undescribed cx) fun _ ↦ Undescribed cx := by
  rw [executeRows]
  split
  · refine .bind (batchLoop_undescribed dr cx rows) fun _ ↦ ?_
    exact (quiet_runBatch dr).triple Undescribed.of_reading
  · refine .bind (repeatLoop_undescribed dr cx rows []) fun counts ↦ ?_
    exact .modify fun s hs ↦ hs.of_reading s _ rfl

theorem sendRows_undescribed (c : Execution Py JType) : Triple (Undescribed cx)
    (c.sendRows dr cx) (fun _ ↦ Undescribed cx) fun _ ↦ Undescribed cx := by
  rcases c with ⟨operation, parameters, types, keys⟩ | ⟨operation, seq, types, keys⟩
  · exact .bind (executeone_undescribed dr cx _) fun _ ↦ .pure fun _ ↦ id
  · rcases seq with - | rows | ⟨typeName, typeText⟩
    · exact executeRows_undescribed dr cx []
    · exact executeRows_undescribed dr cx rows
    · exact .throw fun _ ↦ id

theorem takeTypes_reading (types : Option (List (Option JType))) (s : Cursor JType Py Cell D) :
    (takeTypes types s).reading = s.reading := by
  rcases types with - | types <;> rfl

theorem undescribed_finish (s : Cursor JType Py Cell D) : Undescribed cx s.finish :=
  ⟨current_of_none rfl, rfl⟩

theorem current_prelude (c : Execution Py JType) : Triple (Current cx) (c.prelude dr)
    (fun _ ↦ Undescribed cx) fun _ ↦ Current cx := by
  have htypes : Triple (Current cx)
      (modify (takeTypes c.types) : CursorM JType Py Cell D E Unit) (fun _ ↦ Current cx)
      fun _ ↦ Current cx :=
    .modify fun s hs ↦ hs.of_reading (takeTypes_reading c.types s)
  have hfinish : Triple (Current cx) (modify finish : CursorM JType Py Cell D E Unit)
      (fun _ ↦ Undescribed cx) fun _ ↦ Current cx :=
    .modify fun s _ ↦ undescribed_finish s
  refine .bind htypes fun _ ↦ ?_
  refine .bind ((quiet_validate dr).triple fun s s' hs ↦ hs.of_reading) fun _ ↦ ?_
  refine .bind hfinish fun _ ↦ ?_
  exact ((quiet_prepareStatement dr c).triple Undescribed.of_reading).consequence
    (fun _ ↦ id) (fun _ _ ↦ id) fun _ s hs ↦ hs.current

/-- A call of `execute` or `executemany` keeps the invariant. -/
theorem Current.execute (h : Current cx s) (c : Execution Py JType) :
    Current cx ((c.run dr cx).exec s).2 := by
  have hprelude := current_prelude dr c s h
  rw [Execution.exec_run]
  rcases hexec : (c.prelude dr).exec s with ⟨e | ⟨⟩, s₀⟩
  · rw [hexec] at hprelude
    exact hprelude
  · rw [hexec] at hprelude
    exact (((sendRows_undescribed dr c).consequence (fun _ ↦ id) (fun _ _ hs ↦ hs.current)
      fun _ _ hs ↦ hs.current).exec_snd hprelude)

/-! ### Moving on -/

theorem exec_getStatement_none (h : s.statement = none) :
    (getStatement : CursorM JType Py Cell D E (PreparedStatement JType Py Cell)).exec s =
      (.error .attributeError, s) := by
  rw [getStatement, Program.exec_bind]
  simp [h]

/-- `nextset` keeps the invariant, if the description is not that of another result set. -/
theorem Current.nextset (h : Current cx s) (hdesc : KeepsDescription s) :
    Current cx ((nextset (E := E)).exec s).2 := by
  rw [Cursor.nextset, Program.exec_bind]
  simp only [Program.exec_get]
  split
  · exact h
  simp only [Program.exec_bind, Program.exec_modify]
  have hclosed : Current cx s.closeResultSet := current_closeResultSet s
  rcases hst : s.statement with - | st
  · have hst : s.closeResultSet.statement = none := hst
    rw [exec_getStatement_none hst]
    exact hclosed
  · have hst' : s.closeResultSet.statement = some st := hst
    rw [exec_getStatement hst']
    dsimp only
    rcases hresults : st.results.tail with - | ⟨⟨columns, rows⟩ | count, rest⟩
    · exact hclosed.of_reading rfl
    · exact current_onResultSet fun desc hd ↦ hdesc desc hd st hst columns rows rest hresults
    · exact hclosed.of_reading rfl

/-! ### Reading -/

section IsCurrent

variable {rs : ResultSet JType Cell}

theorem IsCurrent.exec_openResultSet (h : s.IsCurrent rs) :
    (openResultSet dr).exec s = (.ok rs, s) := by
  rw [openResultSet, Program.exec_bind]
  simp [h.resultSet, h.isOpen]

theorem exec_openResultSet_of_not (h : ∀ rs, ¬s.IsCurrent rs) :
    ∃ e, (openResultSet dr).exec s = (.error e, s) := by
  rw [openResultSet, Program.exec_bind]
  simp only [Program.exec_get]
  rcases hrs : s.resultSet with - | rs
  · exact ⟨_, rfl⟩
  · rcases hclosed : rs.closed with - | -
    · exact absurd ⟨hrs, hclosed⟩ (h rs)
    · simp only [hclosed, if_true, Program.exec_throw]
      exact ⟨_, rfl⟩

theorem IsCurrent.exec_getDescription (h : s.IsCurrent rs) (hkeeps : Keeps cx s rs) :
    (getDescription dr).exec s =
      (.ok (some (rs.columns.map describe)),
        { s with description := some (rs.columns.map describe) }) := by
  rw [getDescription, Program.exec_bind]
  simp only [Program.exec_get]
  rcases hdesc : s.description with - | desc
  · simp only [h.resultSet, Program.exec_bind, h.exec_openResultSet, Program.exec_modify,
      Program.exec_pure]
  · obtain rfl := hkeeps.description desc hdesc
    show (_, s) = (_, _)
    rw [← hdesc]

/-- What a read leaves when there is no current result set. -/
theorem exec_getDescription_of_not (h : ∀ rs, ¬s.IsCurrent rs) :
    ((getDescription dr).exec s).2 = s := by
  rw [getDescription, Program.exec_bind]
  simp only [Program.exec_get]
  rcases s.description with - | desc
  · rcases s.resultSet with - | rs
    · rfl
    · obtain ⟨e, hopen⟩ := exec_openResultSet_of_not dr h
      simp only [Program.exec_bind, hopen]
  · rfl

theorem Current.getDescription (h : Current cx s) :
    Current cx ((getDescription dr).exec s).2 := by
  by_cases hcurrent : ∃ rs, s.IsCurrent rs
  · obtain ⟨rs, hcurrent⟩ := hcurrent
    have hkeeps := h rs hcurrent
    rw [hcurrent.exec_getDescription dr hkeeps]
    intro rs' hrs'
    obtain rfl := Option.some.inj (hcurrent.resultSet.symm.trans hrs'.resultSet)
    exact { hkeeps with description := fun desc hdesc ↦ (Option.some.inj hdesc).symm }
  · rw [exec_getDescription_of_not dr fun rs hrs ↦ hcurrent ⟨rs, hrs⟩]
    exact h

/-! ### Fetching -/

/-- `next` with a row left. -/
theorem IsCurrent.exec_next_cons (h : s.IsCurrent rs) {row : ℕ → Cell}
    {remaining : List (ℕ → Cell)} (hrows : rs.remaining = row :: remaining) :
    (next dr).exec s =
      (.ok true, { s with resultSet := some { rs with current := some row, remaining } }) := by
  rw [next, Program.exec_bind, h.exec_openResultSet]
  simp only [hrows, Program.exec_bind, Program.exec_modify, Program.exec_pure]

/-- `next` after the last row. -/
theorem IsCurrent.exec_next_nil (h : s.IsCurrent rs) (hrows : rs.remaining = []) :
    (next dr).exec s =
      (.ok false, { s with resultSet := some { rs with current := none } }) := by
  rw [next, Program.exec_bind, h.exec_openResultSet]
  simp only [hrows, Program.exec_bind, Program.exec_modify, Program.exec_pure]

theorem exec_lift {α : Type} (x : Except (DbError E) α) :
    (lift x : CursorM JType Py Cell D E α).exec s = (x, s) := by
  rcases x with e | a <;> rfl

/-- The types of the columns, as a fetch finds them out. -/
theorem exec_getColumnTypes (hkeeps : Keeps cx s rs) :
    (getColumnTypes cx).exec s = (rs.types cx,
      match rs.types cx with
      | .ok types => { s with columnTypes := some types }
      | .error _ => s) := by
  rw [getColumnTypes, Program.exec_bind]
  simp only [Program.exec_get]
  rcases hkeeps.columnTypes with ⟨hnone, hgiven⟩ | ⟨types, hsome, htypes⟩
  · have hget : (List.range s.resultSetCount).mapM (cx.getters s.resultSetMeta) =
        (List.range rs.columns.length).mapM (cx.getters rs.columns) := by
      rw [hkeeps.resultSetMeta, hkeeps.resultSetCount]
    rw [hnone, ResultSet.types, hgiven]
    simp only [Program.exec_bind, exec_lift, hget]
    rcases ((List.range rs.columns.length).mapM (cx.getters rs.columns)).mapError DbError.raised
      with e | types
    · rfl
    · rfl
  · rw [hsome, htypes]
    show (_, s) = (_, { s with columnTypes := some types })
    rw [← hsome]

theorem Keeps.withTypes (hkeeps : Keeps cx s rs) {types : List JType}
    (htypes : rs.types cx = .ok types) : Keeps cx { s with columnTypes := some types } rs :=
  { hkeeps with columnTypes := .inr ⟨types, rfl, htypes⟩ }

/-- How `_fetchRow` reads a row whose converters fit; the mapping that is given is of no
account. -/
def fetchedCells (cx : Connection Py Ty JType Cell E) (converters : Converters Py Ty E)
    (rs : ResultSet JType Cell) (row : ℕ → Cell) : Except (DbError E) (List (Option Py)) := do
  let types ← rs.types cx
  if types.length ≠ rs.columns.length then throw (.programmingError "incorrect number of columns")
  ((List.range rs.columns.length).mapM (fetchCell cx converters types row)).mapError
    (asUnsupported cx)

/-- How `_fetchRow` reads a row. -/
def fetchedRow (cx : Connection Py Ty JType Cell E) (converters : Converters Py Ty E)
    (rs : ResultSet JType Cell) (row : ℕ → Cell) : Except (DbError E) (List (Option Py)) := do
  if let .list l := converters then
    if l.length ≠ rs.columns.length then
      throw (.programmingError "converter list size incorrect")
  fetchedCells cx converters rs row

/-- `_fetchRow` after the check of the converters. -/
def fetchCells (dr : Driver JType Py Cell D E) (cx : Connection Py Ty JType Cell E)
    (converters : Converters Py Ty E) (resultSetCount : ℕ) :
    CursorM JType Py Cell D E (List (Option Py)) := do
  let types ← getColumnTypes cx
  if types.length ≠ resultSetCount then throw (.programmingError "incorrect number of columns")
  let rs ← openResultSet dr
  match rs.current with
  | none => throw .attributeError
  | some row =>
    lift (((List.range resultSetCount).mapM (fetchCell cx converters types row)).mapError
      (asUnsupported cx))

theorem IsCurrent.exec_fetchCells (h : s.IsCurrent rs) (hkeeps : Keeps cx s rs) {row : ℕ → Cell}
    (hrow : rs.current = some row) (converters : Converters Py Ty E) :
    ∃ s', (fetchCells dr cx converters s.resultSetCount).exec s =
        (fetchedCells cx converters rs row, s') ∧
      s'.IsCurrent rs ∧ Keeps cx s' rs ∧ s'.arraysize = s.arraysize := by
  rw [fetchCells, Program.exec_bind, exec_getColumnTypes hkeeps, fetchedCells,
    ← hkeeps.resultSetCount]
  rcases htypes : rs.types cx with e | types
  · exact ⟨s, rfl, h, hkeeps, rfl⟩
  have hcurrent : IsCurrent { s with columnTypes := some types } rs := ⟨h.resultSet, h.isOpen⟩
  refine ⟨{ s with columnTypes := some types }, ?_, hcurrent, hkeeps.withTypes htypes, rfl⟩
  rcases eq_or_ne types.length s.resultSetCount with hlength | hlength
  · simp only [hlength, ne_eq, not_true_eq_false, if_false, Program.exec_bind,
      hcurrent.exec_openResultSet, hrow, exec_lift]
    simp only [bind, Except.bind, hlength, not_true_eq_false, if_false]
  · simp only [if_pos hlength, Program.exec_bind, Program.exec_throw]
    simp only [bind, Except.bind, if_pos hlength]
    rfl

/-- The row is read, and what is kept about the result set stays about it. -/
theorem IsCurrent.exec_fetchRow (h : s.IsCurrent rs) (hkeeps : Keeps cx s rs) {row : ℕ → Cell}
    (hrow : rs.current = some row) (converters : Converters Py Ty E) :
    ∃ s', (fetchRow dr cx converters).exec s = (fetchedRow cx converters rs row, s') ∧
      s'.IsCurrent rs ∧ Keeps cx s' rs ∧ s'.arraysize = s.arraysize := by
  have hcells : ∃ s', (fetchCells dr cx converters s.resultSetCount).exec s =
      (fetchedCells cx converters rs row, s') ∧
        s'.IsCurrent rs ∧ Keeps cx s' rs ∧ s'.arraysize = s.arraysize :=
    h.exec_fetchCells dr hkeeps hrow converters
  rw [fetchRow, Program.exec_bind]
  simp only [Program.exec_get]
  unfold fetchedRow
  rcases converters with - | - | l | mapping
  · exact hcells
  · exact hcells
  · rcases eq_or_ne l.length s.resultSetCount with hlength | hlength
    · simp only [hlength, hkeeps.resultSetCount, ne_eq, not_true_eq_false, if_false] at hcells ⊢
      exact hcells
    · simp only [← hkeeps.resultSetCount, if_pos hlength]
      exact ⟨s, rfl, h, hkeeps, rfl⟩
  · exact hcells

/-- What is read is what is to be read, if the mapping that is given converts it alike. -/
theorem fetchCell_eq {converters : Converters Py Ty E} {types : List JType} {row : ℕ → Cell}
    {idx : ℕ} (h : ∀ mapping, converters = .mapping mapping → ∀ tp value, types[idx]? = some tp →
      cx.get tp (row idx) = .ok (some value) →
        cx.convert mapping value = cx.convert cx.converters value) :
    fetchCell cx converters types row idx = cx.readCell converters types row idx := by
  have hconvert : ∀ value, (match cx.converters (cx.typeOf value) with
      | none => Except.ok (some value)
      | some converter => ((converter value).map some).mapError DbError.raised) =
        ((cx.convert cx.converters value).map some).mapError .raised := by
    intro value
    rw [Connection.convert]
    split <;> rfl
  rw [fetchCell, Connection.readCell]
  rcases htp : types[idx]? with - | tp
  · rfl
  dsimp only
  rcases hget : cx.get tp (row idx) with e | - | value
  · rfl
  · rfl
  rcases converters with - | - | l | mapping
  · exact hconvert value
  · rfl
  · rfl
  · show _ = ((cx.convert mapping value).map some).mapError DbError.raised
    rw [h mapping rfl tp value htp hget]
    exact hconvert value

theorem fetchedRows_eq {converters : Converters Py Ty E} {rows : List (ℕ → Cell)}
    (h : ConvertsAlike cx converters rs rows) :
    rows.mapM (fetchedRow cx converters rs) = rows.mapM (cx.readRow converters rs) := by
  refine (mapM_congr_of_isOk fun n row hrow hok ↦ ?_).symm
  have hcells : cx.readCells converters rs row = fetchedCells cx converters rs row := by
    rw [Connection.readCells, fetchedCells]
    rcases htypes : rs.types cx with e | types
    · rfl
    -- With a wrong number of types both raise before a value is read.
    rcases ne_or_eq types.length rs.columns.length with hlength | hlength
    · simp only [bind, Except.bind, if_pos hlength]
      rfl
    have hmap : (List.range rs.columns.length).mapM (cx.readCell converters types row) =
        (List.range rs.columns.length).mapM (fetchCell cx converters types row) := by
      refine mapM_congr_of_isOk fun m idx hm hreached ↦ (fetchCell_eq fun mapping he ↦ ?_).symm
      obtain ⟨hidx, hval⟩ := List.getElem?_eq_some_iff.1 hm
      obtain rfl : m = idx := by simpa using hval
      rw [List.length_range] at hidx
      refine h mapping he types htypes hlength n row hrow hok m hidx fun j hj ↦ hreached j ?_
      rw [List.take_range, List.mem_range, Nat.min_eq_left (Nat.le_of_lt hidx)]
      exact hj
    simp only [bind, Except.bind, hmap]
  unfold Connection.readRow fetchedRow
  rw [hcells]

theorem IsCurrent.current (h : s.IsCurrent rs) (hkeeps : Keeps cx s rs) : Current cx s := by
  intro rs' hrs'
  obtain rfl := Option.some.inj (h.resultSet.symm.trans hrs'.resultSet)
  exact hkeeps

/-- The loop of the fetches: the next rows are fetched, one after the other. -/
theorem IsCurrent.exec_fetchLoop (h : s.IsCurrent rs) (hkeeps : Keeps cx s rs)
    (converters : Converters Py Ty E) (n : ℕ) (acc : List (List (Option Py))) :
    ∃ s', (fetchLoop dr cx converters n acc).exec s =
      (((rs.remaining.take n).mapM (fetchedRow cx converters rs)).map (acc ++ ·), s') ∧
        Current cx s' := by
  induction n generalizing s rs acc with
  | zero =>
    refine ⟨s, ?_, h.current hkeeps⟩
    show (Except.ok acc, s) = (Except.ok (acc ++ []), s)
    rw [List.append_nil]
  | succ n ih =>
    rw [fetchLoop, Program.exec_bind]
    rcases hrows : rs.remaining with - | ⟨row, remaining⟩
    · rw [h.exec_next_nil dr hrows]
      have hnext : IsCurrent { s with resultSet := some { rs with current := none } }
        { rs with current := none } := ⟨rfl, h.isOpen⟩
      refine ⟨_, ?_, hnext.current { hkeeps with }⟩
      show (Except.ok acc, _) = (Except.ok (acc ++ []), _)
      rw [List.append_nil]
    · rw [h.exec_next_cons dr hrows]
      have hnext : IsCurrent
          { s with resultSet := some { rs with current := some row, remaining } }
          { rs with current := some row, remaining } := ⟨rfl, h.isOpen⟩
      obtain ⟨s', hfetch, hs', hkeeps', -⟩ :=
        hnext.exec_fetchRow dr { hkeeps with } rfl converters
      simp only [if_true]
      rw [Program.exec_bind, hfetch, List.take_succ_cons, List.mapM_cons]
      have hsame : fetchedRow cx converters { rs with current := some row, remaining } row =
        fetchedRow cx converters rs row := rfl
      rw [hsame]
      rcases fetchedRow cx converters rs row with e | values
      · exact ⟨s', rfl, hs'.current hkeeps'⟩
      · obtain ⟨s'', hloop, hcurrent⟩ := ih hs' hkeeps' (acc ++ [values])
        refine ⟨s'', hloop.trans ?_, hcurrent⟩
        show (((remaining.take n).mapM (fetchedRow cx converters rs) : Except (DbError E) _).map
          (acc ++ [values] ++ ·), s'') = _
        rcases (remaining.take n).mapM (fetchedRow cx converters rs) with e | rows
        · rfl
        · show (Except.ok (acc ++ [values] ++ rows), s'') = (Except.ok (acc ++ values :: rows), s'')
          rw [List.append_assoc]
          rfl

theorem IsCurrent.giveTypes (h : s.IsCurrent rs) (types : Option (List JType)) :
    (giveTypes types s).IsCurrent (rs.giving types) := by
  rcases types with - | types
  · exact h
  · refine ⟨?_, h.isOpen⟩
    rw [Cursor.giveTypes, h.resultSet]
    rfl

theorem Keeps.giveTypes (hkeeps : Keeps cx s rs) (types : Option (List JType)) :
    Keeps cx (giveTypes types s) (rs.giving types) := by
  rcases types with - | types
  · exact hkeeps
  · exact { hkeeps with columnTypes := .inr ⟨types, rfl, rfl⟩ }

theorem exec_checkExecuted (s : Cursor JType Py Cell D) :
    ∃ outcome, (checkExecuted (E := E) dr).exec s = (outcome, s) := by
  rw [checkExecuted, Program.exec_bind]
  simp only [Program.exec_get]
  split
  · exact ⟨_, rfl⟩
  · split <;> exact ⟨_, rfl⟩

theorem IsCurrent.exec_checkExecuted (h : s.IsCurrent rs) (hclosed : s.closed = false)
    (hdb : dr.isClosed s.db = false) : (checkExecuted dr).exec s = (.ok (), s) := by
  rw [checkExecuted, Program.exec_bind]
  simp [hclosed, hdb, h.resultSet]

/-- A fetch from the current result set, while cursor and connection are open. -/
theorem IsCurrent.exec_fetch (h : s.IsCurrent rs) (hkeeps : Keeps cx s rs)
    (hclosed : s.closed = false) (hdb : dr.isClosed s.db = false) (f : Fetch)
    (types : Option (List JType)) (converters : Converters Py Ty E) :
    ∃ s', (f.run dr cx types converters).exec s =
      ((rs.remaining.take (f.limit s rs)).mapM (fetchedRow cx converters (rs.giving types)), s') ∧
        Current cx s' := by
  have hcheck := h.exec_checkExecuted dr hclosed hdb
  have hloop := (h.giveTypes types).exec_fetchLoop dr (hkeeps.giveTypes types) converters
  have hremaining : (rs.giving types).remaining = rs.remaining := by
    rcases types with - | types <;> rfl
  have hnil : ∀ x : Except (DbError E) (List (List (Option Py))), x.map ([] ++ ·) = x := by
    rintro (e | rows) <;> rfl
  -- `fetchone` reads a row by itself, and the other two run the loop.
  rcases f with - | size | -
  · rw [Fetch.run, fetchone, Program.exec_bind, Program.exec_bind, hcheck]
    simp only [Program.exec_bind, Fetch.limit]
    rcases hrows : rs.remaining with - | ⟨row, remaining⟩
    · have hnext : IsCurrent { s with resultSet := some { rs with current := none } }
        { rs with current := none } := ⟨rfl, h.isOpen⟩
      rw [h.exec_next_nil dr hrows]
      exact ⟨_, rfl, hnext.current { hkeeps with }⟩
    · have hnext : IsCurrent
          { s with resultSet := some { rs with current := some row, remaining } }
          { rs with current := some row, remaining } := ⟨rfl, h.isOpen⟩
      have hkeeps' : Keeps cx
          { s with resultSet := some { rs with current := some row, remaining } }
          { rs with current := some row, remaining } := { hkeeps with }
      have hrow : (ResultSet.giving types
          { rs with current := some row, remaining }).current = some row := by
        rcases types with - | types <;> rfl
      have hsame : fetchedRow cx converters
          (ResultSet.giving types { rs with current := some row, remaining }) row =
            fetchedRow cx converters (rs.giving types) row := by
        rcases types with - | types <;> rfl
      obtain ⟨s', hfetch, hs', hkeeps'', -⟩ :=
        (hnext.giveTypes types).exec_fetchRow dr (hkeeps'.giveTypes types) hrow converters
      rw [h.exec_next_cons dr hrows]
      simp only [if_true, Program.exec_bind, Program.exec_modify]
      rw [hfetch, hsame, List.take_succ_cons, List.take_zero, List.mapM_cons]
      rcases fetchedRow cx converters (rs.giving types) row with e | values
      · exact ⟨s', rfl, hs'.current hkeeps''⟩
      · exact ⟨s', rfl, hs'.current hkeeps''⟩
  · rw [Fetch.run, fetchmany, Program.exec_bind, hcheck]
    simp only [Program.exec_bind, Program.exec_get, h.exec_openResultSet, Program.exec_modify]
    obtain ⟨s', heq, hcurrent⟩ := hloop (size.getD s.arraysize) []
    rw [hnil, hremaining] at heq
    exact ⟨s', heq, hcurrent⟩
  · rw [Fetch.run, fetchall, Program.exec_bind, hcheck]
    simp only [Program.exec_bind, (h.giveTypes types).exec_openResultSet, Program.exec_modify]
    obtain ⟨s', heq, hcurrent⟩ := hloop ((rs.giving types).remaining.length + 1) []
    rw [hnil, List.take_of_length_le (Nat.le_succ _)] at heq
    refine ⟨s', heq.trans ?_, hcurrent⟩
    rw [Fetch.limit, List.take_length, hremaining]

end IsCurrent

theorem giveTypes_of_not (h : ∀ rs, ¬s.IsCurrent rs) (types : Option (List JType)) :
    ∀ rs, ¬(giveTypes types s).IsCurrent rs := by
  rcases types with - | types
  · exact h
  · intro rs hrs
    obtain ⟨rs', hrs', rfl⟩ := Option.map_eq_some_iff.1 hrs.resultSet
    exact h rs' ⟨hrs', hrs.isOpen⟩

/-- Without a current result set a fetch does not make one. -/
theorem exec_fetch_of_not (h : ∀ rs, ¬s.IsCurrent rs) (f : Fetch) (types : Option (List JType))
    (converters : Converters Py Ty E) :
    ∀ rs, ¬((f.run dr cx types converters).exec s).2.IsCurrent rs := by
  obtain ⟨outcome, hcheck⟩ := exec_checkExecuted (E := E) dr s
  obtain ⟨e, hopen⟩ := exec_openResultSet_of_not dr h
  rcases f with - | size | -
  · rw [Fetch.run, fetchone, Program.exec_bind, Program.exec_bind, hcheck]
    rcases outcome with e | ⟨⟩
    · exact h
    · simp only [Program.exec_bind, next, hopen]
      exact h
  · rw [Fetch.run, fetchmany, Program.exec_bind, hcheck]
    rcases outcome with e | ⟨⟩
    · exact h
    · simp only [Program.exec_bind, Program.exec_get, hopen]
      exact h
  · rw [Fetch.run, fetchall, Program.exec_bind, hcheck]
    rcases outcome with e | ⟨⟩
    · exact h
    · obtain ⟨e, hopen⟩ := exec_openResultSet_of_not dr (giveTypes_of_not h types)
      simp only [Program.exec_bind, Program.exec_modify, hopen]
      exact giveTypes_of_not h types

/-- A fetch by a closed cursor, or after the connection is closed. -/
theorem exec_fetch_of_closed (h : (s.closed || dr.isClosed s.db) = true) (f : Fetch)
    (types : Option (List JType)) (converters : Converters Py Ty E) :
    ((f.run dr cx types converters).exec s).2 = s := by
  have hcheck : (checkExecuted dr).exec s =
      (.error (DbError.programmingError "Cursor is closed" : DbError E), s) := by
    rw [checkExecuted, Program.exec_bind]
    simp only [Program.exec_get, if_pos h, Program.exec_bind, Program.exec_throw]
  rcases f with - | size | -
  · rw [Fetch.run, fetchone, Program.exec_bind, Program.exec_bind, hcheck]
  · rw [Fetch.run, fetchmany, Program.exec_bind, hcheck]
  · rw [Fetch.run, fetchall, Program.exec_bind, hcheck]

theorem Current.fetch (h : Current cx s) (f : Fetch) (types : Option (List JType))
    (converters : Converters Py Ty E) :
    Current cx ((f.run dr cx types converters).exec s).2 := by
  by_cases hcurrent : ∃ rs, s.IsCurrent rs
  · obtain ⟨rs, hrs⟩ := hcurrent
    rcases hclosed : s.closed || dr.isClosed s.db with - | -
    · rw [Bool.or_eq_false_iff] at hclosed
      obtain ⟨s', hfetch, hs'⟩ :=
        hrs.exec_fetch dr (h rs hrs) hclosed.1 hclosed.2 f types converters
      rw [hfetch]
      exact hs'
    · rw [exec_fetch_of_closed dr hclosed]
      exact h
  · intro rs hrs
    exact absurd hrs (exec_fetch_of_not dr (fun rs hrs ↦ hcurrent ⟨rs, hrs⟩) f types converters rs)

theorem Current.close (h : Current cx s) : Current cx ((close (E := E) dr).exec s).2 := by
  have hvalidate := quiet_validate (E := E) dr s
  rw [Cursor.close, Program.exec_bind]
  rcases hexec : (validate (E := E) dr).exec s with ⟨e | ⟨⟩, s'⟩
  · rw [hexec] at hvalidate
    exact h.of_reading hvalidate
  · rw [hexec] at hvalidate
    show Current cx (if s'.closed then s' else _)
    split
    · exact h.of_reading hvalidate
    · exact current_of_none rfl

/-! ### Runs -/

/-- A step that suits keeps the invariant. -/
theorem Current.step (h : Current cx s) {e : CursorEvent Py Ty JType E} (he : Suits dr cx s e) :
    Current cx (step dr cx s e) := by
  rcases e with c | - | - | ⟨f, types, converters⟩ | n | -
  · exact h.execute dr c
  · exact h.nextset he
  · exact h.getDescription dr
  · exact h.fetch dr f types converters
  · exact h.of_reading rfl
  · exact h.close dr

theorem Current.describesCurrent (h : Current cx s) : DescribesCurrent dr s := by
  intro rs hrs
  rw [hrs.exec_getDescription dr (h rs hrs)]

theorem Current.readsCurrent (h : Current cx s) {f : Fetch} {types : Option (List JType)}
    {converters : Converters Py Ty E} (hsuits : Suits dr cx s (.fetch f types converters)) :
    ReadsCurrent dr cx s f types converters := by
  intro rs hrs hclosed hdb
  obtain ⟨s', hfetch, -⟩ := hrs.exec_fetch dr (h rs hrs) hclosed hdb f types converters
  rw [hfetch]
  exact fetchedRows_eq (hsuits rs hrs hclosed hdb)

/-- In every run of a new cursor whose steps all suit, the description and the rows belong to the
current result set. -/
theorem belongsToCurrent_of_suits (dr : Driver JType Py Cell D E)
    (cx : Connection Py Ty JType Cell E) (db : D) (events : List (CursorEvent Py Ty JType E))
    (h : Admissible (Suits dr cx) (step dr cx) { db } events) :
    BelongsToCurrent dr cx { db } events := by
  have hcurrent : ∀ l, l <+: events → Current cx (Foundation.run (step dr cx) { db } l) := by
    rintro l ⟨rest, rfl⟩
    exact invariant_of_admissible (fun s e hs he ↦ hs.step dr he) l { db }
      (current_of_none rfl) (admissible_append.1 h).1
  refine ⟨fun l hl ↦ (hcurrent l hl).describesCurrent dr, fun l f types converters hl ↦ ?_⟩
  obtain ⟨rest, rfl⟩ := hl
  refine (hcurrent l ⟨_, (List.append_assoc ..).symm⟩).readsCurrent dr ?_
  rw [List.append_assoc] at h
  exact (admissible_append.1 h).2.1

/-! ### Two result sets -/

/-- A column of whole numbers. -/
def integers (label : String) : Column where
  label := label
  typeName := "INTEGER"
  type := 4
  displaySize := 11
  precision := 10
  scale := 0
  nullable := 1

/-- A database in which every statement has a result set of one row for each of these columns. -/
def queries (labels : List String) : Driver String ℕ ℕ Unit Unit where
  isClosed _ := false
  prepareStatement _ _ db := (.ok 0, db)
  execute _ db := (.ok (labels.map fun label ↦ .resultSet [integers label] [fun _ ↦ 1]), db)
  addBatch _ db := (.ok (), db)
  executeBatch db := (.ok [], db)
  closedException := ()

/-- A connection that reads numbers as they are. -/
def plainNumbers : Connection ℕ Unit String ℕ Unit where
  typeOf _ := ()
  typeName _ := "int"
  adapters _ := none
  setters _ _ _ := .ok none
  cachable := false
  getters _ _ := .ok "getInt"
  converters _ := none
  batch := true
  set _ _ _ := .ok ()
  get _ cell := .ok (some cell)
  typeError _ := none

/-- Call of a procedure. -/
def callProcedure : CursorEvent ℕ Unit String Unit :=
  .execute (.execute "call results()" none none false)

theorem belongsToCurrent_of_suits_sample :
    BelongsToCurrent (queries ["id", "id"]) plainNumbers { db := () }
      [callProcedure, .description, .fetch .one none (.mapping fun _ ↦ none), .nextset] := by
  refine belongsToCurrent_of_suits _ _ _ _ ⟨trivial, trivial, ?_, ?_, trivial⟩
  · rintro rs - - - mapping he types - - n row - - idx - - tp value - -
    obtain rfl := Converters.mapping.inj he
    rfl
  · rintro desc hdesc st hst columns rows rest hresults
    obtain rfl := Option.some.inj hdesc
    obtain rfl := Option.some.inj hst
    obtain ⟨rfl, rfl⟩ := Result.resultSet.inj (List.cons.inj hresults).1
    rfl

/-- After `nextset` the description may be that of the result set before, and a mapping of
converters that is given is not used. -/
theorem not_belongsToCurrent :
    ¬BelongsToCurrent (queries ["id", "total"]) plainNumbers { db := () }
      [callProcedure, .description, .nextset] ∧
    ¬BelongsToCurrent (queries ["id"]) plainNumbers { db := () }
      [callProcedure, .fetch .one none (.mapping fun _ ↦ some fun value ↦ .ok (value + 1))] := by
  constructor
  · intro h
    have hdesc := h.description _ List.prefix_rfl _ ⟨rfl, rfl⟩
    have hdesc : [describe (integers "id")] = [describe (integers "total")] :=
      Option.some.inj (Except.ok.inj hdesc)
    have hlabel : "id" = "total" := (Prod.mk.inj (List.cons.inj hdesc).1).1
    exact absurd hlabel (by decide)
  · intro h
    have hrows := h.rows [callProcedure] _ _ _ List.prefix_rfl _ ⟨rfl, rfl⟩ rfl rfl
    have hrows : [[some 1]] = [[some 2]] := Except.ok.inj hrows
    exact absurd hrows (by decide)

end Cursor

end JPype
