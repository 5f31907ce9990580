import JPype.Foundation.Hoare
import Mathlib.Algebra.Ring.Int.Defs
import Mathlib.Data.Int.Notation
import Mathlib.Logic.Function.Basic

/-!
# Database cursors

The class `Cursor` of `jpype.dbapi2`, over the parts of JDBC that it drives. A cursor has one
prepared statement at a time. A prepared statement keeps the last value bound at each of its
positions, and running it leaves a sequence of results of which one is the current one.

The driver, the adapters, setters, getters and converters are parameters. The list of `types` that
the caller passes is the list that the cursor works on, so it is kept as a part of the state that
`parameterTypes` may refer to (`TypesRef`). Closing a result set or a statement does not raise.
-/

namespace JPype

open Foundation

/-- What the methods of a cursor raise. -/
inductive DbError (E : Type) where
  | programmingError (message : String)
  /-- `_UnsupportedTypeError` -/
  | unsupportedTypeError (message : String)
  /-- `types[i]` past the end of the list. -/
  | indexError
  /-- An attribute of `None`. -/
  | attributeError
  /-- An exception of the driver or of a function that the user has registered. -/
  | raised (e : E)
  deriving DecidableEq, Repr

/-! ### The parts of JDBC -/

/-- A column as `ResultSetMetaData` describes it. -/
structure Column where
  label : String
  typeName : String
  type : ℤ
  displaySize : ℤ
  precision : ℤ
  scale : ℤ
  nullable : ℤ
  deriving DecidableEq, Repr

/-- `java.sql.ResultSet`. `given` records the `types` that were given to the fetches from it. -/
structure ResultSet (JType Cell : Type) where
  columns : List Column
  /-- The row that the last `next` has moved to. -/
  current : Option (ℕ → Cell) := none
  remaining : List (ℕ → Cell)
  closed : Bool := false
  given : Option (List JType) := none

/-- One result of running a statement. -/
inductive Result (Cell : Type) where
  | resultSet (columns : List Column) (rows : List (ℕ → Cell))
  | updateCount (count : ℤ)

/-- What is bound at each position of a statement: the setter that was used, and the value. -/
abbrev Bindings (JType Py : Type) := ℕ → Option (JType × Py)

/-- `java.sql.PreparedStatement`. `sent` records what was bound whenever the statement was added
to the batch or executed, and `taken` how many of these calls returned. -/
structure PreparedStatement (JType Py Cell : Type) where
  operation : String
  parameterCount : ℕ
  bound : Bindings JType Py := fun _ ↦ none
  sent : List (Bindings JType Py) := []
  taken : ℕ := 0
  /-- The results from the current one on. -/
  results : List (Result Cell) := []

/-- How `prepareStatement` fails. -/
inductive PrepareFailure (E : Type) where
  | typeError (message : String)
  | sqlException (message : String)
  | raised (e : E)

/-- How `executeBatch` fails. -/
inductive BatchFailure (E : Type) where
  | sqlException (message : String)
  | raised (e : E)

/-- The connection to the database, with states `D`. -/
structure Driver (JType Py Cell D E : Type) where
  isClosed : D → Bool
  /-- The number of parameters of the statement that is prepared. -/
  prepareStatement : String → Bool → D → Except (PrepareFailure E) ℕ × D
  execute : Bindings JType Py → D → Except E (List (Result Cell)) × D
  addBatch : Bindings JType Py → D → Except E Unit × D
  executeBatch : D → Except (BatchFailure E) (List ℤ) × D
  /-- What a closed result set raises. -/
  closedException : E

/-- What a `Connection` has registered, and what the functions do. -/
structure Connection (Py Ty JType Cell E : Type) where
  /-- `type(p)` -/
  typeOf : Py → Ty
  /-- `__name__` of a type -/
  typeName : Ty → String
  adapters : Ty → Option (Py → Except E Py)
  /-- `cx._setters(cx, meta, i, type)` on the parameters of an operation. -/
  setters : String → ℕ → Ty → Except E (Option JType)
  /-- `_setters` has the attribute `_cachable`. -/
  cachable : Bool
  /-- `cx._getters(cx, meta, i)` -/
  getters : List Column → ℕ → Except E JType
  converters : Ty → Option (Py → Except E Py)
  /-- `supportsBatchUpdates` -/
  batch : Bool
  /-- `JDBCType.set` -/
  set : JType → ℕ → Py → Except E Unit
  /-- `JDBCType.get`; `none` is `None`. -/
  get : JType → Cell → Except E (Option Py)
  /-- The text of the exception, if it is a `TypeError`. -/
  typeError : E → Option String

/-! ### The cursor -/

/-- `_parameterTypes`: `None`, the list that the caller has passed, or one that the cursor has
made. -/
inductive TypesRef (JType : Type) where
  | none
  | caller
  | own (types : List (Option JType))
  deriving DecidableEq, Repr

/-- `Cursor` -/
structure Cursor (JType Py Cell D : Type) where
  closed : Bool := false
  statement : Option (PreparedStatement JType Py Cell) := none
  resultSet : Option (ResultSet JType Cell) := none
  resultSetMeta : List Column := []
  resultSetCount : ℕ := 0
  columnTypes : Option (List JType) := none
  description : Option (List (String × String × ℤ × ℤ × ℤ × ℤ × ℤ)) := none
  rowcount : ℤ := -1
  arraysize : ℕ := 1
  parameterTypes : TypesRef JType := .none
  /-- The list that `parameterTypes` refers to as the caller's. -/
  callerTypes : List (Option JType) := []
  db : D

/-- The row of parameters given to `_setParams`. -/
inductive Parameters (Py : Type) where
  | str
  | mapping
  | notIterable (typeName : String)
  | values (elements : List Py)

/-- `seq_of_parameters` -/
inductive SeqOfParameters (Py : Type) where
  | none
  | rows (rows : List (Parameters Py))
  /-- Something that is not iterable, with `__name__` and `str` of its type. -/
  | notIterable (typeName typeText : String)

/-- The argument `converters` of the fetches. -/
inductive Converters (Py Ty E : Type) where
  | default
  | none
  | list (converters : List (Py → Except E Py))
  | mapping (converters : Ty → Option (Py → Except E Py))

variable {Py Ty JType Cell D E : Type}

/-- A method of a cursor. -/
abbrev CursorM (JType Py Cell D E : Type) := Program (Cursor JType Py Cell D) (DbError E)

namespace Cursor

variable (dr : Driver JType Py Cell D E) (cx : Connection Py Ty JType Cell E)

/-- `_validate`, called by the thread that has made the cursor. -/
def validate : CursorM JType Py Cell D E Unit := do
  let s ← get
  if s.closed || dr.isClosed s.db then throw (.programmingError "Cursor is closed")

/-- `_check_executed` -/
def checkExecuted : CursorM JType Py Cell D E Unit := do
  let s ← get
  if s.closed || dr.isClosed s.db then throw (.programmingError "Cursor is closed")
  if s.resultSet.isNone then throw (.programmingError "execute() first")

/-- `_finish` -/
def finish (s : Cursor JType Py Cell D) : Cursor JType Py Cell D :=
  { s with resultSet := none, statement := none, rowcount := -1, description := none }

/-- The statement; a cursor without one has `None` in its place. -/
def getStatement : CursorM JType Py Cell D E (PreparedStatement JType Py Cell) := do
  let s ← get
  match s.statement with
  | none => throw .attributeError
  | some statement => return statement

/-! ### Parameters -/

/-- `self._parameterTypes`, with `None` as the empty list, which is as false as that. -/
def types (s : Cursor JType Py Cell D) : List (Option JType) :=
  match s.parameterTypes with
  | .none => []
  | .caller => s.callerTypes
  | .own types => types

/-- The list behind `self._parameterTypes` has been written to. -/
def storeTypes (s : Cursor JType Py Cell D) (types : List (Option JType)) :
    Cursor JType Py Cell D :=
  match s.parameterTypes with
  | .none => s
  | .caller => { s with callerTypes := types }
  | .own _ => { s with parameterTypes := .own types }

/-- The value that is bound for an element. -/
def adapt (p : Py) : Except E Py :=
  match cx.adapters (cx.typeOf p) with
  | some a => a p
  | none => .ok p

/-- The setter for position `i`, which is entered in the list of types if it is not there. -/
def setterFor (operation : String) (i : ℕ) (p : Py) (types : List (Option JType)) :
    Except (DbError E) JType × List (Option JType) :=
  match types[i]? with
  | none => (.error .indexError, types)
  | some (some s) => (.ok s, types)
  | some none =>
    match cx.setters operation i (cx.typeOf p) with
    | .error e => (.error (.raised e), types)
    | .ok none =>
      (.error (.unsupportedTypeError
        ("no setter found for '" ++ cx.typeName (cx.typeOf p) ++ "'")), types)
    | .ok (some s) => (.ok s, types.set i (some s))

/-- The loop of `_setParams`, from position `i` on. -/
def bindLoop (operation : String) :
    ℕ → List Py → List (Option JType) → Bindings JType Py →
      Except (DbError E) Unit × List (Option JType) × Bindings JType Py
  | _, [], types, bound => (.ok (), types, bound)
  | i, p :: rest, types, bound =>
    match adapt cx p with
    | .error e => (.error (.raised e), types, bound)
    | .ok p =>
      match setterFor cx operation i p types with
      | (.error e, types) => (.error e, types, bound)
      | (.ok s, types) =>
        match cx.set s i p with
        | .error e => (.error (.raised e), types, bound)
        | .ok () => bindLoop operation (i + 1) rest types (Function.update bound i (some (s, p)))

/-- The end of `_setParams`, for a row of as many elements as the statement has parameters. -/
def bindRow (statement : PreparedStatement JType Py Cell) (elements : List Py) :
    CursorM JType Py Cell D E Unit := do
  let s ← get
  let fresh := s.types.isEmpty
  let types := if fresh then List.replicate statement.parameterCount none else s.types
  match bindLoop cx statement.operation 0 elements types statement.bound with
  | (outcome, types, bound) =>
    modify fun s ↦
      { (if fresh then s else s.storeTypes types) with
        statement := some { statement with bound } }
    match outcome with
    | .error e => throw e
    | .ok () =>
      -- a list that is not fresh is the one that is stored already
      if cx.cachable ∧ fresh then modify fun s ↦ { s with parameterTypes := .own types }

/-- The message for a row of the wrong length. -/
def incorrectNumber (count length : ℕ) : String :=
  "incorrect number of parameters (" ++ toString count ++ "!=" ++ toString length ++ ")"

/-- `_setParams` -/
def setParams (params : Parameters Py) : CursorM JType Py Cell D E Unit :=
  match params with
  | .str => throw (.unsupportedTypeError "parameters must be a sequence of values")
  | .mapping => throw (.unsupportedTypeError "mapping parameters not supported")
  | .notIterable typeName =>
    throw (.unsupportedTypeError ("'" ++ typeName ++ "' parameters not supported"))
  -- the metadata of a statement without parameters is not inspected
  | .values [] => pure ()
  | .values (p :: rest) => do
    let statement ← getStatement
    if (p :: rest).length ≠ statement.parameterCount then
      throw (.programmingError (incorrectNumber statement.parameterCount (p :: rest).length))
    else bindRow cx statement (p :: rest)

/-! ### Results -/

/-- `_onResultSet`, on the current result of the statement. -/
def onResultSet (columns : List Column) (rows : List (ℕ → Cell)) (s : Cursor JType Py Cell D) :
    Cursor JType Py Cell D :=
  { s with
    resultSet := some { columns, remaining := rows }
    resultSetMeta := columns
    resultSetCount := columns.length
    columnTypes := none }

/-- `getUpdateCount` -/
def updateCount : List (Result Cell) → ℤ
  | .updateCount count :: _ => count
  | _ => -1

/-- The result set is closed. -/
def closeResultSet (s : Cursor JType Py Cell D) : Cursor JType Py Cell D :=
  { s with resultSet := s.resultSet.map fun rs ↦ { rs with closed := true } }

/-- `self._statement.execute()`, which implicitly closes the result set of the statement. -/
def executeStatement : CursorM JType Py Cell D E (List (Result Cell)) := do
  let statement ← getStatement
  let s ← get
  let sent := statement.sent ++ [statement.bound]
  match dr.execute statement.bound s.db with
  | (.error e, db) =>
    modify fun s ↦ closeResultSet { s with statement := some { statement with sent }, db }
    throw (.raised e)
  | (.ok results, db) =>
    let taken := statement.taken + 1
    modify fun s ↦
      closeResultSet { s with statement := some { statement with sent, taken, results }, db }
    return results

/-- `_executeone` -/
def executeone (params : Parameters Py) : CursorM JType Py Cell D E ℤ := do
  setParams cx params
  let results ← executeStatement dr
  match results with
  | .resultSet columns rows :: _ => modify (onResultSet columns rows)
  | _ => pure ()
  modify fun s ↦ { s with rowcount := updateCount results }
  return updateCount results

/-- `self._statement.addBatch()` -/
def addBatch : CursorM JType Py Cell D E Unit := do
  let statement ← getStatement
  let s ← get
  let sent := statement.sent ++ [statement.bound]
  match dr.addBatch statement.bound s.db with
  | (.error e, db) =>
    modify fun s ↦ { s with statement := some { statement with sent }, db }
    throw (.raised e)
  | (.ok (), db) =>
    let taken := statement.taken + 1
    modify fun s ↦ { s with statement := some { statement with sent, taken }, db }

/-- The preparation of the statement; `failed` is the message for an `SQLException`. -/
def prepare (operation : String) (keys : Bool) (failed : String → String) :
    CursorM JType Py Cell D E Unit := do
  let s ← get
  match dr.prepareStatement operation keys s.db with
  | (.ok parameterCount, db) =>
    modify fun s ↦ { s with statement := some { operation, parameterCount }, db }
  | (.error failure, db) =>
    modify fun s ↦ { s with db }
    match failure with
    | .typeError message => throw (.unsupportedTypeError message)
    | .sqlException message => throw (.programmingError (failed message))
    | .raised e => throw (.raised e)

/-- The parameter `types` of an execution. -/
def takeTypes (types : Option (List (Option JType))) (s : Cursor JType Py Cell D) :
    Cursor JType Py Cell D :=
  match types with
  | none => { s with parameterTypes := .none, callerTypes := [] }
  | some types => { s with parameterTypes := .caller, callerTypes := types }

/-- `execute` -/
def execute (operation : String) (parameters : Option (Parameters Py))
    (types : Option (List (Option JType))) (keys : Bool) : CursorM JType Py Cell D E Unit := do
  modify (takeTypes types)
  validate dr
  modify finish
  match parameters.getD (.values []) with
  | .notIterable typeName =>
    throw (.unsupportedTypeError ("parameters are of unsupported type '" ++ typeName ++ "'"))
  | parameters =>
    prepare dr operation keys id
    let _ ← executeone dr cx parameters

/-- The loop of `_executeBatch`. -/
def batchLoop : List (Parameters Py) → CursorM JType Py Cell D E Unit
  | [] => pure ()
  | params :: rest => do
    setParams cx params
    addBatch dr
    batchLoop rest

/-- `rowcount` after several counts. -/
def totalCount (counts : List ℤ) : ℤ :=
  if counts.sum < 0 then -1 else counts.sum

/-- `self._statement.executeBatch()`, with the rest of `_executeBatch`. -/
def runBatch : CursorM JType Py Cell D E Unit := do
  let s ← get
  match dr.executeBatch s.db with
  | (.ok counts, db) => modify fun s ↦ { s with db, rowcount := totalCount counts }
  | (.error failure, db) =>
    modify fun s ↦ { s with db }
    match failure with
    | .sqlException message => throw (.programmingError message)
    | .raised e => throw (.raised e)

/-- The loop of `_executeRepeat`. -/
def repeatLoop : List (Parameters Py) → List ℤ → CursorM JType Py Cell D E (List ℤ)
  | [], counts => return counts
  | params :: rest, counts => do
    let count ← executeone dr cx params
    repeatLoop rest (counts ++ [count])

/-- The rows of `executemany`, by `_executeBatch` or `_executeRepeat`. -/
def executeRows (rows : List (Parameters Py)) : CursorM JType Py Cell D E Unit :=
  if cx.batch then do
    batchLoop dr cx rows
    runBatch dr
  else do
    let counts ← repeatLoop dr cx rows []
    modify fun s ↦ { s with rowcount := totalCount counts }

/-- `executemany` -/
def executemany (operation : String) (seq : SeqOfParameters Py)
    (types : Option (List (Option JType))) (keys : Bool) : CursorM JType Py Cell D E Unit := do
  modify (takeTypes types)
  validate dr
  modify finish
  prepare dr operation keys fun _ ↦ "Failed to prepare '" ++ operation ++ "'"
  match seq with
  | .none => executeRows dr cx []
  | .rows rows => executeRows dr cx rows
  | .notIterable typeName typeText =>
    throw (.unsupportedTypeError
      ("'" ++ (if cx.batch then typeName else typeText) ++ "' is not supported"))

/-! ### Fetching -/

/-- `getColumnLabel` and what follows it in `description`. -/
def describe (c : Column) : String × String × ℤ × ℤ × ℤ × ℤ × ℤ :=
  (c.label, c.typeName, c.displaySize, c.displaySize, c.precision, c.scale, c.nullable)

/-- The result set as a method finds it; closed ones raise. -/
def openResultSet : CursorM JType Py Cell D E (ResultSet JType Cell) := do
  let s ← get
  match s.resultSet with
  | none => throw .attributeError
  | some rs => if rs.closed then throw (.raised dr.closedException) else return rs

/-- The property `description`. -/
def getDescription :
    CursorM JType Py Cell D E (Option (List (String × String × ℤ × ℤ × ℤ × ℤ × ℤ))) := do
  let s ← get
  match s.description with
  | some desc => return some desc
  | none =>
    match s.resultSet with
    | none => return none
    | some _ =>
      let rs ← openResultSet dr
      let desc := rs.columns.map describe
      modify fun s ↦ { s with description := some desc }
      return some desc

/-- `self._resultSet.next()` -/
def next : CursorM JType Py Cell D E Bool := do
  let rs ← openResultSet dr
  match rs.remaining with
  | [] =>
    modify fun s ↦ { s with resultSet := some { rs with current := none } }
    return false
  | row :: remaining =>
    modify fun s ↦ { s with resultSet := some { rs with current := some row, remaining } }
    return true

/-- The value of a cell in `_fetchRow`, by the type of its column. -/
def fetchCell (converters : Converters Py Ty E) (types : List JType) (row : ℕ → Cell) (idx : ℕ) :
    Except (DbError E) (Option Py) :=
  match types[idx]? with
  | none => .error .indexError
  | some tp =>
    match cx.get tp (row idx) with
    | .error e => .error (.raised e)
    | .ok none => .ok none
    | .ok (some value) =>
      match converters with
      | .none => .ok (some value)
      | .list converters =>
        match converters[idx]? with
        | none => .error .indexError
        | some converter => ((converter value).map some).mapError .raised
      | _ =>
        -- whether it is the connection's mapping or one that is given
        match cx.converters (cx.typeOf value) with
        | none => .ok (some value)
        | some converter => ((converter value).map some).mapError .raised

/-- The exceptions of the loop in `_fetchRow`. -/
def asUnsupported : DbError E → DbError E
  | .raised e =>
    match cx.typeError e with
    | some text => .unsupportedTypeError text
    | none => .raised e
  | e => e

/-- A computation that does not touch the cursor. -/
def lift {α : Type} : Except (DbError E) α → CursorM JType Py Cell D E α
  | .ok a => pure a
  | .error e => throw e

/-- The column types of `_fetchRow`, found out if need be. -/
def getColumnTypes : CursorM JType Py Cell D E (List JType) := do
  let s ← get
  match s.columnTypes with
  | some types => return types
  | none =>
    let types ← lift (((List.range s.resultSetCount).mapM (cx.getters s.resultSetMeta)).mapError
      .raised)
    modify fun s ↦ { s with columnTypes := some types }
    return types

/-- `_fetchRow` -/
def fetchRow (converters : Converters Py Ty E) : CursorM JType Py Cell D E (List (Option Py)) := do
  let s ← get
  if let .list l := converters then
    if l.length ≠ s.resultSetCount then
      throw (.programmingError "converter list size incorrect")
  let types ← getColumnTypes cx
  if types.length ≠ s.resultSetCount then throw (.programmingError "incorrect number of columns")
  let rs ← openResultSet dr
  match rs.current with
  | none => throw .attributeError
  | some row =>
    lift (((List.range s.resultSetCount).mapM (fetchCell cx converters types row)).mapError
      (asUnsupported cx))

/-- `self._columnTypes = types`, if types are given. -/
def giveTypes (types : Option (List JType)) (s : Cursor JType Py Cell D) :
    Cursor JType Py Cell D :=
  match types with
  | none => s
  | some types =>
    { s with
      columnTypes := some types
      resultSet := s.resultSet.map fun rs ↦ { rs with given := some types } }

/-- `fetchone` -/
def fetchone (types : Option (List JType)) (converters : Converters Py Ty E) :
    CursorM JType Py Cell D E (Option (List (Option Py))) := do
  checkExecuted dr
  if ← next dr then
    modify (giveTypes types)
    let row ← fetchRow dr cx converters
    return some row
  else return none

/-- The loop of `fetchmany`. -/
def fetchLoop (converters : Converters Py Ty E) :
    ℕ → List (List (Option Py)) → CursorM JType Py Cell D E (List (List (Option Py)))
  | 0, rows => return rows
  | n + 1, rows => do
    if ← next dr then
      let row ← fetchRow dr cx converters
      fetchLoop converters n (rows ++ [row])
    else return rows

/-- `fetchmany`. Setting the fetch size does nothing but raise on a closed result set. -/
def fetchmany (size : Option ℕ) (types : Option (List JType)) (converters : Converters Py Ty E) :
    CursorM JType Py Cell D E (List (List (Option Py))) := do
  checkExecuted dr
  let s ← get
  let _ ← openResultSet dr
  modify (giveTypes types)
  fetchLoop dr cx converters (size.getD s.arraysize) []

/-- `fetchall`. The loop ends once it finds no row, which it does after the remaining ones. -/
def fetchall (types : Option (List JType)) (converters : Converters Py Ty E) :
    CursorM JType Py Cell D E (List (List (Option Py))) := do
  checkExecuted dr
  modify (giveTypes types)
  let rs ← openResultSet dr
  fetchLoop dr cx converters (rs.remaining.length + 1) []

/-- `nextset` -/
def nextset : CursorM JType Py Cell D E (Option Bool) := do
  let s ← get
  if s.resultSet.isNone then throw .attributeError
  modify closeResultSet
  let statement ← getStatement
  let results := statement.results.tail
  modify fun s ↦ { s with statement := some { statement with results } }
  match results with
  | .resultSet columns rows :: _ =>
    modify (onResultSet columns rows)
    return some true
  | _ =>
    modify fun s ↦ { s with rowcount := updateCount results }
    return none

/-- `close`, while the Java virtual machine runs. -/
def close : CursorM JType Py Cell D E Unit := do
  validate dr
  modify fun s ↦ if s.closed then s else { s.finish with closed := true }

end Cursor

end JPype
