import JPype.Foundation.Faults
import JPype.Foundation.Runs
import JPype.Dbapi2.Jdbc

/-!
# A connection and its cursors

A cursor opens a statement when it executes, and result sets of the statement; it closes them when
it executes again and when it is closed. Any call may fail: a request to the driver, which may then
have changed the state of the driver, and the Python code in between, which may ask the driver for
something itself. What an exception says is left out here, and so are exceptions that do not come
out of a call.

A `Session` takes one method after the other: the methods do not overlap in time, be it on one
thread or on several. What is asked of the driver past the cursors is the event `direct`.
-/

namespace JPype.Resources

open Foundation FaultyProgram

variable {E Thread α : Type} {D : Driver E}

/-- A `Cursor`, as far as it decides on calls of the driver. -/
structure Cursor (Thread : Type) where
  /-- `_thread` -/
  thread : Thread
  statement : Option ℕ := none
  resultSet : Option ℕ := none
  resultSetCount : ℕ := 0
  closed : Bool := false
  arraysize : ℕ := 1
  /-- `_description` is not `None`. -/
  described : Bool := false
  /-- `_last` is not `None`. -/
  last : Bool := false
  /-- The length of `_columnTypes`, unless it is `None`. -/
  columnTypes : Option ℕ := none

/-- A `Connection` with its cursors. -/
structure Session (Thread : Type) (D : Driver E) where
  db : D.State := D.connected
  closed : Bool := false
  cursors : ℕ → Option (Cursor Thread) := fun _ ↦ none
  nextCursor : ℕ := 0

/-- A method, which counts its calls. -/
abbrev Method (Thread : Type) (D : Driver E) (α : Type) :=
  FaultyProgram (Session Thread D) (Raised E) α

namespace Session

/-- A cursor is changed. -/
def modifyCursor (c : ℕ) (f : Cursor Thread → Cursor Thread) (s : Session Thread D) :
    Session Thread D :=
  { s with cursors := Function.update s.cursors c ((s.cursors c).map f) }

/-- A call of the driver. -/
def driver (f : D.State → Except (Raised E) α × D.State) :
    Program (Session Thread D) (Raised E) α :=
  Program.onPart Session.db (fun db s ↦ { s with db := db }) (ExceptT.mk f)

end Session

open Session

/-- What is not of the package: which calls fail, and what Python code asks of the driver in a
call. -/
structure Environment (E : Type) where
  faults : ℕ → Option (Raised E) := fun _ ↦ none
  requests : ℕ → List Request := fun _ ↦ []

variable (env : Environment E) (c : ℕ)

/-- A request, which may fail before it reaches the driver. -/
def ask (q : Request) : Method Thread D q.Answer :=
  call env.faults (driver (D.perform q))

/-- Python code that is not of the package, such as adapters, setters, getters and converters, or
that does nothing but perhaps raise. -/
def work : Method Thread D Unit := do
  let t ← get
  step (driver fun db ↦ (.ok (), D.performAll (env.requests t.2) db))
  call env.faults (pure ())

/-- `if b: raise e` -/
def refuse (b : Bool) (e : Raised E) : Method Thread D Unit :=
  if b then throw e else pure ()

/-- The attributes of the cursor. -/
def self : Method Thread D (Cursor Thread) := do
  let t ← get
  match t.1.cursors c with
  | none => throw .attributeError
  | some cur => pure cur

/-- The attributes are set. -/
def setSelf (f : Cursor Thread → Cursor Thread) : Method Thread D Unit :=
  step (modify (modifyCursor c f))

/-- `self._statement`, of which a method is called. -/
def ownStatement : Method Thread D ℕ := do
  let cur ← self c
  match cur.statement with
  | none => throw .attributeError
  | some st => pure st

/-- `self._resultSet`, of which a method is called. -/
def ownResultSet : Method Thread D ℕ := do
  let cur ← self c
  match cur.resultSet with
  | none => throw .attributeError
  | some r => pure r

/-- The parameters of an execution. None at all count as no values. -/
inductive Params where
  | notIterable
  /-- A `str` or a mapping. -/
  | unsupported
  | values (n : ℕ)
  deriving DecidableEq

namespace Cursor

section Methods

variable [DecidableEq Thread]

/-- `_validate` -/
def validate (t : Thread) : Method Thread D Unit := do
  let cur ← self c
  refuse cur.closed .programmingError
  let isClosed ← ask env .isClosed
  refuse isClosed .programmingError
  refuse (t ≠ cur.thread) .programmingError

/-- `_check_executed` -/
def checkExecuted (t : Thread) : Method Thread D Unit := do
  validate env c t
  let cur ← self c
  refuse cur.resultSet.isNone .programmingError

end Methods

/-- `self._resultSet` is closed and given up. -/
def finishResultSet : Method Thread D Unit := do
  let cur ← self c
  match cur.resultSet with
  | none => pure ()
  | some r => do
    ask env (.closeResultSet r)
    setSelf c fun cur ↦ { cur with resultSet := none }

/-- `self._statement` is closed and given up. -/
def finishStatement : Method Thread D Unit := do
  let cur ← self c
  match cur.statement with
  | none => pure ()
  | some st => do
    ask env (.closeStatement st)
    setSelf c fun cur ↦ { cur with statement := none }

/-- `_finish` -/
def finish : Method Thread D Unit := do
  finishResultSet env c
  finishStatement env c
  setSelf c fun cur ↦ { cur with described := false, last := false }

/-- `_close`, with the JVM running. -/
def close_ : Method Thread D Unit := do
  let cur ← self c
  if cur.closed then pure ()
  else do
    finish env c
    setSelf c fun cur ↦ { cur with closed := true }

/-- The statement is prepared and becomes that of the cursor. -/
def prepare : Method Thread D Unit :=
  call env.faults do
    let st ← driver D.prepare
    modify (modifyCursor c fun cur ↦ { cur with statement := some st })

/-- A parameter is set. -/
def setParam : Method Thread D Unit := do
  work env
  let st ← ownStatement c
  ask env (.useStatement st)

/-- `_setParams` -/
def setParams (params : Params) : Method Thread D Unit :=
  match params with
  | .notIterable => throw .unsupportedTypeError
  | .unsupported => throw .unsupportedTypeError
  | .values n => do
    work env
    if n = 0 then pure ()
    else do
      let st ← ownStatement c
      let count ← ask env (.getParameterCount st)
      refuse (n ≠ count) .programmingError
      (List.range n).forM fun _ ↦ setParam env c

/-- `_onResultSet` -/
def onResultSet (r : Option ℕ) : Method Thread D Unit :=
  match r with
  | none => throw .attributeError
  | some r => do
    ask env (.useResultSet r)
    setSelf c fun cur ↦ { cur with resultSet := some r }
    let count ← ask env (.getColumnCount r)
    setSelf c fun cur ↦ { cur with resultSetCount := count, columnTypes := none }

/-- What a statement yields becomes the result set of the cursor, if there is one. -/
def takeResultSet (isResultSet : Bool) : Method Thread D Unit :=
  if isResultSet then do
    let st ← ownStatement c
    let r ← ask env (.getResultSet st)
    onResultSet env c r
  else pure ()

/-- `getUpdateCount` -/
def updateCount : Method Thread D Unit := do
  let st ← ownStatement c
  ask env (.useStatement st)

/-- The statement is executed. -/
def executeStatement : Method Thread D Unit := do
  let st ← ownStatement c
  let isResultSet ← ask env (.execute st)
  takeResultSet env c isResultSet
  updateCount env c

/-- `_executeone` -/
def executeone (params : Params) : Method Thread D Unit := do
  setParams env c params
  executeStatement env c

/-- The parameters of an execution join the batch. -/
def addBatch (params : Params) : Method Thread D Unit := do
  work env
  setParams env c params
  let st ← ownStatement c
  ask env (.useStatement st)

/-- `_executeBatch` -/
def executeBatch (seq : Option (List Params)) : Method Thread D Unit :=
  match seq with
  | none => throw .unsupportedTypeError
  | some seq => do
    seq.forM fun params ↦ addBatch env c params
    let st ← ownStatement c
    ask env (.executeBatch st)
    work env

/-- `_executeRepeat` -/
def executeRepeat (seq : Option (List Params)) : Method Thread D Unit :=
  match seq with
  | none => throw .unsupportedTypeError
  | some seq => do
    seq.forM fun params ↦ do
      work env
      executeone env c params

/-- `types[i]` is given, or looked up, and the parameter is set if it goes in; whether its type
stays. A cursor has no `registerOutParameter`. -/
def bindParameter (n i : ℕ) : Method Thread D Bool := do
  refuse (n ≤ i) .indexError
  work env
  let st ← ownStatement c
  let mode ← ask env (.getParameterMode st (i + 1))
  match mode with
  | 1 => do
    setParam env c
    work env
    pure false
  | 2 => do
    setParam env c
    throw .attributeError
  | 4 => throw .attributeError
  | _ => pure true

/-- The number of parameters that a call has, according to the driver. -/
def callCount (n : ℕ) : Method Thread D ℕ :=
  if n = 0 then pure 0
  else do
    let st ← ownStatement c
    let count ← ask env (.getParameterCount st)
    work env
    pure count

/-- What has come out of a parameter is read, if its type has stayed. -/
def readParameter (stays : Bool) : Method Thread D Unit :=
  if stays then do
    let st ← ownStatement c
    ask env (.useStatement st)
    work env
  else pure ()

/-- The types of the columns are looked up, unless they are there. -/
def findColumnTypes (cur : Cursor Thread) : Method Thread D Unit :=
  match cur.columnTypes with
  | some _ => pure ()
  | none => do
    (List.range cur.resultSetCount).forM fun _ ↦ do
      work env
      let r ← ownResultSet c
      ask env (.useResultSet r)
    setSelf c fun cur ↦ { cur with columnTypes := some cur.resultSetCount }

/-- `_fetchRow`, with a list of so many converters or with none. -/
def fetchRow (converters : Option ℕ) : Method Thread D Unit := do
  let cur ← self c
  refuse (converters.any (· ≠ cur.resultSetCount)) .programmingError
  findColumnTypes env c cur
  refuse (cur.columnTypes.any (· ≠ cur.resultSetCount)) .programmingError
  (List.range cur.resultSetCount).forM fun _ ↦ do
    let r ← ownResultSet c
    ask env (.useResultSet r)
    work env

/-- `types`, if it is given. -/
def setTypes (types : Option ℕ) : Method Thread D Unit :=
  match types with
  | none => pure ()
  | some count => setSelf c fun cur ↦ { cur with columnTypes := some count }

/-- `self._resultSet.next()` -/
def nextRow : Method Thread D Bool := do
  let r ← ownResultSet c
  ask env (.next r)

/-- A loop over at most so many rows: whether there were as many. -/
def fetchLoop (converters : Option ℕ) : ℕ → Method Thread D Bool
  | 0 => pure true
  | n + 1 => do
    let more ← nextRow env c
    if more then do
      fetchRow env c converters
      fetchLoop converters n
    else pure false

/-- The generator of `__iter__` goes on. -/
def iterate : Method Thread D Unit := do
  let more ← nextRow env c
  if more then fetchRow env c none else pure ()

/-- `nextset` -/
def nextset : Method Thread D Unit := do
  let r ← ownResultSet c
  ask env (.closeResultSet r)
  let st ← ownStatement c
  let isResultSet ← ask env (.getMoreResults st)
  if isResultSet then takeResultSet env c true else updateCount env c

/-- `description` -/
def description : Method Thread D Unit := do
  let cur ← self c
  match cur.described, cur.resultSet with
  | false, some r => do
    let count ← ask env (.getColumnCount r)
    (List.range count).forM fun _ ↦ do
      ask env (.useResultSet r)
      work env
    setSelf c fun cur ↦ { cur with described := true }
  | _, _ => pure ()

/-- `parameters` -/
def parameters : Method Thread D Unit := do
  let cur ← self c
  match cur.statement with
  | none => throw .programmingError
  | some st => do
    let count ← ask env (.getParameterCount st)
    (List.range count).forM fun _ ↦ do
      ask env (.useStatement st)
      work env

/-- `with r:`, which eats what the driver raises at the end if something has been raised before. -/
def withResultSet (r : ℕ) (body : Method Thread D Unit) : Method Thread D Unit := do
  tryCatch body fun e ↦ do
    tryCatch (ask env (.closeResultSet r)) fun _ ↦ pure ()
    throw e
  ask env (.closeResultSet r)

/-- The loop of `lastrowid`, which counts the rows. -/
def keysLoop (r : ℕ) : ℕ → ℕ → Method Thread D ℕ
  | 0, _ => throw .keyboardInterrupt
  | fuel + 1, n => do
    let more ← ask env (.next r)
    if more then do
      ask env (.useResultSet r)
      keysLoop r fuel (n + 1)
    else pure n

/-- `lastrowid`, whose loop is broken off after so many rows. -/
def lastrowid (fuel : ℕ) : Method Thread D Unit := do
  let cur ← self c
  if cur.last then pure ()
  else do
    let st ← ownStatement c
    let keys ← ask env (.getGeneratedKeys st)
    match keys with
    | none => throw .attributeError
    | some r => withResultSet env r do
      let isClosed ← ask env (.isResultSetClosed r)
      if isClosed then pure ()
      else do
        let n ← keysLoop env r fuel 0
        setSelf c fun cur ↦ { cur with last := n ≠ 0 }

variable [DecidableEq Thread]

/-- `close` -/
def close (t : Thread) : Method Thread D Unit := do
  validate env c t
  close_ env c

/-- `execute` -/
def execute (t : Thread) (params : Params) : Method Thread D Unit := do
  setSelf c fun cur ↦ { cur with last := false }
  validate env c t
  finish env c
  refuse (params = .notIterable) .unsupportedTypeError
  prepare env c
  executeone env c params

/-- `executemany`; `batch` says whether the driver supports batches. -/
def executemany (t : Thread) (batch : Bool) (seq : Option (List Params)) :
    Method Thread D Unit := do
  setSelf c fun cur ↦ { cur with last := false }
  validate env c t
  finish env c
  prepare env c
  if batch then executeBatch env c seq else executeRepeat env c seq

/-- `callproc`; `named` says that the name is a `str`, and `params` is the length of the sequence of
parameters, if it is one. -/
def callproc (t : Thread) (named : Bool) (params : Option ℕ) : Method Thread D Unit := do
  validate env c t
  finish env c
  refuse (!named || params.isNone) .unsupportedTypeError
  prepare env c
  let n := params.getD 0
  let count ← callCount env c n
  let stays ← (List.range count).mapM fun i ↦ bindParameter env c n i
  executeStatement env c
  stays.forM fun b ↦ readParameter env c b

/-- `fetchone`; `__iter__` begins like that. -/
def fetchone (t : Thread) (types converters : Option ℕ) : Method Thread D Unit := do
  checkExecuted env c t
  let more ← nextRow env c
  if more then do
    setTypes c types
    fetchRow env c converters
  else pure ()

/-- `fetchmany`, which sets the fetch size and resets it. -/
def fetchmany (t : Thread) (size types converters : Option ℕ) : Method Thread D Unit := do
  checkExecuted env c t
  let cur ← self c
  let r ← ownResultSet c
  ask env (.useResultSet r)
  setTypes c types
  let _ ← fetchLoop env c converters (size.getD cur.arraysize)
  let r ← ownResultSet c
  ask env (.useResultSet r)

/-- `fetchall`, whose loop is broken off after so many rows. -/
def fetchall (t : Thread) (fuel : ℕ) (types converters : Option ℕ) : Method Thread D Unit := do
  checkExecuted env c t
  setTypes c types
  let more ← fetchLoop env c converters fuel
  refuse more .keyboardInterrupt

end Cursor

namespace Connection

/-- `_validate` -/
def validate : Method Thread D Unit := do
  let s ← get
  refuse s.1.closed .programmingError
  let isClosed ← ask env .isClosed
  refuse isClosed .programmingError

/-- `cursor` -/
def cursor (t : Thread) : Method Thread D Unit := do
  validate env
  step (modify fun s ↦
    { s with
      cursors := Function.update s.cursors s.nextCursor (some { thread := t })
      nextCursor := s.nextCursor + 1 })

/-- The connection of the driver is closed, if it is not. -/
def disconnect (isClosed : Bool) : Method Thread D Unit :=
  if isClosed then pure () else ask env .close

/-- `_close`, with the JVM running. -/
def close_ : Method Thread D Unit := do
  let s ← get
  if s.1.closed then pure ()
  else do
    let isClosed ← ask env .isClosed
    disconnect env isClosed
    step (modify fun s ↦ { s with closed := true })

/-- `close` -/
def close : Method Thread D Unit := do
  validate env
  close_ env

/-- `commit` -/
def commit : Method Thread D Unit := do
  validate env
  let autocommit ← ask env .getAutoCommit
  refuse autocommit .notSupportedError
  ask env .commit

/-- `rollback`, which asks twice whether autocommit is enabled if it is. -/
def rollback : Method Thread D Unit := do
  validate env
  let autocommit ← ask env .getAutoCommit
  if autocommit then do
    validate env
    let _ ← ask env .getAutoCommit
    throw .notSupportedError
  else ask env .rollback

end Connection

/-! ### Runs -/

/-- What is done with a cursor. `exit` is the end of a `with`, and `__del__`. -/
inductive Op where
  | execute (params : Params)
  | executemany (batch : Bool) (seq : Option (List Params))
  | callproc (named : Bool) (params : Option ℕ)
  | fetchone (types converters : Option ℕ)
  | fetchmany (size types converters : Option ℕ)
  | fetchall (fuel : ℕ) (types converters : Option ℕ)
  | iterate
  | nextset
  | description
  | parameters
  | lastrowid (fuel : ℕ)
  | close
  | exit

variable [DecidableEq Thread]

/-- It is done on a thread. -/
def Op.run (t : Thread) : Op → Method Thread D Unit
  | execute params => Cursor.execute env c t params
  | executemany batch seq => Cursor.executemany env c t batch seq
  | callproc named params => Cursor.callproc env c t named params
  | fetchone types converters => Cursor.fetchone env c t types converters
  | fetchmany size types converters => Cursor.fetchmany env c t size types converters
  | fetchall fuel types converters => Cursor.fetchall env c t fuel types converters
  | iterate => Cursor.iterate env c
  | nextset => Cursor.nextset env c
  | description => Cursor.description env c
  | parameters => Cursor.parameters env c
  | lastrowid fuel => Cursor.lastrowid env c fuel
  | close => Cursor.close env c t
  | exit => Cursor.close_ env c

/-- What happens to a connection and its cursors, one after the other. -/
inductive Event (Thread E : Type) where
  | op (c : ℕ) (t : Thread) (op : Op) (env : Environment E)
  | setArraysize (c n : ℕ)
  | cursor (t : Thread) (env : Environment E)
  | commit (env : Environment E)
  | rollback (env : Environment E)
  | close (env : Environment E)
  | exit (env : Environment E)
  /-- The connection, a statement or a result set is used behind the back of the cursors. -/
  | direct (q : Request)

/-- What becomes of the session. -/
def Session.step (s : Session Thread D) : Event Thread E → Session Thread D
  | .op c t op env => ((op.run env c t).exec (s, 0)).2.1
  | .setArraysize c n => s.modifyCursor c fun cur ↦ { cur with arraysize := n }
  | .cursor t env => ((Connection.cursor env t).exec (s, 0)).2.1
  | .commit env => ((Connection.commit env).exec (s, 0)).2.1
  | .rollback env => ((Connection.rollback env).exec (s, 0)).2.1
  | .close env => ((Connection.close env).exec (s, 0)).2.1
  | .exit env => ((Connection.close_ env).exec (s, 0)).2.1
  | .direct q => { s with db := (D.perform q s.db).2 }

end JPype.Resources
