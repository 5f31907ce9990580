import Mathlib.Logic.Function.Basic
import Mathlib.Order.Nat

/-!
# What a JDBC driver keeps open

The driver is not part of the package, so it is a parameter of what is said about cursors. A
`Driver` has states, `perform` says how it answers a request in each of them, and its laws are what
`java.sql` promises of statements and result sets: a statement is a new object, it stays open until
it is closed at most, and it takes its result sets along. A request that fails may have changed the
state all the same.

`Database.driver` is a driver of this kind, in which every query yields the same number of rows.
-/

namespace JPype.Resources

/-- What the methods raise. -/
inductive Raised (E : Type) where
  | programmingError
  | unsupportedTypeError
  | notSupportedError
  /-- An attribute of `None`, or one that a cursor does not have. -/
  | attributeError
  | indexError
  /-- A loop that has not come to its end is broken off. -/
  | keyboardInterrupt
  /-- The connection, the statement or the result set is closed. -/
  | sqlException
  | raised (e : E)
  deriving DecidableEq, Repr

/-- What is asked of the driver, but for a statement. Statements and result sets are numbered. -/
inductive Request where
  | isClosed
  | getAutoCommit
  | commit
  | rollback
  /-- `Connection.close` -/
  | close
  /-- `getParameterMetaData` and its `getParameterCount` -/
  | getParameterCount (st : ℕ)
  /-- `getParameterMode` of the metadata -/
  | getParameterMode (st i : ℕ)
  | execute (st : ℕ)
  | executeBatch (st : ℕ)
  | getMoreResults (st : ℕ)
  | getResultSet (st : ℕ)
  | getGeneratedKeys (st : ℕ)
  /-- Another method of a statement or of its metadata: a setter, `addBatch`, `getUpdateCount` … -/
  | useStatement (st : ℕ)
  | closeStatement (st : ℕ)
  | next (r : ℕ)
  | isResultSetClosed (r : ℕ)
  /-- `getMetaData` and its `getColumnCount` -/
  | getColumnCount (r : ℕ)
  /-- Another method of a result set or of its metadata. -/
  | useResultSet (r : ℕ)
  | closeResultSet (r : ℕ)

/-- What a request is answered with. -/
@[reducible]
def Request.Answer : Request → Type
  | isClosed | getAutoCommit | execute _ | getMoreResults _ | next _ | isResultSetClosed _ => Bool
  | getParameterCount _ | getParameterMode _ _ | getColumnCount _ => ℕ
  | getResultSet _ | getGeneratedKeys _ => Option ℕ
  | commit | rollback | close | executeBatch _ | useStatement _ | closeStatement _
  | useResultSet _ | closeResultSet _ => Unit

/-- A driver, with a connection of which nothing is open at first. -/
structure Driver (E : Type) where
  State : Type
  connected : State
  /-- `prepareStatement` and `prepareCall` -/
  prepare : State → Except (Raised E) ℕ × State
  perform (q : Request) : State → Except (Raised E) q.Answer × State
  /-- The statement has been made, be it open or not. -/
  Made : State → ℕ → Prop
  /-- The statement is open. -/
  IsOpen : State → ℕ → Prop
  /-- The statement of a result set that is open. -/
  statementOf : State → ℕ → Option ℕ
  not_isOpen_connected : ∀ st, ¬IsOpen connected st
  /-- Each statement is a new object, and the only one that is opened. -/
  prepare_ok : ∀ db st db', prepare db = (.ok st, db') →
    ¬Made db st ∧ Made db' st ∧ ∀ st', IsOpen db' st' → st' = st ∨ IsOpen db st'
  prepare_error : ∀ db e db', prepare db = (.error e, db') → ∀ st, IsOpen db' st → IsOpen db st
  made_prepare : ∀ db st, Made db st → Made (prepare db).2 st
  made_perform : ∀ q db st, Made db st → Made (perform q db).2 st
  /-- No other request opens a statement, and none opens one again. -/
  isOpen_perform : ∀ q db st, IsOpen (perform q db).2 st → IsOpen db st
  closeStatement_ok : ∀ st db db', perform (.closeStatement st) db = (.ok (), db') → ¬IsOpen db' st
  /-- A result set is closed with its statement. -/
  isOpen_of_statementOf : ∀ db r st, statementOf db r = some st → IsOpen db st

/-- The state after some requests, whatever the answers are. -/
def Driver.performAll {E : Type} (D : Driver E) (qs : List Request) (db : D.State) : D.State :=
  qs.foldl (fun db q ↦ (D.perform q db).2) db

/-! ### A driver -/

/-- What is open in a database. -/
structure Database where
  isClosed : Bool := false
  statements : ℕ → Bool := fun _ ↦ false
  nextStatement : ℕ := 0
  /-- The statement of each result set that has not been closed, and how many rows are left. -/
  resultSets : ℕ → Option (ℕ × ℕ) := fun _ ↦ none
  nextResultSet : ℕ := 0
  /-- The current result set of a statement. -/
  current : ℕ → Option ℕ := fun _ ↦ none

namespace Database

variable {E α : Type} {db db' : Database}

/-- Something is done if what it is done with is open. -/
def guarded (isOpen : Bool) (a : α) (db' db : Database) : Except (Raised E) α × Database :=
  if isOpen then (.ok a, db') else (.error .sqlException, db)

/-- The statement of a result set that is open. -/
def statementOf (db : Database) (r : ℕ) : Option ℕ :=
  ((db.resultSets r).map Prod.fst).filter db.statements

/-- A method of a result set. -/
def ofResultSet (r : ℕ) (a : α) (db' db : Database) : Except (Raised E) α × Database :=
  guarded (db.statementOf r).isSome a db' db

/-- The current result set of a statement is closed. -/
def closeCurrent (st : ℕ) (db : Database) : Database :=
  (db.current st).elim db fun r ↦
    { db with
      resultSets := Function.update db.resultSets r none
      current := Function.update db.current st none }

/-- There is a new result set of a statement. -/
def openResultSet (st rows : ℕ) (db : Database) : Database :=
  { db with
    resultSets := Function.update db.resultSets db.nextResultSet (some (st, rows))
    nextResultSet := db.nextResultSet + 1 }

/-- A query is executed: its result set is the current one of the statement. -/
def query (st rows : ℕ) (db : Database) : Database :=
  { openResultSet st rows (db.closeCurrent st) with
    current := Function.update (db.closeCurrent st).current st
      (some (db.closeCurrent st).nextResultSet) }

/-- `ResultSet.next` -/
def next (r : ℕ) (db : Database) : Except (Raised E) Bool × Database :=
  match db.resultSets r with
  | some (st, rows + 1) => ofResultSet r true
    { db with resultSets := Function.update db.resultSets r (some (st, rows)) } db
  | _ => ofResultSet r false db db

/-- `prepareStatement` -/
def prepare (db : Database) : Except (Raised E) ℕ × Database :=
  guarded (!db.isClosed) db.nextStatement
    { db with
      statements := Function.update db.statements db.nextStatement true
      nextStatement := db.nextStatement + 1 } db

/-- The requests, where every query yields this number of rows and no statement has parameters. -/
def perform (rows : ℕ) : (q : Request) → Database → Except (Raised E) q.Answer × Database
  | .isClosed, db => (.ok db.isClosed, db)
  | .getAutoCommit, db => guarded (!db.isClosed) false db db
  | .commit, db => guarded (!db.isClosed) () db db
  | .rollback, db => guarded (!db.isClosed) () db db
  | .close, db => (.ok (), { db with isClosed := true, statements := fun _ ↦ false })
  | .getParameterCount st, db => guarded (db.statements st) 0 db db
  | .getParameterMode st _, db => guarded (db.statements st) 0 db db
  | .execute st, db => guarded (db.statements st) true (db.query st rows) db
  | .executeBatch st, db => guarded (db.statements st) () (db.closeCurrent st) db
  | .getMoreResults st, db => guarded (db.statements st) false (db.closeCurrent st) db
  | .getResultSet st, db => guarded (db.statements st) (db.current st) db db
  | .getGeneratedKeys st, db =>
    guarded (db.statements st) (some db.nextResultSet) (db.openResultSet st 0) db
  | .useStatement st, db => guarded (db.statements st) () db db
  | .closeStatement st, db =>
    (.ok (), { db with statements := Function.update db.statements st false })
  | .next r, db => db.next r
  | .isResultSetClosed r, db => (.ok (db.statementOf r).isNone, db)
  | .getColumnCount r, db => ofResultSet r 1 db db
  | .useResultSet r, db => ofResultSet r () db db
  | .closeResultSet r, db =>
    (.ok (), { db with resultSets := Function.update db.resultSets r none })

/-- No statement has been opened, and the numbers are still given away. -/
def Tame (db db' : Database) : Prop :=
  db.nextStatement ≤ db'.nextStatement ∧ ∀ st, db'.statements st = true → db.statements st = true

theorem Tame.refl (db : Database) : Tame db db :=
  ⟨le_rfl, fun _ ↦ id⟩

/-- Something that is refused changes nothing. -/
theorem Tame.guarded (h : Tame db db') (isOpen : Bool) (a : α) :
    Tame db (guarded isOpen a db' db : Except (Raised E) α × Database).2 := by
  cases isOpen with
  | false => exact .refl db
  | true => exact h

/-- A statement may give up its result set. -/
theorem tame_closeCurrent (st : ℕ) (db : Database) : Tame db (db.closeCurrent st) := by
  rw [closeCurrent]
  cases db.current st with
  | none => exact .refl db
  | some r => exact .refl db

theorem tame_openResultSet (st rows : ℕ) (db : Database) : Tame db (db.openResultSet st rows) :=
  .refl db

/-- The result set of a query is one of a statement that is there. -/
theorem tame_query (st rows : ℕ) (db : Database) : Tame db (db.query st rows) :=
  tame_closeCurrent st db

/-- A result set goes on to its next row. -/
theorem tame_next (r : ℕ) (db : Database) :
    Tame db (db.next r : Except (Raised E) Bool × Database).2 := by
  rw [next]
  split
  · refine Tame.guarded ?_ _ _
    exact .refl db
  · exact (Tame.refl db).guarded _ _

/-- No request opens a statement. -/
theorem tame_perform (rows : ℕ) (q : Request) (db : Database) :
    Tame db (perform rows q db : Except (Raised E) q.Answer × Database).2 := by
  cases q with
  | isClosed => exact .refl db
  | getAutoCommit => exact (Tame.refl db).guarded _ _
  | commit => exact (Tame.refl db).guarded _ _
  | rollback => exact (Tame.refl db).guarded _ _
  | close => exact ⟨le_rfl, fun _ hst ↦ absurd hst Bool.false_ne_true⟩
  | getParameterCount st => exact (Tame.refl db).guarded _ _
  | getParameterMode st i => exact (Tame.refl db).guarded _ _
  | execute st => exact (tame_query st rows db).guarded _ _
  | executeBatch st => exact (tame_closeCurrent st db).guarded _ _
  | getMoreResults st => exact (tame_closeCurrent st db).guarded _ _
  | getResultSet st => exact (Tame.refl db).guarded _ _
  | getGeneratedKeys st => exact (tame_openResultSet st 0 db).guarded _ _
  | useStatement st => exact (Tame.refl db).guarded _ _
  | closeStatement st =>
    refine ⟨le_rfl, fun st' hst' ↦ ?_⟩
    have hupdate : Function.update db.statements st false st' = true := hst'
    by_cases hsame : st' = st
    · rw [hsame, Function.update_self] at hupdate
      exact absurd hupdate Bool.false_ne_true
    · rwa [Function.update_of_ne hsame] at hupdate
  | next r => exact tame_next r db
  | isResultSetClosed r => exact .refl db
  | getColumnCount r => exact (Tame.refl db).guarded _ _
  | useResultSet r => exact (Tame.refl db).guarded _ _
  | closeResultSet r => exact .refl db

/-- A connection that is closed prepares nothing. -/
theorem prepare_of_isClosed (h : db.isClosed = true) :
    (db.prepare : Except (Raised E) ℕ × Database) = (.error .sqlException, db) := by
  rw [prepare, h]
  rfl

/-- One that is open opens the statement with the next number. -/
theorem prepare_of_not_isClosed (h : db.isClosed = false) :
    (db.prepare : Except (Raised E) ℕ × Database) = (.ok db.nextStatement,
      { db with
        statements := Function.update db.statements db.nextStatement true
        nextStatement := db.nextStatement + 1 }) := by
  rw [prepare, h]
  rfl

/-- No other statement is opened with it. -/
theorem statements_of_prepare {st : ℕ}
    (h : Function.update db.statements db.nextStatement true st = true) :
    st = db.nextStatement ∨ db.statements st = true := by
  by_cases hnew : st = db.nextStatement
  · exact .inl hnew
  · rw [Function.update_of_ne hnew] at h
    exact .inr h

/-- The database keeps what `java.sql` promises. -/
def driver (E : Type) (rows : ℕ) : Driver E where
  State := Database
  connected := {}
  prepare := prepare
  perform := perform rows
  Made db st := st < db.nextStatement
  IsOpen db st := db.statements st = true
  statementOf := statementOf
  not_isOpen_connected _ := Bool.false_ne_true
  prepare_ok db st db' h := by
    cases hclosed : db.isClosed with
    | true =>
      rw [prepare_of_isClosed hclosed] at h
      cases h
    | false =>
      rw [prepare_of_not_isClosed hclosed] at h
      obtain ⟨hst, rfl⟩ := Prod.mk.inj h
      obtain rfl := Except.ok.inj hst
      exact ⟨lt_irrefl _, Nat.lt_succ_self _, fun _ ↦ statements_of_prepare⟩
  prepare_error db e db' h st hst := by
    cases hclosed : db.isClosed with
    | true =>
      rw [prepare_of_isClosed hclosed] at h
      obtain ⟨-, rfl⟩ := Prod.mk.inj h
      exact hst
    | false =>
      rw [prepare_of_not_isClosed hclosed] at h
      cases h
  made_prepare db st hst := by
    cases hclosed : db.isClosed with
    | true => rwa [prepare_of_isClosed hclosed]
    | false =>
      rw [prepare_of_not_isClosed hclosed]
      exact hst.trans (Nat.lt_succ_self _)
  made_perform q db _ hst := hst.trans_le (tame_perform rows q db).1
  isOpen_perform q db := (tame_perform rows q db).2
  closeStatement_ok st db db' h := by
    obtain ⟨-, rfl⟩ := Prod.mk.inj h
    show ¬Function.update db.statements st false st = true
    rw [Function.update_self]
    exact Bool.false_ne_true
  isOpen_of_statementOf _ _ _ h := (Option.filter_eq_some_iff.1 h).2

end Database

end JPype.Resources
