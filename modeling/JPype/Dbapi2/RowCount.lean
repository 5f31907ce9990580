import JPype.Dbapi2.Execution
import Mathlib.Algebra.Order.BigOperators.Group.List
import Mathlib.Algebra.Order.Group.Int

/-!
# Row counts

After `executemany`, `rowcount` is made of one count for each row: those of `executeBatch`, or the
update count after each row. A count below zero is no number of rows: the driver does not know it,
or the row gave a result set. The DB-API asks for -1 as soon as one count is not known
(`dbApiCount`); the code adds all of them up and looks at the sum.

Both paths do the same (`executemany_rowcount`), and they are right exactly if all counts are known
or those that are not outweigh the others (`followsDbApi_iff`).
-/

namespace JPype

open Foundation

variable {Py Ty JType Cell D E : Type}

namespace Cursor

/-- The number of rows that the counts stand for, or -1 where it cannot be determined. -/
def dbApiCount (counts : List ℤ) : ℤ :=
  if ∀ c ∈ counts, 0 ≤ c then counts.sum else -1

theorem totalCount_eq_dbApiCount_iff (counts : List ℤ) :
    totalCount counts = dbApiCount counts ↔ (∀ c ∈ counts, 0 ≤ c) ∨ counts.sum < 0 := by
  rw [totalCount, dbApiCount]
  by_cases hknown : ∀ c ∈ counts, 0 ≤ c
  · have hsum : 0 ≤ counts.sum := List.sum_nonneg hknown
    rw [if_pos hknown, if_neg (not_lt.2 hsum)]
    exact iff_of_true rfl (.inl hknown)
  · rw [if_neg hknown]
    by_cases hsum : counts.sum < 0
    · rw [if_pos hsum]
      exact iff_of_true rfl (.inr hsum)
    · rw [if_neg hsum]
      refine iff_of_false (fun heq ↦ ?_) (not_or.2 ⟨hknown, hsum⟩)
      omega

variable (dr : Driver JType Py Cell D E) (cx : Connection Py Ty JType Cell E)

/-- The rows are executed one by one, and each time the driver leaves results with the update count
that is listed. -/
inductive RowByRow : List (Parameters Py) → Cursor JType Py Cell D → List ℤ →
    Cursor JType Py Cell D → Prop
  | nil (s : Cursor JType Py Cell D) : RowByRow [] s [] s
  | cons {params : Parameters Py} {rest : List (Parameters Py)} {s s₁ s' : Cursor JType Py Cell D}
      {count : ℤ} {counts : List ℤ} {statement : PreparedStatement JType Py Cell}
      (hexec : (executeone dr cx params).exec s = (.ok count, s₁))
      (hstatement : s₁.statement = some statement) (hrest : RowByRow rest s₁ counts s') :
      RowByRow (params :: rest) s (updateCount statement.results :: counts) s'

/-- In the call, with these rows, the driver gives these counts. -/
inductive Gives (operation : String) (rows : List (Parameters Py))
    (types : Option (List (Option JType))) (keys : Bool) (s : Cursor JType Py Cell D)
    (counts : List ℤ) : Prop
  | batch {s₀ s₁ : Cursor JType Py Cell D} {db : D} (hbatch : cx.batch = true)
      (hprelude : ((Execution.executemany operation (.rows rows) types keys).prelude dr).exec s =
        (.ok (), s₀))
      (hrows : (batchLoop dr cx rows).exec s₀ = (.ok (), s₁))
      (hcounts : dr.executeBatch s₁.db = (.ok counts, db))
  | rowByRow {s₀ s₁ : Cursor JType Py Cell D} (hbatch : cx.batch = false)
      (hprelude : ((Execution.executemany operation (.rows rows) types keys).prelude dr).exec s =
        (.ok (), s₀))
      (hrows : RowByRow dr cx rows s₀ counts s₁)

variable {dr cx}

/-- The statement keeps the results of its last execution. -/
theorem executeStatement_results {s s₁ : Cursor JType Py Cell D} {results : List (Result Cell)}
    (h : (executeStatement dr).exec s = (.ok results, s₁)) :
    ∃ statement, s₁.statement = some statement ∧ statement.results = results := by
  rw [executeStatement, Program.exec_bind] at h
  rcases hst : (getStatement (E := E)).exec s with ⟨e | statement, s'⟩
  · rw [hst] at h
    exact absurd h Program.error_ne_ok
  · rw [hst] at h
    dsimp only at h
    rw [Program.exec_bind, Program.exec_get] at h
    dsimp only at h
    rcases hrun : dr.execute statement.bound s'.db with ⟨e | results', db⟩
    · rw [hrun] at h
      exact absurd h Program.error_ne_ok
    · rw [hrun] at h
      obtain ⟨hresults, rfl⟩ := Prod.mk.inj h
      obtain rfl := Except.ok.inj hresults
      exact ⟨_, rfl, rfl⟩

/-- `_executeone` returns the update count that the driver has left. -/
theorem executeone_count {params : Parameters Py} {s s₁ : Cursor JType Py Cell D} {count : ℤ}
    (h : (executeone dr cx params).exec s = (.ok count, s₁)) :
    ∃ statement, s₁.statement = some statement ∧ count = updateCount statement.results := by
  rw [executeone, Program.exec_bind] at h
  rcases hset : (setParams cx params).exec s with ⟨e | ⟨⟩, s'⟩
  · rw [hset] at h
    exact absurd h Program.error_ne_ok
  · rw [hset] at h
    dsimp only at h
    rw [Program.exec_bind] at h
    rcases hexec : (executeStatement dr).exec s' with ⟨e | results, s''⟩
    · rw [hexec] at h
      exact absurd h Program.error_ne_ok
    · rw [hexec] at h
      obtain ⟨statement, hstatement, rfl⟩ := executeStatement_results hexec
      refine ⟨statement, ?_, ?_⟩
      all_goals
        rcases hresults : statement.results with - | ⟨⟨columns, rows⟩ | ⟨n⟩, rest⟩
        all_goals
          rw [hresults] at h
          obtain ⟨hcount, rfl⟩ := Prod.mk.inj h
      · exact hstatement
      · exact hstatement
      · exact hstatement
      · exact (Except.ok.inj hcount).symm
      · exact (Except.ok.inj hcount).symm
      · exact (Except.ok.inj hcount).symm

theorem repeatLoop_of_rowByRow {rows : List (Parameters Py)} {s s' : Cursor JType Py Cell D}
    {counts : List ℤ} (h : RowByRow dr cx rows s counts s') (before : List ℤ) :
    (repeatLoop dr cx rows before).exec s = (.ok (before ++ counts), s') := by
  induction h generalizing before with
  | nil s => rw [repeatLoop, List.append_nil, Program.exec_pure]
  | cons hexec hstatement hrest ih =>
    obtain ⟨statement, hstatement', hcount⟩ := executeone_count hexec
    obtain rfl := Option.some.inj (hstatement'.symm.trans hstatement)
    rw [repeatLoop, Program.exec_bind, hexec]
    dsimp only
    rw [ih, hcount, List.append_assoc, List.singleton_append]

variable {operation : String} {rows : List (Parameters Py)} {types : Option (List (Option JType))}
  {keys : Bool} {s : Cursor JType Py Cell D} {counts : List ℤ}

/-- `executemany` returns, with the sum of the counts or -1 in `rowcount`, on both paths. -/
theorem executemany_rowcount (h : Gives dr cx operation rows types keys s counts) :
    ∃ s', (executemany dr cx operation (.rows rows) types keys).exec s = (.ok (), s') ∧
      s'.rowcount = totalCount counts := by
  have hrun : ∀ s₀, ((Execution.executemany operation (.rows rows) types keys).prelude dr).exec s =
      (.ok (), s₀) → (executemany dr cx operation (.rows rows) types keys).exec s =
        (executeRows dr cx rows).exec s₀ := by
    intro s₀ hprelude
    show ((Execution.executemany operation (.rows rows) types keys).run dr cx).exec s = _
    rw [Execution.exec_run, hprelude]
    rfl
  cases h with
  | batch hbatch hprelude hrows hcounts =>
    rw [hrun _ hprelude, executeRows, if_pos hbatch, Program.exec_bind, hrows]
    dsimp only
    rw [runBatch, Program.exec_bind, Program.exec_get]
    dsimp only
    rw [hcounts]
    exact ⟨_, rfl, rfl⟩
  | rowByRow hbatch hprelude hrows =>
    rw [hrun _ hprelude, executeRows, if_neg (by rw [hbatch]; exact Bool.false_ne_true),
      Program.exec_bind, repeatLoop_of_rowByRow hrows]
    exact ⟨_, rfl, rfl⟩

variable (Ty) in
/-- The row count follows the DB-API for these counts, and another call for which a driver gives
the same counts, on either path, leaves the same row count. -/
structure FollowsDbApi (outcome : Except (DbError E) Unit × Cursor JType Py Cell D)
    (counts : List ℤ) : Prop where
  returns : outcome.1 = .ok ()
  rowcount : outcome.2.rowcount = dbApiCount counts
  same : ∀ {dr : Driver JType Py Cell D E} {cx : Connection Py Ty JType Cell E} {operation : String}
    {rows : List (Parameters Py)} {types : Option (List (Option JType))} {keys : Bool}
    {s : Cursor JType Py Cell D}, Gives dr cx operation rows types keys s counts →
      ((executemany dr cx operation (.rows rows) types keys).exec s).2.rowcount = outcome.2.rowcount

/-- `executemany` follows the DB-API exactly if all counts are known or their sum is negative. -/
theorem followsDbApi_iff (h : Gives dr cx operation rows types keys s counts) :
    FollowsDbApi Ty ((executemany dr cx operation (.rows rows) types keys).exec s) counts ↔
      (∀ c ∈ counts, 0 ≤ c) ∨ counts.sum < 0 := by
  obtain ⟨s', hexec, hcount⟩ := executemany_rowcount h
  rw [hexec, ← totalCount_eq_dbApiCount_iff, ← hcount]
  refine ⟨fun hlaw ↦ hlaw.rowcount, fun hlaw ↦ ⟨rfl, hlaw, fun h' ↦ ?_⟩⟩
  obtain ⟨s'', hexec', hcount'⟩ := executemany_rowcount h'
  rw [hexec', hcount', hcount]

end Cursor

/-- A database whose state is the list of the counts that it is going to give. -/
def scripted : Driver String ℕ Unit (List ℤ) Unit where
  isClosed _ := false
  prepareStatement _ _ db := (.ok 1, db)
  execute _ db := (.ok ((db.head?.map .updateCount).toList), db.tail)
  addBatch _ db := (.ok (), db)
  executeBatch db := (.ok db, [])
  closedException := ()

/-- Two rows for a database that is going to give the counts, in a batch or one by one. -/
def sendTwo (batch : Bool) (counts : List ℤ) :
    Except (DbError Unit) Unit × Cursor String ℕ Unit (List ℤ) :=
  (Cursor.executemany scripted { settersByType with batch := batch }
    "insert into booths values (?)" (.rows [.values [1], .values [2]]) none false).exec
      { db := counts }

/-- Two known counts are added up. -/
theorem Cursor.followsDbApi_known : FollowsDbApi Unit (sendTwo true [3, 4]) [3, 4] :=
  (followsDbApi_iff (.batch rfl rfl rfl rfl)).2 (.inl (by decide))

/-- A count that is not known disappears in the sum, on both paths. -/
theorem Cursor.not_followsDbApi_mixed :
    ¬FollowsDbApi Unit (sendTwo true [5, -2]) [5, -2] ∧
      ¬FollowsDbApi Unit (sendTwo false [5, -2]) [5, -2] := by
  have hcount : (3 : ℤ) ≠ -1 := by decide
  exact ⟨fun h ↦ hcount h.rowcount, fun h ↦ hcount h.rowcount⟩

end JPype
