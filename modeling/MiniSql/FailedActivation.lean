import MiniSql.Activation

/-!
# After a failed activation

`activate_storage_for_table` can fail after it has set the active path, and nothing clears `g_index_ready`.
The next statement on the same table then passes the early-return test with an index that was not built from
the rows of the table.

* `BehavesFresh`: a statement ends as in a fresh process on the same files.
* `CachesBuiltFrom`: the caches are those a scan of the data file of the table builds; `EarlyReturnSound`: the
  early return is taken only with such caches.
* `TakesEarlyReturn`: the test of the source, on the state before the statement.

Main results:

* `behavesFresh_of_not_early`: a statement that does not take the early return behaves as in a fresh process,
  whatever the globals are.
* `not_loads_of_failed`: after a failed activation the data file cannot be loaded.
* `statement_after_failed_activation`: so behind a failed activation, with any statements between, the next
  statement on the table is right in both respects exactly if it does not take the early return.
* `failedActivation_then_select`: two SELECTs from a table without an `id` column, the second of which returns
  rows; `statement_after_failed_activation_between` puts a statement on another table between them.
-/

namespace MiniSql

/-! ### Allocations keep succeeding -/

/-- No node allocation fails. -/
def NoFail (s : State) : Prop := s.globals.index.heap.callocFails = []

theorem noFail_kept :
    KeptByInserts (fun index => index.heap.callocFails = []) (fun _ => True) where
  index := fun _ id ref hf => indexInsert_no_fail hf id ref
  set := fun _ _ _ => trivial

theorem activateStorageForTable_no_fail (uninit : ℕ → UInt32) (table : TableDefinition) {s : State}
    (hf : NoFail s) : NoFail (activateStorageForTable uninit table s).2 :=
  (activateStorageForTable_keeps uninit noFail_kept ⟨rfl, trivial⟩ trivial hf ⟨hf, trivial⟩).1

theorem storeRow_no_fail (columns : StringList) (plan : InsertPlan) {s : State} (hf : NoFail s) :
    NoFail (storeRow columns plan s).2 :=
  (storeRow_keeps noFail_kept columns plan ⟨hf, trivial⟩).1

theorem executeStatement_no_fail (uninit : ℕ → UInt32) (dbRoot : CString) (statement : Statement)
    {s : State} (hf : NoFail s) : NoFail (executeStatement uninit dbRoot statement s).2 :=
  executeStatement_preserves dbRoot
    (fun table _ hs => activateStorageForTable_no_fail uninit table hs)
    (fun columns plan _ hs => storeRow_no_fail columns plan hs) (fun _ hs => hs) statement hf

theorem runStatements_no_fail (uninit : ℕ → UInt32) (dbRoot : CString) (statements : List Statement)
    {s : State} (hf : NoFail s) : NoFail (runStatements uninit dbRoot statements s) :=
  runStatements_preserves (fun statement _ hs => executeStatement_no_fail uninit dbRoot statement hs)
    statements hf

/-! ### Statements and activations -/

/-- The table name a statement is about. -/
def Statement.name : Statement → QualifiedName
  | .insert statement => statement.target
  | .select statement => statement.source

/-- The table a statement activates: `none` if it fails before it gets there. -/
def activatedTable (dbRoot : CString) (files : FileSystem) (statement : Statement) :
    Option TableDefinition :=
  match statement with
  | .insert statement =>
      if statement.columns.length ≠ statement.values.length then none
      else (loadTableDefinition dbRoot files statement.target).toOption
  | .select statement => (loadTableDefinition dbRoot files statement.source).toOption

/-- The statement gets to the activation and takes the early return there. -/
def TakesEarlyReturn (dbRoot : CString) (statement : Statement) (s : State) : Prop :=
  ∃ table ∈ activatedTable dbRoot s.files statement, alreadyActive table s.globals = true

/-- The statement ends as in a fresh process on the same files: same outcome, same files. -/
def BehavesFresh (uninit : ℕ → UInt32) (dbRoot : CString) (statement : Statement) (s : State) :
    Prop :=
  (executeStatement uninit dbRoot statement s).1 =
      (executeStatement uninit dbRoot statement (State.fresh s.files)).1 ∧
    (executeStatement uninit dbRoot statement s).2.files =
      (executeStatement uninit dbRoot statement (State.fresh s.files)).2.files

/-- The index, the id counter and the `student_no` set are those a scan of all rows of the data file
of the table builds. -/
def CachesBuiltFrom (uninit : ℕ → UInt32) (table : TableDefinition) (s : State) : Prop :=
  ∃ b, Loads uninit table s.files b ∧ s.globals.index = b.index ∧
    s.globals.nextIdCounter = b.maxId ∧ s.globals.studentNoSet = b.studentNoSet

/-- An early return is taken only with the caches of the table. -/
def EarlyReturnSound (uninit : ℕ → UInt32) (dbRoot : CString) (statement : Statement) (s : State) :
    Prop :=
  ∀ table ∈ activatedTable dbRoot s.files statement, alreadyActive table s.globals = true →
    CachesBuiltFrom uninit table s

theorem activatedTable_load {dbRoot : CString} {files : FileSystem} {statement : Statement}
    {table : TableDefinition} (h : activatedTable dbRoot files statement = some table) :
    loadTableDefinition dbRoot files statement.name = .ok table := by
  have hopt : ∀ r : Except StorageError TableDefinition, r.toOption = some table → r = .ok table := by
    intro r hr
    cases r with
    | error e => cases hr
    | ok t => rw [Option.some.inj hr]
  cases statement with
  | insert statement =>
    rw [activatedTable] at h
    split at h
    · cases h
    · exact hopt _ h
  | select statement => exact hopt _ h

/-- An activation that does not return early ends as in a fresh process. -/
theorem activations_alike (uninit : ℕ → UInt32) {table : TableDefinition} {s : State} (hf : NoFail s)
    (hs : ¬alreadyActive table s.globals = true) :
    (∃ s', activateStorageForTable uninit table s = (none, s') ∧
      activateStorageForTable uninit table (State.fresh s.files) = (none, s')) ∨
    ∃ e s' s'', activateStorageForTable uninit table s = (some e, s') ∧
      activateStorageForTable uninit table (State.fresh s.files) = (some e, s'') ∧
      s'.files = s''.files := by
  have hfresh : ¬alreadyActive table (State.fresh s.files).globals = true := by
    simp [alreadyActive, State.fresh, Globals.initial]
  rw [activateStorageForTable, if_neg hs, activateStorageForTable, if_neg hfresh]
  have hfiles : State.fresh s.files = ⟨(State.fresh s.files).globals, s.files⟩ := rfl
  obtain ⟨h1, h2, h3⟩ := @switchStorageToTable_congr uninit table s.globals
    (State.fresh s.files).globals s.files hf rfl
  rw [← hfiles] at h1 h2 h3
  rcases hr : switchStorageToTable uninit table s with ⟨_ | e, s'⟩
  all_goals
    rcases hr' : switchStorageToTable uninit table (State.fresh s.files) with ⟨r', s''⟩
    rw [hr, hr'] at h1 h2 h3
  · obtain rfl : none = r' := h1
    obtain rfl : s' = s'' := h3 rfl
    exact Or.inl ⟨s', rfl, rfl⟩
  · obtain rfl : some e = r' := h1
    exact Or.inr ⟨e, s', s'', rfl, rfl, h2⟩

/-- A statement that does not take the early return behaves as in a fresh process, whatever the
globals are. -/
theorem behavesFresh_of_not_early (uninit : ℕ → UInt32) {dbRoot : CString} {statement : Statement}
    {s : State} (hf : NoFail s) (h : ¬TakesEarlyReturn dbRoot statement s) :
    BehavesFresh uninit dbRoot statement s := by
  have hfiles : (State.fresh s.files).files = s.files := rfl
  have hearly : ∀ table ∈ activatedTable dbRoot s.files statement,
      ¬alreadyActive table s.globals = true := fun table htable hact => h ⟨table, htable, hact⟩
  cases statement with
  | insert statement =>
    rw [activatedTable] at hearly
    rw [BehavesFresh, executeStatement, executeStatement, appendInsertRow, appendInsertRow, hfiles]
    by_cases hcount : statement.columns.length ≠ statement.values.length
    · rw [if_pos hcount, if_pos hcount]
      exact ⟨rfl, rfl⟩
    · rw [if_neg hcount] at hearly
      rw [if_neg hcount, if_neg hcount]
      cases hload : loadTableDefinition dbRoot s.files statement.target with
      | error e => exact ⟨rfl, rfl⟩
      | ok table =>
        rw [hload] at hearly
        dsimp only
        rcases activations_alike uninit hf (hearly table rfl) with
          ⟨s', hr, hr'⟩ | ⟨e, s', s'', hr, hr', hsame⟩
        · rw [hr, hr']
          exact ⟨rfl, rfl⟩
        · rw [hr, hr']
          exact ⟨rfl, hsame⟩
  | select statement =>
    rw [activatedTable] at hearly
    rw [BehavesFresh, executeStatement, executeStatement, runSelectQuery, runSelectQuery, hfiles]
    cases hload : loadTableDefinition dbRoot s.files statement.source with
    | error e => exact ⟨rfl, rfl⟩
    | ok table =>
      rw [hload] at hearly
      dsimp only
      rcases activations_alike uninit hf (hearly table rfl) with
        ⟨s', hr, hr'⟩ | ⟨e, s', s'', hr, hr', hsame⟩
      · rw [hr, hr']
        exact ⟨rfl, rfl⟩
      · rw [hr, hr']
        exact ⟨rfl, hsame⟩

/-- After a failed activation the data file cannot be loaded. -/
theorem not_loads_of_failed (uninit : ℕ → UInt32) {table : TableDefinition} {s : State}
    (hf : NoFail s) (hfail : (activateStorageForTable uninit table s).1 ≠ none) :
    ¬∃ b, Loads uninit table (activateStorageForTable uninit table s).2.files b := by
  rw [activateStorageForTable] at hfail ⊢
  by_cases hact : alreadyActive table s.globals = true
  · rw [if_pos hact] at hfail
    exact absurd rfl hfail
  · rw [if_neg hact] at hfail ⊢
    rcases switchStorageToTable_cases uninit table s hf with ⟨b, files', -, heq⟩ |
      ⟨e, g', files', heq, hno⟩
    · rw [heq] at hfail
      exact absurd rfl hfail
    · rw [heq]
      exact hno

/-- Loading depends on the data file only. -/
theorem Loads.congr {uninit : ℕ → UInt32} {table : TableDefinition} {files files' : FileSystem}
    {b : IndexBuild} (h : Loads uninit table files b)
    (hdata : files' table.dataPath = files table.dataPath) : Loads uninit table files' b := by
  refine ⟨h.id_column, ?_⟩
  have hscan := h.scan
  rw [binaryReaderScanAll, Option.bind_some] at hscan ⊢
  rw [hdata]
  exact hscan

/-- A failing activation ends the statement. -/
theorem executeStatement_failed (uninit : ℕ → UInt32) {dbRoot : CString} {statement : Statement}
    {s : State} {table : TableDefinition}
    (htable : activatedTable dbRoot s.files statement = some table)
    (hfail : (activateStorageForTable uninit table s).1 ≠ none) :
    (executeStatement uninit dbRoot statement s).2 = (activateStorageForTable uninit table s).2 := by
  have hload := activatedTable_load htable
  rcases hr : activateStorageForTable uninit table s with ⟨_ | e, s'⟩
  · rw [hr] at hfail
    exact absurd rfl hfail
  · cases statement with
    | insert statement =>
      rw [activatedTable] at htable
      rw [executeStatement, appendInsertRow]
      split at htable
      · cases htable
      · rename_i hcount
        rw [if_neg hcount]
        change loadTableDefinition dbRoot s.files statement.target = _ at hload
        rw [hload]
        dsimp only
        rw [hr]
    | select statement =>
      rw [executeStatement, runSelectQuery]
      change loadTableDefinition dbRoot s.files statement.source = _ at hload
      rw [hload]
      dsimp only
      rw [hr]

/-- **After a failed activation.**  In a process that started on any files and ran any statements, let
the activation of a table fail for the statement `failing`.  Whatever runs between, as long as the
schema and the data file of the table stay as they are: the next statement on the table behaves as in
a fresh process, and does not go on with caches that were not built from all rows of the data file,
exactly when it does not take the early return. -/
theorem statement_after_failed_activation (uninit : ℕ → UInt32) (dbRoot : CString)
    (files : FileSystem) (before between : List Statement) (failing next : Statement)
    (table : TableDefinition) (s₁ s₂ s₃ : State)
    (h₁ : s₁ = runStatements uninit dbRoot before (State.fresh files))
    (htable : activatedTable dbRoot s₁.files failing = some table)
    (hfail : (activateStorageForTable uninit table s₁).1 ≠ none)
    (h₂ : s₂ = (executeStatement uninit dbRoot failing s₁).2)
    (h₃ : s₃ = runStatements uninit dbRoot between s₂)
    (hschema : s₃.files table.schemaPath = s₂.files table.schemaPath)
    (hdata : s₃.files table.dataPath = s₂.files table.dataPath) (hname : next.name = failing.name) :
    (BehavesFresh uninit dbRoot next s₃ ∧ EarlyReturnSound uninit dbRoot next s₃) ↔
      ¬TakesEarlyReturn dbRoot next s₃ := by
  have hf₁ : NoFail s₁ := by
    rw [h₁]
    exact runStatements_no_fail uninit dbRoot before rfl
  have hf₃ : NoFail s₃ := by
    rw [h₃, h₂]
    exact runStatements_no_fail uninit dbRoot between
      (executeStatement_no_fail uninit dbRoot failing hf₁)
  constructor
  · rintro ⟨-, hsound⟩ ⟨table', htable', hactive⟩
    obtain ⟨b, hb, -⟩ := hsound table' htable' hactive
    have hload := activatedTable_load htable
    rw [executeStatement_failed uninit htable hfail] at h₂
    rw [h₂] at hschema hdata
    -- the table is the same, because its schema file is
    have hkeep : (activateStorageForTable uninit table s₁).2.files table.schemaPath =
        s₁.files table.schemaPath := by
      refine activateStorageForTable_files uninit table s₁ hf₁ ?_
      obtain ⟨base, content, -, -, heq, -⟩ := loadTableDefinition_ok hload
      exact schemaPath_not_touched hload table.dataPath base (by rw [heq])
    have hload' := loadTableDefinition_congr hload (hschema.trans hkeep)
    have hload'' := activatedTable_load htable'
    rw [hname, hload'] at hload''
    obtain rfl := Except.ok.inj hload''
    exact not_loads_of_failed uninit hf₁ hfail ⟨b, hb.congr hdata.symm⟩
  · intro hearly
    exact ⟨behavesFresh_of_not_early uninit hf₃ hearly,
      fun t ht hactive => absurd ⟨t, ht, hactive⟩ hearly⟩

/-- A database whose table `t` has no `id` column. -/
def noIdFiles : FileSystem :=
  fun path => if path = lit "db/t.schema" then some (lit "name").bytes else none

/-- `SELECT * FROM t`. -/
def selectAllFrom (table : CString) : Statement := .select ⟨⟨none, table⟩, true, [], none⟩

/-- The second SELECT from a table without `id` column returns rows, a fresh process would fail. -/
theorem failedActivation_then_select :
    activatedTable (lit "db") noIdFiles (selectAllFrom (lit "t")) =
        some ⟨⟨none, lit "t"⟩, [lit "name"], lit "db/t.schema", lit "db/t.data"⟩ ∧
      (activateStorageForTable (fun _ => 0)
        ⟨⟨none, lit "t"⟩, [lit "name"], lit "db/t.schema", lit "db/t.data"⟩
        (State.fresh noIdFiles)).1 = some .idColumnMissing ∧
      ¬BehavesFresh (fun _ => 0) (lit "db") (selectAllFrom (lit "t"))
        (executeStatement (fun _ => 0) (lit "db") (selectAllFrom (lit "t"))
          (State.fresh noIdFiles)).2 := by
  refine ⟨by decide, by decide, fun h => ?_⟩
  have hsecond : (runSelectQuery (fun _ => 0) (lit "db") ⟨⟨none, lit "t"⟩, true, [], none⟩
      (executeStatement (fun _ => 0) (lit "db") (selectAllFrom (lit "t"))
        (State.fresh noIdFiles)).2).1 = .ok ⟨[lit "name"], []⟩ := by decide
  have hfresh : (runSelectQuery (fun _ => 0) (lit "db") ⟨⟨none, lit "t"⟩, true, [], none⟩
      (State.fresh (executeStatement (fun _ => 0) (lit "db") (selectAllFrom (lit "t"))
        (State.fresh noIdFiles)).2.files)).1 = .error .idColumnMissing := by decide
  have heq := hsecond.symm.trans ((Outcome.selected.inj h.1).trans hfresh)
  exact absurd heq (by decide)

/-- The same with a second table `u` that has an `id` column. -/
def secondTableFiles : FileSystem :=
  fun path => if path = lit "db/u.schema" then some (lit "id").bytes else noIdFiles path

/-- A SELECT from `u` between the two SELECTs from `t` takes `g_active_data_path` away, so the second one
fails as in a fresh process. -/
theorem statement_after_failed_activation_between :
    ∃ s₃, s₃ = runStatements (fun _ => 0) (lit "db") [selectAllFrom (lit "u")]
        (executeStatement (fun _ => 0) (lit "db") (selectAllFrom (lit "t"))
          (State.fresh secondTableFiles)).2 ∧
      BehavesFresh (fun _ => 0) (lit "db") (selectAllFrom (lit "t")) s₃ ∧
      EarlyReturnSound (fun _ => 0) (lit "db") (selectAllFrom (lit "t")) s₃ := by
  refine ⟨_, rfl, (statement_after_failed_activation (fun _ => 0) (lit "db") secondTableFiles []
    [selectAllFrom (lit "u")] (selectAllFrom (lit "t")) (selectAllFrom (lit "t"))
    ⟨⟨none, lit "t"⟩, [lit "name"], lit "db/t.schema", lit "db/t.data"⟩ _ _ _ rfl (by decide +kernel)
    (by decide +kernel) rfl rfl (by decide +kernel) (by decide +kernel) rfl).mpr ?_⟩
  rintro ⟨table, htable, hactive⟩
  have hload : activatedTable (lit "db") (runStatements (fun _ => 0) (lit "db") [selectAllFrom (lit "u")]
      (executeStatement (fun _ => 0) (lit "db") (selectAllFrom (lit "t"))
        (State.fresh secondTableFiles)).2).files (selectAllFrom (lit "t")) =
      some ⟨⟨none, lit "t"⟩, [lit "name"], lit "db/t.schema", lit "db/t.data"⟩ := by decide +kernel
  obtain rfl := Option.some.inj (hload.symm.trans htable)
  revert hactive
  decide +kernel

end MiniSql
