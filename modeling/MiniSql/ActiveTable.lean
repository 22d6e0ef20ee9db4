import MiniSql.FailedActivation
import MiniSql.RowAssembly

/-!
# Statements on the active table

What statements find in memory, and what they do to it, when a table is the active one.

* `UsableCaches` holds in every state a process can reach: the index and the `student_no` set are ones their
  operations work on, whatever they hold (`UsableIndex`, `UsableSet`).
* `OnTable` adds that a table can be loaded from its schema and is the active one; `OnTable.step` keeps it so.
* `plannedRow` is the row that a statement hands to the writer, if it gets that far.

Main results:

* `storeRow_rejected`: `append_insert_row` fails after `next_id` exactly when the row cannot be written, the
  id is in the index, or the `student_no` cannot join the set.
* `activateStorageForTable_ok`: the two ways an activation succeeds, the early return and a scan of the data
  file.
* `OnTable.insert_cases`, `OnTable.insert_planned`: a check rejects an INSERT, or `storeRow` gets its plan.
* `OnTable.select_state`, `OnTable.unplanned`: everything else changes at most `activeTable`.

`nameTable`, `nameFiles` and `nameState` are the table of the examples.
-/

namespace MiniSql

/-! ### Usable caches -/

/-- An index that `index_find` and `index_insert` work on. -/
def UsableIndex (index : IdIndex) : Prop := ∃ es, IndexModel index es

/-- A set that was freed or initialised, with any members. -/
def UsableSet (set : StudentNoSet) : Prop := set = studentNoSetFree ∨ ∃ members, SetModel set members

theorem UsableIndex.insert {index : IdIndex} (h : UsableIndex index) (id : UInt64) (ref : RowRef) :
    UsableIndex (indexInsert index id ref).2 := by
  obtain ⟨es, hm⟩ := h
  by_cases hmem : id ∈ es.map Prod.fst
  · rw [hm.insert_of_mem hmem ref]
    exact ⟨es, hm⟩
  · obtain ⟨index', es', heq, hm', -⟩ := hm.insert hmem ref
    rw [heq]
    exact ⟨es', hm'⟩

/-- `index_insert` succeeds exactly on the ids that `index_find` does not find. -/
theorem UsableIndex.insert_rc {index : IdIndex} (h : UsableIndex index) (id : UInt64) (ref : RowRef) :
    (indexInsert index id ref).1 = if (indexFind index id).1 = 0 then 1 else 0 := by
  obtain ⟨es, hm⟩ := h
  rw [hm.find]
  by_cases hmem : id ∈ es.map Prod.fst
  · rw [hm.insert_of_mem hmem ref]
    cases hval : valueOf es id with
    | none => exact absurd hmem (valueOf_eq_none.mp hval)
    | some v => rfl
  · obtain ⟨index', es', heq, -, -⟩ := hm.insert hmem ref
    rw [heq, valueOf_eq_none.mpr hmem]
    rfl

theorem UsableSet.insert {set : StudentNoSet} (h : UsableSet set) (studentNo : CString) :
    UsableSet (studentNoSetInsert set studentNo).2 := by
  rcases h with rfl | ⟨members, hm⟩
  · exact Or.inl rfl
  · right
    by_cases hmem : studentNo ∈ members
    · exact ⟨_, (hm.insert_of_mem hmem).2⟩
    · exact ⟨_, (hm.insert hmem).2⟩

/-- `student_no_set_insert` succeeds exactly when there is a table that does not hold the value. -/
theorem UsableSet.insert_ok {set : StudentNoSet} (h : UsableSet set) (studentNo : CString) :
    (studentNoSetInsert set studentNo).1 = .ok ↔
      set.capacity ≠ 0 ∧ studentNoSetContains set studentNo = false := by
  rcases h with rfl | ⟨members, hm⟩
  · refine ⟨fun h => ?_, fun h => absurd rfl h.1⟩
    exact absurd h (by simp [studentNoSetInsert, studentNoSetFree, StudentNoSet.capacity])
  · have hcap : set.capacity ≠ 0 := hm.capacity_pos.ne'
    by_cases hmem : studentNo ∈ members
    · rw [(hm.insert_of_mem hmem).1, hm.contains]
      simp [hmem]
    · rw [(hm.insert hmem).1, hm.contains]
      simp [hmem, hcap]

theorem UsableSet.start (columns : StringList) : UsableSet (startBuild columns).studentNoSet := by
  rw [startBuild]
  dsimp only
  split
  · exact Or.inl rfl
  · exact Or.inr ⟨[], studentNoSetInit_model⟩

theorem UsableIndex.start (columns : StringList) : UsableIndex (startBuild columns).index := by
  obtain ⟨es, hm, -⟩ := (startBuild_model columns).index
  exact ⟨es, hm⟩

/-- What holds of the caches in every state. -/
structure UsableCaches (s : State) : Prop where
  no_fail : NoFail s
  index : s.globals.index.ready = true → UsableIndex s.globals.index
  set : UsableSet s.globals.studentNoSet

theorem UsableCaches.fresh (files : FileSystem) : UsableCaches (State.fresh files) :=
  ⟨rfl, fun h => (by cases h), Or.inl rfl⟩

/-- Inserts keep an index usable; one that is not ready they leave alone. -/
theorem usable_kept :
    KeptByInserts (fun index => index.ready = true → UsableIndex index) UsableSet where
  index := by
    intro index id ref hindex hready
    by_cases hold : index.ready = true
    · exact (hindex hold).insert id ref
    · have hsame : indexInsert index id ref = (-1, index) := by
        rw [indexInsert]
        split
        · rename_i h _
          exact absurd h hold
        · rfl
      rw [hsame] at hready
      exact absurd hready hold
  set := fun _ v hset => hset.insert v

theorem activateStorageForTable_usable (uninit : ℕ → UInt32) (table : TableDefinition) {s : State}
    (hs : UsableCaches s) : UsableCaches (activateStorageForTable uninit table s).2 := by
  obtain ⟨hindex, hset⟩ := activateStorageForTable_keeps uninit usable_kept
    ⟨fun _ => UsableIndex.start table.columns, UsableSet.start table.columns⟩ (Or.inl rfl)
    hs.no_fail ⟨hs.index, hs.set⟩
  exact ⟨activateStorageForTable_no_fail uninit table hs.no_fail, hindex, hset⟩

/-! ### `storeRow` -/

theorem storeRow_usable (columns : StringList) (plan : InsertPlan) {s : State}
    (hs : UsableCaches s) : UsableCaches (storeRow columns plan s).2 := by
  obtain ⟨hindex, hset⟩ := storeRow_keeps usable_kept columns plan ⟨hs.index, hs.set⟩
  exact ⟨storeRow_no_fail columns plan hs.no_fail, hindex, hset⟩

/-- `append_insert_row` fails after `next_id` exactly when the row cannot be written, the id is in the
index, or the `student_no` cannot join the set. -/
theorem storeRow_rejected (columns : StringList) (plan : InsertPlan) {s : State} {path : CString}
    (hpath : s.globals.activeDataPath = some path) (hindex : UsableIndex s.globals.index)
    (hset : UsableSet s.globals.studentNoSet) :
    (∃ e, (storeRow columns plan s).1 = .error e) ↔
      ¬Writable (plan.row (nextId s.globals.nextIdCounter)) ∨
      (indexFind s.globals.index (nextId s.globals.nextIdCounter)).1 = 0 ∨
      ∃ v ∈ plan.studentNo, s.globals.studentNoSet.capacity = 0 ∨
        studentNoSetContains s.globals.studentNoSet v = true := by
  have hwrite := binaryWriterAppendRow_rc path s.files (plan.row (nextId s.globals.nextIdCounter))
  rw [storeRow]
  dsimp only
  rw [hpath]
  rcases hr : binaryWriterAppendRow (some path) s.files
    (plan.row (nextId s.globals.nextIdCounter)) with ⟨files, rc, ref⟩
  rw [hr] at hwrite
  dsimp only at hwrite ⊢
  by_cases hw : Writable (plan.row (nextId s.globals.nextIdCounter))
  · obtain rfl : rc = 0 := hwrite.mpr hw
    rw [if_neg (by omega)]
    have hins := hindex.insert_rc (nextId s.globals.nextIdCounter) ref
    rcases hi : indexInsert s.globals.index (nextId s.globals.nextIdCounter) ref with ⟨rc, index'⟩
    rw [hi] at hins
    dsimp only at hins ⊢
    by_cases hfind : (indexFind s.globals.index (nextId s.globals.nextIdCounter)).1 = 0
    · rw [if_pos hfind] at hins
      rw [if_pos hins]
      exact ⟨fun _ => Or.inr (Or.inl hfind), fun _ => ⟨_, rfl⟩⟩
    · rw [if_neg hfind] at hins
      rw [if_neg (by omega), if_neg (by omega)]
      have hrest : (¬Writable (plan.row (nextId s.globals.nextIdCounter)) ∨
          (indexFind s.globals.index (nextId s.globals.nextIdCounter)).1 = 0 ∨
          ∃ v ∈ plan.studentNo, s.globals.studentNoSet.capacity = 0 ∨
            studentNoSetContains s.globals.studentNoSet v = true) ↔
          ∃ v ∈ plan.studentNo, s.globals.studentNoSet.capacity = 0 ∨
            studentNoSetContains s.globals.studentNoSet v = true := by
        simp [hw, hfind]
      rw [hrest]
      cases hstudent : plan.studentNo with
      | none => simp
      | some v =>
        have hok := hset.insert_ok v
        have hbad : (∃ w ∈ some v, s.globals.studentNoSet.capacity = 0 ∨
            studentNoSetContains s.globals.studentNoSet w = true) ↔
            (studentNoSetInsert s.globals.studentNoSet v).1 ≠ .ok := by
          rw [ne_eq, hok]
          simp [Classical.or_iff_not_imp_left]
        rw [hbad]
        dsimp only
        rcases studentNoSetInsert s.globals.studentNoSet v with ⟨r, set'⟩
        cases r <;> simp
  · have hrc : rc ≠ 0 := fun h => hw (hwrite.mp h)
    rw [if_pos hrc]
    exact ⟨fun _ => Or.inl hw, fun _ => ⟨_, rfl⟩⟩

/-! ### The active table -/

theorem executeStatement_usable (uninit : ℕ → UInt32) (dbRoot : CString) (statement : Statement)
    {s : State} (hs : UsableCaches s) : UsableCaches (executeStatement uninit dbRoot statement s).2 :=
  executeStatement_preserves dbRoot (fun table _ hs => activateStorageForTable_usable uninit table hs)
    (fun columns plan _ hs => storeRow_usable columns plan hs)
    (fun _ hs => ⟨hs.no_fail, hs.index, hs.set⟩) statement hs

theorem runStatements_usable (uninit : ℕ → UInt32) (dbRoot : CString) (files : FileSystem)
    (statements : List Statement) :
    UsableCaches (runStatements uninit dbRoot statements (State.fresh files)) :=
  runStatements_preserves (fun statement _ hs => executeStatement_usable uninit dbRoot statement hs)
    statements (UsableCaches.fresh files)

/-- The table can be loaded from its schema and is the active one. -/
structure OnTable (dbRoot : CString) (table : TableDefinition) (s : State) : Prop where
  load : loadTableDefinition dbRoot s.files table.name = .ok table
  path : s.globals.activeDataPath = some table.dataPath
  index : UsableIndex s.globals.index
  set : UsableSet s.globals.studentNoSet

/-- The state in which `activate_storage_for_table` leaves the active table. -/
def withActive (table : TableDefinition) (s : State) : State :=
  { s with globals := { s.globals with activeTable := some table } }

section OnTable

variable {uninit : ℕ → UInt32} {dbRoot : CString} {table : TableDefinition} {s : State}

theorem loadTableDefinition_name {files : FileSystem} {name : QualifiedName}
    (h : loadTableDefinition dbRoot files name = .ok table) : table.name = name := by
  obtain ⟨base, content, -, -, rfl, -⟩ := loadTableDefinition_ok h
  rfl

theorem loadTableDefinition_paths {files : FileSystem} {name : QualifiedName}
    (h : loadTableDefinition dbRoot files name = .ok table) :
    ∃ base, table.schemaPath = base ++ lit ".schema" ∧ table.dataPath = base ++ lit ".data" := by
  obtain ⟨base, content, -, -, rfl, -⟩ := loadTableDefinition_ok h
  exact ⟨base, rfl, rfl⟩

/-- An activation does not touch the schema file of a table. -/
theorem activateStorageForTable_load (uninit : ℕ → UInt32) (hf : NoFail s)
    {table' : TableDefinition} {name : QualifiedName}
    (h : loadTableDefinition dbRoot s.files name = .ok table)
    (h' : loadTableDefinition dbRoot s.files table'.name = .ok table') :
    loadTableDefinition dbRoot (activateStorageForTable uninit table' s).2.files name = .ok table := by
  obtain ⟨base, -, hpath⟩ := loadTableDefinition_paths h'
  exact loadTableDefinition_congr h (activateStorageForTable_files uninit table' s hf
    (schemaPath_not_touched h table'.dataPath base hpath))

/-- What a scan of the data file has built can be worked on. -/
theorem Loads.usable {files : FileSystem} {b : IndexBuild} (h : Loads uninit table files b) :
    UsableIndex b.index ∧ UsableSet b.studentNoSet := by
  have hk : KeptByInserts UsableIndex UsableSet :=
    ⟨fun _ id ref hindex => hindex.insert id ref, usable_kept.set⟩
  exact binaryReaderScanAll_preserves uninit
    (P := fun b : IndexBuild => UsableIndex b.index ∧ UsableSet b.studentNoSet)
    (fun _ _ _ _ _ hb => buildCallback_keeps hk hb)
    ⟨UsableIndex.start table.columns, UsableSet.start table.columns⟩ h.scan

/-- The two ways an activation succeeds: the early return, and a scan of the data file. -/
theorem activateStorageForTable_ok (hf : NoFail s)
    (hact : (activateStorageForTable uninit table s).1 = none) :
    (alreadyActive table s.globals = true ∧
      (activateStorageForTable uninit table s).2 = withActive table s) ∨
    (alreadyActive table s.globals = false ∧ ∃ b files', Loads uninit table files' b ∧
      (activateStorageForTable uninit table s).2 = ⟨loadedGlobals table b, files'⟩) := by
  rw [activateStorageForTable] at hact ⊢
  by_cases hearly : alreadyActive table s.globals = true
  · rw [if_pos hearly]
    exact Or.inl ⟨hearly, rfl⟩
  · rw [if_neg hearly] at hact ⊢
    refine Or.inr ⟨Bool.eq_false_iff.mpr hearly, ?_⟩
    rcases switchStorageToTable_cases uninit table s hf with ⟨b, files', hloads, heq⟩ |
      ⟨e, g', files', heq, -⟩
    · rw [heq]
      exact ⟨b, files', hloads, rfl⟩
    · rw [heq] at hact
      cases hact

/-- A successful activation makes the table the active one. -/
theorem activateStorageForTable_onTable (hs : UsableCaches s) {name : QualifiedName}
    (hload : loadTableDefinition dbRoot s.files name = .ok table)
    (hact : (activateStorageForTable uninit table s).1 = none) :
    OnTable dbRoot table (activateStorageForTable uninit table s).2 := by
  rw [← loadTableDefinition_name hload] at hload
  have hload' := activateStorageForTable_load uninit hs.no_fail hload hload
  rcases activateStorageForTable_ok hs.no_fail hact with ⟨hearly, heq⟩ | ⟨-, b, files', hb, heq⟩
  · rw [heq] at hload' ⊢
    rw [alreadyActive, Bool.and_eq_true, decide_eq_true_eq] at hearly
    exact ⟨hload', hearly.1, hs.index hearly.2, hs.set⟩
  · rw [heq] at hload' ⊢
    exact ⟨hload', rfl, hb.usable.1, hb.usable.2⟩

theorem OnTable.early (h : OnTable dbRoot table s) : alreadyActive table s.globals = true := by
  obtain ⟨es, hm⟩ := h.index
  rw [alreadyActive, h.path, hm.ready]
  simp

theorem OnTable.activate (h : OnTable dbRoot table s) :
    activateStorageForTable uninit table s = (none, withActive table s) := if_pos h.early

/-- Replacing `activeTable` does not matter. -/
theorem OnTable.setActive (h : OnTable dbRoot table s) (active : Option TableDefinition) :
    OnTable dbRoot table { s with globals := { s.globals with activeTable := active } } :=
  ⟨h.load, h.path, h.index, h.set⟩

theorem OnTable.reactivate (h : OnTable dbRoot table s) : OnTable dbRoot table (withActive table s) :=
  h.setActive (some table)

/-- An INSERT into the active table. -/
theorem OnTable.insert_eq (h : OnTable dbRoot table s) {statement : InsertStatement}
    (hname : statement.target = table.name) :
    appendInsertRow uninit dbRoot statement s =
      if statement.columns.length ≠ statement.values.length then (.error .insertCounts, s)
      else insertIntoTable table statement (withActive table s) := by
  rw [appendInsertRow, hname, h.load]
  dsimp only
  rw [h.activate]

/-- A SELECT on the active table. -/
theorem OnTable.select_eq (h : OnTable dbRoot table s) {statement : SelectStatement}
    (hname : statement.source = table.name) :
    runSelectQuery uninit dbRoot statement s =
      (selectFromTable uninit table statement (withActive table s),
        (selectFromTable uninit table statement (withActive table s)).state
          (withActive table s)) := by
  rw [runSelectQuery, hname, h.load]
  dsimp only
  rw [h.activate]

/-- The row that a statement on the active table hands to the writer, if it gets that far. -/
def plannedRow (table : TableDefinition) (statement : Statement) (s : State) : Option StringList :=
  match statement with
  | .select _ => none
  | .insert statement =>
      if statement.columns.length ≠ statement.values.length then none
      else
        match prepareInsert table.columns statement s.globals with
        | .error _ => none
        | .ok plan => some (plan.row (nextId s.globals.nextIdCounter))

/-- A statement that passes its checks. -/
theorem plannedRow_some {statement : Statement} {row : StringList}
    (h : plannedRow table statement s = some row) :
    ∃ insert plan, statement = .insert insert ∧ insert.columns.length = insert.values.length ∧
      prepareInsert table.columns insert s.globals = .ok plan ∧
      row = plan.row (nextId s.globals.nextIdCounter) := by
  cases statement with
  | select statement => cases h
  | insert statement =>
    rw [plannedRow] at h
    split at h
    · cases h
    · rename_i hcount
      split at h
      · cases h
      · rename_i plan hplan
        exact ⟨statement, plan, rfl, not_not.mp hcount, hplan, (Option.some.inj h).symm⟩

theorem plannedRow_of_plan {statement : InsertStatement} {plan : InsertPlan}
    (hcount : statement.columns.length = statement.values.length)
    (hplan : prepareInsert table.columns statement s.globals = .ok plan) :
    plannedRow table (.insert statement) s = some (plan.row (nextId s.globals.nextIdCounter)) := by
  rw [plannedRow, if_neg (not_not.mpr hcount), hplan]

/-- The two ways of an INSERT into the active table: a check rejects it, or `storeRow` gets its plan. -/
theorem OnTable.insert_cases (uninit : ℕ → UInt32) (h : OnTable dbRoot table s)
    {statement : InsertStatement} (hname : statement.target = table.name) :
    (∃ e active, plannedRow table (.insert statement) s = none ∧
      appendInsertRow uninit dbRoot statement s =
        (.error e, { s with globals := { s.globals with activeTable := active } })) ∨
    ∃ plan, statement.columns.length = statement.values.length ∧
      prepareInsert table.columns statement s.globals = .ok plan ∧
      appendInsertRow uninit dbRoot statement s =
        storeRow table.columns plan (withActive table s) := by
  rw [h.insert_eq hname, plannedRow]
  by_cases hcount : statement.columns.length ≠ statement.values.length
  · rw [if_pos hcount, if_pos hcount]
    exact Or.inl ⟨_, s.globals.activeTable, rfl, rfl⟩
  · rw [if_neg hcount, if_neg hcount, insertIntoTable]
    have hglobals : prepareInsert table.columns statement (withActive table s).globals =
        prepareInsert table.columns statement s.globals := rfl
    rw [hglobals]
    cases prepareInsert table.columns statement s.globals with
    | error e => exact Or.inl ⟨e, some table, rfl, rfl⟩
    | ok plan => exact Or.inr ⟨plan, not_not.mp hcount, rfl, rfl⟩

/-- An INSERT into the active table that passes its checks. -/
theorem OnTable.insert_planned (uninit : ℕ → UInt32) (h : OnTable dbRoot table s)
    {statement : InsertStatement} (hname : statement.target = table.name) {row : StringList}
    (hplanned : plannedRow table (.insert statement) s = some row) :
    ∃ plan, prepareInsert table.columns statement s.globals = .ok plan ∧
      row = plan.row (nextId s.globals.nextIdCounter) ∧
      appendInsertRow uninit dbRoot statement s =
        storeRow table.columns plan (withActive table s) := by
  rcases h.insert_cases uninit hname with ⟨e, active, hrow, -⟩ | ⟨plan, hcount, hplan, heq⟩
  · rw [hrow] at hplanned
    cases hplanned
  · rw [plannedRow_of_plan hcount hplan] at hplanned
    exact ⟨plan, hplan, (Option.some.inj hplanned).symm, heq⟩

/-- A SELECT on the active table changes at most `activeTable`. -/
theorem OnTable.select_state (uninit : ℕ → UInt32) (h : OnTable dbRoot table s)
    {statement : SelectStatement} (hname : statement.source = table.name) :
    ∃ active, (runSelectQuery uninit dbRoot statement s).2 =
      { s with globals := { s.globals with activeTable := active } } := by
  rw [h.select_eq hname]
  cases selectFromTable uninit table statement (withActive table s) with
  | ok result => exact ⟨none, rfl⟩
  | error e => exact ⟨some table, rfl⟩
  | fault => exact ⟨some table, rfl⟩

/-- A statement that hands no row to the writer changes at most `activeTable`. -/
theorem OnTable.unplanned (uninit : ℕ → UInt32) (h : OnTable dbRoot table s) {statement : Statement}
    (hname : statement.name = table.name) (hplanned : plannedRow table statement s = none) :
    ∃ active, (executeStatement uninit dbRoot statement s).2 =
      { s with globals := { s.globals with activeTable := active } } := by
  cases statement with
  | insert statement =>
    rcases h.insert_cases uninit hname with ⟨e, active, -, heq⟩ | ⟨plan, hcount, hplan, -⟩
    · refine ⟨active, ?_⟩
      show (appendInsertRow uninit dbRoot statement s).2 = _
      rw [heq]
    · rw [plannedRow_of_plan hcount hplan] at hplanned
      cases hplanned
  | select statement => exact h.select_state uninit hname

/-- Storing a row keeps the table active. -/
theorem OnTable.store (h : OnTable dbRoot table s) (plan : InsertPlan) :
    OnTable dbRoot table (storeRow table.columns plan s).2 := by
  obtain ⟨-, hpath, -, hindex, hset⟩ := storeRow_globals table.columns plan s
  refine ⟨?_, ?_, ?_, ?_⟩
  · refine loadTableDefinition_congr h.load ?_
    obtain ⟨base, -, hdata⟩ := loadTableDefinition_paths h.load
    have hne : table.schemaPath ≠ table.dataPath := fun heq =>
      schemaPath_not_touched h.load table.dataPath base hdata (Or.inl heq)
    obtain ⟨bytes, -, -, hfiles⟩ := binaryWriterAppendRow_files table.dataPath s.files
      (plan.row (nextId s.globals.nextIdCounter))
    rw [storeRow_files, h.path, hfiles, FileSystem.write_of_ne _ hne]
  · rw [hpath, h.path]
  · rcases hindex with heq | ⟨id, ref, heq⟩ <;> rw [heq]
    · exact h.index
    · exact h.index.insert id ref
  · rcases hset with heq | ⟨v, heq⟩ <;> rw [heq]
    · exact h.set
    · exact h.set.insert v

/-- A statement on the active table keeps it active. -/
theorem OnTable.step (uninit : ℕ → UInt32) (h : OnTable dbRoot table s) {statement : Statement}
    (hname : statement.name = table.name) :
    OnTable dbRoot table (executeStatement uninit dbRoot statement s).2 := by
  cases statement with
  | insert statement =>
    show OnTable dbRoot table (appendInsertRow uninit dbRoot statement s).2
    rcases h.insert_cases uninit hname with ⟨e, active, -, heq⟩ | ⟨plan, -, -, heq⟩
    · rw [heq]
      exact h.setActive active
    · rw [heq]
      exact h.reactivate.store plan
  | select statement =>
    show OnTable dbRoot table (runSelectQuery uninit dbRoot statement s).2
    obtain ⟨active, heq⟩ := h.select_state uninit hname
    rw [heq]
    exact h.setActive active

end OnTable

/-! ### A table for witnesses -/

/-- A table with the columns `id` and `name`. -/
def nameTable : TableDefinition :=
  ⟨⟨none, lit "t"⟩, [lit "id", lit "name"], lit "db/t.schema", lit "db/t.data"⟩

/-- The files of `nameTable` with the given data file. -/
def nameFiles (data : Bytes) : FileSystem := fun path =>
  if path = lit "db/t.schema" then some (lit "id|name\n").bytes
  else if path = lit "db/t.data" then some data
  else none

/-- `INSERT INTO t (name) VALUES (...)`. -/
def insertName (name : CString) : InsertStatement := ⟨⟨none, lit "t"⟩, [lit "name"], [name]⟩

/-- The state after the activation of the table in a fresh process. -/
def nameState (data : Bytes) : State :=
  (activateStorageForTable (fun _ => 0) nameTable (State.fresh (nameFiles data))).2

end MiniSql
