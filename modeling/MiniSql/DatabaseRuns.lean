import MiniSql.Database
import MiniSql.FormatSniffing

/-!
# Runs of the program as runs of the database

`Holds` connects a state of the program with the tables of the database: a data file encodes the rows of its
table or is still the text it was at the start, and the caches in use agree with the rows.  Every event keeps
it and gives the answer of the database.

* `transcript` lists the statements of a run of the program with their outcomes.
* `Room` counts the ids that are left for the rows to come.
* `Supported` is what the results about whole runs ask for: the kinds of data files and schemas at the start,
  names that the parser can name, values that can be read back, and enough ids.

Main results:

* `Holds.statement`: one statement, whatever table is active; `Holds.restart`: a restart.
* `Holds.run`: any run of events.
* `program_is_database`: so the program is the database, with restarts and changes of the active table at any
  point.
* `Holds.run_file`: the data file of a table is in binary form once the table was activated, and untouched
  before.
-/

namespace MiniSql

open Framing KeyedLogs

/-! ### The statements of a run -/

/-- The statement of an event; a restart is none. -/
def Event.statement? : Event → Option Statement
  | .statement stmt => some stmt
  | .restart => none

def statementsOf (events : List Event) : List Statement := events.filterMap Event.statement?

/-- The statements of a run of the program with their outcomes. -/
def transcript (uninit : ℕ → UInt32) (dbRoot : CString) :
    List Event → State → List (Statement × Outcome)
  | [], _ => []
  | event :: events, s =>
      (event.statement?.map fun statement =>
          (statement, (executeStatement uninit dbRoot statement s).1)).toList ++
        transcript uninit dbRoot events (runEvent uninit dbRoot event s)

/-! ### New rows -/

section NewRows

variable {columns : StringList} {schema : QualifiedName → Except StorageError StringList}
  {statement : Statement} {stored : List StringList} {row : StringList}

theorem newRow_length (columns : StringList) (pairs : List (CString × CString)) (n : ℕ) :
    (newRow columns pairs n).length = columns.length := by
  rw [newRow, List.length_map, List.length_range]

theorem idOf_newRow (hid : findColumnIndex columns idName ≠ none) (pairs : List (CString × CString))
    (n : ℕ) : idOf columns (newRow columns pairs n) = some (UInt64.ofNat n) := by
  obtain ⟨i, hi⟩ := Option.ne_none_iff_exists'.mp hid
  have hcell : (newRow columns pairs n)[i]? = some (decimalText (UInt64.ofNat n)) := by
    rw [newRow, List.getElem?_map, List.getElem?_range (findColumnIndex_lt hi), Option.map_some,
      if_pos hi]
  rw [idOf, hi, Option.bind_some, hcell, Option.bind_some, parseU64Strict_decimalText]

theorem admitted_name (h : (Event.statement statement).Admitted) : ParsedName statement.name := by
  cases statement with
  | insert statement => exact h.1
  | select statement => exact h

/-- The row of an answer is the new row with the next id. -/
theorem answer_row_eq (hschema : schema statement.name = .ok columns)
    (h : (answer schema statement stored).row = some row) :
    ∃ insert, statement = .insert insert ∧
      row = newRow columns insert.pairs (lastId columns stored + 1) := by
  cases statement with
  | select statement => cases h
  | insert statement =>
    have hcolumns : schema statement.target = .ok columns := hschema
    rw [answer, hcolumns, insertAnswer] at h
    split at h
    · cases h
    · split at h
      · cases h
      · exact ⟨statement, rfl, (Option.some.inj h).symm⟩

/-- An answer moves the greatest id on by one, at most and only for an INSERT. -/
theorem answer_lastId (hid : findColumnIndex columns idName ≠ none)
    (hschema : schema statement.name = .ok columns) (stored : List StringList) :
    lastId columns (stored ++ (answer schema statement stored).row.toList) ≤
      lastId columns stored + insertCount [.statement statement] := by
  rw [lastId_append]
  cases hrow : (answer schema statement stored).row with
  | none => simp [lastId]
  | some row =>
    obtain ⟨insert, rfl, rfl⟩ := answer_row_eq hschema hrow
    have hone : insertCount [.statement (.insert insert)] = 1 := rfl
    have hlast : lastId columns [newRow columns insert.pairs (lastId columns stored + 1)] ≤
        lastId columns stored + 1 := by
      rw [lastId, List.filterMap_cons, idOf_newRow hid]
      simpa using Nat.mod_le _ _
    rw [hone, Option.toList_some]
    exact max_le (Nat.le_succ _) hlast

end NewRows

/-! ### The simulation -/

/-- The state holds the tables: a data file encodes the rows or is still the text it was at the start, and
the caches in use agree with the rows. -/
structure Holds (dbRoot : CString) (files : FileSystem) (rows : QualifiedName → List StringList)
    (s : State) : Prop where
  usable : UsableCaches s
  schemas : ∀ base : CString, s.files (base ++ lit ".schema") = files (base ++ lit ".schema")
  valid : ∀ name table, ParsedName name → loadTableDefinition dbRoot files name = .ok table →
    ValidTable table.columns (rows name)
  data : ∀ name table, ParsedName name → loadTableDefinition dbRoot files name = .ok table →
    (s.files table.dataPath).getD [] = stream encodeRow (rows name) ∨
      (s.files table.dataPath).getD [] = (files table.dataPath).getD [] ∧
        IsTextOf ((files table.dataPath).getD []) (rows name)
  active : ∀ name table, ParsedName name → loadTableDefinition dbRoot files name = .ok table →
    alreadyActive table s.globals = true →
      ∃ b, Serving dbRoot table (rows name) b s ∧ s.globals.nextIdCounter = b.maxId

section Simulation

variable {dbRoot : CString} {files : FileSystem} {rows : QualifiedName → List StringList} {s : State}

/-- The activation of any table succeeds and serves its rows. -/
theorem Holds.activated (uninit : ℕ → UInt32) (hschemas : UsableSchemas dbRoot files)
    (h : Holds dbRoot files rows s) {name : QualifiedName} {table : TableDefinition}
    (hname : ParsedName name) (hload : loadTableDefinition dbRoot files name = .ok table) :
    ∃ s₁ b, activateStorageForTable uninit table s = (none, s₁) ∧
      s₁.globals.activeTable = some table ∧ Serving dbRoot table (rows name) b s₁ ∧
      s₁.globals.nextIdCounter = b.maxId ∧
      ∀ p, ¬TouchedBy table.dataPath p → s₁.files p = s.files p := by
  by_cases hearly : alreadyActive table s.globals = true
  · obtain ⟨b, hserving, hmax⟩ := h.active name table hname hload hearly
    exact ⟨withActive table s, b, if_pos hearly, rfl, hserving.setActive (some table), hmax,
      fun p _ => rfl⟩
  · have hvalid := h.valid name table hname hload
    have hfile : (s.files table.dataPath).getD [] = stream encodeRow (rows name) ∨
        IsTextOf ((s.files table.dataPath).getD []) (rows name) := by
      rcases h.data name table hname hload with hbinary | ⟨hsame, htext⟩
      · exact Or.inl hbinary
      · exact Or.inr (hsame ▸ htext)
    have hid := (hschemas name table hname hload).1
    obtain ⟨b, files', heq, hbuilt, hdata, hframe⟩ :=
      activate_valid uninit h.usable.no_fail (Bool.eq_false_iff.mpr hearly) hid hvalid hfile
    obtain ⟨base, -, hpath⟩ := loadTableDefinition_paths hload
    have hload' : loadTableDefinition dbRoot files' table.name = .ok table := by
      rw [loadTableDefinition_name hload]
      refine loadTableDefinition_congr hload ?_
      rw [hframe _ (schemaPath_not_touched hload table.dataPath base hpath)]
      obtain ⟨base', hschema, -⟩ := loadTableDefinition_paths hload
      rw [hschema, h.schemas]
    exact ⟨_, b, heq, rfl,
      ⟨hload', rfl, hdata, hvalid.readable, hid, rfl, hbuilt, rfl, rfl⟩, rfl, hframe⟩

/-- A statement that does not get to the activation is answered from the schemas alone. -/
theorem unactivated_answer (uninit : ℕ → UInt32) {statement : Statement}
    (hschemas : ∀ base : CString, s.files (base ++ lit ".schema") = files (base ++ lit ".schema"))
    (h : activatedTable dbRoot s.files statement = none) (stored : List StringList) :
    (executeStatement uninit dbRoot statement s).1 =
      answer (schemaOf dbRoot files) statement stored := by
  have hload := loadTableDefinition_schemas dbRoot hschemas
  cases statement with
  | insert statement =>
    rw [activatedTable, hload] at h
    rw [executeStatement, answer, appendInsertRow, schemaOf, hload]
    unfold insertAnswer
    dsimp only
    split
    · rfl
    · rename_i hcounts
      rw [if_neg hcounts] at h
      cases hr : loadTableDefinition dbRoot files statement.target with
      | error e => rfl
      | ok table =>
        rw [hr] at h
        cases h
  | select statement =>
    rw [activatedTable, hload] at h
    rw [executeStatement, answer, runSelectQuery, schemaOf, hload]
    unfold selectAnswer
    cases hr : loadTableDefinition dbRoot files statement.source with
    | error e => rfl
    | ok table =>
      rw [hr] at h
      cases h

/-- An activation of one table does not touch the data file of another. -/
theorem data_not_touched {name name' : QualifiedName} {table table' : TableDefinition}
    (hname : ParsedName name) (hname' : ParsedName name') (hne : name' ≠ name)
    (hload : loadTableDefinition dbRoot files name = .ok table)
    (hload' : loadTableDefinition dbRoot files name' = .ok table') :
    ¬TouchedBy table.dataPath table'.dataPath := by
  obtain ⟨base, -, hpath⟩ := loadTableDefinition_paths hload'
  rintro (heq | heq | heq)
  · exact hne (dataPath_injective hname' hname hload' hload heq)
  · rw [hpath] at heq
    exact append_ne_of_suffix 1 (by decide) (by decide) (by decide) _ _ heq
  · rw [hpath] at heq
    exact append_ne_of_suffix 1 (by decide) (by decide) (by decide) _ _ heq

/-- Nor does it touch any schema file. -/
theorem schema_not_touched {name : QualifiedName} {table : TableDefinition}
    (hload : loadTableDefinition dbRoot files name = .ok table) (base : CString) :
    ¬TouchedBy table.dataPath (base ++ lit ".schema") := by
  rintro (heq | heq | heq)
  · exact schemaPath_ne_dataPath hload base heq
  · exact append_ne_of_suffix 1 (by decide) (by decide) (by decide) _ _ heq
  · exact append_ne_of_suffix 1 (by decide) (by decide) (by decide) _ _ heq

/-- A statement that gets to the activation: its table is served afterwards with the rows of the database,
and no other file is touched. -/
theorem Holds.served (uninit : ℕ → UInt32) (hschemas : UsableSchemas dbRoot files)
    (h : Holds dbRoot files rows s) {statement : Statement}
    (hadmitted : (Event.statement statement).Admitted)
    (hcount : ∀ table, loadTableDefinition dbRoot files statement.name = .ok table →
      lastId table.columns (rows statement.name) + insertCount [.statement statement] < 2 ^ 64)
    {table : TableDefinition} (htable : activatedTable dbRoot s.files statement = some table) :
    (executeStatement uninit dbRoot statement s).1 =
        answer (schemaOf dbRoot files) statement (rows statement.name) ∧
      (∃ b, Serving dbRoot table ((database (schemaOf dbRoot files)).step statement rows statement.name)
          b (executeStatement uninit dbRoot statement s).2 ∧
        (executeStatement uninit dbRoot statement s).2.globals.nextIdCounter = b.maxId) ∧
      ∀ p, ¬TouchedBy table.dataPath p →
        (executeStatement uninit dbRoot statement s).2.files p = s.files p := by
  have hparsed := admitted_name hadmitted
  have hload := (loadTableDefinition_schemas dbRoot h.schemas statement.name).symm.trans
    (activatedTable_load htable)
  have hname : statement.name = table.name := (loadTableDefinition_name hload).symm
  obtain ⟨s₁, b, hactivate, hactive, hserving, hmax, hframe⟩ :=
    h.activated uninit hschemas hparsed hload
  have hexecute := executeStatement_activated htable hactivate hactive hserving.onTable
  have hlimits : InReaderLimits table statement := by
    cases statement with
    | insert statement => exact ⟨(hschemas _ table hparsed hload).2, hadmitted.2⟩
    | select statement => trivial
  have hcounter : drawnId table statement s₁ ≠ none → s₁.globals.nextIdCounter ≠ uint64Max := by
    intro hdraw heq
    have hlast := hserving.built.lastId
    rw [← hmax, heq] at hlast
    have hbound := hcount table hload
    cases statement with
    | insert statement =>
      have hone : insertCount [.statement (.insert statement)] = 1 := rfl
      have htop : uint64Max.toNat = 2 ^ 64 - 1 := rfl
      omega
    | select statement => exact hdraw rfl
  have hschema : schemaOf dbRoot files statement.name = .ok table.columns := by
    rw [schemaOf, hload]
    rfl
  have hanswer : (executeStatement uninit dbRoot statement s).1 =
      answer (schemaOf dbRoot files) statement (rows statement.name) := by
    rw [hexecute]
    exact hserving.statement_answer uninit hmax (h.valid _ table hparsed hload).width hname hlimits
      hcounter hschema
  have hrow := hserving.step_row uninit hmax hname hlimits hcounter
  obtain ⟨b', hserving', hmax'⟩ := hserving.step uninit hmax hname hlimits hcounter
  rw [← hrow, ← hexecute, hanswer] at hserving'
  rw [← hexecute] at hmax'
  refine ⟨hanswer, ⟨b', ?_, hmax'⟩, fun p hp => ?_⟩
  · rw [database_step_self]
    exact hserving'
  · rw [hexecute, hserving.onTable.step_files uninit hname fun heq => hp (Or.inl heq), hframe p hp]

/-- **One statement of the program.**  It gets the answer of the database, whatever table is active, and
the tables after it are those of the database. -/
theorem Holds.statement (uninit : ℕ → UInt32) (hschemas : UsableSchemas dbRoot files)
    (h : Holds dbRoot files rows s) {statement : Statement}
    (hadmitted : (Event.statement statement).Admitted)
    (hcount : ∀ table, loadTableDefinition dbRoot files statement.name = .ok table →
      lastId table.columns (rows statement.name) + insertCount [.statement statement] < 2 ^ 64) :
    (executeStatement uninit dbRoot statement s).1 =
        answer (schemaOf dbRoot files) statement (rows statement.name) ∧
      Holds dbRoot files ((database (schemaOf dbRoot files)).step statement rows)
        (executeStatement uninit dbRoot statement s).2 := by
  have hparsed := admitted_name hadmitted
  cases htable : activatedTable dbRoot s.files statement with
  | none =>
    have hanswer := unactivated_answer uninit h.schemas htable (rows statement.name)
    obtain ⟨hrow, hsame⟩ := executeStatement_unactivated uninit htable
    rw [hanswer] at hrow
    have hstep : (database (schemaOf dbRoot files)).step statement rows = rows := by
      apply Service.step_of_added_nil
      show (answer (schemaOf dbRoot files) statement (rows statement.name)).row.toList = []
      rw [hrow, Option.toList_none]
    rw [hsame, hstep]
    exact ⟨hanswer, h⟩
  | some table =>
    have hload := (loadTableDefinition_schemas dbRoot h.schemas statement.name).symm.trans
      (activatedTable_load htable)
    obtain ⟨hanswer, ⟨b, hserving, hmax⟩, hframe⟩ := h.served uninit hschemas hadmitted hcount htable
    have hschema : schemaOf dbRoot files statement.name = .ok table.columns := by
      rw [schemaOf, hload]
      rfl
    -- only this table has a new row, and only its files are touched
    have hother := fun name (hne : statement.name ≠ name) =>
      database_step_of_ne (schemaOf dbRoot files) hne rows
    refine ⟨hanswer, executeStatement_usable uninit dbRoot statement h.usable, ?_, ?_, ?_, ?_⟩
    · intro base
      rw [hframe _ (schema_not_touched hload base), h.schemas]
    · intro name table' hname' hload'
      by_cases hsame : statement.name = name
      · subst hsame
        obtain rfl : table = table' := Except.ok.inj (hload.symm.trans hload')
        refine ValidTable.of_built hserving.built hserving.readable ?_
        rw [database_step_self]
        refine List.forall_mem_append.mpr ⟨(h.valid _ table hparsed hload).width, fun row hnew => ?_⟩
        obtain ⟨insert, -, rfl⟩ := answer_row_eq hschema (Option.mem_toList.mp hnew)
        exact newRow_length _ _ _
      · rw [hother name hsame]
        exact h.valid name table' hname' hload'
    · intro name table' hname' hload'
      by_cases hsame : statement.name = name
      · subst hsame
        obtain rfl : table = table' := Except.ok.inj (hload.symm.trans hload')
        left
        rw [hserving.file]
        rfl
      · rw [hframe _ (data_not_touched hparsed hname' (Ne.symm hsame) hload hload'),
          hother name hsame]
        exact h.data name table' hname' hload'
    · intro name table' hname' hload' hearly
      rw [alreadyActive, Bool.and_eq_true, decide_eq_true_eq, hserving.path] at hearly
      have hsame := dataPath_injective hparsed hname' hload hload' (Option.some.inj hearly.1)
      subst hsame
      obtain rfl : table = table' := Except.ok.inj (hload.symm.trans hload')
      exact ⟨b, hserving, hmax⟩

/-- There are ids for `n` more rows in every table. -/
def Room (dbRoot : CString) (files : FileSystem) (rows : QualifiedName → List StringList) (n : ℕ) :
    Prop :=
  ∀ name table, ParsedName name → loadTableDefinition dbRoot files name = .ok table →
    lastId table.columns (rows name) + n < 2 ^ 64

theorem Room.mono {n n' : ℕ} (h : Room dbRoot files rows n) (hle : n' ≤ n) :
    Room dbRoot files rows n' := fun name table hname hload =>
  lt_of_le_of_lt (Nat.add_le_add_left hle _) (h name table hname hload)

/-- A statement takes the ids of the rows it adds. -/
theorem Room.step (hschemas : UsableSchemas dbRoot files) {statement : Statement} {n : ℕ}
    (h : Room dbRoot files rows (n + insertCount [.statement statement])) :
    Room dbRoot files ((database (schemaOf dbRoot files)).step statement rows) n := by
  intro name table hname hload
  have hbound := h name table hname hload
  by_cases hsame : statement.name = name
  · subst hsame
    have hschema : schemaOf dbRoot files statement.name = .ok table.columns := by
      rw [schemaOf, hload]
      rfl
    have hlast := answer_lastId (hschemas _ table hname hload).1 hschema (rows statement.name)
    rw [database_step_self]
    omega
  · rw [database_step_of_ne _ hsame]
    omega

theorem insertCount_statement (statement : Statement) (events : List Event) :
    insertCount (.statement statement :: events) =
      insertCount events + insertCount [.statement statement] := by
  rw [insertCount_cons, insertCount_cons]
  exact congrArg _ (Nat.zero_add _).symm

/-- So do the statements of a run. -/
theorem Room.run (hschemas : UsableSchemas dbRoot files) {events : List Event} {n : ℕ}
    (h : Room dbRoot files rows (n + insertCount events)) :
    Room dbRoot files ((database (schemaOf dbRoot files)).run (statementsOf events) rows) n := by
  induction events generalizing rows with
  | nil => exact h
  | cons event events ih =>
    cases event with
    | restart => exact ih h
    | statement statement =>
      rw [insertCount_statement, ← Nat.add_assoc] at h
      exact ih (h.step hschemas)

/-- A restart keeps the files and forgets the caches. -/
theorem Holds.restart (h : Holds dbRoot files rows s) :
    Holds dbRoot files rows (State.fresh s.files) where
  usable := UsableCaches.fresh s.files
  schemas := h.schemas
  valid := h.valid
  data := h.data
  active := fun name table _ _ hactive => by
    rw [alreadyActive, State.fresh, Globals.initial] at hactive
    cases hactive

/-- Any run of events. -/
theorem Holds.run (uninit : ℕ → UInt32) (hschemas : UsableSchemas dbRoot files)
    (events : List Event) (h : Holds dbRoot files rows s)
    (hadmitted : ∀ event ∈ events, event.Admitted)
    (hroom : Room dbRoot files rows (insertCount events)) :
    transcript uninit dbRoot events s =
        (database (schemaOf dbRoot files)).transcript (statementsOf events) rows ∧
      Holds dbRoot files ((database (schemaOf dbRoot files)).run (statementsOf events) rows)
        (runEvents uninit dbRoot events s) := by
  induction events generalizing rows s with
  | nil => exact ⟨rfl, h⟩
  | cons event events ih =>
    obtain ⟨hfirst, hrest⟩ := List.forall_mem_cons.mp hadmitted
    rw [transcript, runEvents]
    cases event with
    | restart =>
      refine ih h.restart hrest (hroom.mono ?_)
      rw [insertCount_cons]
      exact Nat.le_add_right _ _
    | statement statement =>
      rw [insertCount_statement] at hroom
      obtain ⟨hanswer, hnext⟩ := h.statement uninit hschemas hfirst fun table hload =>
        hroom.mono (Nat.le_add_left _ _) _ table (admitted_name hfirst) hload
      obtain ⟨htranscript, hholds⟩ := ih hnext hrest (hroom.step hschemas)
      refine ⟨?_, hholds⟩
      rw [runEvent, htranscript, Event.statement?, Option.map_some, hanswer]
      rfl

/-! ### Which files are migrated -/

/-- One of the statements about the table gets to its activation. -/
def Activates (dbRoot : CString) (files : FileSystem) (name : QualifiedName)
    (statements : List Statement) : Prop :=
  ∃ statement ∈ statements, statement.name = name ∧ activatedTable dbRoot files statement ≠ none

theorem activatedTable_schemas (dbRoot : CString) {files files' : FileSystem}
    (h : ∀ base : CString, files' (base ++ lit ".schema") = files (base ++ lit ".schema"))
    (statement : Statement) :
    activatedTable dbRoot files' statement = activatedTable dbRoot files statement := by
  cases statement with
  | insert statement => rw [activatedTable, activatedTable, loadTableDefinition_schemas dbRoot h]
  | select statement => rw [activatedTable, activatedTable, loadTableDefinition_schemas dbRoot h]

/-- A data file that was in binary form at some point of a run encodes the rows later on. -/
theorem Holds.file (h : Holds dbRoot files rows s) {name : QualifiedName} {table : TableDefinition}
    (hname : ParsedName name) (hload : loadTableDefinition dbRoot files name = .ok table)
    {stored : List StringList} (hreadable : ∀ row ∈ stored, Readable row)
    (hbinary : (files table.dataPath).getD [] = stream encodeRow stored ∨
      (s.files table.dataPath).getD [] = stream encodeRow stored) :
    (s.files table.dataPath).getD [] = stream encodeRow (rows name) := by
  rcases h.data name table hname hload with hfile | ⟨hsame, htext⟩
  · exact hfile
  · have hlooks := htext.1 fun _ => 0
    have hstream : (files table.dataPath).getD [] = stream encodeRow stored := by
      rcases hbinary with hfirst | hlater
      · exact hfirst
      · exact hsame.symm.trans hlater
    rw [hstream, fileLooksBinary_stream _ hreadable] at hlooks
    cases hlooks

/-- The data file of a table is in binary form once the table was activated, and untouched before. -/
theorem Holds.run_file (uninit : ℕ → UInt32) (hschemas : UsableSchemas dbRoot files)
    (events : List Event) (h : Holds dbRoot files rows s)
    (hadmitted : ∀ event ∈ events, event.Admitted)
    (hroom : Room dbRoot files rows (insertCount events)) {name : QualifiedName}
    {table : TableDefinition} (hname : ParsedName name)
    (hload : loadTableDefinition dbRoot files name = .ok table) :
    (Activates dbRoot files name (statementsOf events) →
      ((runEvents uninit dbRoot events s).files table.dataPath).getD [] =
        stream encodeRow ((database (schemaOf dbRoot files)).run (statementsOf events) rows name)) ∧
      (¬Activates dbRoot files name (statementsOf events) →
        (runEvents uninit dbRoot events s).files table.dataPath = s.files table.dataPath) := by
  induction events generalizing rows s with
  | nil => exact ⟨fun ⟨_, hmem, _⟩ => absurd hmem List.not_mem_nil, fun _ => rfl⟩
  | cons event events ih =>
    obtain ⟨hfirst, hrest⟩ := List.forall_mem_cons.mp hadmitted
    rw [runEvents]
    cases event with
    | restart =>
      refine ih h.restart hrest (hroom.mono ?_)
      rw [insertCount_cons]
      exact Nat.le_add_right _ _
    | statement statement =>
      rw [insertCount_statement] at hroom
      have hcount := fun table hload =>
        hroom.mono (Nat.le_add_left _ _) _ table (admitted_name hfirst) hload
      obtain ⟨-, hnext⟩ := h.statement uninit hschemas hfirst hcount
      have hrun := (hnext.run uninit hschemas events hrest (hroom.step hschemas)).2
      obtain ⟨hmigrated, huntouched⟩ := ih hnext hrest (hroom.step hschemas)
      have hsame := activatedTable_schemas dbRoot h.schemas statement
      have hcons : statementsOf (.statement statement :: events) = statement :: statementsOf events := rfl
      rw [runEvent, hcons, Activates, List.exists_mem_cons_iff]
      by_cases hthis : statement.name = name ∧ activatedTable dbRoot files statement ≠ none
      · refine ⟨fun _ => ?_, fun hnone => absurd (Or.inl hthis) hnone⟩
        by_cases hlater : Activates dbRoot files name (statementsOf events)
        · exact hmigrated hlater
        · obtain ⟨rfl, hactivated⟩ := hthis
          obtain ⟨table', htable⟩ := Option.ne_none_iff_exists'.mp hactivated
          obtain rfl : table' = table := Except.ok.inj ((activatedTable_load htable).symm.trans hload)
          obtain ⟨-, ⟨b, hserving, -⟩, -⟩ :=
            h.served uninit hschemas hfirst hcount (hsame.trans htable)
          refine hrun.file hname hload hserving.readable (Or.inr ?_)
          rw [huntouched hlater, hserving.file]
          rfl
      · have hkept : (executeStatement uninit dbRoot statement s).2.files table.dataPath =
            s.files table.dataPath := by
          cases htable : activatedTable dbRoot files statement with
          | none => rw [(executeStatement_unactivated uninit (hsame.trans htable)).2]
          | some table' =>
            have hne : name ≠ statement.name := fun heq => hthis ⟨heq.symm, by rw [htable]; simp⟩
            obtain ⟨-, -, hframe⟩ := h.served uninit hschemas hfirst hcount (hsame.trans htable)
            exact hframe _ (data_not_touched (admitted_name hfirst) hname hne
              (activatedTable_load htable) hload)
        constructor
        · rintro (habsurd | hlater)
          · exact absurd habsurd hthis
          · exact hmigrated hlater
        · intro hnone
          rw [huntouched fun hlater => hnone (Or.inr hlater), hkept]

end Simulation

/-! ### The program -/

/-- What the results about whole runs ask for: tables with these rows at the start, in data files of either
kind; schemas with an `id` column and at most 4096 columns; tables that the parser can name, values of at
most 16 MiB and enough ids for the INSERTs. -/
structure Supported (dbRoot : CString) (files : FileSystem) (rows : QualifiedName → List StringList)
    (events : List Event) : Prop where
  valid : ∀ name table, ParsedName name → loadTableDefinition dbRoot files name = .ok table →
    ValidTable table.columns (rows name)
  data : ∀ name table, ParsedName name → loadTableDefinition dbRoot files name = .ok table →
    (files table.dataPath).getD [] = stream encodeRow (rows name) ∨
      IsTextOf ((files table.dataPath).getD []) (rows name)
  schemas : UsableSchemas dbRoot files
  admitted : ∀ event ∈ events, event.Admitted
  room : Room dbRoot files rows (insertCount events)

section Program

variable {dbRoot : CString} {files : FileSystem} {rows : QualifiedName → List StringList}
  {events : List Event}

theorem Holds.start (h : Supported dbRoot files rows events) :
    Holds dbRoot files rows (State.fresh files) where
  usable := UsableCaches.fresh files
  schemas := fun _ => rfl
  valid := h.valid
  data := fun name table hname hload =>
    (h.data name table hname hload).imp_right fun htext => ⟨rfl, htext⟩
  active := fun name table _ _ hactive => by
    rw [alreadyActive, State.fresh, Globals.initial] at hactive
    cases hactive

theorem Supported.run (uninit : ℕ → UInt32) (h : Supported dbRoot files rows events) :
    transcript uninit dbRoot events (State.fresh files) =
        (database (schemaOf dbRoot files)).transcript (statementsOf events) rows ∧
      Holds dbRoot files ((database (schemaOf dbRoot files)).run (statementsOf events) rows)
        (runEvents uninit dbRoot events (State.fresh files)) :=
  (Holds.start h).run uninit h.schemas events h.admitted h.room

theorem Supported.run_file (uninit : ℕ → UInt32) (h : Supported dbRoot files rows events)
    {name : QualifiedName} {table : TableDefinition} (hname : ParsedName name)
    (hload : loadTableDefinition dbRoot files name = .ok table) :
    (Activates dbRoot files name (statementsOf events) →
      ((runEvents uninit dbRoot events (State.fresh files)).files table.dataPath).getD [] =
        stream encodeRow ((database (schemaOf dbRoot files)).run (statementsOf events) rows name)) ∧
      (¬Activates dbRoot files name (statementsOf events) →
        (runEvents uninit dbRoot events (State.fresh files)).files table.dataPath =
          files table.dataPath) :=
  (Holds.start h).run_file uninit h.schemas events h.admitted h.room hname hload

/-- Fewer events are supported too. -/
theorem Supported.fewer {events' : List Event} (h : Supported dbRoot files rows events)
    (hadmitted : ∀ event ∈ events', event.Admitted)
    (hcount : insertCount events' ≤ insertCount events) :
    Supported dbRoot files rows events' where
  valid := h.valid
  data := h.data
  schemas := h.schemas
  admitted := hadmitted
  room := h.room.mono hcount

theorem Supported.of_append_left {later : List Event}
    (h : Supported dbRoot files rows (events ++ later)) : Supported dbRoot files rows events := by
  refine h.fewer (fun event he => h.admitted event (List.mem_append_left later he)) ?_
  rw [insertCount, insertCount, List.countP_append]
  exact Nat.le_add_right _ _

end Program

/-- **The program is a database.**  On tables with any rows, in binary files or in text files of the older
version, any statements with restarts among them, within the limits of `Supported`: the outcomes of the
statements, errors included, are the answers of the database to the statements alone, and at the end every
data file encodes the rows of its table, unless it is still the text it was at the start. -/
theorem program_is_database (uninit : ℕ → UInt32) (dbRoot : CString) (files : FileSystem)
    (rows : QualifiedName → List StringList) (events : List Event)
    (h : Supported dbRoot files rows events) :
    transcript uninit dbRoot events (State.fresh files) =
        (database (schemaOf dbRoot files)).transcript (statementsOf events) rows ∧
      ∀ name table, ParsedName name → loadTableDefinition dbRoot files name = .ok table →
        ((runEvents uninit dbRoot events (State.fresh files)).files table.dataPath).getD [] =
            stream encodeRow
              ((database (schemaOf dbRoot files)).run (statementsOf events) rows name) ∨
          ((runEvents uninit dbRoot events (State.fresh files)).files table.dataPath).getD [] =
              (files table.dataPath).getD [] ∧
            IsTextOf ((files table.dataPath).getD [])
              ((database (schemaOf dbRoot files)).run (statementsOf events) rows name) := by
  obtain ⟨htranscript, hholds⟩ := h.run uninit
  exact ⟨htranscript, hholds.data⟩

/-! ### A table of students -/

theorem studentFiles_columns {dbRoot : CString} {data : Bytes} {name : QualifiedName}
    {table : TableDefinition} (h : loadTableDefinition dbRoot (studentFiles data) name = .ok table) :
    table.columns = studentTable.columns := by
  obtain ⟨base, content, -, hcontent, rfl, -⟩ := loadTableDefinition_ok h
  dsimp only at hcontent ⊢
  rw [studentFiles] at hcontent
  split at hcontent
  · rw [← Option.some.inj hcontent]
    decide +kernel
  · split at hcontent
    · rename_i hdata
      exact absurd hdata (append_ne_of_suffix 2 (t := lit ".data") (by decide) (by decide) (by decide)
        base (lit "db/t"))
    · cases hcontent

theorem studentFiles_data {dbRoot : CString} {data : Bytes} {name : QualifiedName}
    {table : TableDefinition} (h : loadTableDefinition dbRoot (studentFiles data) name = .ok table) :
    studentFiles data table.dataPath = some data := by
  obtain ⟨base, content, -, hcontent, rfl, -⟩ := loadTableDefinition_ok h
  dsimp only at hcontent ⊢
  rw [studentFiles] at hcontent
  split at hcontent
  · rename_i hpath
    have hbase : base = lit "db/t" := by
      have hbytes := congrArg CString.bytes hpath
      rw [CString.append_bytes, show (lit "db/t.schema").bytes =
        (lit "db/t").bytes ++ (lit ".schema").bytes by decide] at hbytes
      exact CString.ext (List.append_cancel_right hbytes)
    rw [hbase]
    rfl
  · split at hcontent
    · rename_i hdata
      exact absurd hdata (append_ne_of_suffix 2 (t := lit ".data") (by decide) (by decide) (by decide)
        base (lit "db/t"))
    · cases hcontent

/-- A text file of the older version, and its rows. -/
def oldStudents : Bytes := (lit "3|5\n1|6\n").bytes

def oldStudentRows : List StringList := [[lit "3", lit "5"], [lit "1", lit "6"]]

theorem oldStudents_text : IsTextOf oldStudents oldStudentRows :=
  ⟨fun uninit => (fileLooksBinary_text uninit (by decide) (by decide)).mpr (by decide),
    by decide +kernel⟩

theorem oldStudentRows_valid : ValidTable studentTable.columns oldStudentRows where
  readable := List.forall_mem_cons.mpr ⟨⟨by decide, by decide, by decide⟩,
    List.forall_mem_singleton.mpr ⟨by decide, by decide, by decide⟩⟩
  width := by decide
  ids := List.forall_mem_cons.mpr ⟨⟨3, by decide +kernel⟩,
    List.forall_mem_singleton.mpr ⟨1, by decide +kernel⟩⟩
  ids_distinct := by decide +kernel
  student_nos := fun _ => List.forall_mem_cons.mpr ⟨⟨lit "5", by decide +kernel, by decide⟩,
    List.forall_mem_singleton.mpr ⟨lit "6", by decide +kernel, by decide⟩⟩
  student_nos_distinct := fun _ => by decide +kernel

/-- Any admitted events on the files of `studentTable`. -/
theorem supported_students {events : List Event} (hadmitted : ∀ event ∈ events, event.Admitted)
    (hcount : 3 + insertCount events < 2 ^ 64) :
    Supported (lit "db") (studentFiles oldStudents) (fun _ => oldStudentRows) events where
  valid := by
    intro name table _ hload
    rw [studentFiles_columns hload]
    exact oldStudentRows_valid
  data := by
    intro name table _ hload
    rw [studentFiles_data hload]
    exact Or.inr oldStudents_text
  schemas := by
    intro name table _ hload
    rw [studentFiles_columns hload]
    exact ⟨by decide +kernel, by decide⟩
  admitted := hadmitted
  room := by
    intro name table _ hload
    rw [studentFiles_columns hload]
    exact hcount

theorem parsedName_student : ParsedName studentTable.name :=
  ⟨by simp [studentTable], ⟨116, by decide +kernel, by decide⟩, by decide +kernel⟩

theorem insertStudent_admitted {v : CString} (h : v.length ≤ maxBinaryFieldBytes) :
    (Event.statement (insertStudent v)).Admitted :=
  ⟨parsedName_student, List.forall_mem_singleton.mpr h⟩

/-- The same `student_no` before and after a restart, and another one. -/
def studentEvents : List Event :=
  [.statement (insertStudent (lit "7")), .restart, .statement (insertStudent (lit "7")),
    .statement (.select (selectAll studentTable)), .statement (insertStudent (lit "8"))]

theorem studentEvents_admitted : ∀ event ∈ studentEvents, event.Admitted := by
  intro event he
  simp only [studentEvents, List.mem_cons, List.not_mem_nil, or_false] at he
  rcases he with rfl | rfl | rfl | rfl | rfl
  · exact insertStudent_admitted (by decide)
  · trivial
  · exact insertStudent_admitted (by decide)
  · exact parsedName_student
  · exact insertStudent_admitted (by decide)

theorem program_is_database_students :
    ((transcript (fun _ => 0) (lit "db") studentEvents (State.fresh (studentFiles oldStudents))).map
        fun e => e.2.row) =
      [some [lit "4", lit "7"], none, none, some [lit "5", lit "8"]] := by
  rw [(program_is_database (fun _ => 0) (lit "db") (studentFiles oldStudents)
    (fun _ => oldStudentRows) studentEvents
    (supported_students studentEvents_admitted (by decide))).1]
  decide +kernel

end MiniSql
