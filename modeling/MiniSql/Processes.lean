import MiniSql.DatabaseRuns
import MiniSql.MainProgram
import MiniSql.ScriptStatements

/-!
# Processes on one database root

* `databaseText` runs a source text on the tables of the database: the statements up to the first that fails
  get their answers, and the rows they add stay.
* `Invocation` is what a process gets: its arguments, its standard input and its environment.
* `runProcess` is a process of the program on the files, `databaseProcess` one on the tables of the database,
  and `runProcesses` any number of them one after the other.
* `Serves` connects the files with the tables between two processes; `Operated` is what the results ask for.

Main results:

* `Serves.statement`, `Serves.statements`: a statement, and the loop of `execute_source_text`, which ends at
  the first statement that fails.
* `simulates_database`: so the program runs every source text as the database does, and by
  `Simulates.mainWith` a process is one of the database.
* `processes_are_database`: whole processes, one after the other, write what they would write on the database.
-/

namespace MiniSql

open Framing KeyedLogs

/-! ### Source texts on the database -/

/-- The statement fails, or it is a fault. -/
def Outcome.fails (outcome : Outcome) : Bool := outcome.error?.isSome

/-- The error of the last statement. -/
def lastError (answers : List (Statement × Outcome)) : Option RunError :=
  answers.getLast?.bind fun e => e.2.error?

/-- A source text on the tables of the database. -/
def databaseText (times : ℕ → Bytes) (schema : QualifiedName → Except StorageError StringList) :
    TextRunner (QualifiedName → List StringList) := fun _ source rows =>
  match parseSqlScript source with
  | (some e, _) => textEffect times [] (some (.parse e)) rows
  | (none, statements) =>
      let done := (database schema).upTo Outcome.fails statements rows
      let answers := (database schema).transcript done rows
      textEffect times answers (lastError answers) ((database schema).run done rows)

theorem lastError_cons {e : Statement × Outcome} (h : e.2.error? = none)
    (answers : List (Statement × Outcome)) : lastError (e :: answers) = lastError answers := by
  rw [lastError, lastError, List.getLast?_cons]
  cases answers.getLast? with
  | none => exact h
  | some last => rfl

/-! ### Answers can be printed -/

theorem printCells_some {widths : List ℕ} {cells : StringList} (h : widths.length ≤ cells.length) :
    ∃ text, printCells widths cells = some text := by
  induction widths generalizing cells with
  | nil => exact ⟨[], rfl⟩
  | cons width widths ih =>
    cases cells with
    | nil => cases h
    | cons cell cells =>
      obtain ⟨text, htext⟩ := ih (Nat.le_of_succ_le_succ h)
      exact ⟨_, by rw [printCells, htext, Option.map_some]⟩

theorem printLine_some {widths : List ℕ} {cells : StringList} (h : widths.length ≤ cells.length) :
    ∃ text, printLine widths cells = some text := by
  obtain ⟨text, htext⟩ := printCells_some h
  exact ⟨_, by rw [printLine, htext, Option.map_some]⟩

theorem printLines_some {widths : List ℕ} {rows : List StringList}
    (h : ∀ row ∈ rows, widths.length ≤ row.length) : ∃ text, printLines widths rows = some text := by
  induction rows with
  | nil => exact ⟨[], rfl⟩
  | cons row rows ih =>
    obtain ⟨hrow, hrest⟩ := List.forall_mem_cons.mp h
    obtain ⟨text, htext⟩ := printLine_some hrow
    obtain ⟨more, hmore⟩ := ih hrest
    exact ⟨text ++ more, by rw [printLines, htext, hmore]; rfl⟩

/-- A result whose rows have a cell for every column is printed. -/
theorem printQueryResult_some {result : QueryResult}
    (h : ∀ row ∈ result.rows, row.length = result.columns.length) :
    ∃ text, printQueryResult true result = some text := by
  obtain ⟨wide, hwide, hwidened⟩ :=
    @widenAll_some result.rows (result.columns.map CString.length) (by simpa using h)
  have hlength : wide.length = result.columns.length := by
    have hself : TextTables.Fits (result.columns.map CString.length)
        (result.columns.map CString.bytes) := by
      rw [TextTables.Fits, List.forall₂_map_left_iff, List.forall₂_map_right_iff, List.forall₂_same]
      exact fun c _ => le_refl c.length
    rw [(hwidened.fits _ hself).length_eq, List.length_map]
  obtain ⟨header, hheader⟩ := printLine_some (le_of_eq hlength)
  obtain ⟨body, hbody⟩ := printLines_some fun row hrow => le_of_eq (hlength.trans (h row hrow).symm)
  exact ⟨_, by rw [printQueryResult, if_neg (by simp), hwide]; dsimp only; rw [hheader, hbody]⟩

/-- The database answers with results that can be printed. -/
theorem printOutcome_answer (time : Bytes) (schema : QualifiedName → Except StorageError StringList)
    (statement : Statement) (rows : List StringList) :
    ∃ text, printOutcome time (answer schema statement rows) = some text := by
  cases statement with
  | insert statement =>
    rw [answer]
    cases insertAnswer (schema statement.target) statement rows with
    | error e => exact ⟨[], rfl⟩
    | ok result => exact ⟨_, rfl⟩
  | select statement =>
    rw [answer]
    unfold selectAnswer
    split
    · exact ⟨[], rfl⟩
    · split
      · exact ⟨[], rfl⟩
      · split
        · exact ⟨[], rfl⟩
        · rename_i columns _ _ _ _
          dsimp only
          obtain ⟨text, htext⟩ := @printQueryResult_some
            ⟨(selectedPositions columns statement).map fun i => columns.getD i CString.empty,
              (answerRows columns statement rows).map (project (selectedPositions columns statement))⟩
            (by simp [project])
          exact ⟨_, by rw [printOutcome, printExecutionResult, htext, Option.map_some]⟩

theorem printOutcomes_transcript (times : ℕ → Bytes)
    (schema : QualifiedName → Except StorageError StringList) (statements : List Statement)
    (rows : QualifiedName → List StringList) :
    ∃ text, printOutcomes times ((database schema).transcript statements rows) = some text := by
  induction statements generalizing times rows with
  | nil => exact ⟨[], rfl⟩
  | cons statement statements ih =>
    obtain ⟨text, htext⟩ := printOutcome_answer (times 0) schema statement (rows statement.name)
    obtain ⟨more, hmore⟩ := ih (fun n => times (n + 1)) ((database schema).step statement rows)
    refine ⟨text ++ more, ?_⟩
    show (printOutcome (times 0) (answer schema statement (rows statement.name))).bind _ = _
    rw [htext, Option.bind_some, hmore, Option.map_some]

/-! ### Source texts of the program -/

/-- No table of the database has its data here. -/
def Untouched (dbRoot : CString) (files : FileSystem) (path : CString) : Prop :=
  ∀ name table, ParsedName name → loadTableDefinition dbRoot files name = .ok table →
    ¬TouchedBy table.dataPath path

/-- The state holds the tables, with ids for `n` more rows; the other files are as they were. -/
structure Serves (dbRoot : CString) (files : FileSystem) (n : ℕ) (s : State)
    (rows : QualifiedName → List StringList) : Prop where
  holds : Holds dbRoot files rows s
  room : Room dbRoot files rows n
  others : ∀ path, Untouched dbRoot files path → s.files path = files path

section Texts

variable {dbRoot : CString} {files : FileSystem} {rows : QualifiedName → List StringList} {s : State}

/-- One statement of a text. -/
theorem Serves.statement (uninit : ℕ → UInt32) (hschemas : UsableSchemas dbRoot files) {n : ℕ}
    (h : Serves dbRoot files (n + 1) s rows) {statement : Statement}
    (hadmitted : (Event.statement statement).Admitted) :
    (executeStatement uninit dbRoot statement s).1 =
        answer (schemaOf dbRoot files) statement (rows statement.name) ∧
      Serves dbRoot files n (executeStatement uninit dbRoot statement s).2
        ((database (schemaOf dbRoot files)).step statement rows) := by
  have hone : insertCount [.statement statement] ≤ 1 := List.countP_le_length
  have hroom : Room dbRoot files rows (n + insertCount [.statement statement]) :=
    h.room.mono (Nat.add_le_add_left hone n)
  have hcount := fun table hload =>
    hroom.mono (Nat.le_add_left _ _) statement.name table (admitted_name hadmitted) hload
  obtain ⟨hanswer, hnext⟩ := h.holds.statement uninit hschemas hadmitted hcount
  refine ⟨hanswer, hnext, hroom.step hschemas, fun path hpath => ?_⟩
  rw [← h.others path hpath]
  cases htable : activatedTable dbRoot s.files statement with
  | none => rw [(executeStatement_unactivated uninit htable).2]
  | some table =>
    obtain ⟨-, -, hframe⟩ := h.holds.served uninit hschemas hadmitted hcount htable
    have hload := (loadTableDefinition_schemas dbRoot h.holds.schemas statement.name).symm.trans
      (activatedTable_load htable)
    exact hframe path (hpath statement.name table (admitted_name hadmitted) hload)

/-- The loop of `execute_source_text` ends at the first statement that fails. -/
theorem Serves.statements (uninit : ℕ → UInt32) (hschemas : UsableSchemas dbRoot files) {n : ℕ}
    {statements : List Statement} (h : Serves dbRoot files (n + statements.length) s rows)
    (hadmitted : ∀ statement ∈ statements, (Event.statement statement).Admitted) :
    (executeStatements uninit dbRoot statements s).executed =
        (database (schemaOf dbRoot files)).transcript
          ((database (schemaOf dbRoot files)).upTo Outcome.fails statements rows) rows ∧
      (executeStatements uninit dbRoot statements s).error =
        lastError (executeStatements uninit dbRoot statements s).executed ∧
      Serves dbRoot files n (executeStatements uninit dbRoot statements s).state
        ((database (schemaOf dbRoot files)).run
          ((database (schemaOf dbRoot files)).upTo Outcome.fails statements rows) rows) := by
  induction statements generalizing s rows with
  | nil => exact ⟨rfl, rfl, h⟩
  | cons statement statements ih =>
    obtain ⟨hfirst, hrest⟩ := List.forall_mem_cons.mp hadmitted
    obtain ⟨hanswer, hnext⟩ := h.statement uninit hschemas hfirst
    have hkeys : (database (schemaOf dbRoot files)).answer statement
        (rows ((database (schemaOf dbRoot files)).key statement)) =
          (executeStatement uninit dbRoot statement s).1 := hanswer.symm
    rw [executeStatements, Service.upTo, hkeys, Outcome.fails]
    cases herror : (executeStatement uninit dbRoot statement s).1.error? with
    | some e =>
      rw [Option.isSome_some, if_pos rfl]
      dsimp only
      refine ⟨?_, ?_, ⟨hnext.holds, hnext.room.mono (Nat.le_add_right _ _), hnext.others⟩⟩
      · rw [Service.transcript, hkeys]
        rfl
      · rw [lastError, List.getLast?_singleton, Option.bind_some, herror]
    | none =>
      obtain ⟨hexecuted, hlast, hserves⟩ := ih hnext hrest
      rw [Option.isSome_none, if_neg (by decide)]
      dsimp only
      refine ⟨?_, ?_, hserves⟩
      · rw [Service.transcript, hkeys, hexecuted]
      · rw [lastError_cons herror, hlast]

/-- **Source texts.**  The program runs source texts as the database does. -/
theorem simulates_database (times : ℕ → Bytes) (uninit : ℕ → UInt32)
    (hschemas : UsableSchemas dbRoot files) :
    Simulates (executeSource times uninit) (databaseText times (schemaOf dbRoot files)) dbRoot
      maxBinaryFieldBytes (Serves dbRoot files) where
  mono := fun hle h => ⟨h.holds, h.room.mono hle, h.others⟩
  text := by
    intro source n s rows hsource h
    obtain ⟨hadmitted, hlength⟩ := parseSqlScript_bounds hsource
    rw [executeSource, databaseText]
    unfold executeSourceText
    generalize parseSqlScript source = parsed at hadmitted hlength ⊢
    obtain ⟨_ | e, statements⟩ := parsed
    · have hserves : Serves dbRoot files (n + statements.length) s rows :=
        ⟨h.holds, h.room.mono (Nat.add_le_add_left hlength n), h.others⟩
      obtain ⟨hexecuted, herror, hnext⟩ := hserves.statements uninit hschemas hadmitted
      obtain ⟨text, htext⟩ := printOutcomes_transcript times (schemaOf dbRoot files)
        ((database (schemaOf dbRoot files)).upTo Outcome.fails statements rows) rows
      dsimp only
      rw [textEffect, textEffect, herror, hexecuted, htext]
      exact .mk hnext
    · exact .mk ⟨h.holds, h.room.mono (Nat.le_add_right _ _), h.others⟩

/-- A process that ends leaves the tables to the next one. -/
theorem Serves.restart {n : ℕ} (h : Serves dbRoot files n s rows) :
    Serves dbRoot files n (State.fresh s.files) rows := ⟨h.holds.restart, h.room, h.others⟩

end Texts

/-! ### Processes -/

/-- What a process gets: its arguments, with the name of the program, its standard input, which is no
terminal, and its environment. -/
structure Invocation where
  argv : List CString
  stdin : Bytes
  env : Environment := .plain

/-- The text that a process reads. -/
def Invocation.input (p : Invocation) (files : FileSystem) : Bytes := inputOf files p.argv p.stdin

/-- A process of the program on the files. -/
def runProcess (uninit : ℕ → UInt32) (p : Invocation) (files : FileSystem) :
    Option (ProcessRun FileSystem) :=
  (mainWith (fun n => executeSource (p.env.times n) uninit) files p.env.readFault p.argv p.stdin
    (State.fresh files)).map fun run => ⟨run.output, run.state.files⟩

/-- A process on the tables of the database, which reads its SQL file from `files`. -/
def databaseProcess (schema : QualifiedName → Except StorageError StringList) (files : FileSystem)
    (p : Invocation) (rows : QualifiedName → List StringList) :
    Option (ProcessRun (QualifiedName → List StringList)) :=
  mainWith (fun n => databaseText (p.env.times n) schema) files p.env.readFault p.argv p.stdin rows

/-- Processes one after the other. -/
def runProcesses {σ : Type*} (process : Invocation → σ → Option (ProcessRun σ)) :
    List Invocation → σ → Option (List Output × σ)
  | [], s => some ([], s)
  | p :: processes, s =>
      (process p s).bind fun run =>
        (runProcesses process processes run.state).map fun r => (run.output :: r.1, r.2)

/-- The number of bytes that the processes read. -/
def inputBytes (files : FileSystem) (processes : List Invocation) : ℕ :=
  (processes.map fun p => (p.input files).length).sum

@[simp] theorem inputBytes_cons (files : FileSystem) (p : Invocation) (processes : List Invocation) :
    inputBytes files (p :: processes) = (p.input files).length + inputBytes files processes := by
  simp [inputBytes]

/-- A process on the database root with a text of at most 16 MiB, not from a data file of the tables. -/
structure Invocation.Admitted (p : Invocation) (dbRoot : CString) (files : FileSystem) : Prop where
  root : (parseCliOptions p.argv).result = .ok → (parseCliOptions p.argv).options.dbRoot = some dbRoot
  script : ∀ path ∈ (parseCliOptions p.argv).options.sqlFile, Untouched dbRoot files path
  size : (p.input files).length ≤ maxBinaryFieldBytes

/-- What the result about processes asks for: tables and schemas as for runs, and an id for every byte that
the processes read. -/
structure Operated (dbRoot : CString) (files : FileSystem) (rows : QualifiedName → List StringList)
    (processes : List Invocation) : Prop where
  tables : Supported dbRoot files rows []
  admitted : ∀ p ∈ processes, p.Admitted dbRoot files
  room : Room dbRoot files rows (inputBytes files processes)

section Program

variable {dbRoot : CString} {files : FileSystem} {rows : QualifiedName → List StringList}

/-- One process. -/
theorem Serves.process (uninit : ℕ → UInt32) (hschemas : UsableSchemas dbRoot files) {p : Invocation}
    (hp : p.Admitted dbRoot files) {files' : FileSystem} {n : ℕ}
    (h : Serves dbRoot files (n + (p.input files).length) (State.fresh files') rows) :
    SameProcess (fun files' rows => Serves dbRoot files n (State.fresh files') rows)
      (runProcess uninit p files') (databaseProcess (schemaOf dbRoot files) files p rows) := by
  have hfile : ∀ path ∈ (parseCliOptions p.argv).options.sqlFile, files' path = files path :=
    fun path hpath => h.others path (hp.script path hpath)
  have hinput : inputOf files' p.argv p.stdin = p.input files := by
    rw [Invocation.input, inputOf, inputOf]
    cases hsql : (parseCliOptions p.argv).options.sqlFile with
    | none => rfl
    | some path => simp only [hfile path (by rw [hsql]; rfl)]
  have hsame := Simulates.mainWith (fun k => simulates_database (p.env.times k) uninit hschemas)
    p.env.readFault hp.root hfile (hinput ▸ hp.size) (hinput ▸ h)
  rw [runProcess, databaseProcess]
  generalize mainWith (fun n => executeSource (p.env.times n) uninit) files' p.env.readFault p.argv p.stdin
    (State.fresh files') = a at hsame ⊢
  generalize mainWith (fun n => databaseText (p.env.times n) (schemaOf dbRoot files)) files
    p.env.readFault p.argv p.stdin rows = b at hsame ⊢
  cases hsame with
  | mk hstate => exact .mk hstate.restart

/-- Any number of processes. -/
theorem Serves.processes (uninit : ℕ → UInt32) (hschemas : UsableSchemas dbRoot files)
    {processes : List Invocation} (hall : ∀ p ∈ processes, p.Admitted dbRoot files)
    {files' : FileSystem} {n : ℕ}
    (h : Serves dbRoot files (n + inputBytes files processes) (State.fresh files') rows) :
    ∃ outputs files'' rows', runProcesses (runProcess uninit) processes files' = some (outputs, files'') ∧
      runProcesses (databaseProcess (schemaOf dbRoot files) files) processes rows =
        some (outputs, rows') ∧
      Serves dbRoot files n (State.fresh files'') rows' := by
  induction processes generalizing rows files' with
  | nil => exact ⟨[], files', rows, rfl, rfl, h⟩
  | cons p processes ih =>
    obtain ⟨hp, hrest⟩ := List.forall_mem_cons.mp hall
    have hfirst : Serves dbRoot files (n + inputBytes files processes + (p.input files).length)
        (State.fresh files') rows := by
      rw [inputBytes_cons] at h
      exact ⟨h.holds, h.room.mono (by omega), h.others⟩
    have hsame := hfirst.process uninit hschemas hp
    rw [runProcesses, runProcesses]
    generalize runProcess uninit p files' = a at hsame ⊢
    generalize databaseProcess (schemaOf dbRoot files) files p rows = b at hsame ⊢
    cases hsame with
    | @mk output files₁ rows₁ hnext =>
      obtain ⟨outputs, files'', rows', hprogram, hdatabase, hserves⟩ := ih hrest hnext
      refine ⟨output :: outputs, files'', rows', ?_, ?_, hserves⟩
      · rw [Option.bind_some, hprogram, Option.map_some]
      · rw [Option.bind_some, hdatabase, Option.map_some]

theorem Operated.run (uninit : ℕ → UInt32) {processes : List Invocation}
    (h : Operated dbRoot files rows processes) :
    ∃ outputs files' rows', runProcesses (runProcess uninit) processes files = some (outputs, files') ∧
      runProcesses (databaseProcess (schemaOf dbRoot files) files) processes rows =
        some (outputs, rows') ∧
      Serves dbRoot files 0 (State.fresh files') rows' := by
  have hstart : Serves dbRoot files (0 + inputBytes files processes) (State.fresh files) rows :=
    ⟨Holds.start h.tables, h.room.mono (le_of_eq (Nat.zero_add _)), fun _ _ => rfl⟩
  exact hstart.processes uninit h.tables.schemas h.admitted

end Program

/-- **Processes on the database.**  Any processes one after the other, in batch or interactive mode, within the
limits of `Operated`: none of them faults, their exit codes and all they write are those of the processes on
the tables of the database, and at the end every data file encodes the rows of its table, unless it is still
the text it was at the start. -/
theorem processes_are_database (uninit : ℕ → UInt32) (dbRoot : CString) (files : FileSystem)
    (rows : QualifiedName → List StringList) (processes : List Invocation)
    (h : Operated dbRoot files rows processes) :
    ∃ outputs files' rows', runProcesses (runProcess uninit) processes files = some (outputs, files') ∧
      runProcesses (databaseProcess (schemaOf dbRoot files) files) processes rows =
        some (outputs, rows') ∧
      ∀ name table, ParsedName name → loadTableDefinition dbRoot files name = .ok table →
        (files' table.dataPath).getD [] = stream encodeRow (rows' name) ∨
          (files' table.dataPath).getD [] = (files table.dataPath).getD [] ∧
            IsTextOf ((files table.dataPath).getD []) (rows' name) := by
  obtain ⟨outputs, files', rows', hprogram, hdatabase, hserves⟩ := h.run uninit
  exact ⟨outputs, files', rows', hprogram, hdatabase, hserves.holds.data⟩

/-- A script on standard input whose statements are timed, and a session that inserts the same `student_no`
again. -/
def studentProcesses : List Invocation :=
  [{ argv := [lit "mini_sql", lit "db"]
     stdin := (lit "INSERT INTO t (student_no) VALUES ('7'); SELECT * FROM t WHERE id > 3;").bytes
     env := { Environment.plain with benchTiming := some (lit "1"), elapsed := fun _ n => n + 2 } },
    { argv := [lit "mini_sql", lit "-d", lit "db", lit "-i"]
      stdin := (lit "insert into t (student_no)\nvalues (7);\nselect id from t;\nexit\n").bytes }]

theorem operated_students :
    Operated (lit "db") (studentFiles oldStudents) (fun _ => oldStudentRows) studentProcesses where
  tables := supported_students (fun _ he => absurd he List.not_mem_nil) (by decide)
  admitted := by
    have hroot : ∀ p ∈ studentProcesses, (parseCliOptions p.argv).options.dbRoot = some (lit "db") := by
      decide +kernel
    have hnone : ∀ p ∈ studentProcesses, (parseCliOptions p.argv).options.sqlFile = none := by
      decide +kernel
    have hsize : ∀ p ∈ studentProcesses,
        (p.input (studentFiles oldStudents)).length ≤ maxBinaryFieldBytes := by decide +kernel
    refine fun p hp => ⟨fun _ => hroot p hp, fun path hpath => ?_, hsize p hp⟩
    rw [hnone p hp] at hpath
    cases hpath
  room := by
    intro name table _ hload
    rw [studentFiles_columns hload]
    show lastId studentTable.columns oldStudentRows +
      inputBytes (studentFiles oldStudents) studentProcesses < 2 ^ 64
    decide +kernel

theorem processes_are_database_students :
    (runProcesses (runProcess fun _ => 0) studentProcesses (studentFiles oldStudents)).map
        (fun r => r.1.map fun output => (output.exitCode, output.stdout)) =
      some [(0, (lit "INSERT 1\n입력된 row:\n  - id: 4\n  - student_no: 7\n").bytes ++
          (lit "__BENCH_STMT_MS__=2\n").bytes ++
          (lit "+----+------------+\n| id | student_no |\n+----+------------+\n").bytes ++
          (lit "| 4  | 7          |\n+----+------------+\n(1 rows)\n__BENCH_STMT_MS__=3\n").bytes),
        (0, interactiveBanner ++
          (lit "+----+\n| id |\n+----+\n| 3  |\n| 1  |\n| 4  |\n+----+\n(3 rows)\n").bytes)] := by
  obtain ⟨outputs, files', rows', hprogram, hdatabase, -⟩ :=
    processes_are_database (fun _ => 0) (lit "db") (studentFiles oldStudents) (fun _ => oldStudentRows)
      studentProcesses operated_students
  have houtputs := congrArg (Option.map fun r => r.1.map fun output => (output.exitCode, output.stdout))
    hdatabase
  rw [hprogram]
  apply houtputs.symm.trans
  decide +kernel

end MiniSql
