import MiniSql.Processes

/-!
# Scripts in one process or in two

Two scripts one after the other, each in a process of its own, and both scripts with a `;` between them in one
process: the same is printed, and no later process sees a difference, although the caches of the first process
are gone in the second.

* `scriptProcess` is a process that runs a text on its standard input, and `runAndList` are processes one
  after the other up to the first that does not exit with 0.
* `joinScripts` are the texts with a semicolon on a line of its own between them, and `mergeOutputs` what
  several processes write together.

Main results:

* `scriptRun_append`: on the tables of the database the second script runs behind the first one, unless the
  first one fails.
* `parseSqlScript_joined`: the joined text has the statements of all scripts.  A byte order mark may begin the
  first one only.
* `joined_scripts`: the processes and the one process on the files.
-/

namespace MiniSql

open KeyedLogs

/-! ### Answers one behind the other -/

theorem printOutcomes_append {times : ℕ → Bytes} {answers answers' : List (Statement × Outcome)}
    {text text' : Bytes} (h : printOutcomes times answers = some text)
    (h' : printOutcomes (fun n => times (n + answers.length)) answers' = some text') :
    printOutcomes times (answers ++ answers') = some (text ++ text') := by
  induction answers generalizing times text with
  | nil =>
    obtain rfl := Option.some.inj h
    exact h'
  | cons e answers ih =>
    rw [printOutcomes] at h
    obtain ⟨first, hfirst, h⟩ := Option.bind_eq_some_iff.mp h
    obtain ⟨rest, hrest, rfl⟩ := Option.map_eq_some_iff.mp h
    rw [List.cons_append, printOutcomes, hfirst, Option.bind_some, ih hrest h', Option.map_some,
      List.append_assoc]

theorem lastError_append {answers : List (Statement × Outcome)}
    (h : ∀ e ∈ answers, e.2.error? = none) (answers' : List (Statement × Outcome)) :
    lastError (answers ++ answers') = lastError answers' := by
  induction answers with
  | nil => rfl
  | cons e answers ih =>
    obtain ⟨hfirst, hrest⟩ := List.forall_mem_cons.mp h
    rw [List.cons_append, lastError_cons hfirst, ih hrest]

/-- What can be printed is no fault, so its error has a text. -/
theorem message_of_printed {times : ℕ → Bytes} {answers : List (Statement × Outcome)} {text : Bytes}
    (h : printOutcomes times answers = some text) {e : Statement × Outcome} (he : e ∈ answers)
    {error : RunError} (herror : e.2.error? = some error) : error.message ≠ none := by
  induction answers generalizing times text with
  | nil => cases he
  | cons first answers ih =>
    rw [printOutcomes] at h
    obtain ⟨front, hfront, h⟩ := Option.bind_eq_some_iff.mp h
    obtain ⟨rest, hrest, rfl⟩ := Option.map_eq_some_iff.mp h
    rcases List.mem_cons.mp he with rfl | he
    · obtain ⟨statement, outcome⟩ := e
      cases outcome with
      | inserted result =>
        cases result with
        | ok result => cases herror
        | error e' =>
          obtain rfl := Option.some.inj herror
          simp [RunError.message]
      | selected result =>
        cases result with
        | ok result => cases herror
        | error e' =>
          obtain rfl := Option.some.inj herror
          simp [RunError.message]
        | fault => cases hfront
    · exact ih hrest he

/-! ### Scripts on standard input -/

/-- The output of a process that runs a script. -/
def scriptOutput (text : Bytes) (error : Option RunError) : Output :=
  match error.bind RunError.message with
  | none => ⟨0, text, []⟩
  | some message => ⟨1, text, printErrorKo (lit "실행 오류") (errorBuffer message) false⟩

/-- A script on the tables of the database.  No times are printed. -/
def scriptRun (schema : QualifiedName → Except StorageError StringList) (statements : List Statement)
    (rows : QualifiedName → List StringList) : ProcessRun (QualifiedName → List StringList) :=
  let done := (database schema).upTo Outcome.fails statements rows
  let answers := (database schema).transcript done rows
  ⟨scriptOutput ((printOutcomes noTimes answers).getD []) (lastError answers),
    (database schema).run done rows⟩

/-- The arguments name a database root and nothing else. -/
def RootArguments (dbRoot : CString) (argv : List CString) : Prop :=
  (parseCliOptions argv).result = .ok ∧ (parseCliOptions argv).options = ⟨some dbRoot, none, false⟩

/-- A process that runs a text on its standard input, without `MINI_SQL_BENCH_TIMING`. -/
def scriptProcess (argv : List CString) (source : CString) : Invocation where
  argv := argv
  stdin := source.bytes

section Scripts

variable {dbRoot : CString} {argv : List CString}
  (schema : QualifiedName → Except StorageError StringList) (files : FileSystem)

theorem databaseProcess_script (hargs : RootArguments dbRoot argv) {source : CString}
    {statements : List Statement} (hsource : parseSqlScript source = (none, statements))
    (hne : source.bytes ≠ []) (rows : QualifiedName → List StringList) :
    databaseProcess schema files (scriptProcess argv source) rows =
      some (scriptRun schema statements rows) := by
  obtain ⟨hresult, hoptions⟩ := hargs
  obtain ⟨text, htext⟩ := printOutcomes_transcript noTimes schema
    ((database schema).upTo Outcome.fails statements rows) rows
  rw [databaseProcess, scriptProcess, mainWith, hresult, hoptions]
  dsimp only
  rw [if_neg (by decide), readStreamText, if_neg (by rwa [List.length_eq_zero_iff]),
    CString.ofBuffer_of_bytes, runSource, databaseText, hsource]
  dsimp only
  rw [textEffect, Environment.plain_times, htext, Option.map_some, Option.map_some, scriptRun,
    scriptOutput, htext]
  dsimp only
  cases (lastError _).bind RunError.message <;> rfl

/-- **Two scripts.**  The second one runs behind the first one, unless the first one fails. -/
theorem scriptRun_append (statements later : List Statement) (rows : QualifiedName → List StringList) :
    scriptRun schema (statements ++ later) rows =
      if (scriptRun schema statements rows).output.exitCode = 0 then
        (scriptRun schema later (scriptRun schema statements rows).state).behind
          (scriptRun schema statements rows).output.stdout (scriptRun schema statements rows).output.stderr
      else scriptRun schema statements rows := by
  obtain ⟨text, htext⟩ := printOutcomes_transcript noTimes schema
    ((database schema).upTo Outcome.fails statements rows) rows
  rcases Service.upTo_cases Outcome.fails statements rows with
    ⟨hnone, happend⟩ | ⟨⟨e, he, hfails⟩, happend⟩
  · -- no statement of the first script fails
    have hself : (database schema).upTo Outcome.fails statements rows = statements := by
      have hnil := happend []
      rwa [List.append_nil, Service.upTo, List.append_nil] at hnil
    have hsilent : ∀ e ∈ (database schema).transcript statements rows, e.2.error? = none := by
      intro e he
      have hok := hnone e he
      rwa [Outcome.fails, Option.isSome_eq_false_iff, Option.isNone_iff_eq_none] at hok
    have hlast : lastError ((database schema).transcript statements rows) = none := by
      have hall := lastError_append hsilent []
      rwa [List.append_nil] at hall
    rw [hself] at htext
    have hfirst : scriptRun schema statements rows =
        ⟨⟨0, text, []⟩, (database schema).run statements rows⟩ := by
      rw [scriptRun, hself, htext, hlast]
      rfl
    obtain ⟨more, hmore⟩ := printOutcomes_transcript noTimes schema
      ((database schema).upTo Outcome.fails later ((database schema).run statements rows))
      ((database schema).run statements rows)
    rw [hfirst, if_pos rfl, scriptRun, scriptRun]
    dsimp only
    rw [happend, Service.transcript_append, Service.run_append, printOutcomes_append htext hmore,
      lastError_append hsilent, hmore, scriptOutput, scriptOutput]
    cases (lastError _).bind RunError.message <;> rfl
  · -- the first script ends with a failure
    obtain ⟨error, herror⟩ := Option.isSome_iff_exists.mp hfails
    have hlast : lastError ((database schema).transcript
        ((database schema).upTo Outcome.fails statements rows) rows) = some error := by
      rw [lastError, Option.mem_def.mp he, Option.bind_some, herror]
    obtain ⟨message, hmessage⟩ := Option.ne_none_iff_exists'.mp
      (message_of_printed htext (List.mem_of_getLast? he) herror)
    have hcode : (scriptRun schema statements rows).output.exitCode = 1 := by
      rw [scriptRun]
      show (scriptOutput _ (lastError _)).exitCode = 1
      rw [hlast, scriptOutput, Option.bind_some, hmessage]
    rw [hcode, if_neg (by decide), scriptRun, scriptRun, happend]

end Scripts

/-! ### Scripts joined -/

/-- The texts with a semicolon on a line of its own between them. -/
def joinScripts : List CString → CString
  | [] => CString.empty
  | [source] => source
  | source :: source' :: sources => source ++ lit "\n;\n" ++ joinScripts (source' :: sources)

theorem joinScripts_cons_bytes (source source' : CString) (sources : List CString) :
    (joinScripts (source :: source' :: sources)).bytes =
      source.bytes ++ 10 :: ([59, 10] ++ (joinScripts (source' :: sources)).bytes) := by
  rw [joinScripts, CString.append_bytes, CString.append_bytes, List.append_assoc]
  rfl

theorem joined_scriptText {source : CString} {sources : List CString}
    (h : ∀ a ∈ source :: sources, ScriptText a.bytes (parseSqlScript a).2) :
    ScriptText (joinScripts (source :: sources)).bytes (textStatements (source :: sources)) := by
  induction sources generalizing source with
  | nil =>
    rw [textStatements, List.flatMap_singleton]
    exact h source List.mem_cons_self
  | cons source' sources ih =>
    obtain ⟨hfirst, hrest⟩ := List.forall_mem_cons.mp h
    rw [joinScripts_cons_bytes, textStatements, List.flatMap_cons]
    have hback : ScriptText ([10, 59, 10] ++ (joinScripts (source' :: sources)).bytes)
        ([] ++ textStatements (source' :: sources)) := semicolon_scriptText.append (ih hrest) (Or.inr rfl)
    exact hfirst.append hback (Or.inl rfl)

/-- Joined scripts are the script of all statements.  A byte order mark may begin the first one only. -/
theorem parseSqlScript_joined {source : CString} {sources : List CString}
    (haccepted : ∀ a ∈ source :: sources, (parseSqlScript a).1 = none)
    (hmarks : ∀ a ∈ sources, ¬HasMark a.bytes) :
    parseSqlScript (joinScripts (source :: sources)) = (none, textStatements (source :: sources)) := by
  obtain ⟨hfirst, hrest⟩ := List.forall_mem_cons.mp haccepted
  have hsources : ∀ a ∈ sources, ScriptText a.bytes (parseSqlScript a).2 := by
    intro a ha
    have htext := parseSqlScript_iff.mp (parseSqlScript_accepted (hrest a ha))
    rwa [skipByteOrderMark_no_mark (hmarks a ha)] at htext
  cases sources with
  | nil =>
    rw [textStatements, List.flatMap_singleton]
    exact parseSqlScript_accepted hfirst
  | cons source' sources =>
    rw [parseSqlScript_iff, joinScripts_cons_bytes, skipByteOrderMark_newline, textStatements,
      List.flatMap_cons]
    have htext := parseSqlScript_iff.mp (parseSqlScript_accepted hfirst)
    have hback : ScriptText ([10, 59, 10] ++ (joinScripts (source' :: sources)).bytes)
        ([] ++ textStatements (source' :: sources)) :=
      semicolon_scriptText.append (joined_scriptText hsources) (Or.inr rfl)
    exact htext.append hback (Or.inl rfl)

theorem joinScripts_length (sources : List CString) :
    (sources.map CString.length).sum ≤ (joinScripts sources).length := by
  induction sources with
  | nil => exact le_refl _
  | cons source sources ih =>
    cases sources with
    | nil => simp [joinScripts]
    | cons source' sources =>
      have hbytes := congrArg List.length (joinScripts_cons_bytes source source' sources)
      rw [List.length_append, List.length_cons, List.length_append] at hbytes
      rw [List.map_cons, List.sum_cons]
      simp only [CString.length] at ih ⊢
      omega

/-! ### Processes joined by `&&` -/

/-- Processes one after the other, up to the first with an exit code that is not 0. -/
def runAndList {σ : Type*} (process : Invocation → σ → Option (ProcessRun σ)) :
    List Invocation → σ → Option (List Output × σ)
  | [], s => some ([], s)
  | p :: processes, s =>
      (process p s).bind fun run =>
        if run.output.exitCode = 0 then
          (runAndList process processes run.state).map fun r => (run.output :: r.1, r.2)
        else some ([run.output], run.state)

/-- What several processes write together, with the exit code of the last one. -/
def mergeOutputs (outputs : List Output) : Output where
  exitCode := (outputs.getLast?.map Output.exitCode).getD 0
  stdout := outputs.flatMap Output.stdout
  stderr := outputs.flatMap Output.stderr

theorem mergeOutputs_cons (output : Output) {outputs : List Output} (h : outputs ≠ []) :
    mergeOutputs (output :: outputs) = ⟨(mergeOutputs outputs).exitCode,
      output.stdout ++ (mergeOutputs outputs).stdout, output.stderr ++ (mergeOutputs outputs).stderr⟩ := by
  obtain ⟨last, hlast⟩ := List.getLast?_isSome.mpr h |> Option.isSome_iff_exists.mp
  simp [mergeOutputs, List.getLast?_cons, hlast]

section Joined

variable {dbRoot : CString} {files : FileSystem} {rows : QualifiedName → List StringList}
  {argv : List CString}

/-- On the database: the scripts joined by `&&`, and all their statements as one script. -/
theorem andList_scriptRun (schema : QualifiedName → Except StorageError StringList)
    (files : FileSystem) (rows : QualifiedName → List StringList) (hargs : RootArguments dbRoot argv) {source : CString} {sources : List CString}
    (haccepted : ∀ a ∈ source :: sources, (parseSqlScript a).1 = none ∧ a.bytes ≠ []) :
    ∃ outputs rows', outputs ≠ [] ∧
      runAndList (databaseProcess schema files) ((source :: sources).map (scriptProcess argv)) rows =
        some (outputs, rows') ∧
      scriptRun schema (textStatements (source :: sources)) rows = ⟨mergeOutputs outputs, rows'⟩ := by
  induction sources generalizing source rows with
  | nil =>
    obtain ⟨hsource, hne⟩ := haccepted source List.mem_cons_self
    refine ⟨[(scriptRun schema (parseSqlScript source).2 rows).output],
      (scriptRun schema (parseSqlScript source).2 rows).state, List.cons_ne_nil _ _, ?_, ?_⟩
    · rw [List.map_singleton, runAndList,
        databaseProcess_script schema files hargs (parseSqlScript_accepted hsource) hne, Option.bind_some]
      split <;> rfl
    · rw [textStatements, List.flatMap_singleton]
      simp [mergeOutputs]
  | cons source' sources ih =>
    obtain ⟨⟨hsource, hne⟩, hrest⟩ := List.forall_mem_cons.mp haccepted
    have happend := scriptRun_append schema (parseSqlScript source).2
      (textStatements (source' :: sources)) rows
    rw [List.map_cons, runAndList, databaseProcess_script schema files hargs (parseSqlScript_accepted hsource) hne,
      Option.bind_some, textStatements, List.flatMap_cons]
    generalize scriptRun schema (parseSqlScript source).2 rows = first at happend ⊢
    by_cases hcode : first.output.exitCode = 0
    · obtain ⟨outputs, rows', hnil, hlist, hrun⟩ := ih first.state hrest
      refine ⟨first.output :: outputs, rows', List.cons_ne_nil _ _, ?_, ?_⟩
      · rw [if_pos hcode, hlist, Option.map_some]
      · rw [if_pos hcode, hrun] at happend
        rw [mergeOutputs_cons _ hnil]
        exact happend
    · refine ⟨[first.output], first.state, List.cons_ne_nil _ _, if_neg hcode, ?_⟩
      rw [if_neg hcode] at happend
      rw [textStatements] at happend
      rw [happend]
      simp [mergeOutputs]

/-- Processes joined by `&&` on the database. -/
theorem Serves.andList (uninit : ℕ → UInt32) (hschemas : UsableSchemas dbRoot files)
    {processes : List Invocation} (hall : ∀ p ∈ processes, p.Admitted dbRoot files)
    {files' : FileSystem} {n : ℕ}
    (h : Serves dbRoot files (n + inputBytes files processes) (State.fresh files') rows) :
    ∃ outputs files'' rows', runAndList (runProcess uninit) processes files' = some (outputs, files'') ∧
      runAndList (databaseProcess (schemaOf dbRoot files) files) processes rows =
        some (outputs, rows') ∧
      Serves dbRoot files n (State.fresh files'') rows' := by
  induction processes generalizing rows files' with
  | nil => exact ⟨[], files', rows, rfl, rfl, h⟩
  | cons p processes ih =>
    obtain ⟨hp, hrest⟩ := List.forall_mem_cons.mp hall
    have hfirst : Serves dbRoot files (n + inputBytes files processes + (p.input files).length)
        (State.fresh files') rows := by
      rw [inputBytes_cons] at h
      exact ⟨h.holds, h.room.mono (by omega), h.others⟩
    have hsame := hfirst.process uninit hschemas hp
    rw [runAndList, runAndList]
    generalize runProcess uninit p files' = a at hsame ⊢
    generalize databaseProcess (schemaOf dbRoot files) files p rows = b at hsame ⊢
    cases hsame with
    | @mk output files₁ rows₁ hnext =>
      rw [Option.bind_some, Option.bind_some]
      dsimp only
      by_cases hcode : output.exitCode = 0
      · obtain ⟨outputs, files'', rows', hprogram, hdatabase, hserves⟩ := ih hrest hnext
        rw [if_pos hcode, if_pos hcode, hprogram, hdatabase]
        exact ⟨output :: outputs, files'', rows', rfl, rfl, hserves⟩
      · rw [if_neg hcode, if_neg hcode]
        exact ⟨[output], files₁, rows₁, rfl, rfl, hnext.holds, hnext.room.mono (Nat.le_add_right _ _),
          hnext.others⟩

/-- The limits for joined scripts are enough for the scripts. -/
theorem joinedScripts_admitted {sources : List CString}
    (h : (scriptProcess argv (joinScripts sources)).Admitted dbRoot files)
    (hargs : RootArguments dbRoot argv) :
    (∀ p ∈ sources.map (scriptProcess argv), p.Admitted dbRoot files) ∧
      inputBytes files (sources.map (scriptProcess argv)) ≤
        ((scriptProcess argv (joinScripts sources)).input files).length := by
  have hinput : ∀ source, (scriptProcess argv source).input files = source.bytes := by
    intro source
    rw [Invocation.input, scriptProcess, inputOf, hargs.2]
  have hsum := joinScripts_length sources
  have hbytes : inputBytes files (sources.map (scriptProcess argv)) =
      (sources.map CString.length).sum := by
    rw [inputBytes, List.map_map]
    congr 1
    exact List.map_congr_left fun source _ => congrArg List.length (hinput source)
  refine ⟨List.forall_mem_map.mpr fun source hsource => ⟨h.root, h.script, ?_⟩, ?_⟩
  · have hle := List.single_le_sum (fun n _ => Nat.zero_le n) _
      (List.mem_map_of_mem (f := CString.length) hsource)
    have hsize := h.size
    rw [hinput] at hsize ⊢
    exact (hle.trans hsum).trans hsize
  · rw [hinput, hbytes]
    exact hsum

end Joined

/-- **Joined scripts.**  Scripts that are accepted, each in a process of its own that starts if the one before
it exits with 0, against one process for all of them with a `;` on a line of its own between them: the one
process writes what the others write together and exits like the last of them, and every later process writes
the same behind both. -/
theorem joined_scripts (uninit : ℕ → UInt32) (dbRoot : CString) (files : FileSystem)
    (rows : QualifiedName → List StringList) (argv : List CString) (source : CString)
    (sources : List CString) (later : List Invocation)
    (hargs : RootArguments dbRoot argv)
    (haccepted : ∀ a ∈ source :: sources, (parseSqlScript a).1 = none ∧ a.bytes ≠ [])
    (hmarks : ∀ a ∈ sources, ¬HasMark a.bytes)
    (h : Operated dbRoot files rows (scriptProcess argv (joinScripts (source :: sources)) :: later)) :
    ∃ outputs files₁ files₂ outputs',
      runAndList (runProcess uninit) ((source :: sources).map (scriptProcess argv)) files =
        some (outputs, files₁) ∧
      runProcess uninit (scriptProcess argv (joinScripts (source :: sources))) files =
        some ⟨mergeOutputs outputs, files₂⟩ ∧
      (runProcesses (runProcess uninit) later files₁).map Prod.fst = some outputs' ∧
      (runProcesses (runProcess uninit) later files₂).map Prod.fst = some outputs' := by
  obtain ⟨hjoined, hlater⟩ := List.forall_mem_cons.mp h.admitted
  obtain ⟨hscripts, hbytes⟩ := joinedScripts_admitted hjoined hargs
  have hroom := h.room
  rw [inputBytes_cons] at hroom
  have hstart : ∀ n ≤ ((scriptProcess argv (joinScripts (source :: sources))).input files).length,
      Serves dbRoot files (inputBytes files later + n) (State.fresh files) rows := fun n hn =>
    ⟨Holds.start h.tables, hroom.mono (by omega), fun _ _ => rfl⟩
  -- both ways lead to the same rows of the database
  obtain ⟨outputs, files₁, rows₁, hlist, hdatabase, hserves₁⟩ :=
    (hstart _ hbytes).andList uninit h.tables.schemas hscripts
  obtain ⟨outputs', rows', -, hdatabase', hrun⟩ :=
    andList_scriptRun (schemaOf dbRoot files) files rows hargs haccepted
  rw [hdatabase] at hdatabase'
  obtain ⟨rfl, rfl⟩ := Prod.mk.inj (Option.some.inj hdatabase')
  have hne : (joinScripts (source :: sources)).bytes ≠ [] := by
    have hlength := joinScripts_length (source :: sources)
    have hpos := List.length_pos_of_ne_nil (haccepted source List.mem_cons_self).2
    intro hnil
    rw [List.map_cons, List.sum_cons, CString.length, CString.length, hnil, List.length_nil] at hlength
    omega
  have hprocess := databaseProcess_script (schemaOf dbRoot files) files hargs
    (parseSqlScript_joined (fun a ha => (haccepted a ha).1) hmarks) hne rows
  have hsame := (hstart _ (le_refl _)).process uninit h.tables.schemas hjoined
  rw [hprocess, hrun] at hsame
  obtain ⟨files₂, hprogram, hserves₂⟩ := hsame.of_right
  -- so the later processes write what they write on these rows
  rw [← Nat.zero_add (inputBytes files later)] at hserves₁ hserves₂
  obtain ⟨outputs₁, files₁', rows₁', hlater₁, hrows₁, -⟩ :=
    hserves₁.processes uninit h.tables.schemas hlater
  obtain ⟨outputs₂, files₂', rows₂', hlater₂, hrows₂, -⟩ :=
    hserves₂.processes uninit h.tables.schemas hlater
  rw [hrows₁] at hrows₂
  obtain ⟨rfl, -⟩ := Prod.mk.inj (Option.some.inj hrows₂)
  exact ⟨outputs, files₁, files₂, outputs₁, hlist, hprogram, by rw [hlater₁]; rfl,
    by rw [hlater₂]; rfl⟩

/-- An INSERT that ends in a comment, and a SELECT. -/
def studentScripts : List CString :=
  [lit "INSERT INTO t (student_no) VALUES (7) -- ;", lit "SELECT id FROM t"]

def studentArguments : List CString := [lit "mini_sql", lit "db"]

theorem rootArguments_students : RootArguments (lit "db") studentArguments := by
  constructor <;> decide +kernel

theorem operated_studentScripts :
    Operated (lit "db") (studentFiles oldStudents) (fun _ => oldStudentRows)
      [scriptProcess studentArguments (joinScripts studentScripts)] where
  tables := supported_students (fun _ he => absurd he List.not_mem_nil) (by decide)
  admitted := by
    rw [List.forall_mem_singleton]
    refine ⟨fun _ => congrArg CliOptions.dbRoot rootArguments_students.2, fun path hpath => ?_,
      by decide +kernel⟩
    rw [scriptProcess, rootArguments_students.2] at hpath
    cases hpath
  room := by
    intro name table _ hload
    rw [studentFiles_columns hload]
    show lastId studentTable.columns oldStudentRows + inputBytes (studentFiles oldStudents)
      [scriptProcess studentArguments (joinScripts studentScripts)] < 2 ^ 64
    decide +kernel

theorem joined_scripts_students :
    (runProcess (fun _ => 0) (scriptProcess studentArguments (joinScripts studentScripts))
        (studentFiles oldStudents)).map ProcessRun.output =
      (runAndList (runProcess fun _ => 0) (studentScripts.map (scriptProcess studentArguments))
        (studentFiles oldStudents)).map fun r => mergeOutputs r.1 := by
  obtain ⟨outputs, files₁, files₂, outputs', hlist, hprogram, -, -⟩ :=
    joined_scripts (fun _ => 0) (lit "db") (studentFiles oldStudents) (fun _ => oldStudentRows)
      studentArguments (lit "INSERT INTO t (student_no) VALUES (7) -- ;") [lit "SELECT id FROM t"] []
      rootArguments_students (by decide +kernel) (by simp only [HasMark]; decide +kernel)
      operated_studentScripts
  show (runProcess _ (scriptProcess _ (joinScripts studentScripts)) _).map _ = _
  rw [studentScripts, hlist, hprogram]
  rfl

end MiniSql
