import MiniSql.DatabaseRuns

/-!
# What a client of the program can rely on

The program is a database of keyed logs, so what holds of these holds of its runs, within the limits of
`Supported`.

* `tables_are_isolated`: the tables do not see each other.  What a statement gets depends on the statements
  about its own table alone.
* `reads_leave_no_trace`: a run and its INSERTs alone end with the same outcomes and the same bytes.
* `answers_grow`: a later answer to the same SELECT begins with the rows of the earlier one.
* `accepted_row_found`: a row that was accepted is found by its id ever after.
* `student_no_taken`: and its `student_no` is taken ever after.

Each of them is a fact about the logs, `rowsAfter_prefix` or `answerRows_append`, carried over by
`Supported.answer`, which is `program_is_database` at one statement of a run.
-/

namespace MiniSql

open Framing KeyedLogs

section Program

variable {dbRoot : CString} {files : FileSystem} {rows : QualifiedName → List StringList}
  {events later : List Event}

/-! ### Transcripts and events -/

theorem transcript_append (uninit : ℕ → UInt32) (dbRoot : CString) (events later : List Event)
    (s : State) : transcript uninit dbRoot (events ++ later) s =
      transcript uninit dbRoot events s ++
        transcript uninit dbRoot later (runEvents uninit dbRoot events s) := by
  induction events generalizing s with
  | nil => rfl
  | cons event events ih =>
    rw [List.cons_append, transcript, transcript, runEvents, ih, List.append_assoc]

theorem statementsOf_append (events later : List Event) :
    statementsOf (events ++ later) = statementsOf events ++ statementsOf later :=
  List.filterMap_append

/-- The rows of the tables after the events. -/
def rowsAfter (dbRoot : CString) (files : FileSystem) (rows : QualifiedName → List StringList)
    (events : List Event) : QualifiedName → List StringList :=
  (database (schemaOf dbRoot files)).run (statementsOf events) rows

theorem rowsAfter_append (dbRoot : CString) (files : FileSystem)
    (rows : QualifiedName → List StringList) (events later : List Event) :
    rowsAfter dbRoot files rows (events ++ later) =
      (database (schemaOf dbRoot files)).run (statementsOf later)
        (rowsAfter dbRoot files rows events) := by
  rw [rowsAfter, statementsOf_append, Service.run_append, rowsAfter]

/-- The rows of a table stay in it. -/
theorem rowsAfter_prefix (dbRoot : CString) (files : FileSystem)
    (rows : QualifiedName → List StringList) (events later : List Event) (name : QualifiedName) :
    rowsAfter dbRoot files rows events name <+: rowsAfter dbRoot files rows (events ++ later) name := by
  rw [rowsAfter_append]
  exact Service.run_prefix ..

/-- A statement after the events gets the answer of the database. -/
theorem Supported.answer (uninit : ℕ → UInt32) {statement : Statement}
    (h : Supported dbRoot files rows (events ++ [.statement statement])) :
    (executeStatement uninit dbRoot statement (runEvents uninit dbRoot events (State.fresh files))).1 =
      MiniSql.answer (schemaOf dbRoot files) statement (rowsAfter dbRoot files rows events statement.name) := by
  obtain ⟨hall, -⟩ := h.run uninit
  obtain ⟨hbefore, -⟩ := h.of_append_left.run uninit
  rw [transcript_append, hbefore, statementsOf_append, Service.transcript_append] at hall
  exact congrArg Prod.snd (List.singleton_inj.mp (List.append_cancel_left hall))

theorem Supported.holds (uninit : ℕ → UInt32) (h : Supported dbRoot files rows events) :
    Holds dbRoot files (rowsAfter dbRoot files rows events)
      (runEvents uninit dbRoot events (State.fresh files)) := (h.run uninit).2

/-- A SELECT may follow at any point. -/
theorem Supported.select (h : Supported dbRoot files rows events) {statement : SelectStatement}
    (hname : ParsedName statement.source) :
    Supported dbRoot files rows (events ++ [.statement (.select statement)]) := by
  refine h.fewer (List.forall_mem_append.mpr ⟨h.admitted, List.forall_mem_singleton.mpr hname⟩) ?_
  rw [insertCount, List.countP_append]
  exact le_refl _

theorem Supported.select_answer (uninit : ℕ → UInt32) (h : Supported dbRoot files rows events)
    {statement : SelectStatement} (hname : ParsedName statement.source) :
    (runSelectQuery uninit dbRoot statement (runEvents uninit dbRoot events (State.fresh files))).1 =
      selectAnswer (schemaOf dbRoot files statement.source) statement
        (rowsAfter dbRoot files rows events statement.source) :=
  Outcome.selected.inj ((h.select hname).answer uninit)

theorem Supported.filter (h : Supported dbRoot files rows events) (p : Event → Bool) :
    Supported dbRoot files rows (events.filter p) :=
  h.fewer (fun event he => h.admitted event (List.mem_of_mem_filter he)) List.filter_sublist.countP_le

/-! ### Isolation -/

theorem activates_congr {name : QualifiedName} {statements statements' : List Statement}
    (hsame : (statements.filter fun statement => decide (statement.name = name)) =
      statements'.filter fun statement => decide (statement.name = name)) :
    Activates dbRoot files name statements ↔ Activates dbRoot files name statements' := by
  have hfilter : ∀ statements : List Statement, Activates dbRoot files name statements ↔
      ∃ statement ∈ statements.filter fun statement => decide (statement.name = name),
        activatedTable dbRoot files statement ≠ none := by
    intro statements
    simp only [Activates, List.mem_filter, decide_eq_true_eq, and_assoc]
  rw [hfilter, hfilter, hsame]

/-- **Isolation.**  Two runs on the same files with the same statements about one table, in the same order,
whatever else they contain: these statements get the same outcomes in both, and the data file of the
table ends with the same bytes. -/
theorem tables_are_isolated (uninit uninit' : ℕ → UInt32) (dbRoot : CString) (files : FileSystem)
    (rows : QualifiedName → List StringList) (events events' : List Event) (name : QualifiedName)
    (h : Supported dbRoot files rows events) (h' : Supported dbRoot files rows events')
    (hsame : ((statementsOf events).filter fun statement => decide (statement.name = name)) =
      (statementsOf events').filter fun statement => decide (statement.name = name)) :
    ((transcript uninit dbRoot events (State.fresh files)).filter
          fun e => decide (e.1.name = name)) =
        (transcript uninit' dbRoot events' (State.fresh files)).filter
          (fun e => decide (e.1.name = name)) ∧
      ∀ table, ParsedName name → loadTableDefinition dbRoot files name = .ok table →
        ((runEvents uninit dbRoot events (State.fresh files)).files table.dataPath).getD [] =
          ((runEvents uninit' dbRoot events' (State.fresh files)).files table.dataPath).getD [] := by
  constructor
  · rw [(h.run uninit).1, (h'.run uninit').1]
    exact Service.transcript_congr_key (S := database (schemaOf dbRoot files)) (k := name) _ hsame
  · intro table hname hload
    obtain ⟨hmigrated, huntouched⟩ := h.run_file uninit hname hload
    obtain ⟨hmigrated', huntouched'⟩ := h'.run_file uninit' hname hload
    by_cases hactivates : Activates dbRoot files name (statementsOf events)
    · rw [hmigrated hactivates, hmigrated' ((activates_congr hsame).mp hactivates)]
      exact congrArg (stream encodeRow) (Service.run_congr_key
        (S := database (schemaOf dbRoot files)) (k := name) _ hsame)
    · rw [huntouched hactivates, huntouched' fun h => hactivates ((activates_congr hsame).mpr h)]

theorem parsedName_other : ParsedName ⟨none, lit "u"⟩ :=
  ⟨by simp, ⟨117, by decide +kernel, by decide⟩, by decide +kernel⟩

/-- Statements about another table, before and after, and a restart. -/
theorem tables_are_isolated_students :
    ((runEvents (fun _ => 0) (lit "db")
        (.statement (.select ⟨⟨none, lit "u"⟩, true, [], none⟩) :: studentEvents)
        (State.fresh (studentFiles oldStudents))).files studentTable.dataPath).getD [] =
      ((runEvents (fun _ => 1) (lit "db")
        (studentEvents ++ [.restart, .statement (.insert ⟨⟨none, lit "u"⟩, [], []⟩)])
        (State.fresh (studentFiles oldStudents))).files studentTable.dataPath).getD [] :=
  (tables_are_isolated (fun _ => 0) (fun _ => 1) (lit "db") (studentFiles oldStudents)
    (fun _ => oldStudentRows) _ _ studentTable.name
    (supported_students (List.forall_mem_cons.mpr
      ⟨show (Event.statement (.select ⟨⟨none, lit "u"⟩, true, [], none⟩)).Admitted from
        parsedName_other, studentEvents_admitted⟩) (by decide))
    (supported_students (List.forall_mem_append.mpr ⟨studentEvents_admitted, by
      intro event he
      simp only [List.mem_cons, List.not_mem_nil, or_false] at he
      rcases he with rfl | rfl
      · trivial
      · exact ⟨parsedName_other, by simp⟩⟩)
      (by decide))
    (by decide +kernel)).2 studentTable parsedName_student (by decide +kernel)

/-! ### Reads -/

def Statement.isInsert : Statement → Bool
  | .insert _ => true
  | .select _ => false

theorem statementsOf_filter_isInsert (events : List Event) :
    statementsOf (events.filter Event.isInsert) =
      (statementsOf events).filter Statement.isInsert := by
  induction events with
  | nil => rfl
  | cons event events ih =>
    cases event with
    | restart => exact ih
    | statement statement =>
      cases statement with
      | insert statement => exact congrArg (List.cons _) ih
      | select statement => exact ih

/-- **Reads leave no trace.**  A run and its INSERTs alone, without the SELECTs and the restarts: the
INSERTs get the same outcomes in both, and every data file that was in binary form at the start ends with the
same bytes. -/
theorem reads_leave_no_trace (uninit uninit' : ℕ → UInt32) (dbRoot : CString) (files : FileSystem)
    (rows : QualifiedName → List StringList) (events : List Event)
    (h : Supported dbRoot files rows events) :
    ((transcript uninit dbRoot events (State.fresh files)).filter fun e => e.1.isInsert) =
        transcript uninit' dbRoot (events.filter Event.isInsert) (State.fresh files) ∧
      ∀ name table, ParsedName name → loadTableDefinition dbRoot files name = .ok table →
        (files table.dataPath).getD [] = stream encodeRow (rows name) →
        ((runEvents uninit dbRoot events (State.fresh files)).files table.dataPath).getD [] =
          ((runEvents uninit' dbRoot (events.filter Event.isInsert)
            (State.fresh files)).files table.dataPath).getD [] := by
  obtain ⟨htranscript, hholds⟩ := h.run uninit
  obtain ⟨htranscript', hholds'⟩ := (h.filter Event.isInsert).run uninit'
  have hreads : ∀ statement : Statement, statement.isInsert = false →
      ∀ rows, (database (schemaOf dbRoot files)).added statement rows = [] := by
    intro statement hselect rows
    cases statement with
    | insert statement => cases hselect
    | select statement => rfl
  rw [statementsOf_filter_isInsert] at htranscript' hholds'
  rw [Service.run_filter_adding hreads] at hholds'
  constructor
  · rw [htranscript, htranscript', Service.transcript_filter_adding hreads]
  · intro name table hname hload hbinary
    have hreadable := (h.valid name table hname hload).readable
    rw [hholds.file hname hload hreadable (Or.inl hbinary),
      hholds'.file hname hload hreadable (Or.inl hbinary)]

theorem reads_leave_no_trace_students :
    ((transcript (fun _ => 0) (lit "db") studentEvents
        (State.fresh (studentFiles oldStudents))).filter fun e => e.1.isInsert) =
      transcript (fun _ => 1) (lit "db") (studentEvents.filter Event.isInsert)
        (State.fresh (studentFiles oldStudents)) :=
  (reads_leave_no_trace (fun _ => 0) (fun _ => 1) (lit "db") (studentFiles oldStudents)
    (fun _ => oldStudentRows) studentEvents
    (supported_students studentEvents_admitted (by decide))).1

/-! ### Answers grow -/

/-- The rows that are new at a later point have greater ids. -/
theorem Supported.newer (h : Supported dbRoot files rows (events ++ later)) {name : QualifiedName}
    {table : TableDefinition} (hname : ParsedName name)
    (hload : loadTableDefinition dbRoot files name = .ok table) :
    ∃ more, rowsAfter dbRoot files rows (events ++ later) name =
        rowsAfter dbRoot files rows events name ++ more ∧
      ∀ row ∈ more, ∃ id, idOf table.columns row = some id ∧
        lastId table.columns (rowsAfter dbRoot files rows events name) < id.toNat := by
  induction later using List.reverseRecOn with
  | nil => exact ⟨[], by simp, by simp⟩
  | append_singleton later event ih =>
    rw [← List.append_assoc] at h ⊢
    obtain ⟨more, hmore, hnewer⟩ := ih h.of_append_left
    rw [rowsAfter_append]
    cases event with
    | restart => exact ⟨more, hmore, hnewer⟩
    | statement statement =>
      show ∃ more, (database (schemaOf dbRoot files)).step statement
        (rowsAfter dbRoot files rows (events ++ later)) name = _ ∧ _
      by_cases hsame : statement.name = name
      · subst hsame
        rw [database_step_self]
        cases hrow : (MiniSql.answer (schemaOf dbRoot files) statement
            (rowsAfter dbRoot files rows (events ++ later) statement.name)).row with
        | none =>
          rw [Option.toList_none, List.append_nil]
          exact ⟨more, hmore, hnewer⟩
        | some row =>
          have hschema : schemaOf dbRoot files statement.name = .ok table.columns := by
            rw [schemaOf, hload]
            rfl
          obtain ⟨insert, rfl, rfl⟩ := answer_row_eq hschema hrow
          have hroom := h.room
          rw [insertCount, List.countP_append, Nat.add_comm] at hroom
          have hbound : lastId table.columns
              (rowsAfter dbRoot files rows (events ++ later) insert.target) + 1 < 2 ^ 64 :=
            hroom.run h.schemas _ table hname hload
          have hlast : lastId table.columns (rowsAfter dbRoot files rows events insert.target) ≤
              lastId table.columns (rowsAfter dbRoot files rows (events ++ later) insert.target) := by
            rw [show rowsAfter dbRoot files rows (events ++ later) insert.target = _ from hmore,
              lastId_append]
            exact le_max_left _ _
          refine ⟨more ++ [_], (congrArg (· ++ [_]) hmore).trans (List.append_assoc _ _ _),
            List.forall_mem_append.mpr ⟨hnewer, List.forall_mem_singleton.mpr
              ⟨_, idOf_newRow (h.schemas _ table hname hload).1 _ _, ?_⟩⟩⟩
          exact lt_of_lt_of_eq (Nat.lt_succ_of_le hlast) (UInt64.toNat_ofNat_of_lt' hbound).symm
      · rw [database_step_of_ne _ hsame]
        exact ⟨more, hmore, hnewer⟩

theorem inIdOrder_ascending {columns : StringList} {rows : List StringList}
    (hids : ∀ row ∈ rows, ∃ id, idOf columns row = some id)
    (hdistinct : rows.Pairwise fun r r' => idOf columns r ≠ idOf columns r') :
    (inIdOrder columns rows).Pairwise (IdBefore columns) := by
  have hperm := inIdOrder_perm columns rows
  have hapart : (inIdOrder columns rows).Pairwise fun r r' => idOf columns r ≠ idOf columns r' :=
    hperm.symm.pairwise hdistinct fun h => h.symm
  refine (hapart.and (inIdOrder_sorted columns rows)).imp_of_mem ?_
  rintro r r' hr hr' ⟨hne, hle⟩
  obtain ⟨i, hi⟩ := hids r (hperm.mem_iff.mp hr)
  obtain ⟨j, hj⟩ := hids r' (hperm.mem_iff.mp hr')
  rw [idKey_eq hi, idKey_eq hj] at hle
  refine ⟨i, j, hi, hj, lt_of_le_of_ne (UInt64.le_iff_toNat_le.mpr hle) ?_⟩
  rintro rfl
  exact hne (hi.trans hj.symm)

/-- Rows with greater ids at the end of a table add rows at the end of an answer, at most. -/
theorem answerRows_append {columns : StringList} (statement : SelectStatement)
    {rows more : List StringList} (hids : ∀ row ∈ rows ++ more, ∃ id, idOf columns row = some id)
    (hdistinct : (rows ++ more).Pairwise fun r r' => idOf columns r ≠ idOf columns r')
    (hbefore : ∀ row ∈ rows, ∀ row' ∈ more, IdBefore columns row row') :
    answerRows columns statement rows <+: answerRows columns statement (rows ++ more) := by
  rw [answerRows, answerRows]
  split
  · rw [List.find?_append]
    cases rows.find? (whereHolds columns statement.where_) with
    | none => exact List.nil_prefix
    | some row => exact List.prefix_rfl
  · rw [matchingRows, matchingRows, List.filter_append]
    split
    · obtain ⟨hids, hids'⟩ := List.forall_mem_append.mp hids
      obtain ⟨hdistinct, hdistinct', -⟩ := List.pairwise_append.mp hdistinct
      generalize hfound : rows.filter (whereHolds columns statement.where_) = found
      generalize hadded : more.filter (whereHolds columns statement.where_) = added
      have hsub : found ⊆ rows := hfound ▸ List.filter_subset_self _
      have hsub' : added ⊆ more := hadded ▸ List.filter_subset_self _
      have hsorted : (inIdOrder columns found).Pairwise (IdBefore columns) :=
        inIdOrder_ascending (fun r hr => hids r (hsub hr)) (hfound ▸ hdistinct.filter _)
      have hsorted' : (inIdOrder columns added).Pairwise (IdBefore columns) :=
        inIdOrder_ascending (fun r hr => hids' r (hsub' hr)) (hadded ▸ hdistinct'.filter _)
      have hperm := inIdOrder_perm columns found
      have hperm' := inIdOrder_perm columns added
      rw [← inIdOrder_eq (hperm.append hperm') (List.pairwise_append.mpr ⟨hsorted, hsorted',
        fun r hr r' hr' => hbefore r (hsub (hperm.mem_iff.mp hr)) r' (hsub' (hperm'.mem_iff.mp hr'))⟩)]
      exact List.prefix_append _ _
    · exact List.prefix_append _ _

theorem selectAnswer_append {columns : StringList} {statement : SelectStatement}
    {rows later : List StringList}
    (hgrown : answerRows columns statement rows <+: answerRows columns statement later) :
    (∃ e, ∀ stored, selectAnswer (.ok columns) statement stored = .error e) ∨
      ∃ names found added, selectAnswer (.ok columns) statement rows = .ok ⟨names, found⟩ ∧
        selectAnswer (.ok columns) statement later = .ok ⟨names, found ++ added⟩ := by
  unfold selectAnswer
  dsimp only
  split
  · exact Or.inl ⟨_, fun _ => rfl⟩
  · split
    · exact Or.inl ⟨_, fun _ => rfl⟩
    · obtain ⟨added, hadded⟩ := hgrown
      rw [← hadded, List.map_append]
      exact Or.inr ⟨_, _, _, rfl, rfl⟩

/-- **Answers grow.**  The same SELECT at two points of a run: either it fails at both with the same error,
or it succeeds at both with the same columns, and the rows of the earlier answer are the first rows of
the later one. -/
theorem answers_grow (uninit : ℕ → UInt32) (dbRoot : CString) (files : FileSystem)
    (rows : QualifiedName → List StringList) (events later : List Event)
    (statement : SelectStatement) (h : Supported dbRoot files rows (events ++ later))
    (hname : ParsedName statement.source) :
    (∃ e, (runSelectQuery uninit dbRoot statement
          (runEvents uninit dbRoot events (State.fresh files))).1 = .error e ∧
        (runSelectQuery uninit dbRoot statement
          (runEvents uninit dbRoot (events ++ later) (State.fresh files))).1 = .error e) ∨
      ∃ columns found added,
        (runSelectQuery uninit dbRoot statement
          (runEvents uninit dbRoot events (State.fresh files))).1 = .ok ⟨columns, found⟩ ∧
        (runSelectQuery uninit dbRoot statement
          (runEvents uninit dbRoot (events ++ later) (State.fresh files))).1 =
            .ok ⟨columns, found ++ added⟩ := by
  rw [h.of_append_left.select_answer uninit hname, h.select_answer uninit hname, schemaOf]
  cases hload : loadTableDefinition dbRoot files statement.source with
  | error e => exact Or.inl ⟨e, rfl, rfl⟩
  | ok table =>
    obtain ⟨more, hmore, hnewer⟩ := h.newer hname hload
    have hvalid := (h.holds uninit).valid _ table hname hload
    rw [hmore] at hvalid ⊢
    have hgrown := answerRows_append statement hvalid.ids hvalid.ids_distinct fun row hr row' hr' => by
      obtain ⟨i, hi⟩ := hvalid.ids row (List.mem_append_left more hr)
      obtain ⟨j, hj, hlt⟩ := hnewer row' hr'
      exact ⟨i, j, hi, hj, UInt64.lt_iff_toNat_lt.mpr (lt_of_le_of_lt (le_lastId hr hi) hlt)⟩
    rcases selectAnswer_append hgrown with ⟨e, he⟩ | hanswer
    · exact Or.inl ⟨e, he _, he _⟩
    · exact Or.inr hanswer

theorem answers_grow_students :
    (∃ e, (runSelectQuery (fun _ => 0) (lit "db") selectStudent
          (runEvents (fun _ => 0) (lit "db") [.statement (insertStudent (lit "1"))]
            (State.fresh (studentFiles oldStudents)))).1 = .error e ∧
        (runSelectQuery (fun _ => 0) (lit "db") selectStudent
          (runEvents (fun _ => 0) (lit "db")
            ([.statement (insertStudent (lit "1"))] ++ [.restart])
            (State.fresh (studentFiles oldStudents)))).1 = .error e) ∨
      ∃ columns found added,
        (runSelectQuery (fun _ => 0) (lit "db") selectStudent
          (runEvents (fun _ => 0) (lit "db") [.statement (insertStudent (lit "1"))]
            (State.fresh (studentFiles oldStudents)))).1 = .ok ⟨columns, found⟩ ∧
        (runSelectQuery (fun _ => 0) (lit "db") selectStudent
          (runEvents (fun _ => 0) (lit "db")
            ([.statement (insertStudent (lit "1"))] ++ [.restart])
            (State.fresh (studentFiles oldStudents)))).1 = .ok ⟨columns, found ++ added⟩ :=
  answers_grow (fun _ => 0) (lit "db") (studentFiles oldStudents) (fun _ => oldStudentRows)
    [.statement (insertStudent (lit "1"))] [.restart] selectStudent
    (supported_students (List.forall_mem_append.mpr
      ⟨List.forall_mem_singleton.mpr (insertStudent_admitted (by decide)),
        List.forall_mem_singleton.mpr trivial⟩) (by decide))
    parsedName_student

/-! ### Accepted rows -/

/-- What an accepted INSERT reports. -/
theorem insertAnswer_ok {schema : Except StorageError StringList} {statement : InsertStatement}
    {rows : List StringList} {result : InsertResult}
    (h : insertAnswer schema statement rows = .ok result) :
    ∃ columns, schema = .ok columns ∧ statement.columns.length = statement.values.length ∧
      namesFault columns [] statement.columns = none ∧
      studentNoFault columns rows statement.pairs = none ∧
      result = ⟨1, columns, newRow columns statement.pairs (lastId columns rows + 1)⟩ := by
  unfold insertAnswer at h
  split at h
  · cases h
  · rename_i hcounts
    cases hschema : schema with
    | error e =>
      rw [hschema] at h
      cases h
    | ok columns =>
      rw [hschema] at h
      dsimp only at h
      split at h
      · cases h
      · rename_i hfault
        rw [Option.or_eq_none_iff] at hfault
        exact ⟨columns, rfl, not_not.mp hcounts, hfault.1, hfault.2, (Except.ok.inj h).symm⟩

/-- An accepted INSERT, and the rows of its table at any later point. -/
theorem Supported.accepted (uninit : ℕ → UInt32) {statement : InsertStatement} {result : InsertResult}
    (h : Supported dbRoot files rows (events ++ .statement (.insert statement) :: later))
    (hok : (appendInsertRow uninit dbRoot statement
      (runEvents uninit dbRoot events (State.fresh files))).1 = .ok result) :
    ∃ table more, loadTableDefinition dbRoot files statement.target = .ok table ∧
      ParsedName statement.target ∧ result.columns = table.columns ∧
      namesFault table.columns [] statement.columns = none ∧
      studentNoFault table.columns (rowsAfter dbRoot files rows events statement.target)
        statement.pairs = none ∧
      result.values = newRow table.columns statement.pairs
        (lastId table.columns (rowsAfter dbRoot files rows events statement.target) + 1) ∧
      rowsAfter dbRoot files rows (events ++ .statement (.insert statement) :: later) statement.target =
        rowsAfter dbRoot files rows events statement.target ++ result.values :: more := by
  have hsplit : events ++ .statement (.insert statement) :: later =
      events ++ [.statement (.insert statement)] ++ later := by
    rw [List.append_assoc, List.singleton_append]
  have hname : ParsedName statement.target :=
    (h.admitted _ (List.mem_append_right events List.mem_cons_self)).1
  rw [hsplit] at h ⊢
  have hanswer := h.of_append_left.answer uninit
  rw [executeStatement, hok] at hanswer
  have hrow := hanswer
  obtain ⟨columns, hschema, -, hnames, hstudent, hresult⟩ :=
    insertAnswer_ok (Outcome.inserted.inj hanswer).symm
  cases hload : loadTableDefinition dbRoot files statement.target with
  | error e =>
    rw [schemaOf, hload] at hschema
    cases hschema
  | ok table =>
    have hcolumns : table.columns = columns := by
      rw [schemaOf, hload] at hschema
      exact Except.ok.inj hschema
    subst hcolumns
    obtain ⟨more, hmore⟩ := rowsAfter_prefix dbRoot files rows
      (events ++ [.statement (.insert statement)]) later statement.target
    refine ⟨table, more, rfl, hname, ?_, hnames, hstudent, ?_, ?_⟩
    · rw [hresult]
    · rw [hresult]
      rfl
    · have hstep : rowsAfter dbRoot files rows (events ++ [.statement (.insert statement)])
          statement.target = rowsAfter dbRoot files rows events statement.target ++ [result.values] := by
        have hself := database_step_self (schemaOf dbRoot files) (.insert statement)
          (rowsAfter dbRoot files rows events)
        rw [← hrow] at hself
        rw [rowsAfter_append]
        exact hself
      rw [← hmore, hstep, List.append_assoc, List.singleton_append]

/-- A row is the only one with its id. -/
theorem ValidTable.matching_id {columns : StringList} {before more : List StringList}
    {row : StringList} (h : ValidTable columns (before ++ row :: more))
    (hid : findColumnIndex columns idName ≠ none) :
    (before ++ row :: more).filter
      (whereHolds columns (some ⟨idName, cell columns idName row, .equal⟩)) = [row] := by
  obtain ⟨i, hi⟩ := Option.ne_none_iff_exists'.mp hid
  have hcell : ∀ r ∈ before ++ row :: more,
      parseU64Strict (cell columns idName r) = idOf columns r := by
    intro r hr
    have hlt : i < r.length := by
      rw [h.width r hr]
      exact findColumnIndex_lt hi
    rw [idOf, cell, hi, Option.getD_some, List.getD_eq_getElem _ _ hlt, Option.bind_some,
      List.getElem?_eq_getElem hlt, Option.bind_some]
  have hrow : row ∈ before ++ row :: more := by simp
  obtain ⟨id, hkey⟩ := h.ids row hrow
  have hholds : ∀ r ∈ before ++ row :: more,
      (whereHolds columns (some ⟨idName, cell columns idName row, .equal⟩) r = true ↔
        idOf columns r = idOf columns row) := by
    intro r hr
    show whereValueMatches (cell columns idName r) (cell columns idName row) .equal = true ↔ _
    rw [whereValueMatches_number ((hcell row hrow).trans hkey), hcell r hr, hkey]
  obtain ⟨-, hmore, hbefore⟩ := List.pairwise_append.mp h.ids_distinct
  rw [List.filter_append, List.filter_cons_of_pos ((hholds row hrow).mpr rfl),
    List.filter_eq_nil_iff.mpr, List.filter_eq_nil_iff.mpr, List.nil_append]
  · intro r hr
    rw [hholds r (List.mem_append_right before (List.mem_cons_of_mem row hr))]
    exact (List.rel_of_pairwise_cons hmore hr).symm
  · intro r hr
    rw [hholds r (List.mem_append_left _ hr)]
    exact hbefore r hr row List.mem_cons_self

/-- **Accepted rows are found.**  Let an INSERT be accepted at some point of a run.  At every later point,
`SELECT *` for the id it reported returns the row it reported and nothing else. -/
theorem accepted_row_found (uninit : ℕ → UInt32) (dbRoot : CString) (files : FileSystem)
    (rows : QualifiedName → List StringList) (events later : List Event)
    (statement : InsertStatement) (result : InsertResult)
    (h : Supported dbRoot files rows (events ++ .statement (.insert statement) :: later))
    (hok : (appendInsertRow uninit dbRoot statement
      (runEvents uninit dbRoot events (State.fresh files))).1 = .ok result) :
    (runSelectQuery uninit dbRoot
        ⟨statement.target, true, [],
          some ⟨idName, cell result.columns idName result.values, .equal⟩⟩
        (runEvents uninit dbRoot (events ++ .statement (.insert statement) :: later)
          (State.fresh files))).1 = .ok ⟨result.columns, [result.values]⟩ := by
  obtain ⟨table, more, hload, hname, hcolumns, -, -, hvalues, hrows⟩ := h.accepted uninit hok
  have hid := (h.schemas _ table hname hload).1
  have hvalid := (h.holds uninit).valid _ table hname hload
  rw [hrows] at hvalid
  have hmatch := hvalid.matching_id hid
  have hschema : schemaOf dbRoot files statement.target = .ok table.columns := by
    rw [schemaOf, hload]
    rfl
  rw [h.select_answer uninit hname, hschema, hrows, hcolumns, selectAnswer]
  have hexists : ¬∃ w ∈ some (WhereClause.mk idName (cell table.columns idName result.values) .equal),
      findColumnIndex table.columns w.column = none := by
    rintro ⟨w, hw, hnone⟩
    obtain rfl := Option.some.inj hw
    exact hid hnone
  have hstudent : ¬∃ w ∈ some (WhereClause.mk idName (cell table.columns idName result.values) .equal),
      w.op = .equal ∧ sqlStricmp w.column studentNoName = 0 := by
    rintro ⟨w, hw, -, hcolumn⟩
    obtain rfl := Option.some.inj hw
    exact absurd (show sqlStricmp idName studentNoName = 0 from hcolumn) (by decide)
  have hordered : ∀ c : Prop, [Decidable c] →
      (if c then inIdOrder table.columns [result.values] else [result.values]) = [result.values] := by
    intro c _
    split <;> rfl
  rw [if_neg hexists, answerRows, if_neg hstudent, matchingRows, hmatch, hordered]
  dsimp only
  rw [if_pos rfl, List.find?_nil, selectedPositions, if_pos rfl]
  have hlength : result.values.length = table.columns.length := by
    rw [hvalues, newRow_length]
  dsimp only
  rw [List.map_singleton, project_range hlength]
  congr 2
  exact project_range rfl

theorem accepted_row_found_students :
    (runSelectQuery (fun _ => 0) (lit "db")
        ⟨⟨none, lit "t"⟩, true, [], some ⟨idName, lit "4", .equal⟩⟩
        (runEvents (fun _ => 0) (lit "db") studentEvents
          (State.fresh (studentFiles oldStudents)))).1 =
      .ok ⟨studentTable.columns, [[lit "4", lit "7"]]⟩ :=
  accepted_row_found (fun _ => 0) (lit "db") (studentFiles oldStudents) (fun _ => oldStudentRows) []
    studentEvents.tail ⟨⟨none, lit "t"⟩, [lit "student_no"], [lit "7"]⟩
    ⟨1, studentTable.columns, [lit "4", lit "7"]⟩
    (supported_students studentEvents_admitted (by decide)) (by decide +kernel)

/-! ### Values of `student_no` -/

/-- The names of an INSERT are in order if they all exist and no two are equal up to case. -/
theorem namesFault_eq_none {columns before names : StringList} :
    namesFault columns before names = none ↔
      (∀ name ∈ names, findColumnIndex columns name ≠ none ∧
        ∀ c ∈ before, sqlStricmp c name ≠ 0) ∧
      names.Pairwise fun a b => sqlStricmp a b ≠ 0 := by
  induction names generalizing before with
  | nil => simp [namesFault]
  | cons name names ih =>
    rw [namesFault, List.forall_mem_cons, List.pairwise_cons]
    by_cases hexists : findColumnIndex columns name = none
    · rw [if_pos hexists]
      exact ⟨fun h => (by cases h), fun h => absurd hexists h.1.1.1⟩
    · rw [if_neg hexists]
      by_cases hbefore : ∃ earlier ∈ before, sqlStricmp earlier name = 0
      · rw [if_pos hbefore]
        obtain ⟨c, hc, hsame⟩ := hbefore
        exact ⟨fun h => (by cases h), fun h => absurd hsame (h.1.1.2 c hc)⟩
      · have hthis : ∀ c ∈ before, sqlStricmp c name ≠ 0 := fun c hc hsame => hbefore ⟨c, hc, hsame⟩
        rw [if_neg hbefore, ih]
        simp only [List.forall_mem_cons]
        constructor
        · rintro ⟨hnames, hdistinct⟩
          exact ⟨⟨⟨hexists, hthis⟩, fun c hc => ⟨(hnames c hc).1, (hnames c hc).2.2⟩⟩,
            fun c hc => (hnames c hc).2.1, hdistinct⟩
        · rintro ⟨⟨-, hnames⟩, hapart, hdistinct⟩
          exact ⟨fun c hc => ⟨(hnames c hc).1, hapart c hc, (hnames c hc).2⟩, hdistinct⟩

/-- A stored value given again under a name of the column is the fault of an INSERT whose names are in
order. -/
theorem studentNoFault_stored {columns : StringList} {rows : List StringList}
    {statement : InsertStatement} {p : CString × CString} (hs : HasStudentNo columns)
    (hcounts : statement.columns.length = statement.values.length)
    (hnames : namesFault columns [] statement.columns = none) (hp : p ∈ statement.pairs)
    (hcolumn : sqlStricmp p.1 studentNoName = 0) (hne : p.2.bytes ≠ [])
    (hstored : p.2 ∈ rows.filterMap (studentNoOf columns)) :
    studentNoFault columns rows statement.pairs = some .duplicateStudentNo := by
  obtain ⟨i, hi⟩ := Option.ne_none_iff_exists'.mp hs
  have hdistinct := (namesFault_eq_none.mp hnames).2
  rw [← pairs_names hcounts, List.pairwise_map] at hdistinct
  rw [studentNoFault, hi]
  dsimp only
  cases hfind : statement.pairs.find? fun p => decide (sqlStricmp p.1 studentNoName = 0) with
  | none => exact absurd (decide_eq_true hcolumn) (List.find?_eq_none.mp hfind p hp)
  | some q =>
    have hq := List.find?_some hfind
    rw [decide_eq_true_eq] at hq
    -- the names are distinct, so this is the same pair
    obtain rfl : q = p := by
      by_contra hneq
      have hsymm : Std.Symm fun a b : CString × CString => sqlStricmp a.1 b.1 ≠ 0 := ⟨by
        intro a b hab hba
        rw [sqlStricmp_eq_zero] at hba
        exact hab (sqlStricmp_eq_zero.mpr hba.symm)⟩
      refine hdistinct.forall (List.mem_of_find?_eq_some hfind) hp hneq ?_
      rw [sqlStricmp_eq_zero] at hq hcolumn ⊢
      rw [hq, hcolumn]
    dsimp only
    rw [if_neg hne, if_pos hstored]

/-- **A `student_no` is taken for good.**  Let an INSERT be accepted at some point of a run.  A later INSERT
into the same table that gives its `student_no` again fails at every later point, and if its names are
in order the error says so. -/
theorem student_no_taken (uninit : ℕ → UInt32) (dbRoot : CString) (files : FileSystem)
    (rows : QualifiedName → List StringList) (events later : List Event) (statement again : InsertStatement) (result : InsertResult)
    (p : CString × CString)
    (h : Supported dbRoot files rows
      (events ++ .statement (.insert statement) :: later ++ [.statement (.insert again)]))
    (hok : (appendInsertRow uninit dbRoot statement
      (runEvents uninit dbRoot events (State.fresh files))).1 = .ok result)
    (hs : HasStudentNo result.columns) (htarget : again.target = statement.target)
    (hp : p ∈ again.pairs) (hcolumn : sqlStricmp p.1 studentNoName = 0)
    (hvalue : p.2 = cell result.columns studentNoName result.values) :
    ∃ e, (appendInsertRow uninit dbRoot again
        (runEvents uninit dbRoot (events ++ .statement (.insert statement) :: later)
          (State.fresh files))).1 = .error e ∧
      (again.columns.length = again.values.length →
        namesFault result.columns [] again.columns = none → e = .duplicateStudentNo) := by
  obtain ⟨table, more, hload, hname, hcolumns, -, -, hvalues, hrows⟩ :=
    h.of_append_left.accepted uninit hok
  rw [hcolumns] at hs hvalue ⊢
  have hvalid := (h.of_append_left.holds uninit).valid _ table hname hload
  obtain ⟨v, hv, hne⟩ := hvalid.student_nos hs result.values (by rw [hrows]; simp)
  have hp2 : p.2 = v := by
    obtain ⟨i, hi⟩ := Option.ne_none_iff_exists'.mp hs
    rw [studentNoOf, hi, Option.bind_some] at hv
    rw [hvalue, cell, hi, Option.getD_some, List.getD_eq_getElem?_getD, hv, Option.getD_some]
  have hmem : p.2 ∈ (rowsAfter dbRoot files rows (events ++ .statement (.insert statement) :: later)
      statement.target).filterMap (studentNoOf table.columns) := by
    rw [hp2]
    exact List.mem_filterMap.mpr ⟨result.values, by rw [hrows]; simp, hv⟩
  have hfault := fun hcounts hnames =>
    studentNoFault_stored hs hcounts hnames hp hcolumn (by rw [hp2]; exact hne) hmem
  have hschema : schemaOf dbRoot files again.target = .ok table.columns := by
    rw [schemaOf, htarget, hload]
    rfl
  have hanswer := Outcome.inserted.inj (h.answer uninit)
  change (appendInsertRow uninit dbRoot again _).1 = insertAnswer _ again
    (rowsAfter dbRoot files rows _ again.target) at hanswer
  rw [hschema, htarget] at hanswer
  rw [hanswer]
  cases hresult : insertAnswer (.ok table.columns) again
      (rowsAfter dbRoot files rows (events ++ .statement (.insert statement) :: later)
        statement.target) with
  | ok other =>
    obtain ⟨columns, hsame, hcounts, hnames, hstudent, -⟩ := insertAnswer_ok hresult
    obtain rfl := Except.ok.inj hsame
    rw [hfault hcounts hnames] at hstudent
    cases hstudent
  | error e =>
    refine ⟨e, rfl, fun hcounts hnames => ?_⟩
    rw [insertAnswer, if_neg (not_not.mpr hcounts), hnames, hfault hcounts hnames] at hresult
    exact (Except.error.inj hresult).symm

theorem student_no_taken_students :
    ∃ e, (appendInsertRow (fun _ => 0) (lit "db")
        ⟨⟨none, lit "t"⟩, [lit "Student_No"], [lit "7"]⟩
        (runEvents (fun _ => 0) (lit "db") studentEvents (State.fresh (studentFiles oldStudents)))).1 =
          .error e ∧
      ([lit "Student_No"].length = [lit "7"].length →
        namesFault studentTable.columns [] [lit "Student_No"] = none → e = .duplicateStudentNo) :=
  student_no_taken (fun _ => 0) (lit "db") (studentFiles oldStudents) (fun _ => oldStudentRows) []
    studentEvents.tail
    ⟨⟨none, lit "t"⟩, [lit "student_no"], [lit "7"]⟩
    ⟨⟨none, lit "t"⟩, [lit "Student_No"], [lit "7"]⟩ ⟨1, studentTable.columns, [lit "4", lit "7"]⟩
    (lit "Student_No", lit "7")
    (supported_students (List.forall_mem_append.mpr ⟨studentEvents_admitted,
      List.forall_mem_singleton.mpr ⟨parsedName_student, by decide⟩⟩) (by decide))
    (by decide +kernel) (by rw [HasStudentNo]; decide +kernel) rfl (by decide) (by decide +kernel)
    (by decide +kernel)

end Program

end MiniSql
