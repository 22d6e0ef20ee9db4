import MiniSql.EarlyStop
import MiniSql.ExistingTables
import MiniSql.InsertAcceptance
import MiniSql.Library.KeyedLogs

/-!
# The program as a database

`database` says what the program is for: a table is a list of rows, an INSERT that is in order adds a row with
the next number, and a SELECT filters the rows and picks columns.  There are no files, caches, offsets or
active tables in it.

* `insertAnswer` is the answer to an INSERT.  It fails with the first fault of the names (`namesFault`), or
  else with that of the `student_no` (`studentNoFault`), and adds `newRow` if there is none.
* `selectAnswer` is the answer to a SELECT.  `answerRows` are its rows: those that match, in the order of the
  ids where the id is compared with a number, and the first one of an equality on `student_no`.
* `answer` puts both together for one table, and `database` for the tables under their names.

Main results:

* `prepareInsert_error`, `checkStudentNo_error`: the checks of `append_insert_row` fail with the faults above.
* `Serving.fullQuery`: the result of a SELECT on a served table has the rows of the answer.
* `Serving.statement_answer`: a served table answers every statement as `database` does, error for error.
-/

namespace MiniSql

open Framing KeyedLogs

/-! ### Answers -/

/-- The first name that no column has, or that is up to case a name `before` it. -/
def namesFault (columns : StringList) : StringList → StringList → Option StorageError
  | _, [] => none
  | before, name :: names =>
      if findColumnIndex columns name = none then some (.insertUnknownColumn name)
      else if ∃ earlier ∈ before, sqlStricmp earlier name = 0 then some (.insertDuplicateColumn name)
      else namesFault columns (name :: before) names

/-- What is wrong with the `student_no` of a new row, in a table that has the column. -/
def studentNoFault (columns : StringList) (rows : List StringList)
    (pairs : List (CString × CString)) : Option StorageError :=
  match findColumnIndex columns studentNoName with
  | none => none
  | some _ =>
      match pairs.find? fun p => decide (sqlStricmp p.1 studentNoName = 0) with
      | none => some .studentNoRequired
      | some (_, value) =>
          if value.bytes = [] then some .studentNoEmpty
          else if value ∈ rows.filterMap (studentNoOf columns) then some .duplicateStudentNo
          else none

/-- The row with the id n, if these are the pairs it is inserted with. -/
def newRow (columns : StringList) (pairs : List (CString × CString)) (n : ℕ) : StringList :=
  (List.range columns.length).map fun i =>
    if findColumnIndex columns idName = some i then decimalText (UInt64.ofNat n)
    else ((pairs.find? fun p => decide (findColumnIndex columns p.1 = some i)).map Prod.snd).getD
      CString.empty

/-- The answer to an INSERT into a table with these rows. -/
def insertAnswer (schema : Except StorageError StringList) (statement : InsertStatement)
    (rows : List StringList) : Except StorageError InsertResult :=
  if statement.columns.length ≠ statement.values.length then .error .insertCounts
  else
    match schema with
    | .error e => .error e
    | .ok columns =>
        match (namesFault columns [] statement.columns).or
            (studentNoFault columns rows statement.pairs) with
        | some e => .error e
        | none => .ok ⟨1, columns, newRow columns statement.pairs (lastId columns rows + 1)⟩

/-- The id of a row as a number. -/
def idKey (columns : StringList) (row : StringList) : ℕ :=
  ((idOf columns row).map UInt64.toNat).getD 0

/-- The rows in ascending order of their ids. -/
def inIdOrder (columns : StringList) (rows : List StringList) : List StringList :=
  rows.insertionSort fun row row' => idKey columns row ≤ idKey columns row'

/-- The rows a SELECT is about: those that match, and of an equality on `student_no` the first one.  The
answer to a comparison of the id with a number is in the order of the ids. -/
def answerRows (columns : StringList) (statement : SelectStatement) (rows : List StringList) :
    List StringList :=
  if ∃ w ∈ statement.where_, w.op = .equal ∧ sqlStricmp w.column studentNoName = 0 then
    (rows.find? (whereHolds columns statement.where_)).toList
  else if ∃ w ∈ statement.where_, sqlStricmp w.column idName = 0 ∧ parseU64Strict w.value ≠ none then
    inIdOrder columns (matchingRows columns statement rows)
  else matchingRows columns statement rows

/-- The answer to a SELECT on a table with these rows. -/
def selectAnswer (schema : Except StorageError StringList) (statement : SelectStatement)
    (rows : List StringList) : SelectOutcome :=
  match schema with
  | .error e => .error e
  | .ok columns =>
      if ∃ w ∈ statement.where_, findColumnIndex columns w.column = none then .error .linearScanPath
      else
        match (if statement.selectAll then [] else statement.columns).find? fun name =>
            decide (findColumnIndex columns name = none) with
        | some name => .error (.selectUnknownColumn name)
        | none =>
            let positions := selectedPositions columns statement
            .ok ⟨positions.map fun i => columns.getD i CString.empty,
              (answerRows columns statement rows).map (project positions)⟩

/-- The answer to a statement about a table with these rows. -/
def answer (schema : QualifiedName → Except StorageError StringList) (statement : Statement)
    (rows : List StringList) : Outcome :=
  match statement with
  | .insert statement => .inserted (insertAnswer (schema statement.target) statement rows)
  | .select statement => .selected (selectAnswer (schema statement.source) statement rows)

/-- The tables as logs of rows under their names. -/
def database (schema : QualifiedName → Except StorageError StringList) :
    Service QualifiedName StringList Statement Outcome where
  key := Statement.name
  answer := answer schema
  added := fun statement rows => (answer schema statement rows).row.toList

theorem database_step_self (schema : QualifiedName → Except StorageError StringList)
    (statement : Statement) (rows : QualifiedName → List StringList) :
    (database schema).step statement rows statement.name =
      rows statement.name ++ (answer schema statement (rows statement.name)).row.toList :=
  Service.step_self statement rows

theorem database_step_of_ne (schema : QualifiedName → Except StorageError StringList)
    {statement : Statement} {name : QualifiedName} (h : statement.name ≠ name)
    (rows : QualifiedName → List StringList) :
    (database schema).step statement rows name = rows name := Service.step_of_ne h rows

/-- The schema files as the schemas of a database. -/
def schemaOf (dbRoot : CString) (files : FileSystem) (name : QualifiedName) :
    Except StorageError StringList :=
  (loadTableDefinition dbRoot files name).map TableDefinition.columns

/-! ### INSERT -/

section Insert

variable {columns : StringList} {pairs : List (CString × CString)}

/-- The column loop fails with the first fault of the names. -/
theorem assignColumns_error {before : StringList} {assigned : List Bool} {ordered : StringList}
    (hlen : assigned.length = columns.length)
    (hbefore : ∀ i, assigned.getD i false = true ↔ ∃ c ∈ before, findColumnIndex columns c = some i)
    (e : StorageError) :
    assignColumns columns pairs assigned ordered = .error e ↔
      namesFault columns before (pairs.map Prod.fst) = some e := by
  induction pairs generalizing before assigned ordered with
  | nil => simp [assignColumns, namesFault]
  | cons p pairs ih =>
    obtain ⟨name, value⟩ := p
    rw [List.map_cons, namesFault]
    dsimp only
    cases htarget : findColumnIndex columns name with
    | none =>
      rw [assignColumns, htarget, if_pos rfl]
      dsimp only
      rw [Except.error.injEq, Option.some_inj]
    | some target =>
      have hnamed : (∃ earlier ∈ before, sqlStricmp earlier name = 0) ↔
          assigned.getD target false = true := by
        rw [hbefore]
        refine exists_congr fun c => and_congr_right fun _ => ?_
        rw [← htarget, eq_comm (b := findColumnIndex columns name),
          findColumnIndex_inj (by rw [htarget]; simp), sqlStricmp_eq_zero, sqlStricmp_eq_zero, eq_comm]
      rw [if_neg (by simp)]
      by_cases hfree : assigned.getD target false = true
      · rw [assignColumns, htarget, if_pos (hnamed.mpr hfree)]
        dsimp only
        rw [if_pos hfree, Except.error.injEq, Option.some_inj]
      · rw [if_neg fun h => hfree (hnamed.mp h),
          assignColumns_cons htarget (Bool.eq_false_iff.mpr hfree)]
        have hlt : target < assigned.length := by
          rw [hlen]
          exact findColumnIndex_lt htarget
        refine ih (by rw [List.length_set, hlen]) fun i => ?_
        rw [getD_set_true hlt, hbefore, List.exists_mem_cons_iff, htarget, Option.some_inj,
          eq_comm (a := target)]

/-- A row as described by `InsertedRow` is the new row of the database. -/
theorem InsertedRow.eq_newRow {row : StringList} {n : ℕ}
    (h : InsertedRow columns pairs (UInt64.ofNat n) row) : row = newRow columns pairs n := by
  refine List.ext_getElem? fun i => ?_
  rw [newRow, List.getElem?_map]
  by_cases hi : i < columns.length
  · rw [List.getElem?_range hi, Option.map_some]
    by_cases hid : findColumnIndex columns idName = some i
    · rw [if_pos hid, h.id_cell i hid]
    · rw [if_neg hid]
      cases hfind : pairs.find? fun p => decide (findColumnIndex columns p.1 = some i) with
      | none =>
        refine h.other i hi hid fun p hp heq => ?_
        exact List.find?_eq_none.mp hfind p hp (decide_eq_true heq)
      | some p =>
        have hcolumn := List.find?_some hfind
        rw [decide_eq_true_eq] at hcolumn
        refine h.named p (List.mem_of_find?_eq_some hfind) (fun hname => hid ?_) i hcolumn
        rw [← hcolumn]
        exact (findColumnIndex_congr hname columns).symm
  · rw [List.getElem?_eq_none (by rw [h.length]; exact not_lt.mp hi),
      List.getElem?_eq_none (by rw [List.length_range]; exact not_lt.mp hi)]
    rfl

variable {g : Globals} {rows : List StringList}

/-- The `student_no` checks fail with the fault of the `student_no`. -/
theorem checkStudentNo_error {assigned : List Bool} {ordered : StringList}
    (hcolumn : g.activeStudentNoColumn = findColumnIndex columns studentNoName)
    (hset : HasStudentNo columns →
      SetModel g.studentNoSet (rows.filterMap (studentNoOf columns)))
    (hfilled : ColumnsFilled columns pairs (columns.map fun _ => false)
      (columns.map fun _ => CString.empty) assigned ordered) (e : StorageError) :
    checkStudentNo g (findColumnIndex columns studentNoName) assigned ordered = .error e ↔
      studentNoFault columns rows pairs = some e := by
  rw [studentNoFault]
  unfold checkStudentNo
  cases hcol : findColumnIndex columns studentNoName with
  | none => exact ⟨fun h => (by cases h), fun h => (by cases h)⟩
  | some column =>
    have hs : HasStudentNo columns := by
      rw [HasStudentNo, hcol]
      simp
    have hnames : ∀ name, findColumnIndex columns name = some column ↔
        sqlStricmp name studentNoName = 0 := by
      intro name
      rw [← hcol, eq_comm, findColumnIndex_inj (by rw [hcol]; simp), sqlStricmp_eq_zero,
        sqlStricmp_eq_zero, eq_comm]
    have hassigned : assigned.getD column false = true ↔
        ∃ p ∈ pairs, sqlStricmp p.1 studentNoName = 0 := by
      rw [hfilled.assigned]
      simp only [hnames, List.getD_eq_getElem?_getD, List.getElem?_map]
      cases columns[column]? <;> simp
    dsimp only
    cases hfind : pairs.find? fun p => decide (sqlStricmp p.1 studentNoName = 0) with
    | none =>
      have hmissing : ¬assigned.getD column false = true := by
        rw [hassigned]
        rintro ⟨p, hp, hname⟩
        exact List.find?_eq_none.mp hfind p hp (decide_eq_true hname)
      rw [if_pos hmissing, Except.error.injEq, Option.some_inj]
    | some p =>
      obtain ⟨name, value⟩ := p
      have hname := List.find?_some hfind
      rw [decide_eq_true_eq] at hname
      have hmem := List.mem_of_find?_eq_some hfind
      have hid : ¬IsIdName name := by
        rw [IsIdName, sqlStricmp_eq_zero, sqlStricmp_eq_zero.mp hname]
        decide
      have hcell : ordered.getD column CString.empty = value := by
        rw [List.getD_eq_getElem?_getD,
          hfilled.named (name, value) hmem hid column ((hnames name).mpr hname)]
        rfl
      have hstored : (g.activeStudentNoColumn = some column ∧
          studentNoSetContains g.studentNoSet value = true) ↔
          value ∈ rows.filterMap (studentNoOf columns) := by
        rw [(hset hs).contains, decide_eq_true_eq]
        exact and_iff_right (hcolumn.trans hcol)
      rw [if_neg (not_not.mpr (hassigned.mpr ⟨_, hmem, hname⟩)), hcell]
      dsimp only
      by_cases hempty : value.bytes = []
      · rw [if_pos hempty, if_pos hempty, Except.error.injEq, Option.some_inj]
      · rw [if_neg hempty, if_neg hempty]
        by_cases hdup : value ∈ rows.filterMap (studentNoOf columns)
        · rw [if_pos (hstored.mpr hdup), if_pos hdup, Except.error.injEq, Option.some_inj]
        · rw [if_neg fun h => hdup (hstored.mp h), if_neg hdup]
          exact ⟨fun h => (by cases h), fun h => (by cases h)⟩

/-- The checks of `append_insert_row` fail with the first fault of the names, or else with that of the
`student_no`. -/
theorem prepareInsert_error {statement : InsertStatement}
    (hcounts : statement.columns.length = statement.values.length)
    (hid : findColumnIndex columns idName ≠ none)
    (hcolumn : g.activeStudentNoColumn = findColumnIndex columns studentNoName)
    (hset : HasStudentNo columns →
      SetModel g.studentNoSet (rows.filterMap (studentNoOf columns))) (e : StorageError) :
    prepareInsert columns statement g = .error e ↔
      (namesFault columns [] statement.columns).or
        (studentNoFault columns rows statement.pairs) = some e := by
  have hlen : (columns.map fun _ => false).length = columns.length := List.length_map _
  have hlen' : (columns.map fun _ => CString.empty).length = columns.length := List.length_map _
  have hfree : ∀ i, (columns.map fun _ => false).getD i false = true ↔
      ∃ c ∈ ([] : StringList), findColumnIndex columns c = some i := by
    intro i
    rw [List.getD_eq_getElem?_getD, List.getElem?_map]
    cases columns[i]? <;> simp
  obtain ⟨idColumn, hidColumn⟩ := Option.ne_none_iff_exists'.mp hid
  have hnames := @assignColumns_error columns statement.pairs [] _
    (columns.map fun _ => CString.empty) hlen hfree
  rw [pairs_names hcounts] at hnames
  rw [prepareInsert, ← InsertStatement.pairs]
  cases hassign : assignColumns columns statement.pairs (columns.map fun _ => false)
      (columns.map fun _ => CString.empty) with
  | error e' =>
    rw [(hnames e').mp hassign]
    dsimp only
    rw [Except.error.injEq, Option.or, Option.some_inj]
  | ok r =>
    obtain ⟨assigned, ordered⟩ := r
    have hnone : namesFault columns [] statement.columns = none := by
      cases hfault : namesFault columns [] statement.columns with
      | none => rfl
      | some e' =>
        have herror := (hnames e').mpr hfault
        rw [hassign] at herror
        cases herror
    rw [hnone, hidColumn, Option.none_or]
    dsimp only
    rw [← checkStudentNo_error hcolumn hset (assignColumns_filled hlen hlen' hassign)]
    cases checkStudentNo g (findColumnIndex columns studentNoName) assigned ordered with
    | error e' =>
      dsimp only
      rw [Except.error.injEq, Except.error.injEq]
    | ok v => exact ⟨fun h => (by cases h), fun h => (by cases h)⟩

end Insert

/-! ### The order of ids -/

section Order

variable {columns : StringList} {rows found : List StringList} {row row' : StringList}

theorem idKey_eq {id : UInt64} (h : idOf columns row = some id) : idKey columns row = id.toNat := by
  simp [idKey, h]

theorem IdBefore.idKey_lt (h : IdBefore columns row row') :
    idKey columns row < idKey columns row' := by
  obtain ⟨i, j, hi, hj, hlt⟩ := h
  rw [idKey_eq hi, idKey_eq hj]
  exact UInt64.lt_iff_toNat_lt.mp hlt

theorem inIdOrder_perm (columns : StringList) (rows : List StringList) :
    (inIdOrder columns rows).Perm rows := List.perm_insertionSort _ _

theorem inIdOrder_sorted (columns : StringList) (rows : List StringList) :
    (inIdOrder columns rows).Pairwise fun row row' => idKey columns row ≤ idKey columns row' := by
  have htotal : Std.Total fun row row' => idKey columns row ≤ idKey columns row' :=
    ⟨fun row row' => Nat.le_total _ _⟩
  have htrans : IsTrans StringList fun row row' => idKey columns row ≤ idKey columns row' :=
    ⟨fun _ _ _ => Nat.le_trans⟩
  exact List.pairwise_insertionSort _ _

/-- There is only one way to arrange rows in ascending order of their ids. -/
theorem inIdOrder_eq (hperm : found.Perm rows) (hfound : found.Pairwise (IdBefore columns)) :
    found = inIdOrder columns rows := by
  refine List.Perm.eq_of_pairwise ?_ (hfound.imp fun h => h.idKey_lt.le)
    (inIdOrder_sorted columns rows) (hperm.trans (inIdOrder_perm columns rows).symm)
  intro r r' hr hr' hle hle'
  have hmem : r' ∈ found := hperm.mem_iff.mpr ((inIdOrder_perm columns rows).mem_iff.mp hr')
  by_contra hne
  have hapart : found.Pairwise fun a b => idKey columns a ≠ idKey columns b :=
    hfound.imp fun h => h.idKey_lt.ne
  have hsymm : Std.Symm fun a b : StringList => idKey columns a ≠ idKey columns b :=
    ⟨fun _ _ h => h.symm⟩
  exact hapart.forall hr hmem hne (le_antisymm hle hle')

end Order

/-! ### SELECT -/

section Select

/-- The column loop fails with the first selected name that no column has. -/
theorem selectedIndexes_eq_error {columns names : StringList} {name : CString}
    (h : (names.find? fun c => decide (findColumnIndex columns c = none)) = some name) :
    selectedIndexes columns names = .error (.selectUnknownColumn name) := by
  induction names with
  | nil => cases h
  | cons c names ih =>
    rw [List.find?_cons] at h
    rw [selectedIndexes]
    cases hc : findColumnIndex columns c with
    | none =>
      rw [hc] at h
      obtain rfl := Option.some.inj h
      rfl
    | some i =>
      rw [hc] at h
      dsimp only
      rw [ih h]

variable {uninit : ℕ → UInt32} {dbRoot : CString} {table : TableDefinition} {rows : List StringList}
  {b : IndexBuild} {s : State}

/-- Rows within the limits of the reader can be read up to any of them. -/
theorem readableToMatch_of_readable {p : StringList → Bool} (h : ∀ row ∈ rows, Readable row) :
    ReadableToMatch p rows := by
  induction rows with
  | nil => trivial
  | cons row rows ih =>
    obtain ⟨hrow, hrows⟩ := List.forall_mem_cons.mp h
    exact ⟨hrow, Or.inr (ih hrows)⟩

/-- The linear path for an equality on `student_no` finds the first match. -/
theorem Serving.first_student (uninit : ℕ → UInt32) (h : Serving dbRoot table rows b s)
    (hwidth : ∀ row ∈ rows, row.length = table.columns.length)
    (hactive : s.globals.activeTable = some table) {statement : SelectStatement} {w : WhereClause}
    (hw : statement.where_ = some w) (hop : w.op = .equal)
    (hcolumn : sqlStricmp w.column studentNoName = 0)
    (hexists : findColumnIndex table.columns w.column ≠ none) :
    runSelectLinear uninit s statement [] =
      some (0, (rows.find? (whereHolds table.columns statement.where_)).toList) := by
  obtain ⟨i, hi⟩ := Option.ne_none_iff_exists'.mp hexists
  have hstudent : findColumnIndex table.columns studentNoName = some i := by
    rw [← findColumnIndex_congr hcolumn, hi]
  have htest : endsScan i w true = whereHolds table.columns statement.where_ := by
    funext row
    rw [hw]
    show (true && _) = whereValueMatches (cell table.columns w.column row) w.value w.op
    rw [cell, hi]
    rfl
  have hwide : ∀ row ∈ rows, i < row.length := by
    intro row hr
    rw [hwidth row hr]
    exact findColumnIndex_lt hi
  obtain ⟨hscan, -⟩ := @scan_early_stop uninit i w _ _ _ h.file hwide
  rw [runSelectLinear_student hactive h.path hw hop hcolumn hstudent
    (hscan (readableToMatch_of_readable h.readable)), htest]
  rfl

/-- The full result of a SELECT on a served table: the rows of the answer. -/
theorem Serving.fullQuery (uninit : ℕ → UInt32) (h : Serving dbRoot table rows b s)
    (hwidth : ∀ row ∈ rows, row.length = table.columns.length)
    (hactive : s.globals.activeTable = some table) {statement : SelectStatement}
    (hwhere : ¬∃ w ∈ statement.where_, findColumnIndex table.columns w.column = none) :
    runFullQuery uninit s statement = some (.ok (answerRows table.columns statement rows)) := by
  rw [answerRows]
  by_cases hstudent : OnStudentNo statement
  · obtain ⟨w, hw, hop, hcolumn⟩ := hstudent
    have hindex : ¬OnIdIndex statement := by
      rintro ⟨w', hw', hid, -⟩
      obtain rfl := Option.some.inj (hw.symm.trans hw')
      rw [sqlStricmp_eq_zero] at hcolumn hid
      rw [hcolumn] at hid
      exact absurd hid (by decide)
    obtain ⟨hequal, hrange⟩ := not_onIdIndex_predicates hindex
    rw [if_pos ⟨w, hw, hop, hcolumn⟩, runFullQuery, hequal]
    dsimp only
    rw [hrange]
    dsimp only
    rw [h.first_student uninit hwidth hactive hw hop hcolumn fun hnone => hwhere ⟨w, hw, hnone⟩]
    rfl
  · have hcolumns : ∀ w ∈ statement.where_, ColumnExists table.columns w.column := fun w hw =>
      findColumnIndex_ne_none.mp fun hnone => hwhere ⟨w, hw, hnone⟩
    obtain ⟨found, hfull, hperm, hlinear, hsorted⟩ :=
      (h.scanned uninit).fullQuery hwidth hactive hstudent hcolumns
    have hno : ¬∃ w ∈ statement.where_, w.op = .equal ∧ sqlStricmp w.column studentNoName = 0 :=
      hstudent
    rw [if_neg hno, hfull]
    by_cases hindex : OnIdIndex statement
    · have hyes : ∃ w ∈ statement.where_,
          sqlStricmp w.column idName = 0 ∧ parseU64Strict w.value ≠ none := hindex
      rw [if_pos hyes, inIdOrder_eq hperm (hsorted hindex)]
    · have hnone : ¬∃ w ∈ statement.where_,
          sqlStricmp w.column idName = 0 ∧ parseU64Strict w.value ≠ none := hindex
      rw [if_neg hnone, hlinear hindex]

theorem answerRows_mem {columns : StringList} {statement : SelectStatement} {row : StringList}
    (h : row ∈ answerRows columns statement rows) : row ∈ rows := by
  rw [answerRows] at h
  split at h
  · exact List.mem_of_find?_eq_some (Option.mem_toList.mp h)
  · split at h
    · exact List.mem_of_mem_filter ((inIdOrder_perm _ _).mem_iff.mp h)
    · exact List.mem_of_mem_filter h

/-- A SELECT on a served table gives the answer of the database. -/
theorem Serving.select_answer (uninit : ℕ → UInt32) (h : Serving dbRoot table rows b s)
    (hwidth : ∀ row ∈ rows, row.length = table.columns.length) {statement : SelectStatement}
    (hactive : s.globals.activeTable = some table) :
    selectFromTable uninit table statement s = selectAnswer (.ok table.columns) statement rows := by
  rw [selectAnswer]
  dsimp only
  by_cases hwhere : ∃ w ∈ statement.where_, findColumnIndex table.columns w.column = none
  · have hmissing : ¬∀ w ∈ statement.where_, ColumnExists table.columns w.column := by
      obtain ⟨w, hw, hnone⟩ := hwhere
      exact fun hall => findColumnIndex_ne_none.mpr (hall w hw) hnone
    rw [if_pos hwhere, selectFromTable, fullQuery_unknown uninit h.id_column hactive hmissing]
  · rw [if_neg hwhere, selectFromTable, h.fullQuery uninit hwidth hactive hwhere]
    dsimp only
    cases hfind : (if statement.selectAll then [] else statement.columns).find? fun name =>
        decide (findColumnIndex table.columns name = none) with
    | some name =>
      cases hall : statement.selectAll with
      | true =>
        rw [hall] at hfind
        cases hfind
      | false =>
        rw [hall, if_neg (by decide)] at hfind
        rw [if_neg (by decide), selectedIndexes_eq_error hfind]
    | none =>
      have hnames : statement.selectAll = false →
          ∀ c ∈ statement.columns, ColumnExists table.columns c := by
        intro hall c hc
        rw [hall, if_neg (by decide)] at hfind
        have hfound := List.find?_eq_none.mp hfind c hc
        rw [decide_eq_true_eq] at hfound
        exact findColumnIndex_ne_none.mp hfound
      have hpositions : (if statement.selectAll then
          (Except.ok (List.range table.columns.length) : Except StorageError (List ℕ))
          else selectedIndexes table.columns statement.columns) =
          .ok (selectedPositions table.columns statement) := by
        rw [selectedPositions]
        cases hall : statement.selectAll with
        | true => rfl
        | false =>
          rw [if_neg (by decide), if_neg (by decide)]
          exact selectedIndexes_eq (hnames hall)
      rw [hpositions]
      dsimp only
      rw [projectRows_eq fun row hr i hi => by
        rw [hwidth row (answerRows_mem hr)]
        exact selectedPositions_lt hnames i hi]

end Select

/-! ### A served table -/

/-- **One statement.**  A statement within the limits of the reader gets from a served table the answer of
the database. -/
theorem Serving.statement_answer (uninit : ℕ → UInt32) {dbRoot : CString} {table : TableDefinition}
    {rows : List StringList} {b : IndexBuild} {s : State} (h : Serving dbRoot table rows b s)
    (hmax : s.globals.nextIdCounter = b.maxId)
    (hwidth : ∀ row ∈ rows, row.length = table.columns.length) {statement : Statement}
    (hname : statement.name = table.name) (hlimits : InReaderLimits table statement)
    (hcounter : drawnId table statement s ≠ none → s.globals.nextIdCounter ≠ uint64Max)
    {schema : QualifiedName → Except StorageError StringList}
    (hschema : schema statement.name = .ok table.columns) :
    (executeStatement uninit dbRoot statement s).1 = answer schema statement rows := by
  cases statement with
  | select statement =>
    have hsource : statement.source = table.name := hname
    have hcolumns : schema statement.source = .ok table.columns := hschema
    have hanswer : selectFromTable uninit table statement (withActive table s) =
        selectAnswer (.ok table.columns) statement rows :=
      (h.setActive (some table)).select_answer uninit hwidth rfl
    rw [executeStatement, answer, h.onTable.select_eq hsource, hcolumns, ← hanswer]
  | insert statement =>
    have htarget : statement.target = table.name := hname
    have hcolumns : schema statement.target = .ok table.columns := hschema
    rw [executeStatement, answer, hcolumns, insertAnswer]
    dsimp only
    by_cases hcounts : statement.columns.length ≠ statement.values.length
    · rw [h.onTable.insert_eq htarget, if_pos hcounts, if_pos hcounts]
    · have hset := fun hs => (h.filled hs).set
      have hfault := prepareInsert_error (not_not.mp hcounts) h.id_column h.student_column hset
      rw [if_neg hcounts]
      cases hprepared : prepareInsert table.columns statement s.globals with
      | error e =>
        rw [(hfault e).mp hprepared, h.onTable.insert_eq htarget, if_neg hcounts, insertIntoTable]
        have hsame : prepareInsert table.columns statement (withActive table s).globals = .error e :=
          hprepared
        rw [hsame]
      | ok plan =>
        have hnone : (namesFault table.columns [] statement.columns).or
            (studentNoFault table.columns rows statement.pairs) = none := by
          cases hsome : (namesFault table.columns [] statement.columns).or
              (studentNoFault table.columns rows statement.pairs) with
          | none => rfl
          | some e =>
            have herror := (hfault e).mpr hsome
            rw [hprepared] at herror
            cases herror
        have hplanned := plannedRow_of_plan (not_not.mp hcounts) hprepared
        obtain ⟨hreadable, -, hnew⟩ := h.planned_new hmax hlimits hcounter hplanned
        obtain ⟨b', -, -, heq⟩ := h.accept uninit htarget hplanned hreadable.writable hnew
        have hlast := h.built.lastId
        rw [← hmax] at hlast
        have hdraws : drawnId table (.insert statement) s ≠ none := by
          rw [drawnId, hplanned]
          simp
        have hid : nextId s.globals.nextIdCounter =
            UInt64.ofNat (lastId table.columns rows + 1) := by
          rw [← hlast, ← nextId_toNat (hcounter hdraws), UInt64.ofNat_toNat]
        have hrow := prepareInsert_row hprepared (nextId s.globals.nextIdCounter)
        rw [hid] at hrow
        rw [heq, hnone, hid, hrow.eq_newRow]

end MiniSql
