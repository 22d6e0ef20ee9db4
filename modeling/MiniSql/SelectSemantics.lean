import MiniSql.Coherence
import MiniSql.IndexWalk

/-!
# What a SELECT returns

The meaning of a SELECT on a list of stored rows, and the three ways `run_select_query` has to find them.

* `matchingRows` are the rows a SELECT is about, in the order they are stored; `selectedPositions` and
  `project` are its columns.
* `Agrees` is the reference: when it succeeds, which rows it returns, and in which order.
* `Scanned`: the data file of the active table reads as these rows, and the index and the `student_no` set
  hold them.

Main results:

* `Scanned.linear`, `Scanned.found` and `Scanned.fullQuery`: the lookup by id, the walk over a range of ids
  and the linear scan all find the matching rows; the two ways through the index find them in ascending order
  of the ids.
* `onIdIndex_predicates`, `not_onIdIndex_predicates`: which way a SELECT goes.
* `Scanned.agrees`: a SELECT agrees with the reference, and `select_refines_reference`: so it does after any
  statements behind an activation that scanned a file of encoded rows of full width.
* `select_after_failed_scan`: behind a scan that failed, the early return leaves an index with two of three
  rows, and that is what a range of ids returns.
-/

namespace MiniSql

open Framing

/-! ### The reference -/

/-- The value of a row in the column with this name. -/
def cell (columns : StringList) (name : CString) (row : StringList) : CString :=
  row.getD ((findColumnIndex columns name).getD 0) CString.empty

/-- The row satisfies the WHERE clause, if there is one. -/
def whereHolds (columns : StringList) (where_ : Option WhereClause) (row : StringList) : Bool :=
  match where_ with
  | none => true
  | some w => whereValueMatches (cell columns w.column row) w.value w.op

/-- The positions of the selected columns, in the order of the select list. -/
def selectedPositions (columns : StringList) (statement : SelectStatement) : List ℕ :=
  if statement.selectAll then List.range columns.length
  else statement.columns.map fun c => (findColumnIndex columns c).getD 0

def project (positions : List ℕ) (row : StringList) : StringList :=
  positions.map fun i => row.getD i CString.empty

/-- The rows a SELECT is about, in the order they are stored. -/
def matchingRows (columns : StringList) (statement : SelectStatement) (rows : List StringList) :
    List StringList :=
  rows.filter (whereHolds columns statement.where_)

def referenceRows (columns : StringList) (statement : SelectStatement) (rows : List StringList) :
    List StringList :=
  (matchingRows columns statement rows).map (project (selectedPositions columns statement))

/-- Every column a SELECT names exists. -/
def NamesExist (columns : StringList) (statement : SelectStatement) : Prop :=
  (statement.selectAll = false → ∀ c ∈ statement.columns, ColumnExists columns c) ∧
    ∀ w ∈ statement.where_, ColumnExists columns w.column

/-- The predicate compares the id with a number. -/
def OnIdIndex (statement : SelectStatement) : Prop :=
  ∃ w ∈ statement.where_, sqlStricmp w.column idName = 0 ∧ parseU64Strict w.value ≠ none

/-- The predicate is an equality on `student_no`. -/
def OnStudentNo (statement : SelectStatement) : Prop :=
  ∃ w ∈ statement.where_, w.op = .equal ∧ sqlStricmp w.column studentNoName = 0

/-- The id of the first row is the smaller one. -/
def IdBefore (columns : StringList) (row row' : StringList) : Prop :=
  ∃ i j, idOf columns row = some i ∧ idOf columns row' = some j ∧ i < j

/-- The outcome of a SELECT is the one the reference semantics gives on the stored rows. -/
structure Agrees (columns : StringList) (statement : SelectStatement) (rows : List StringList)
    (outcome : SelectOutcome) : Prop where
  succeeds : (∃ result, outcome = .ok result) ↔ NamesExist columns statement
  no_fault : outcome ≠ .fault
  scan : ¬OnIdIndex statement → ∀ result, outcome = .ok result →
    result.rows = referenceRows columns statement rows
  by_id : OnIdIndex statement → ∀ result, outcome = .ok result →
    ∃ found : List StringList, found.Perm (matchingRows columns statement rows) ∧
      found.Pairwise (IdBefore columns) ∧
      result.rows = found.map (project (selectedPositions columns statement))
  in_file_order : OnIdIndex statement → rows.Pairwise (IdBefore columns) →
    ∀ result, outcome = .ok result → result.rows = referenceRows columns statement rows

/-! ### Projection -/

/-- The column loop finds the positions, or reports the first column that does not exist. -/
theorem selectedIndexes_eq {columns names : StringList} (h : ∀ c ∈ names, ColumnExists columns c) :
    selectedIndexes columns names =
      .ok (names.map fun c => (findColumnIndex columns c).getD 0) := by
  induction names with
  | nil => rfl
  | cons name names ih =>
    obtain ⟨i, hi, -⟩ := findColumnIndex_exists (h name List.mem_cons_self)
    rw [selectedIndexes, hi, ih fun c hc => h c (List.mem_cons_of_mem name hc), List.map_cons, hi]
    rfl

theorem selectedIndexes_error {columns names : StringList}
    (h : ¬∀ c ∈ names, ColumnExists columns c) :
    ∃ e, selectedIndexes columns names = .error e := by
  induction names with
  | nil => exact absurd (by simp) h
  | cons name names ih =>
    rw [selectedIndexes]
    cases hname : findColumnIndex columns name with
    | none => exact ⟨_, rfl⟩
    | some i =>
      have hexists : ColumnExists columns name := findColumnIndex_ne_none.mp (by rw [hname]; simp)
      have hrest : ¬∀ c ∈ names, ColumnExists columns c := by
        intro hall
        apply h
        intro c hc
        rcases List.mem_cons.mp hc with rfl | hc
        · exact hexists
        · exact hall c hc
      obtain ⟨e, he⟩ := ih hrest
      dsimp only
      rw [he]
      exact ⟨e, rfl⟩

theorem projectRow_eq {row : StringList} {positions : List ℕ} (h : ∀ i ∈ positions, i < row.length) :
    projectRow row positions = .ok (project positions row) := by
  induction positions with
  | nil => rfl
  | cons i positions ih =>
    have hi := h i List.mem_cons_self
    rw [projectRow, List.getElem?_eq_getElem hi]
    dsimp only
    rw [ih fun j hj => h j (List.mem_cons_of_mem i hj), project, project, List.map_cons,
      List.getD_eq_getElem _ _ hi]

theorem projectRows_eq {rows : List StringList} {positions : List ℕ}
    (h : ∀ row ∈ rows, ∀ i ∈ positions, i < row.length) :
    projectRows positions rows = .ok (rows.map (project positions)) := by
  induction rows with
  | nil => rfl
  | cons row rows ih =>
    rw [projectRows, projectRow_eq (h row List.mem_cons_self)]
    dsimp only
    rw [ih fun r hr => h r (List.mem_cons_of_mem row hr), List.map_cons]

theorem selectedPositions_lt {columns : StringList} {statement : SelectStatement}
    (h : statement.selectAll = false → ∀ c ∈ statement.columns, ColumnExists columns c) :
    ∀ i ∈ selectedPositions columns statement, i < columns.length := by
  intro i hi
  rw [selectedPositions] at hi
  cases hall : statement.selectAll with
  | true =>
    rw [hall, if_pos rfl] at hi
    exact List.mem_range.mp hi
  | false =>
    rw [hall, if_neg (by decide)] at hi
    obtain ⟨c, hc, rfl⟩ := List.mem_map.mp hi
    obtain ⟨j, hj, hlt⟩ := findColumnIndex_exists (h hall c hc)
    rw [hj]
    exact hlt

/-! ### The linear scan -/

/-- A callback that keeps some rows and never stops. -/
theorem foldRows_keep {cb : RowCallback (List StringList)} {p : StringList → Bool}
    {rows : List (RowRef × StringList)}
    (hcb : ∀ e ∈ rows, ∀ out, cb e.1 e.2 out = some (0, if p e.2 then out ++ [e.2] else out))
    (out : List StringList) :
    foldRows cb rows out = some (none, out ++ (rows.map Prod.snd).filter p) := by
  induction rows generalizing out with
  | nil => rw [foldRows, List.map_nil, List.filter_nil, List.append_nil]
  | cons e rows ih =>
    obtain ⟨ref, row⟩ := e
    have hrest := ih fun e he => hcb e (List.mem_cons_of_mem _ he)
    have hthis := hcb (ref, row) List.mem_cons_self out
    dsimp only at hthis
    rw [foldRows, hthis]
    dsimp only
    rw [if_neg (by omega), if_neg (by omega), hrest, List.map_cons, List.filter_cons]
    cases p row with
    | true => rw [if_pos rfl, if_pos rfl, List.append_assoc]; rfl
    | false => rw [if_neg (by decide), if_neg (by decide)]

section Serving

variable {uninit : ℕ → UInt32} {dbRoot : CString} {table : TableDefinition} {rows : List StringList}
  {b : IndexBuild} {s : State}

/-- The data file of the active table, whatever its bytes, reads as `rows`, and the index and the
`student_no` set hold these rows. -/
structure Scanned (uninit : ℕ → UInt32) (table : TableDefinition) (rows : List StringList)
    (s : State) : Prop where
  path : s.globals.activeDataPath = some table.dataPath
  stored : ∃ content entries, s.files table.dataPath = some content ∧
    scannedRows uninit content = (entries, true) ∧ entries.map Prod.snd = rows ∧
    CacheModel table.columns entries s.globals.index s.globals.studentNoSet

theorem Serving.scanned (uninit : ℕ → UInt32) (h : Serving dbRoot table rows b s) :
    Scanned uninit table rows s :=
  ⟨h.path, _, _, h.file, scannedRows_encoded uninit h.readable, located_map_snd .., h.caches⟩

theorem Scanned.scan (h : Scanned uninit table rows s) {cb : RowCallback (List StringList)}
    {p : StringList → Bool}
    (hcb : ∀ row ∈ rows, ∀ ref out, cb ref row out = some (0, if p row then out ++ [row] else out)) :
    binaryReaderScanAll uninit s.globals.activeDataPath s.files cb [] = some (0, rows.filter p) := by
  obtain ⟨content, entries, hfile, hscan, rfl, -⟩ := h.stored
  rw [h.path, binaryReaderScanAll_eq uninit hfile, hscan,
    foldRows_keep (fun e he out => hcb e.2 (List.mem_map_of_mem he) e.1 out), List.nil_append]
  rfl

/-- The linear path keeps the rows that satisfy the predicate, in file order. -/
theorem Scanned.linear (h : Scanned uninit table rows s)
    (hwidth : ∀ row ∈ rows, row.length = table.columns.length) {statement : SelectStatement}
    (hactive : s.globals.activeTable = some table) (hstudent : ¬OnStudentNo statement)
    (hwhere : ∀ w ∈ statement.where_, ColumnExists table.columns w.column) :
    runSelectLinear uninit s statement [] =
      some (0, matchingRows table.columns statement rows) := by
  rw [runSelectLinear, hactive, matchingRows]
  cases hw : statement.where_ with
  | none =>
    have hcb : ∀ row ∈ rows, ∀ ref out, linearScanCallback none false ref row out =
        some (0, if whereHolds table.columns none row then out ++ [row] else out) := by
      intro row _ ref out
      rfl
    dsimp only
    rw [h.scan hcb]
    rfl
  | some w =>
    obtain ⟨i, hi, hlt⟩ := findColumnIndex_exists (hwhere w hw)
    have hstop : (decide (w.op = .equal) && decide (sqlStricmp w.column studentNoName = 0)) =
        false := by
      rw [Bool.and_eq_false_iff]
      by_contra hboth
      rw [not_or, Bool.not_eq_false, Bool.not_eq_false, decide_eq_true_eq, decide_eq_true_eq] at hboth
      exact hstudent ⟨w, hw, hboth⟩
    dsimp only
    rw [hi]
    dsimp only
    rw [hstop]
    have hcb : ∀ row ∈ rows, ∀ ref out, linearScanCallback (some (i, w)) false ref row out =
        some (0, if whereHolds table.columns (some w) row then out ++ [row] else out) := by
      intro row hr ref out
      have hcell : i < row.length := by
        rw [hwidth row hr]
        exact hlt
      rw [linearScanCallback, whereHolds, cell, hi, List.getElem?_eq_getElem hcell, Option.getD_some,
        List.getD_eq_getElem _ _ hcell]
      dsimp only
      cases whereValueMatches row[i] w.value w.op <;> rfl
    rw [h.scan hcb]
    rfl

/-- A WHERE column that does not exist makes the linear path fail. -/
theorem linear_unknown {statement : SelectStatement} (hactive : s.globals.activeTable = some table)
    {w : WhereClause} (hw : statement.where_ = some w) (hno : ¬ColumnExists table.columns w.column) :
    runSelectLinear uninit s statement [] = some (-1, []) := by
  have hnone : findColumnIndex table.columns w.column = none := by
    by_contra hne
    exact hno (findColumnIndex_ne_none.mp hne)
  rw [runSelectLinear, hactive, hw]
  dsimp only
  rw [hnone]

/-! ### The index -/

/-- The row an offset stands for. -/
def rowOf (uninit : ℕ → UInt32) (s : State) (ref : RowRef) : StringList :=
  (binaryReaderReadRowAt uninit s.globals.activeDataPath s.files ref).2

/-- The rows behind the bindings whose id satisfies `p` are the stored rows whose id satisfies it. -/
theorem bindings_filter (columns : StringList) {entries : List (RowRef × StringList)}
    {read : RowRef → StringList} (p : UInt64 → Bool)
    (hread : ∀ e ∈ entries, read e.1 = e.2) (hids : ∀ e ∈ entries, ∃ id, idOf columns e.2 = some id) :
    ((bindingsOf columns entries).filter fun e => p e.1).map (fun e => read e.2) =
      (entries.map Prod.snd).filter fun row => (idOf columns row).any p := by
  induction entries with
  | nil => rfl
  | cons e entries ih =>
    obtain ⟨ref, row⟩ := e
    have hrest := ih (fun e he => hread e (List.mem_cons_of_mem _ he))
      (fun e he => hids e (List.mem_cons_of_mem _ he))
    have hrow : read ref = row := hread (ref, row) List.mem_cons_self
    obtain ⟨id, hid⟩ := hids (ref, row) List.mem_cons_self
    dsimp only at hid
    have hbind : bindingsOf columns ((ref, row) :: entries) =
        (id, ref) :: bindingsOf columns entries := by
      rw [bindingsOf, List.filterMap_cons, hid]
      rfl
    rw [hbind, List.filter_cons, List.map_cons, List.filter_cons, hid, Option.any_some]
    cases p id with
    | true => rw [if_pos rfl, if_pos rfl, List.map_cons, hrest, hrow]
    | false => rw [if_neg (by decide), if_neg (by decide), hrest]

/-- The bindings of the index are the ids of the rows, with offsets at which the rows are read. -/
theorem Scanned.bindings (h : Scanned uninit table rows s) :
    ∃ es, IndexModel s.globals.index es ∧
      (∀ e ∈ es, ∃ row ∈ rows, idOf table.columns row = some e.1 ∧
        binaryReaderReadRowAt uninit s.globals.activeDataPath s.files e.2 = (0, row)) ∧
      ∀ p : UInt64 → Bool, ((es.filter fun e => p e.1).map fun e => rowOf uninit s e.2).Perm
        (rows.filter fun row => (idOf table.columns row).any p) := by
  obtain ⟨content, entries, hfile, hscan, rfl, hcaches⟩ := h.stored
  obtain ⟨es, hm, hperm⟩ := hcaches.index
  have hread : ∀ e ∈ entries,
      binaryReaderReadRowAt uninit s.globals.activeDataPath s.files e.1 = (0, e.2) := by
    intro e he
    rw [h.path]
    exact binaryReaderReadRowAt_scanned hfile (by rw [hscan]; exact he)
  refine ⟨es, hm, ?_, ?_⟩
  · intro e he
    obtain ⟨row, hmem, hid⟩ := mem_bindingsOf.mp (hperm.mem_iff.mp he)
    exact ⟨row, List.mem_map_of_mem hmem, hid, hread _ hmem⟩
  · intro p
    have hrows : ∀ e ∈ entries, rowOf uninit s e.1 = e.2 := by
      intro e he
      rw [rowOf, hread e he]
    rw [← bindings_filter table.columns p hrows hcaches.ids]
    exact (hperm.filter _).map _

/-- With rows of full width the id paths read every row behind a binding. -/
theorem Scanned.index_bindings (h : Scanned uninit table rows s)
    (hwidth : ∀ row ∈ rows, row.length = table.columns.length) :
    ∃ es, IndexModel s.globals.index es ∧
      (∀ e ∈ es, ∀ out, appendRowByRef uninit s table e.2 out = (0, out ++ [rowOf uninit s e.2])) ∧
      (∀ e ∈ es, idOf table.columns (rowOf uninit s e.2) = some e.1) ∧
      ∀ p : UInt64 → Bool, ((es.filter fun e => p e.1).map fun e => rowOf uninit s e.2).Perm
        (rows.filter fun row => (idOf table.columns row).any p) := by
  obtain ⟨es, hm, hentries, hperm⟩ := h.bindings
  refine ⟨es, hm, ?_, ?_, hperm⟩
  · intro e he out
    obtain ⟨row, hrow, -, hat⟩ := hentries e he
    rw [appendRowByRef, rowOf, hat]
    dsimp only
    rw [if_neg (by omega), if_neg (not_not.mpr (hwidth row hrow))]
  · intro e he
    obtain ⟨row, -, hid, hat⟩ := hentries e he
    rw [rowOf, hat]
    exact hid

/-- Every stored row has an id. -/
theorem Scanned.ids (h : Scanned uninit table rows s) :
    ∀ row ∈ rows, ∃ id, idOf table.columns row = some id := by
  obtain ⟨content, entries, -, -, rfl, hcaches⟩ := h.stored
  intro row hrow
  obtain ⟨e, he, rfl⟩ := List.mem_map.mp hrow
  exact hcaches.ids e he

/-- A comparison of the id with a number looks at the id of the row. -/
theorem Scanned.whereHolds_id (h : Scanned uninit table rows s) {w : WhereClause} {id : UInt64}
    (hcolumn : sqlStricmp w.column idName = 0) (hvalue : parseU64Strict w.value = some id)
    {row : StringList} (hrow : row ∈ rows) :
    whereHolds table.columns (some w) row =
      (idOf table.columns row).any fun key => idMatches w.op key id := by
  obtain ⟨key, hkey⟩ := h.ids row hrow
  rw [hkey, Option.any_some]
  rw [idOf] at hkey
  obtain ⟨column, hcol, hcell⟩ := Option.bind_eq_some_iff.mp hkey
  obtain ⟨text, htext, hparse⟩ := Option.bind_eq_some_iff.mp hcell
  show whereValueMatches (cell table.columns w.column row) w.value w.op = _
  rw [cell, findColumnIndex_congr hcolumn, hcol, Option.getD_some, List.getD_eq_getElem?_getD, htext,
    Option.getD_some]
  exact whereValueMatches_of_numbers hparse hvalue w.op

/-- What both ways through the index find. -/
theorem Scanned.found (h : Scanned uninit table rows s)
    (hwidth : ∀ row ∈ rows, row.length = table.columns.length) {statement : SelectStatement}
    {w : WhereClause} {id : UInt64} (hw : statement.where_ = some w)
    (hcolumn : sqlStricmp w.column idName = 0) (hvalue : parseU64Strict w.value = some id) :
    ∃ es, IndexModel s.globals.index es ∧
      (∀ e ∈ es, ∀ out, appendRowByRef uninit s table e.2 out = (0, out ++ [rowOf uninit s e.2])) ∧
      ((es.filter fun e => idMatches w.op e.1 id).map fun e => rowOf uninit s e.2).Perm
        (matchingRows table.columns statement rows) ∧
      ((es.filter fun e => idMatches w.op e.1 id).map fun e => rowOf uninit s e.2).Pairwise
        (IdBefore table.columns) := by
  obtain ⟨es, hm, hread, hids, hperm⟩ := h.index_bindings hwidth
  refine ⟨es, hm, hread, ?_, ?_⟩
  · have hsame : matchingRows table.columns statement rows =
        rows.filter fun row => (idOf table.columns row).any fun key => idMatches w.op key id := by
      rw [matchingRows, hw]
      exact List.filter_congr fun row hr => h.whereHolds_id hcolumn hvalue hr
    rw [hsame]
    exact hperm fun key => idMatches w.op key id
  · have hsorted := List.pairwise_map.mp hm.sorted
    apply List.pairwise_map.mpr
    have hfiltered := hsorted.filter fun e => idMatches w.op e.1 id
    refine hfiltered.imp_of_mem ?_
    intro e e' he he' hlt
    exact ⟨e.1, e'.1, hids e (List.mem_of_mem_filter he), hids e' (List.mem_of_mem_filter he'), hlt⟩

/-! ### The full query -/

/-- Which way a comparison of the id with a number goes. -/
theorem onIdIndex_predicates {statement : SelectStatement} {w : WhereClause} {id : UInt64}
    (hw : statement.where_ = some w) (hcolumn : sqlStricmp w.column idName = 0)
    (hvalue : parseU64Strict w.value = some id) :
    (w.op = .equal ∧ isIdEqualityPredicate statement = some id) ∨
      (w.op ≠ .equal ∧ isIdEqualityPredicate statement = none ∧
        isIdRangePredicate statement = some (w.op, id)) := by
  rw [isIdEqualityPredicate, isIdRangePredicate, hw]
  dsimp only
  rw [if_neg (not_not.mpr hcolumn), if_neg (not_not.mpr hcolumn)]
  by_cases hop : w.op = .equal
  · rw [if_neg (not_not.mpr hop)]
    exact Or.inl ⟨hop, hvalue⟩
  · rw [if_pos hop, if_neg hop, hvalue]
    exact Or.inr ⟨hop, rfl, rfl⟩

/-- Any other SELECT goes through the linear path. -/
theorem not_onIdIndex_predicates {statement : SelectStatement} (h : ¬OnIdIndex statement) :
    isIdEqualityPredicate statement = none ∧ isIdRangePredicate statement = none := by
  rw [isIdEqualityPredicate, isIdRangePredicate]
  cases hw : statement.where_ with
  | none => exact ⟨rfl, rfl⟩
  | some w =>
    dsimp only
    by_cases hcolumn : sqlStricmp w.column idName = 0
    · have hvalue : parseU64Strict w.value = none := by
        by_contra hparses
        exact h ⟨w, hw, hcolumn, hparses⟩
      rw [if_neg (not_not.mpr hcolumn), if_neg (not_not.mpr hcolumn), hvalue]
      by_cases hop : w.op = .equal
      · rw [if_neg (not_not.mpr hop), if_pos hop]
        exact ⟨rfl, rfl⟩
      · rw [if_pos hop, if_neg hop]
        exact ⟨rfl, rfl⟩
    · rw [if_pos hcolumn, if_pos hcolumn]
      exact ⟨rfl, rfl⟩

/-- The full result: the matching rows, in file order on the linear path and by id on the others. -/
theorem Scanned.fullQuery (h : Scanned uninit table rows s)
    (hwidth : ∀ row ∈ rows, row.length = table.columns.length) {statement : SelectStatement}
    (hactive : s.globals.activeTable = some table) (hstudent : ¬OnStudentNo statement)
    (hwhere : ∀ w ∈ statement.where_, ColumnExists table.columns w.column) :
    ∃ found : List StringList, runFullQuery uninit s statement = some (.ok found) ∧
      found.Perm (matchingRows table.columns statement rows) ∧
      (¬OnIdIndex statement → found = matchingRows table.columns statement rows) ∧
      (OnIdIndex statement → found.Pairwise (IdBefore table.columns)) := by
  by_cases hindex : OnIdIndex statement
  · obtain ⟨w, hw, hcolumn, hparses⟩ := hindex
    obtain ⟨id, hvalue⟩ := Option.ne_none_iff_exists'.mp hparses
    obtain ⟨es, hm, hread, hperm, hsorted⟩ := h.found hwidth hw hcolumn hvalue
    refine ⟨_, ?_, hperm, fun hno => absurd ⟨w, hw, hcolumn, hparses⟩ hno, fun _ => hsorted⟩
    rcases onIdIndex_predicates hw hcolumn hvalue with ⟨hop, hequal⟩ | ⟨hop, hequal, hrange⟩
    · rw [runFullQuery, hequal]
      dsimp only
      rw [runSelectById_eq hactive hm (rowOf uninit s) (fun e he _ => hread e he), hop]
      rfl
    · rw [runFullQuery, hequal]
      dsimp only
      rw [hrange]
      dsimp only
      rw [runSelectByIdRange_eq hactive hm hread hop]
      rfl
  · refine ⟨_, ?_, List.Perm.refl _, fun _ => rfl, fun hyes => absurd hyes hindex⟩
    obtain ⟨hequal, hrange⟩ := not_onIdIndex_predicates hindex
    rw [runFullQuery, hequal]
    dsimp only
    rw [hrange]
    dsimp only
    rw [h.linear hwidth hactive hstudent hwhere]
    rfl

/-- A WHERE column that does not exist makes the SELECT fail. -/
theorem fullQuery_unknown (uninit : ℕ → UInt32) {statement : SelectStatement}
    (hid : findColumnIndex table.columns idName ≠ none)
    (hactive : s.globals.activeTable = some table)
    (hwhere : ¬∀ w ∈ statement.where_, ColumnExists table.columns w.column) :
    runFullQuery uninit s statement = some (.error .linearScanPath) := by
  cases hw : statement.where_ with
  | none =>
    rw [hw] at hwhere
    exact absurd (by simp) hwhere
  | some w =>
    rw [hw] at hwhere
    have hno : ¬ColumnExists table.columns w.column := by
      intro hexists
      apply hwhere
      intro w' hw'
      rw [← Option.some.inj hw']
      exact hexists
    have hcolumn : sqlStricmp w.column idName ≠ 0 := by
      intro heq
      rw [← findColumnIndex_congr heq] at hid
      exact hno (findColumnIndex_ne_none.mp hid)
    have hequal : isIdEqualityPredicate statement = none := by
      rw [isIdEqualityPredicate, hw]
      exact if_pos hcolumn
    have hrange : isIdRangePredicate statement = none := by
      rw [isIdRangePredicate, hw]
      exact if_pos hcolumn
    rw [runFullQuery, hequal]
    dsimp only
    rw [hrange]
    dsimp only
    rw [linear_unknown hactive hw hno]
    rfl

/-! ### The whole SELECT -/

/-- A failing SELECT agrees with the reference if it names a column that does not exist. -/
theorem agrees_error {columns : StringList} {statement : SelectStatement} (e : StorageError)
    (h : ¬NamesExist columns statement) : Agrees columns statement rows (.error e) where
  succeeds := ⟨fun ⟨_, hresult⟩ => (by cases hresult), fun hexist => absurd hexist h⟩
  no_fault := by simp
  scan := fun _ _ hresult => (by cases hresult)
  by_id := fun _ _ hresult => (by cases hresult)
  in_file_order := fun _ _ _ hresult => (by cases hresult)

/-- Two arrangements of the same rows in ascending order of the ids are the same. -/
theorem found_in_file_order {columns : StringList} {found stored : List StringList}
    (hperm : found.Perm stored) (hfound : found.Pairwise (IdBefore columns))
    (hstored : stored.Pairwise (IdBefore columns)) : found = stored := by
  refine List.Perm.eq_of_pairwise ?_ hfound hstored hperm
  rintro row row' - - ⟨i, j, hi, hj, hlt⟩ ⟨j', i', hj', hi', hlt'⟩
  obtain rfl := Option.some.inj (hi.symm.trans hi')
  obtain rfl := Option.some.inj (hj.symm.trans hj')
  exact absurd hlt (not_lt.mpr hlt'.le)

/-- A SELECT agrees with the reference. -/
theorem Scanned.agrees (h : Scanned uninit table rows s)
    (hid : findColumnIndex table.columns idName ≠ none)
    (hwidth : ∀ row ∈ rows, row.length = table.columns.length) {statement : SelectStatement}
    (hactive : s.globals.activeTable = some table) (hstudent : ¬OnStudentNo statement) :
    Agrees table.columns statement rows (selectFromTable uninit table statement s) := by
  by_cases hwhere : ∀ w ∈ statement.where_, ColumnExists table.columns w.column
  · obtain ⟨found, hfull, hperm, hlinear, hsorted⟩ :=
      h.fullQuery hwidth hactive hstudent hwhere
    have hfound : ∀ row ∈ found, row.length = table.columns.length := by
      intro row hr
      exact hwidth row (List.mem_of_mem_filter (hperm.mem_iff.mp hr))
    by_cases hnames : statement.selectAll = false → ∀ c ∈ statement.columns,
        ColumnExists table.columns c
    · have hpositions : (if statement.selectAll then
          (Except.ok (List.range table.columns.length) : Except StorageError (List ℕ))
          else selectedIndexes table.columns statement.columns) =
          .ok (selectedPositions table.columns statement) := by
        rw [selectedPositions]
        cases hall : statement.selectAll with
        | true => rfl
        | false =>
          rw [if_neg (by decide), if_neg (by decide)]
          exact selectedIndexes_eq (hnames hall)
      have hlt := selectedPositions_lt hnames
      have hprojected : projectRows (selectedPositions table.columns statement) found =
          .ok (found.map (project (selectedPositions table.columns statement))) := by
        apply projectRows_eq
        intro row hr i hi
        rw [hfound row hr]
        exact hlt i hi
      have houtcome : selectFromTable uninit table statement s =
          .ok ⟨(selectedPositions table.columns statement).map fun i =>
              table.columns.getD i CString.empty,
            found.map (project (selectedPositions table.columns statement))⟩ := by
        rw [selectFromTable, hfull]
        dsimp only
        rw [hpositions]
        dsimp only
        rw [hprojected]
      rw [houtcome]
      refine ⟨⟨fun _ => ⟨hnames, hwhere⟩, fun _ => ⟨_, rfl⟩⟩, by simp, ?_, ?_, ?_⟩
      · intro hno result hresult
        rw [← SelectOutcome.ok.inj hresult]
        show found.map _ = _
        rw [hlinear hno, referenceRows]
      · intro hyes result hresult
        rw [← SelectOutcome.ok.inj hresult]
        exact ⟨found, hperm, hsorted hyes, rfl⟩
      · intro hyes hascending result hresult
        rw [← SelectOutcome.ok.inj hresult]
        show found.map _ = _
        rw [found_in_file_order hperm (hsorted hyes) (hascending.filter _), referenceRows,
          matchingRows]
    · -- a selected column does not exist
      obtain ⟨hall, hmissing⟩ := Classical.not_imp.mp hnames
      obtain ⟨e, he⟩ := selectedIndexes_error hmissing
      have houtcome : selectFromTable uninit table statement s = .error e := by
        rw [selectFromTable, hfull]
        dsimp only
        rw [hall, if_neg (by decide), he]
      rw [houtcome]
      exact agrees_error e fun hexist => hnames hexist.1
  · have houtcome : selectFromTable uninit table statement s = .error .linearScanPath := by
      rw [selectFromTable, fullQuery_unknown uninit hid hactive hwhere]
    rw [houtcome]
    exact agrees_error _ fun hexist => hwhere hexist.2

end Serving

/-- **SELECT.**  In a process that started on any files and ran any statements, let the activation of a
table scan a data file of encoded rows, each with one value for every column, and succeed.  After any
statements on the table within the limits of the reader that never wrap the id counter, every SELECT
without an equality on `student_no` agrees with the reference semantics on the stored rows. -/
theorem select_refines_reference (uninit : ℕ → UInt32) (dbRoot : CString) (files : FileSystem)
    (before statements : List Statement) (name : QualifiedName) (table : TableDefinition)
    (rows : List StringList) (s₀ s₁ s₂ : State)
    (h₀ : s₀ = runStatements uninit dbRoot before (State.fresh files))
    (hload : loadTableDefinition dbRoot s₀.files name = .ok table)
    (hscan : alreadyActive table s₀.globals = false)
    (hfile : (s₀.files table.dataPath).getD [] = stream encodeRow rows)
    (hrows : ∀ row ∈ rows, Readable row)
    (hwidth : ∀ row ∈ rows, row.length = table.columns.length)
    (hactivate : (activateStorageForTable uninit table s₀).1 = none)
    (h₁ : s₁ = (activateStorageForTable uninit table s₀).2)
    (hname : ∀ statement ∈ statements, statement.name = name)
    (hlimits : ∀ statement ∈ statements, InReaderLimits table statement)
    (hcounter : NeverWraps uninit dbRoot table statements s₁)
    (h₂ : s₂ = runStatements uninit dbRoot statements s₁) :
    ∃ added, s₂.files table.dataPath = some (stream encodeRow (rows ++ added)) ∧
      ∀ statement : SelectStatement, statement.source = name → ¬OnStudentNo statement →
        Agrees table.columns statement (rows ++ added)
          (runSelectQuery uninit dbRoot statement s₂).1 := by
  have htable := loadTableDefinition_name hload
  obtain ⟨added, b', hadded, hserving', -⟩ :=
    statements_serve uninit h₀ hload hscan hfile hrows hactivate h₁ hname hlimits hcounter h₂
  have hwidth' : ∀ row ∈ rows ++ added, row.length = table.columns.length := by
    intro row hr
    rcases List.mem_append.mp hr with hr | hr
    · exact hwidth row hr
    · exact hadded row hr
  refine ⟨added, hserving'.file, ?_⟩
  intro statement hsource hstudent
  rw [hserving'.onTable.select_eq (by rw [hsource, htable])]
  have hscanned := (hserving'.setActive (some table)).scanned uninit
  exact hscanned.agrees hserving'.id_column hwidth' rfl hstudent

/-- Two rows with descending ids. -/
def descendingRows : List StringList := [[lit "2", lit "b"], [lit "1", lit "a"]]

theorem select_refines_reference_descending :
    ∃ added, (nameState (stream encodeRow descendingRows)).files nameTable.dataPath =
        some (stream encodeRow (descendingRows ++ added)) ∧
      ∀ statement : SelectStatement, statement.source = ⟨none, lit "t"⟩ → ¬OnStudentNo statement →
        Agrees nameTable.columns statement (descendingRows ++ added)
          (runSelectQuery (fun _ => 0) (lit "db") statement
            (nameState (stream encodeRow descendingRows))).1 :=
  select_refines_reference (fun _ => 0) (lit "db") (nameFiles (stream encodeRow descendingRows)) [] []
    ⟨none, lit "t"⟩ nameTable descendingRows
    (State.fresh (nameFiles (stream encodeRow descendingRows))) _ _ rfl (by decide +kernel)
    (by decide +kernel) (by decide +kernel)
    (by
      intro row hr
      rcases List.mem_cons.mp hr with rfl | hr
      · exact ⟨by decide, by decide, by decide⟩
      · rw [List.mem_singleton.mp hr]
        exact ⟨by decide, by decide, by decide⟩)
    (by decide) (by decide +kernel) rfl (fun _ hst => absurd hst (by simp))
    (fun _ hst => absurd hst (by simp))
    (by
      intro earlier statement later heq
      cases earlier <;> cases heq)
    rfl

/-- `SELECT * FROM t WHERE id >= 0`. -/
def selectFromZero : SelectStatement := ⟨⟨none, lit "t"⟩, true, [], some ⟨lit "id", lit "0", .greaterEqual⟩⟩

/-- The scan of these rows has failed, the activation behind it returns early with success, and the SELECT
finds two of three rows. -/
theorem select_after_failed_scan :
    (activateStorageForTable (fun _ => 0) nameTable
        (State.fresh (nameFiles (stream encodeRow duplicateRows)))).1 = some .duplicateIdInData ∧
      (activateStorageForTable (fun _ => 0) nameTable (nameState (stream encodeRow duplicateRows))).1 =
        none ∧
      loadTableDefinition (lit "db") (nameState (stream encodeRow duplicateRows)).files
        selectFromZero.source = .ok nameTable ∧
      (nameState (stream encodeRow duplicateRows)).files nameTable.dataPath =
        some (stream encodeRow duplicateRows) ∧
      (∀ row ∈ duplicateRows, Readable row ∧ row.length = nameTable.columns.length) ∧
      ¬OnStudentNo selectFromZero ∧
      ¬Agrees nameTable.columns selectFromZero duplicateRows
        (runSelectQuery (fun _ => 0) (lit "db") selectFromZero
          (nameState (stream encodeRow duplicateRows))).1 := by
  have hwidth : ∀ row ∈ duplicateRows, row.length = nameTable.columns.length := by decide
  refine ⟨by decide +kernel, by decide +kernel, by decide +kernel, by decide +kernel,
    fun row hrow => ⟨duplicateRows_readable row hrow, hwidth row hrow⟩, ?_, fun h => ?_⟩
  · rintro ⟨w, hw, -, hcolumn⟩
    obtain rfl := Option.some.inj hw
    exact absurd hcolumn (by decide +kernel)
  have hselect : (runSelectQuery (fun _ => 0) (lit "db") selectFromZero
      (nameState (stream encodeRow duplicateRows))).1 =
        .ok ⟨[lit "id", lit "name"], [[lit "1", lit "a"], [lit "2", lit "b"]]⟩ := by decide +kernel
  have hindex : OnIdIndex selectFromZero := ⟨_, rfl, by decide +kernel, by decide +kernel⟩
  obtain ⟨found, hfound, -, hrows⟩ := h.by_id hindex _ hselect
  have hlength : 2 = found.length := by
    have hmap := congrArg List.length hrows
    rwa [List.length_map] at hmap
  have hmatching : (matchingRows nameTable.columns selectFromZero duplicateRows).length = 3 := by
    decide +kernel
  rw [← hfound.length_eq] at hmatching
  omega

end MiniSql
