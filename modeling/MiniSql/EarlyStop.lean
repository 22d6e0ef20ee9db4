import MiniSql.ShortRows
import MiniSql.PartialRows

/-!
# The early stop for `student_no`

A linear scan for an equality on `student_no` ends at the first match, because the values are unique.  The set
keeps them unique as texts, and the WHERE clause compares two numbers as numbers: `1` and `01` can both be
stored, and both match `1`.

* `Filled`: the table is active, its data file encodes these rows, and the `student_no` set holds their
  values; `Filled.insert` keeps it.
* `ReadsOnce`: at most one stored `student_no` is a text of the number that the value is a text of.
* `ReadableToMatch`: the rows up to the first match can be read.

Main results:

* `whereValueMatches_text`, `whereValueMatches_number`: what an equality compares.
* `scan_early_stop`: what the scan returns, and `matches_le_one_iff`: it is all there is exactly if there is
  one match at most.
* `early_stop_exact`: behind any accepted INSERTs, the scan returns all matching rows exactly if the value
  reads once and the rows up to the first match can be read.
* `early_stop_misses`: `1` and `01`, and the scan for 1 returns the first one.
-/

namespace MiniSql

open Framing

/-! ### A scan up to a match -/

/-- The rows up to the first match, or all of them, are within the limits of the reader. -/
def ReadableToMatch (p : StringList → Bool) : List StringList → Prop
  | [] => True
  | row :: rows => Readable row ∧ (p row = true ∨ ReadableToMatch p rows)

/-- A scan gets through all rows, or to the first match, or to a row that cannot be read. -/
theorem readableToMatch_cases (p : StringList → Bool) (rows : List StringList) :
    (ReadableToMatch p rows ∧ ∀ r ∈ rows, Readable r ∧ p r = false) ∨
    (ReadableToMatch p rows ∧ ∃ before row after, rows = before ++ row :: after ∧
      (∀ r ∈ before, Readable r ∧ p r = false) ∧ Readable row ∧ p row = true) ∨
    (¬ReadableToMatch p rows ∧ ∃ before row after, rows = before ++ row :: after ∧
      (∀ r ∈ before, Readable r ∧ p r = false) ∧ ¬Readable row) := by
  induction rows with
  | nil => exact Or.inl ⟨trivial, by simp⟩
  | cons row rows ih =>
    by_cases hread : Readable row
    · cases hmatch : p row with
      | true =>
        exact Or.inr (Or.inl ⟨⟨hread, Or.inl hmatch⟩, [], row, rows, rfl, by simp, hread, hmatch⟩)
      | false =>
        have hrow : Readable row ∧ p row = false := ⟨hread, hmatch⟩
        rcases ih with ⟨hall, hrows⟩ | ⟨hall, before, r, after, rfl, hbefore, hr⟩ |
          ⟨hnot, before, r, after, rfl, hbefore, hr⟩
        · exact Or.inl ⟨⟨hread, Or.inr hall⟩, List.forall_mem_cons.mpr ⟨hrow, hrows⟩⟩
        · exact Or.inr (Or.inl ⟨⟨hread, Or.inr hall⟩, row :: before, r, after, rfl,
            List.forall_mem_cons.mpr ⟨hrow, hbefore⟩, hr⟩)
        · refine Or.inr (Or.inr ⟨?_, row :: before, r, after, rfl,
            List.forall_mem_cons.mpr ⟨hrow, hbefore⟩, hr⟩)
          rintro ⟨-, h | h⟩
          · rw [hmatch] at h
            cases h
          · exact hnot h
    · exact Or.inr (Or.inr ⟨fun h => hread h.1, [], row, rows, rfl, by simp, hread⟩)

/-- A row beyond the limits of the reader makes it fail. -/
theorem binaryReadRow_unreadable (uninit : ℕ → UInt32) {row : StringList} (hw : Writable row)
    (hpos : 1 ≤ row.length) (hlt : row.length < 2 ^ 32) (h : ¬Readable row) (rest : Bytes) :
    ∃ e, binaryReadRowFromFile uninit (encodeRow row ++ rest) = .failed e := by
  by_cases hcount : row.length ≤ maxBinaryFields
  · exact ⟨_, binaryReadRow_tooLarge uninit hw hpos hcount (fun hall => h ⟨hpos, hcount, hall⟩) rest⟩
  · refine ⟨.fieldCount, ?_⟩
    rw [encodeRow, List.append_assoc, binaryReadRowFromFile, readU32_encodeU32 hlt]
    exact if_pos (Or.inr (not_le.mp hcount))

section Scan

variable {uninit : ℕ → UInt32} {i : ℕ} {w : WhereClause}

theorem foldRows_no_match {entries : List (RowRef × StringList)}
    (h : ∀ e ∈ entries, i < e.2.length ∧ endsScan i w true e.2 = false) (out : List StringList) :
    foldRows (linearScanCallback (some (i, w)) true) entries out = some (none, out) := by
  induction entries with
  | nil => rfl
  | cons e entries ih =>
    obtain ⟨ref, row⟩ := e
    obtain ⟨⟨hi, hends⟩, hrest⟩ := List.forall_mem_cons.mp h
    have hmatch : whereValueMatches (row.getD i CString.empty) w.value w.op = false := hends
    rw [foldRows, linearScanCallback_wide hi, hends, hmatch]
    exact ih hrest

theorem foldRows_match {row : StringList} (hi : i < row.length)
    (hends : endsScan i w true row = true) (ref : RowRef) (entries : List (RowRef × StringList))
    (out : List StringList) :
    foldRows (linearScanCallback (some (i, w)) true) ((ref, row) :: entries) out =
      some (some 0, out ++ [row]) := by
  have hmatch : whereValueMatches (row.getD i CString.empty) w.value w.op = true := hends
  rw [foldRows, linearScanCallback_wide hi, hends, hmatch]
  rfl

/-- What the scan for a `student_no` returns. -/
theorem scan_early_stop {files : FileSystem} {path : CString} {rows : List StringList}
    (hfile : files path = some (stream encodeRow rows)) (hwide : ∀ row ∈ rows, i < row.length) :
    (ReadableToMatch (endsScan i w true) rows →
      binaryReaderScanAll uninit (some path) files (linearScanCallback (some (i, w)) true) [] =
        some (0, (rows.find? (endsScan i w true)).toList)) ∧
    (¬ReadableToMatch (endsScan i w true) rows → (∀ row ∈ rows, Writable row ∧ row.length < 2 ^ 32) →
      binaryReaderScanAll uninit (some path) files (linearScanCallback (some (i, w)) true) [] =
        some (-1, [])) := by
  have hpass : ∀ {before : List StringList}, (∀ r ∈ before, r ∈ rows) →
      (∀ r ∈ before, Readable r ∧ endsScan i w true r = false) →
      foldRows (linearScanCallback (some (i, w)) true) (rowsAt before) [] = some (none, []) := by
    intro before hmem hbefore
    apply foldRows_no_match
    intro e he
    have hin := mem_of_mem_located he
    exact ⟨hwide _ (hmem _ hin), (hbefore _ hin).2⟩
  rcases readableToMatch_cases (endsScan i w true) rows with
    ⟨hall, hrows⟩ | ⟨hall, before, row, after, rfl, hbefore, hread, hmatch⟩ |
    ⟨hnot, before, row, after, rfl, hbefore, hread⟩
  · refine ⟨fun _ => ?_, fun hnot => absurd hall hnot⟩
    have hnone : rows.find? (endsScan i w true) = none := by
      rw [List.find?_eq_none]
      intro r hr
      rw [(hrows r hr).2]
      decide
    rw [binaryReaderScanAll_eq uninit hfile, scannedRows_encoded uninit fun r hr => (hrows r hr).1,
      hpass (fun _ h => h) hrows, hnone]
    rfl
  · refine ⟨fun _ => ?_, fun hnot => absurd hall hnot⟩
    have hfind : (before ++ row :: after).find? (endsScan i w true) = some row := by
      refine List.find?_eq_some_iff_append.mpr ⟨hmatch, before, after, rfl, fun r hr => ?_⟩
      rw [(hbefore r hr).2]
      rfl
    have hreadable : ∀ r ∈ before ++ [row], Readable r :=
      List.forall_mem_append.mpr ⟨fun r hr => (hbefore r hr).1, List.forall_mem_singleton.mpr hread⟩
    have hsplit : stream encodeRow (before ++ row :: after) =
        stream encodeRow (before ++ [row]) ++ stream encodeRow after := by
      rw [← stream_append, List.append_assoc, List.singleton_append]
    obtain ⟨more, clean, hscan, -⟩ := scannedRows_tail uninit hreadable (stream encodeRow after)
    have hrow := foldRows_match (hwide row (List.mem_append_right _ List.mem_cons_self)) hmatch
      (stream encodeRow before).length more []
    rw [binaryReaderScanAll_eq uninit hfile, hsplit, hscan, rowsAt_snoc, List.append_assoc,
      foldRows_append, hpass (fun r hr => List.mem_append_left _ hr) hbefore, hfind]
    dsimp only
    rw [List.singleton_append, hrow]
    rfl
  · refine ⟨fun hall => absurd hall hnot, fun _ hlimits => ?_⟩
    have hmem : row ∈ before ++ row :: after := List.mem_append_right _ List.mem_cons_self
    obtain ⟨hw, hlt⟩ := hlimits row hmem
    have hpos : 1 ≤ row.length := Nat.one_le_of_lt (hwide row hmem)
    obtain ⟨e, he⟩ := binaryReadRow_unreadable uninit hw hpos hlt hread (stream encodeRow after)
    obtain ⟨more, clean, hscan, hmore⟩ := scannedRows_tail uninit (fun r hr => (hbefore r hr).1)
      (encodeRow row ++ stream encodeRow after)
    rw [he] at hmore
    obtain ⟨rfl, rfl⟩ := hmore
    rw [binaryReaderScanAll_eq uninit hfile, stream_append, stream_cons, hscan, List.append_nil,
      hpass (fun r hr => List.mem_append_left _ hr) hbefore]
    rfl

end Scan

/-! ### Tables filled by INSERTs -/

/-- The table is active; its data file encodes `rows`, which the writer has written to the end; the
`student_no` set holds their values. -/
structure Filled (dbRoot : CString) (table : TableDefinition) (rows : List StringList) (s : State) :
    Prop where
  onTable : OnTable dbRoot table s
  file : s.files table.dataPath = some (stream encodeRow rows)
  writable : ∀ row ∈ rows, Writable row
  column : s.globals.activeStudentNoColumn = findColumnIndex table.columns studentNoName
  studentNos : ∀ row ∈ rows, ∃ v, studentNoOf table.columns row = some v
  set : SetModel s.globals.studentNoSet (rows.filterMap (studentNoOf table.columns))

section Filled

variable {uninit : ℕ → UInt32} {dbRoot : CString} {table : TableDefinition} {rows : List StringList}
  {b : IndexBuild} {s : State}

theorem Serving.filled (h : Serving dbRoot table rows b s) (hs : HasStudentNo table.columns) :
    Filled dbRoot table rows s := by
  obtain ⟨hall, hset⟩ := h.caches.studentNos hs
  have hsame : studentNosOf table.columns (rowsAt rows) =
      rows.filterMap (studentNoOf table.columns) := by
    have hmap := List.filterMap_map (f := Prod.snd) (g := studentNoOf table.columns)
      (l := rowsAt rows)
    rw [located_map_snd] at hmap
    exact hmap.symm
  rw [hsame] at hset
  refine ⟨h.onTable, h.file, fun row hr => (h.readable row hr).writable, h.student_column, ?_, hset⟩
  intro row hr
  obtain ⟨ref, hmem⟩ := exists_mem_located encodeRow 0 hr
  obtain ⟨v, hv, -⟩ := hall _ hmem
  exact ⟨v, hv⟩

theorem Filled.setActive (h : Filled dbRoot table rows s) (active : Option TableDefinition) :
    Filled dbRoot table rows { s with globals := { s.globals with activeTable := active } } :=
  ⟨h.onTable.setActive active, h.file, h.writable, h.column, h.studentNos, h.set⟩

/-- An accepted INSERT adds its row. -/
theorem Filled.insert (uninit : ℕ → UInt32) (h : Filled dbRoot table rows s)
    (hs : HasStudentNo table.columns) {statement : InsertStatement}
    (hname : statement.target = table.name) {r : InsertResult}
    (hok : (appendInsertRow uninit dbRoot statement s).1 = .ok r) :
    ∃ row, row.length = table.columns.length ∧
      Filled dbRoot table (rows ++ [row]) (appendInsertRow uninit dbRoot statement s).2 := by
  have hstep : OnTable dbRoot table (appendInsertRow uninit dbRoot statement s).2 :=
    h.onTable.step uninit (show (Statement.insert statement).name = table.name from hname)
  rcases h.onTable.insert_cases uninit hname with ⟨e, active, -, heq⟩ | ⟨plan, -, hplan, heq⟩
  · rw [heq] at hok
    cases hok
  · rw [heq] at hok hstep ⊢
    have hfor := prepareInsert_ok hplan
    have hrej := storeRow_rejected table.columns plan h.onTable.reactivate.path
      h.onTable.reactivate.index h.onTable.reactivate.set
    have hnot : ¬∃ e, (storeRow table.columns plan (withActive table s)).1 = .error e := by
      rintro ⟨e, he⟩
      rw [hok] at he
      cases he
    rw [hrej, not_or, not_or, not_not] at hnot
    obtain ⟨hw, hfind, hstudent⟩ := hnot
    obtain ⟨column, hcol⟩ := Option.ne_none_iff_exists'.mp hs
    obtain ⟨v, hv, -⟩ := hfor.student_no column hcol
    have hnew : v ∉ rows.filterMap (studentNoOf table.columns) := by
      intro hmem
      refine hstudent ⟨v, hv, Or.inr ?_⟩
      show studentNoSetContains s.globals.studentNoSet v = true
      rw [h.set.contains, decide_eq_true hmem]
    obtain ⟨hinsert, hset⟩ := h.set.insert hnew
    have hindex : indexInsert s.globals.index (nextId s.globals.nextIdCounter)
        (stream encodeRow rows).length =
          (0, (indexInsert s.globals.index (nextId s.globals.nextIdCounter)
            (stream encodeRow rows).length).2) := by
      refine Prod.ext ?_ rfl
      rw [h.onTable.index.insert_rc]
      exact if_neg hfind
    have hstored := @storeRow_accepted (withActive table s) table.columns _ _ _ _
      h.onTable.path h.file hw hindex (fun x hx => by
        obtain rfl := Option.some.inj (hv.symm.trans hx)
        exact hinsert)
    have hnumber : studentNoOf table.columns (plan.row (nextId s.globals.nextIdCounter)) = some v := by
      rw [hfor.studentNoOf_row, hv]
    refine ⟨plan.row (nextId s.globals.nextIdCounter), ?_, hstep, ?_, ?_, ?_, ?_, ?_⟩
    · rw [plan.row_length, hfor.length]
    · rw [hstored, stream_snoc]
      exact FileSystem.write_self _ _ _
    · exact List.forall_mem_append.mpr ⟨h.writable, List.forall_mem_singleton.mpr hw⟩
    · rw [hstored]
      exact h.column
    · exact List.forall_mem_append.mpr ⟨h.studentNos, List.forall_mem_singleton.mpr ⟨v, hnumber⟩⟩
    · rw [hstored, List.filterMap_append, List.filterMap_cons, hnumber, List.filterMap_nil]
      dsimp only
      rw [hv]
      exact hset

/-- The INSERTs among the statements are accepted. -/
def AllAccepted (uninit : ℕ → UInt32) (dbRoot : CString) : List Statement → State → Prop
  | [], _ => True
  | statement :: statements, s =>
      (∀ e, (executeStatement uninit dbRoot statement s).1 ≠ .inserted (.error e)) ∧
        AllAccepted uninit dbRoot statements (executeStatement uninit dbRoot statement s).2

theorem Filled.run (uninit : ℕ → UInt32) (statements : List Statement)
    (h : Filled dbRoot table rows s) (hs : HasStudentNo table.columns)
    (hname : ∀ statement ∈ statements, statement.name = table.name)
    (haccepted : AllAccepted uninit dbRoot statements s) :
    ∃ added, (∀ row ∈ added, row.length = table.columns.length) ∧
      Filled dbRoot table (rows ++ added) (runStatements uninit dbRoot statements s) := by
  induction statements generalizing rows s with
  | nil =>
    refine ⟨[], by simp, ?_⟩
    rw [List.append_nil]
    exact h
  | cons statement statements ih =>
    obtain ⟨hfirst, hrest⟩ := haccepted
    obtain ⟨hthis, hnames⟩ := List.forall_mem_cons.mp hname
    cases statement with
    | insert insert =>
      have hok : ∃ r, (appendInsertRow uninit dbRoot insert s).1 = .ok r := by
        cases hr : (appendInsertRow uninit dbRoot insert s).1 with
        | error e => exact absurd (congrArg Outcome.inserted hr) (hfirst e)
        | ok r => exact ⟨r, rfl⟩
      obtain ⟨r, hr⟩ := hok
      obtain ⟨row, hrow, hfilled⟩ := h.insert uninit hs hthis hr
      obtain ⟨added, hadded, h'⟩ := ih hfilled hnames hrest
      refine ⟨row :: added, List.forall_mem_cons.mpr ⟨hrow, hadded⟩, ?_⟩
      rw [List.append_cons]
      exact h'
    | select select =>
      obtain ⟨active, heq⟩ := h.onTable.select_state uninit hthis
      have hfilled : Filled dbRoot table rows (runSelectQuery uninit dbRoot select s).2 := by
        rw [heq]
        exact h.setActive active
      exact ih hfilled hnames hrest

end Filled

/-! ### The values that match -/

/-- At most one stored `student_no` is a text of the number that `value` is a text of. -/
def ReadsOnce (columns : StringList) (rows : List StringList) (value : CString) : Prop :=
  ∀ n, parseU64Strict value = some n →
    (rows.filter fun row =>
      decide ((studentNoOf columns row).bind parseU64Strict = some n)).length ≤ 1

/-- An equality with a text of no number is equality of texts. -/
theorem whereValueMatches_text {value : CString} (h : parseU64Strict value = none) (lhs : CString) :
    whereValueMatches lhs value .equal = true ↔ lhs = value := by
  rw [whereValueMatches, h]
  cases parseU64Strict lhs with
  | none => exact decide_eq_true_iff.trans strcmp_eq_zero
  | some n => exact decide_eq_true_iff.trans strcmp_eq_zero

/-- An equality with a text of a number holds for the texts of this number. -/
theorem whereValueMatches_number {value : CString} {n : UInt64} (h : parseU64Strict value = some n)
    (lhs : CString) : whereValueMatches lhs value .equal = true ↔ parseU64Strict lhs = some n := by
  cases hlhs : parseU64Strict lhs with
  | none =>
    rw [whereValueMatches, hlhs, h]
    refine ⟨fun heq => ?_, fun heq => (by cases heq)⟩
    obtain rfl := strcmp_eq_zero.mp (of_decide_eq_true heq)
    rw [h] at hlhs
    cases hlhs
  | some m =>
    rw [whereValueMatches_of_numbers hlhs h]
    exact decide_eq_true_iff.trans Option.some_inj.symm

section Matches

variable {columns : StringList} {rows : List StringList} {w : WhereClause} {i : ℕ}

theorem endsScan_student (hi : findColumnIndex columns studentNoName = some i)
    {row : StringList} {v : CString} (hv : studentNoOf columns row = some v) :
    endsScan i w true row = whereValueMatches v w.value w.op := by
  rw [studentNoOf, hi] at hv
  rw [endsScan, List.getD_eq_getElem?_getD, show row[i]? = some v from hv]
  rfl

/-- The values are different, so the scan finds all matches if it finds one at most. -/
theorem matches_le_one_iff (hi : findColumnIndex columns studentNoName = some i)
    (hop : w.op = .equal) (hall : ∀ row ∈ rows, ∃ v, studentNoOf columns row = some v)
    (hnodup : (rows.filterMap (studentNoOf columns)).Nodup) :
    (rows.filter (endsScan i w true)).length ≤ 1 ↔ ReadsOnce columns rows w.value := by
  cases hvalue : parseU64Strict w.value with
  | none =>
    have hone : (rows.filter (endsScan i w true)).length ≤ 1 := by
      have hvalues : (rows.filter (endsScan i w true)).filterMap (studentNoOf columns) =
          List.replicate (rows.filter (endsScan i w true)).length w.value := by
        have hsome : (rows.filter (endsScan i w true)).filterMap (studentNoOf columns) =
            (rows.filter (endsScan i w true)).filterMap (some ∘ fun _ => w.value) := by
          apply List.filterMap_congr
          intro row hr
          obtain ⟨hmem, hends⟩ := List.mem_filter.mp hr
          obtain ⟨v, hv⟩ := hall row hmem
          rw [endsScan_student hi hv, hop, whereValueMatches_text hvalue] at hends
          rw [hv, hends]
          rfl
        rw [hsome, List.filterMap_eq_map, List.map_const']
      have hsub : (rows.filter (endsScan i w true)).Sublist rows := List.filter_sublist
      have hdistinct := hnodup.sublist (hsub.filterMap (studentNoOf columns))
      rw [hvalues, List.nodup_replicate] at hdistinct
      exact hdistinct
    exact ⟨fun _ n hn => (by rw [hvalue] at hn; cases hn), fun _ => hone⟩
  | some n =>
    have hsame : rows.filter (endsScan i w true) = rows.filter fun row =>
        decide ((studentNoOf columns row).bind parseU64Strict = some n) := by
      apply List.filter_congr
      intro row hr
      obtain ⟨v, hv⟩ := hall row hr
      rw [endsScan_student hi hv, hv, hop, Option.bind_some, Bool.eq_iff_iff, decide_eq_true_iff,
        whereValueMatches_number hvalue]
    rw [hsame]
    constructor
    · intro h m hm
      obtain rfl := Option.some.inj (hvalue.symm.trans hm)
      exact h
    · exact fun h => h n hvalue

end Matches

/-! ### The result -/

/-- The first match is all there is exactly if there is at most one. -/
theorem find_toList_eq_filter (p : StringList → Bool) (rows : List StringList) :
    (rows.find? p).toList = rows.filter p ↔ (rows.filter p).length ≤ 1 := by
  rw [← List.head?_filter]
  cases rows.filter p with
  | nil => simp
  | cons row rest => simp

section Result

variable {uninit : ℕ → UInt32} {dbRoot : CString} {table : TableDefinition} {rows : List StringList}
  {s : State}

/-- The linear path for an equality on `student_no`. -/
theorem runSelectLinear_student {statement : SelectStatement} {w : WhereClause} {i : ℕ}
    (hactive : s.globals.activeTable = some table)
    (hpath : s.globals.activeDataPath = some table.dataPath) (hw : statement.where_ = some w)
    (hop : w.op = .equal) (hcolumn : sqlStricmp w.column studentNoName = 0)
    (hi : findColumnIndex table.columns studentNoName = some i) {rc : ℤ} {out : List StringList}
    (hscan : binaryReaderScanAll uninit (some table.dataPath) s.files
      (linearScanCallback (some (i, w)) true) [] = some (rc, out)) :
    runSelectLinear uninit s statement [] = some (if rc ≠ 0 then -1 else 0, out) := by
  have hstop : (decide (w.op = .equal) && decide (sqlStricmp w.column studentNoName = 0)) = true := by
    rw [decide_eq_true hop, decide_eq_true hcolumn]
    rfl
  rw [runSelectLinear, hactive, hw]
  dsimp only
  rw [findColumnIndex_congr hcolumn, hi]
  dsimp only
  rw [hstop, hpath, hscan]

/-- The linear path returns all matching rows of a filled table exactly if the value is a text of at
most one of the stored numbers, and the rows up to the first match can be read. -/
theorem Filled.early_stop (uninit : ℕ → UInt32) (h : Filled dbRoot table rows s)
    (hs : HasStudentNo table.columns) (hactive : s.globals.activeTable = some table)
    {statement : SelectStatement} {w : WhereClause} (hw : statement.where_ = some w)
    (hop : w.op = .equal) (hcolumn : sqlStricmp w.column studentNoName = 0) :
    (ReadsOnce table.columns rows w.value ∧
        ReadableToMatch (whereHolds table.columns statement.where_) rows →
      runSelectLinear uninit s statement [] =
        some (0, matchingRows table.columns statement rows)) ∧
    ((∀ row ∈ rows, row.length < 2 ^ 32) →
      runSelectLinear uninit s statement [] =
        some (0, matchingRows table.columns statement rows) →
      ReadsOnce table.columns rows w.value ∧
        ReadableToMatch (whereHolds table.columns statement.where_) rows) := by
  obtain ⟨i, hi⟩ := Option.ne_none_iff_exists'.mp hs
  have htest : endsScan i w true = whereHolds table.columns statement.where_ := by
    funext row
    rw [hw]
    show (true && _) = whereValueMatches (cell table.columns w.column row) w.value w.op
    rw [cell, findColumnIndex_congr hcolumn, hi]
    rfl
  have hwide : ∀ row ∈ rows, i < row.length := by
    intro row hr
    obtain ⟨v, hv⟩ := h.studentNos row hr
    rw [studentNoOf, hi] at hv
    exact (List.getElem?_eq_some_iff.mp hv).1
  have hone := matches_le_one_iff hi hop h.studentNos h.set.nodup
  have hpath := h.onTable.path
  obtain ⟨hscan, hstuck⟩ := @scan_early_stop uninit i w _ _ _ h.file hwide
  rw [htest] at hone hscan hstuck
  constructor
  · rintro ⟨honce, hread⟩
    rw [runSelectLinear_student hactive hpath hw hop hcolumn hi (hscan hread),
      (find_toList_eq_filter _ _).mpr (hone.mpr honce)]
    rfl
  · intro hlimits heq
    by_cases hread : ReadableToMatch (whereHolds table.columns statement.where_) rows
    · rw [runSelectLinear_student hactive hpath hw hop hcolumn hi (hscan hread)] at heq
      have hrows := (Prod.mk.inj (Option.some.inj heq)).2
      exact ⟨hone.mp ((find_toList_eq_filter _ _).mp hrows), hread⟩
    · have hfail := hstuck hread fun row hr => ⟨h.writable row hr, hlimits row hr⟩
      rw [runSelectLinear_student hactive hpath hw hop hcolumn hi hfail] at heq
      exact absurd (Prod.mk.inj (Option.some.inj heq)).1 (by decide)

end Result

/-- **Early stop.**  In a process that started on any files and ran any statements, let the activation of
a table with a `student_no` column scan a data file of encoded rows and succeed; then let statements on
the table run whose INSERTs are all accepted.  The linear path returns all stored rows that match an
equality on `student_no` if the value is a text of at most one of the stored numbers and the rows up to
the first match are within the limits of the reader, and, with less than `2^32` columns, only then. -/
theorem early_stop_exact (uninit : ℕ → UInt32) (dbRoot : CString) (files : FileSystem)
    (before statements : List Statement) (name : QualifiedName) (table : TableDefinition)
    (rows : List StringList) (s₀ s₁ s₂ : State)
    (h₀ : s₀ = runStatements uninit dbRoot before (State.fresh files))
    (hload : loadTableDefinition dbRoot s₀.files name = .ok table)
    (hs : HasStudentNo table.columns)
    (hscan : alreadyActive table s₀.globals = false)
    (hfile : (s₀.files table.dataPath).getD [] = stream encodeRow rows)
    (hrows : ∀ row ∈ rows, Readable row)
    (hactivate : (activateStorageForTable uninit table s₀).1 = none)
    (h₁ : s₁ = (activateStorageForTable uninit table s₀).2)
    (hname : ∀ statement ∈ statements, statement.name = name)
    (haccepted : AllAccepted uninit dbRoot statements s₁)
    (h₂ : s₂ = runStatements uninit dbRoot statements s₁) :
    ∃ added, s₂.files table.dataPath = some (stream encodeRow (rows ++ added)) ∧
      ∀ (statement : SelectStatement) (w : WhereClause), statement.where_ = some w → w.op = .equal →
        sqlStricmp w.column studentNoName = 0 →
        (ReadsOnce table.columns (rows ++ added) w.value ∧
            ReadableToMatch (whereHolds table.columns statement.where_) (rows ++ added) →
          runSelectLinear uninit (withActive table s₂) statement [] =
            some (0, matchingRows table.columns statement (rows ++ added))) ∧
        (table.columns.length < 2 ^ 32 →
          runSelectLinear uninit (withActive table s₂) statement [] =
            some (0, matchingRows table.columns statement (rows ++ added)) →
          ReadsOnce table.columns (rows ++ added) w.value ∧
            ReadableToMatch (whereHolds table.columns statement.where_) (rows ++ added)) := by
  have htable := loadTableDefinition_name hload
  obtain ⟨b, hserving, -⟩ := activation_serves uninit h₀ hload hscan hfile hrows hactivate h₁
  obtain ⟨added, hadded, hfilled⟩ := (hserving.filled hs).run uninit statements hs
    (fun statement hst => by rw [hname statement hst, htable]) haccepted
  rw [← h₂] at hfilled
  refine ⟨added, hfilled.file, fun statement w hw hop hcolumn => ?_⟩
  obtain ⟨hif, honly⟩ := (hfilled.setActive (some table)).early_stop uninit hs rfl hw hop hcolumn
  refine ⟨hif, fun hlimit => honly ?_⟩
  intro row hr
  rcases List.mem_append.mp hr with hr | hr
  · have hle := (hrows row hr).count_le
    rw [maxBinaryFields] at hle
    omega
  · rw [hadded row hr]
    exact hlimit

/-- A table with the columns `id` and `student_no`. -/
def studentTable : TableDefinition :=
  ⟨⟨none, lit "t"⟩, [lit "id", lit "student_no"], lit "db/t.schema", lit "db/t.data"⟩

/-- The files of `studentTable` with the given data file. -/
def studentFiles (data : Bytes) : FileSystem := fun path =>
  if path = lit "db/t.schema" then some (lit "id|student_no\n").bytes
  else if path = lit "db/t.data" then some data
  else none

/-- `INSERT INTO t (student_no) VALUES (...)`. -/
def insertStudent (studentNo : CString) : Statement :=
  .insert ⟨⟨none, lit "t"⟩, [lit "student_no"], [studentNo]⟩

/-- `SELECT * FROM t WHERE student_no = 1`. -/
def selectStudent : SelectStatement :=
  ⟨⟨none, lit "t"⟩, true, [], some ⟨lit "student_no", lit "1", .equal⟩⟩

/-- The state after the activation of the table in a fresh process. -/
def studentState (rows : List StringList) : State :=
  (activateStorageForTable (fun _ => 0) studentTable
    (State.fresh (studentFiles (stream encodeRow rows)))).2

theorem early_stop_exact_one :
    ∃ added, (studentState [[lit "1", lit "01"]]).files studentTable.dataPath =
        some (stream encodeRow ([[lit "1", lit "01"]] ++ added)) ∧
      ∀ (statement : SelectStatement) (w : WhereClause), statement.where_ = some w → w.op = .equal →
        sqlStricmp w.column studentNoName = 0 →
        (ReadsOnce studentTable.columns ([[lit "1", lit "01"]] ++ added) w.value ∧
            ReadableToMatch (whereHolds studentTable.columns statement.where_)
              ([[lit "1", lit "01"]] ++ added) →
          runSelectLinear (fun _ => 0) (withActive studentTable (studentState [[lit "1", lit "01"]]))
              statement [] =
            some (0, matchingRows studentTable.columns statement ([[lit "1", lit "01"]] ++ added))) ∧
        (studentTable.columns.length < 2 ^ 32 →
          runSelectLinear (fun _ => 0) (withActive studentTable (studentState [[lit "1", lit "01"]]))
              statement [] =
            some (0, matchingRows studentTable.columns statement ([[lit "1", lit "01"]] ++ added)) →
          ReadsOnce studentTable.columns ([[lit "1", lit "01"]] ++ added) w.value ∧
            ReadableToMatch (whereHolds studentTable.columns statement.where_)
              ([[lit "1", lit "01"]] ++ added)) :=
  early_stop_exact (fun _ => 0) (lit "db") (studentFiles (stream encodeRow [[lit "1", lit "01"]])) [] []
    ⟨none, lit "t"⟩ studentTable [[lit "1", lit "01"]]
    (State.fresh (studentFiles (stream encodeRow [[lit "1", lit "01"]]))) _ _ rfl (by decide +kernel)
    (show findColumnIndex studentTable.columns studentNoName ≠ none from by decide +kernel)
    (by decide +kernel) (by decide +kernel)
    (List.forall_mem_singleton.mpr ⟨by decide, by decide, by decide⟩) (by decide +kernel) rfl
    (fun _ hst => absurd hst (by simp)) trivial rfl

/-- Two accepted INSERTs of `1` and `01`: both match `1`, and the scan returns the first one. -/
theorem early_stop_misses :
    (runStatements (fun _ => 0) (lit "db") [insertStudent (lit "1"), insertStudent (lit "01")]
      (studentState [])).files studentTable.dataPath =
        some (stream encodeRow [[lit "1", lit "1"], [lit "2", lit "01"]]) ∧
    matchingRows studentTable.columns selectStudent [[lit "1", lit "1"], [lit "2", lit "01"]] =
      [[lit "1", lit "1"], [lit "2", lit "01"]] ∧
    runSelectLinear (fun _ => 0) (withActive studentTable (runStatements (fun _ => 0) (lit "db")
      [insertStudent (lit "1"), insertStudent (lit "01")] (studentState []))) selectStudent [] =
        some (0, [[lit "1", lit "1"]]) := by
  decide +kernel

end MiniSql
