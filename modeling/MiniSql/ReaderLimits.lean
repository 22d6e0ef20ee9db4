import MiniSql.SelectSemantics

/-!
# Rows the reader rejects

The writer has no limit on the number of fields and a higher one on their size than the reader.

* `ReadsBack`: a row can be read back from its table, by `SELECT *`, by a lookup of its id, and after a
  restart the table can be activated.
* `selectAll` and `selectById` are these two SELECTs.

Main results:

* `readFields_tooLarge`: a field over 16 MiB stops the reader.
* `Serving.selectAll`, `Serving.selectById`: what the two SELECTs return on a served table.
* `Serving.readsBack_iff`: an INSERT into a served table leaves a row that can be read back exactly within the
  limits of the reader, if all rows before it have a value for every column.
* `accepted_insert_readable`: so for every accepted INSERT behind a scan of encoded rows and statements within
  these limits.
* `oversizedInsert_not_readable`: a value of 16 MiB and one byte is accepted, and `SELECT *` fails from then
  on.
-/

namespace MiniSql

open Framing

/-! ### The reader on rows beyond its limits -/

theorem scannedRows_length (uninit : ℕ → UInt32) (content : Bytes) :
    ∀ e ∈ (scannedRows uninit content).1, e.2.length ≤ maxBinaryFields := by
  intro e he
  obtain ⟨rest', hrow⟩ := readRows_readAt (List.suffix_refl content) he
  exact binaryReadRow_length hrow

/-- A field over 16 MiB stops the reader. -/
theorem readFields_tooLarge (uninit : ℕ → UInt32) {values : StringList} (hw : Writable values)
    (hlarge : ¬∀ value ∈ values, value.length ≤ maxBinaryFieldBytes) (i : ℕ) (rest : Bytes) :
    readFields uninit values.length i (values.flatMap encodeField ++ rest) =
      .error .fieldTooLarge := by
  induction values generalizing i with
  | nil => exact absurd (by simp) hlarge
  | cons value values ih =>
    have hlt : value.length < 2 ^ 32 := by
      have hle := hw value List.mem_cons_self
      rw [uint32Max] at hle
      omega
    have hlen : value.length = value.bytes.length := rfl
    rw [List.flatMap_cons, encodeField, List.append_assoc, List.append_assoc, List.length_cons,
      readFields, readU32_encodeU32 hlt]
    simp only [Option.getD_some]
    by_cases hvalue : maxBinaryFieldBytes < value.length
    · rw [if_pos hvalue]
    · have hrest : ¬∀ v ∈ values, v.length ≤ maxBinaryFieldBytes := by
        intro hall
        apply hlarge
        intro v hv
        rcases List.mem_cons.mp hv with rfl | hv
        · exact not_lt.mp hvalue
        · exact hall v hv
      rw [if_neg hvalue, if_neg (by rw [List.length_append, hlen]; omega), hlen, List.drop_left,
        ih (fun v hv => hw v (List.mem_cons_of_mem value hv)) hrest]

theorem binaryReadRow_tooLarge (uninit : ℕ → UInt32) {row : StringList} (hw : Writable row)
    (hpos : 1 ≤ row.length) (hcount : row.length ≤ maxBinaryFields)
    (hlarge : ¬∀ value ∈ row, value.length ≤ maxBinaryFieldBytes) (rest : Bytes) :
    binaryReadRowFromFile uninit (encodeRow row ++ rest) = .failed .fieldTooLarge := by
  have hlt : row.length < 2 ^ 32 := by
    rw [maxBinaryFields] at hcount
    omega
  rw [encodeRow, List.append_assoc, binaryReadRowFromFile, readU32_encodeU32 hlt]
  dsimp only
  rw [if_neg (by omega), readFields_tooLarge uninit hw hlarge]

/-- A scan of encoded rows with something behind them reads these rows first. -/
theorem readRows_append (uninit : ℕ → UInt32) {rows : List StringList}
    (hrows : ∀ row ∈ rows, Readable row) (tail : Bytes) {size off fuel : ℕ}
    (hsize : size = off + (stream encodeRow rows ++ tail).length)
    (hfuel : (stream encodeRow rows ++ tail).length < fuel) :
    ∃ fuel', tail.length < fuel' ∧ readRows uninit size fuel (stream encodeRow rows ++ tail) =
      (located encodeRow off rows ++ (readRows uninit size fuel' tail).1,
        (readRows uninit size fuel' tail).2) := by
  induction rows generalizing off fuel with
  | nil => exact ⟨fuel, hfuel, rfl⟩
  | cons row rows ih =>
    obtain ⟨fuel, rfl⟩ : ∃ f, fuel = f + 1 := ⟨fuel - 1, by omega⟩
    have hpos := encodeRow_length_pos row
    rw [stream_cons, List.append_assoc, List.length_append] at hsize hfuel
    have hoff : size - (encodeRow row ++ (stream encodeRow rows ++ tail)).length = off := by
      rw [List.length_append]
      omega
    obtain ⟨fuel', hfuel', heq⟩ := ih (fun r hr => hrows r (List.mem_cons_of_mem row hr))
      (show size = off + (encodeRow row).length + _ by omega) (show _ < fuel by omega)
    refine ⟨fuel', hfuel', ?_⟩
    rw [stream_cons, List.append_assoc, readRows,
      binaryReadRow_encodeRow uninit (hrows row List.mem_cons_self)]
    dsimp only
    rw [hoff, heq, located, List.cons_append]

theorem scannedRows_append (uninit : ℕ → UInt32) {rows : List StringList}
    (hrows : ∀ row ∈ rows, Readable row) (tail : Bytes) :
    ∃ fuel, tail.length < fuel ∧ scannedRows uninit (stream encodeRow rows ++ tail) =
      (rowsAt rows ++ (readRows uninit (stream encodeRow rows ++ tail).length fuel tail).1,
        (readRows uninit (stream encodeRow rows ++ tail).length fuel tail).2) :=
  readRows_append uninit hrows tail (by omega) (by omega)

/-! ### `SELECT *` -/

theorem projectRow_lt {row values : StringList} {positions : List ℕ}
    (h : projectRow row positions = .ok values) : ∀ i ∈ positions, i < row.length := by
  induction positions generalizing values with
  | nil => simp
  | cons i positions ih =>
    rw [projectRow] at h
    split at h
    · cases h
    · rename_i value hvalue
      split at h
      · cases h
      · rename_i values' hrest
        intro j hj
        rcases List.mem_cons.mp hj with rfl | hj
        · exact (List.getElem?_eq_some_iff.mp hvalue).1
        · exact ih hrest j hj

theorem projectRows_ok {rows out : List StringList} {positions : List ℕ}
    (h : projectRows positions rows = .ok out) :
    (∀ row ∈ rows, ∀ i ∈ positions, i < row.length) ∧ out = rows.map (project positions) := by
  have hlt : ∀ row ∈ rows, ∀ i ∈ positions, i < row.length := by
    induction rows generalizing out with
    | nil => simp
    | cons row rows ih =>
      rw [projectRows] at h
      split at h
      · cases h
      · rename_i values hrow
        split at h
        · cases h
        · rename_i projected hrest
          intro r hr
          rcases List.mem_cons.mp hr with rfl | hr
          · exact projectRow_lt hrow
          · exact ih hrest r hr
  refine ⟨hlt, ?_⟩
  rw [projectRows_eq hlt] at h
  exact (Except.ok.inj h).symm

/-- `SELECT * FROM` the table. -/
def selectAll (table : TableDefinition) : SelectStatement := ⟨table.name, true, [], none⟩

/-- `SELECT * FROM` the table `WHERE id =` the given text. -/
def selectById (table : TableDefinition) (text : CString) : SelectStatement :=
  ⟨table.name, true, [], some ⟨idName, text, .equal⟩⟩

section SelectAll

variable {uninit : ℕ → UInt32} {table : TableDefinition} {s : State} {content : Bytes}

/-- The full result of `SELECT *` is what a scan of the whole file reads. -/
theorem runFullQuery_all (uninit : ℕ → UInt32) (hactive : s.globals.activeTable = some table)
    (hpath : s.globals.activeDataPath = some table.dataPath)
    (hfile : s.files table.dataPath = some content) :
    runFullQuery uninit s (selectAll table) =
      some (if (scannedRows uninit content).2
        then .ok ((scannedRows uninit content).1.map Prod.snd) else .error .linearScanPath) := by
  have hkeep : foldRows (linearScanCallback none false) (scannedRows uninit content).1 [] =
      some (none, (scannedRows uninit content).1.map Prod.snd) := by
    have hcb : ∀ e ∈ (scannedRows uninit content).1, ∀ out,
        linearScanCallback none false e.1 e.2 out =
          some (0, if (fun _ => true) e.2 then out ++ [e.2] else out) := by
      intro e _ out
      rfl
    rw [foldRows_keep (p := fun _ => true) hcb, List.nil_append, List.filter_true]
  have hlinear : runSelectLinear uninit s (selectAll table) [] =
      some (if (scannedRows uninit content).2 then 0 else -1,
        (scannedRows uninit content).1.map Prod.snd) := by
    have hscan : binaryReaderScanAll uninit s.globals.activeDataPath s.files
        (linearScanCallback none false) [] = scanResult (scannedRows uninit content).2
          (some (none, (scannedRows uninit content).1.map Prod.snd)) := by
      rw [hpath, binaryReaderScanAll_eq uninit hfile, hkeep]
    rw [runSelectLinear, hactive]
    dsimp only [selectAll]
    rw [hscan, scanResult]
    cases (scannedRows uninit content).2 <;> rfl
  have hequal : isIdEqualityPredicate (selectAll table) = none := rfl
  have hrange : isIdRangePredicate (selectAll table) = none := rfl
  rw [runFullQuery, hequal]
  dsimp only
  rw [hrange]
  dsimp only
  rw [hlinear]
  cases (scannedRows uninit content).2 <;> rfl

/-- A row with a value for every column is its own projection. -/
theorem project_range {row : StringList} {n : ℕ} (h : row.length = n) :
    project (List.range n) row = row := by
  apply List.ext_getElem
  · rw [project, List.length_map, List.length_range, h]
  · intro i h₁ h₂
    simp only [project, List.getElem_map, List.getElem_range]
    exact List.getD_eq_getElem _ _ h₂

end SelectAll

theorem le_of_range_lt {n m : ℕ} (h : ∀ i ∈ List.range n, i < m) : n ≤ m := by
  by_contra hlt
  exact absurd (h m (List.mem_range.mpr (not_le.mp hlt))) (lt_irrefl m)

/-! ### Reading an inserted row back -/

/-- The row can be read back from the table: by `SELECT *`, by a lookup of its id, and after a restart
the table can be activated. -/
structure ReadsBack (uninit : ℕ → UInt32) (dbRoot : CString) (table : TableDefinition)
    (row : StringList) (s : State) : Prop where
  select_all : ∃ result, (runSelectQuery uninit dbRoot (selectAll table) s).1 = .ok result ∧
    row ∈ result.rows
  by_id : ∃ result, (runSelectQuery uninit dbRoot
      (selectById table (cell table.columns idName row)) s).1 = .ok result ∧ row ∈ result.rows
  restart : (activateStorageForTable uninit table (State.fresh s.files)).1 = none

section ReadsBack

variable {dbRoot : CString} {table : TableDefinition} {rows : List StringList} {b : IndexBuild}
  {s : State}

/-- An accepted INSERT has handed a row to the writer. -/
theorem OnTable.planned_of_ok {uninit : ℕ → UInt32} (h : OnTable dbRoot table s)
    {statement : InsertStatement} (hname : statement.target = table.name) {result : InsertResult}
    (haccept : (appendInsertRow uninit dbRoot statement s).1 = .ok result) :
    ∃ row, plannedRow table (.insert statement) s = some row := by
  rcases h.insert_cases uninit hname with ⟨e, active, -, heq⟩ | ⟨plan, hcount, hplan, -⟩
  · rw [heq] at haccept
    cases haccept
  · exact ⟨_, plannedRow_of_plan hcount hplan⟩

/-- If `SELECT *` succeeds on a file that begins with encoded rows, these have a value for every
column, and the rest is read to its end. -/
theorem selectAll_ok {uninit : ℕ → UInt32} (hactive : s.globals.activeTable = some table)
    (hpath : s.globals.activeDataPath = some table.dataPath) {tail : Bytes}
    (hfile : s.files table.dataPath = some (stream encodeRow rows ++ tail))
    (hrows : ∀ row ∈ rows, Readable row) {result : QueryResult}
    (hok : selectFromTable uninit table (selectAll table) s = .ok result) :
    (∀ row ∈ rows, table.columns.length ≤ row.length) ∧
      (result.rows ≠ [] → table.columns.length ≤ maxBinaryFields) ∧
      ∃ fuel, tail.length < fuel ∧
        (readRows uninit (stream encodeRow rows ++ tail).length fuel tail).2 = true := by
  obtain ⟨fuel, hfuel, hscanned⟩ := scannedRows_append uninit hrows tail
  rw [selectFromTable, runFullQuery_all uninit hactive hpath hfile] at hok
  cases hclean : (scannedRows uninit (stream encodeRow rows ++ tail)).2 with
  | false =>
    rw [hclean] at hok
    cases hok
  | true =>
    rw [hclean, if_pos rfl] at hok
    dsimp only at hok
    rw [if_pos (show (selectAll table).selectAll = true from rfl)] at hok
    dsimp only at hok
    cases hprojected : projectRows (List.range table.columns.length)
        ((scannedRows uninit (stream encodeRow rows ++ tail)).1.map Prod.snd) with
    | error e =>
      rw [hprojected] at hok
      cases hok
    | ok projected =>
      rw [hprojected] at hok
      obtain rfl := SelectOutcome.ok.inj hok
      obtain ⟨hlt, hmap⟩ := projectRows_ok hprojected
      have hwide : ∀ e ∈ (scannedRows uninit (stream encodeRow rows ++ tail)).1,
          table.columns.length ≤ e.2.length := by
        intro e he
        exact le_of_range_lt (hlt e.2 (List.mem_map_of_mem he))
      refine ⟨?_, ?_, fuel, hfuel, ?_⟩
      · intro row hr
        obtain ⟨ref, hmem⟩ := exists_mem_located encodeRow 0 hr
        apply hwide (ref, row)
        rw [hscanned]
        exact List.mem_append_left _ hmem
      · intro hne
        obtain ⟨e, he⟩ : ∃ e, e ∈ (scannedRows uninit (stream encodeRow rows ++ tail)).1 := by
          apply List.exists_mem_of_ne_nil
          intro hnil
          apply hne
          show projected = []
          rw [hmap, hnil, List.map_nil, List.map_nil]
        exact (hwide e he).trans (scannedRows_length uninit _ e he)
      · rw [hscanned] at hclean
        exact hclean

/-- A SELECT of all columns whose full result has a value for every column. -/
theorem selectFromTable_all {uninit : ℕ → UInt32} {statement : SelectStatement}
    {found : List StringList} (hall : statement.selectAll = true)
    (hfull : runFullQuery uninit s statement = some (.ok found))
    (hwide : ∀ row ∈ found, table.columns.length ≤ row.length) :
    selectFromTable uninit table statement s =
      .ok ⟨(List.range table.columns.length).map fun i => table.columns.getD i CString.empty,
        found.map (project (List.range table.columns.length))⟩ := by
  have hprojected : projectRows (List.range table.columns.length) found =
      .ok (found.map (project (List.range table.columns.length))) := by
    apply projectRows_eq
    intro row hr i hi
    exact (List.mem_range.mp hi).trans_le (hwide row hr)
  rw [selectFromTable, hfull]
  dsimp only
  rw [if_pos hall]
  dsimp only
  rw [hprojected]

/-- `SELECT *` on a served table whose rows have a value for every column. -/
theorem Serving.selectAll (uninit : ℕ → UInt32) (h : Serving dbRoot table rows b s)
    (hactive : s.globals.activeTable = some table)
    (hwide : ∀ row ∈ rows, table.columns.length ≤ row.length) :
    ∃ result, selectFromTable uninit table (MiniSql.selectAll table) s = .ok result ∧
      ∀ row ∈ rows, row.length = table.columns.length → row ∈ result.rows := by
  have hfull := runFullQuery_all uninit hactive h.path h.file
  rw [scannedRows_encoded uninit h.readable, if_pos rfl, located_map_snd] at hfull
  refine ⟨_, selectFromTable_all rfl hfull hwide, ?_⟩
  intro row hr hlength
  exact List.mem_map.mpr ⟨row, hr, project_range hlength⟩

/-- The lookup of an id on a served table finds the row with this id, if it has exactly one value for
every column. -/
theorem Serving.selectById (uninit : ℕ → UInt32) (h : Serving dbRoot table rows b s)
    (hactive : s.globals.activeTable = some table) {row : StringList} (hrow : row ∈ rows)
    (hlength : row.length = table.columns.length) {id : UInt64}
    (hid : idOf table.columns row = some id)
    (honly : ∀ r ∈ rows, idOf table.columns r = some id → r = row) :
    ∃ result, selectFromTable uninit table
        (MiniSql.selectById table (cell table.columns idName row)) s = .ok result ∧
      row ∈ result.rows := by
  have hparse : parseU64Strict (cell table.columns idName row) = some id := by
    have hid' := hid
    rw [idOf] at hid'
    obtain ⟨column, hcol, hcell⟩ := Option.bind_eq_some_iff.mp hid'
    obtain ⟨text, htext, hparse⟩ := Option.bind_eq_some_iff.mp hcell
    rw [cell, hcol, Option.getD_some, List.getD_eq_getElem?_getD, htext]
    exact hparse
  obtain ⟨es, hm, hentries, hperm⟩ := (h.scanned uninit).bindings
  have hread : ∀ e ∈ es, e.1 = id →
      ∀ out, appendRowByRef uninit s table e.2 out = (0, out ++ [row]) := by
    intro e he hkey out
    obtain ⟨r, hr, hrid, hat⟩ := hentries e he
    rw [hkey] at hrid
    obtain rfl := honly r hr hrid
    rw [appendRowByRef, hat]
    dsimp only
    rw [if_neg (by omega), if_neg (not_not.mpr hlength)]
  have hequal : isIdEqualityPredicate
      (MiniSql.selectById table (cell table.columns idName row)) = some id := by
    rw [isIdEqualityPredicate, MiniSql.selectById]
    dsimp only
    rw [if_neg (by decide), if_neg (by decide), hparse]
  have hfull : runFullQuery uninit s (MiniSql.selectById table (cell table.columns idName row)) =
      some (.ok ((es.filter fun e => idMatches .equal e.1 id).map fun _ => row)) := by
    rw [runFullQuery, hequal]
    dsimp only
    rw [runSelectById_eq hactive hm (fun _ => row) hread]
    rfl
  have hwide : ∀ r ∈ (es.filter fun e => idMatches .equal e.1 id).map fun _ => row,
      table.columns.length ≤ r.length := by
    intro r hr
    obtain ⟨e, -, rfl⟩ := List.mem_map.mp hr
    exact hlength.ge
  refine ⟨_, selectFromTable_all rfl hfull hwide, ?_⟩
  -- the binding of the row is in the index
  have hmatches : row ∈ rows.filter fun r =>
      (idOf table.columns r).any fun key => idMatches .equal key id := by
    rw [List.mem_filter, hid]
    exact ⟨hrow, by simp [idMatches]⟩
  obtain ⟨e, he, -⟩ := List.mem_map.mp ((hperm fun key => idMatches .equal key id).mem_iff.mpr hmatches)
  exact List.mem_map.mpr ⟨row, List.mem_map.mpr ⟨e, he, rfl⟩, project_range hlength⟩

/-- An INSERT into a served table leaves a row that can be read back exactly within the limits of the
reader, if all rows before it have a value for every column. -/
theorem Serving.readsBack_iff (uninit : ℕ → UInt32) (h : Serving dbRoot table rows b s)
    {statement : InsertStatement} (hname : statement.target = table.name) {result : InsertResult}
    (haccept : (appendInsertRow uninit dbRoot statement s).1 = .ok result) :
    ReadsBack uninit dbRoot table result.values (appendInsertRow uninit dbRoot statement s).2 ↔
      table.columns.length ≤ maxBinaryFields ∧ ValuesInLimit statement ∧
        ∀ row ∈ rows, table.columns.length ≤ row.length := by
  obtain ⟨row, hplanned⟩ := h.onTable.planned_of_ok hname haccept
  obtain ⟨hw, hnew⟩ := (h.accepted_iff uninit hname hplanned).mp ⟨result, haccept⟩
  obtain ⟨b', hbuilt, -, heq⟩ := h.accept uninit hname hplanned hw hnew
  have hinsert : (Statement.insert statement).name = table.name := hname
  have hon := h.onTable.step uninit hinsert
  rw [executeStatement] at hon
  dsimp only at hon
  rw [heq] at hon haccept ⊢
  obtain rfl := Except.ok.inj haccept
  dsimp only at hon ⊢
  generalize hs₃ : (⟨⟨b'.index, nextId s.globals.nextIdCounter, some table.dataPath, none,
    findColumnIndex table.columns studentNoName, b'.studentNoSet⟩,
    s.files.write table.dataPath (stream encodeRow (rows ++ [row]))⟩ : State) = s₃ at hon ⊢
  have hlength := plannedRow_length hplanned
  have hrowid := plannedRow_idOf hplanned
  have hreadable : Readable row ↔
      table.columns.length ≤ maxBinaryFields ∧ ValuesInLimit statement := by
    obtain ⟨insert, plan, hinsert, -, hplan, hrow⟩ := plannedRow_some hplanned
    obtain rfl : statement = insert := Statement.insert.inj hinsert
    rw [hrow]
    exact planned_readable_iff hplan _
  constructor
  · rintro ⟨⟨all, hall, hmem⟩, -, -⟩
    rw [hon.select_eq rfl] at hall
    have hfile : (withActive table s₃).files table.dataPath =
        some (stream encodeRow rows ++ encodeRow row) := by
      rw [← hs₃, ← stream_snoc]
      exact FileSystem.write_self _ _ _
    obtain ⟨hwide, hfields, fuel, hfuel, hclean⟩ :=
      selectAll_ok rfl hon.reactivate.path hfile h.readable hall
    have hcolumns := hfields (List.ne_nil_of_mem hmem)
    refine ⟨hcolumns, ?_, hwide⟩
    -- a field over the limit would stop the scan at the new row
    by_contra hlarge
    have hpos : 1 ≤ row.length := by
      have hcol := Option.ne_none_iff_exists'.mp h.id_column
      obtain ⟨i, hi⟩ := hcol
      have hlt := findColumnIndex_lt hi
      omega
    have hcount : row.length ≤ maxBinaryFields := by
      rw [hlength]
      exact hcolumns
    have hfield : ¬∀ value ∈ row, value.length ≤ maxBinaryFieldBytes := by
      intro hall'
      exact hlarge (hreadable.mp ⟨hpos, hcount, hall'⟩).2
    obtain ⟨fuel, rfl⟩ : ∃ f, fuel = f + 1 := ⟨fuel - 1, by omega⟩
    have hstop := binaryReadRow_tooLarge uninit hw hpos hcount hfield []
    rw [List.append_nil] at hstop
    rw [readRows, hstop] at hclean
    cases hclean
  · rintro ⟨hcolumns, hvalues, hwide⟩
    have hserving : Serving dbRoot table (rows ++ [row]) b' s₃ := by
      rw [← hs₃] at hon ⊢
      refine ⟨hon.load, rfl, FileSystem.write_self _ _ _, ?_, h.id_column, rfl, hbuilt, rfl, rfl⟩
      intro r hr
      rcases List.mem_append.mp hr with hr | hr
      · exact h.readable r hr
      · rw [List.mem_singleton.mp hr]
        exact hreadable.mpr ⟨hcolumns, hvalues⟩
    have hlast : row ∈ rows ++ [row] := List.mem_append_right _ List.mem_cons_self
    refine ⟨?_, ?_, ?_⟩
    · have hwide' : ∀ r ∈ rows ++ [row], table.columns.length ≤ r.length := by
        intro r hr
        rcases List.mem_append.mp hr with hr | hr
        · exact hwide r hr
        · rw [List.mem_singleton.mp hr, hlength]
      obtain ⟨all, hall, hmem⟩ := (hserving.setActive (some table)).selectAll uninit rfl hwide'
      rw [hon.select_eq rfl]
      exact ⟨all, hall, hmem row hlast hlength⟩
    · have honly : ∀ r ∈ rows ++ [row],
          idOf table.columns r = some (nextId s.globals.nextIdCounter) → r = row := by
        intro r hr hid
        rcases List.mem_append.mp hr with hr | hr
        · obtain ⟨ref, hlocated⟩ := exists_mem_located encodeRow 0 hr
          refine absurd ?_ hnew
          rw [idsOf]
          exact List.mem_map.mpr ⟨(nextId s.globals.nextIdCounter, ref),
            mem_bindingsOf.mpr ⟨r, hlocated, hid⟩, rfl⟩
        · exact List.mem_singleton.mp hr
      obtain ⟨found, hfound, hmem⟩ := (hserving.setActive (some table)).selectById uninit rfl hlast
        hlength hrowid honly
      rw [hon.select_eq rfl]
      exact ⟨found, hfound, hmem⟩
    · obtain ⟨files, hfresh⟩ := hserving.fresh uninit
      rw [hfresh]

end ReadsBack

/-- **Accepted INSERTs.**  In a process that started on any files and ran any statements, let the
activation of a table scan a data file of encoded rows and succeed, and let any statements on the table
follow that are within the limits of the reader and never wrap the id counter.  An INSERT that is
accepted then leaves a row that can be read back (by `SELECT *`, by its id, and after a restart) if
and only if the table has at most 4096 columns, no value to be stored is over 16 MiB, and every loaded
row has a value for every column. -/
theorem accepted_insert_readable (uninit : ℕ → UInt32) (dbRoot : CString) (files : FileSystem)
    (before statements : List Statement) (name : QualifiedName) (table : TableDefinition)
    (rows : List StringList) (s₀ s₁ s₂ : State) (statement : InsertStatement) (result : InsertResult)
    (h₀ : s₀ = runStatements uninit dbRoot before (State.fresh files))
    (hload : loadTableDefinition dbRoot s₀.files name = .ok table)
    (hscan : alreadyActive table s₀.globals = false)
    (hfile : (s₀.files table.dataPath).getD [] = stream encodeRow rows)
    (hrows : ∀ row ∈ rows, Readable row)
    (hactivate : (activateStorageForTable uninit table s₀).1 = none)
    (h₁ : s₁ = (activateStorageForTable uninit table s₀).2)
    (hname : ∀ statement ∈ statements, statement.name = name)
    (hlimits : ∀ statement ∈ statements, InReaderLimits table statement)
    (hcounter : NeverWraps uninit dbRoot table statements s₁)
    (h₂ : s₂ = runStatements uninit dbRoot statements s₁) (htarget : statement.target = name)
    (haccept : (appendInsertRow uninit dbRoot statement s₂).1 = .ok result) :
    ReadsBack uninit dbRoot table result.values (appendInsertRow uninit dbRoot statement s₂).2 ↔
      table.columns.length ≤ maxBinaryFields ∧ ValuesInLimit statement ∧
        ∀ row ∈ rows, table.columns.length ≤ row.length := by
  have htable := loadTableDefinition_name hload
  obtain ⟨added, b', hadded, hserving', -⟩ :=
    statements_serve uninit h₀ hload hscan hfile hrows hactivate h₁ hname hlimits hcounter h₂
  rw [hserving'.readsBack_iff uninit (by rw [htarget, htable]) haccept]
  -- the rows added by the run have a value for every column
  have hwide : (∀ row ∈ rows ++ added, table.columns.length ≤ row.length) ↔
      ∀ row ∈ rows, table.columns.length ≤ row.length := by
    constructor
    · intro hall row hr
      exact hall row (List.mem_append_left _ hr)
    · intro hall row hr
      rcases List.mem_append.mp hr with hr | hr
      · exact hall row hr
      · exact (hadded row hr).ge
  rw [hwide]

/-! ### A value over the limit -/

/-- A value of 16 MiB and one byte. -/
def longName : CString where
  bytes := List.replicate (maxBinaryFieldBytes + 1) 97
  nul_free := by
    rw [List.mem_replicate]
    rintro ⟨-, h⟩
    exact absurd h (by decide)

theorem longName_length : longName.length = maxBinaryFieldBytes + 1 := List.length_replicate

theorem prepareInsert_insertName (v : CString) (g : Globals) :
    prepareInsert nameTable.columns (insertName v) g = .ok ⟨[CString.empty, v], 0, none⟩ := by
  have hname : findColumnIndex nameTable.columns (lit "name") = some 1 := by decide
  have hid : findColumnIndex nameTable.columns idName = some 0 := by decide
  have hstudent : findColumnIndex nameTable.columns studentNoName = none := by decide
  have hother : ¬sqlStricmp (nameTable.columns.getD 1 CString.empty) idName = 0 := by decide
  have hassign : assignColumns nameTable.columns
      ((insertName v).columns.zip (insertName v).values) (nameTable.columns.map fun _ => false)
      (nameTable.columns.map fun _ => CString.empty) = .ok ([false, true], [CString.empty, v]) := by
    show assignColumns nameTable.columns [(lit "name", v)] [false, false]
      [CString.empty, CString.empty] = _
    rw [assignColumns, hname]
    dsimp only
    rw [if_neg (by decide), if_neg hother]
    rfl
  rw [prepareInsert, hassign]
  dsimp only
  rw [hid, hstudent]
  rfl

/-- The INSERT of a value over 16 MiB is accepted, and `SELECT *` fails from then on. -/
theorem oversizedInsert_not_readable :
    (appendInsertRow (fun _ => 0) (lit "db") (insertName longName) (nameState [])).1 =
        .ok ⟨1, nameTable.columns, [decimalText 1, longName]⟩ ∧
      ¬ReadsBack (fun _ => 0) (lit "db") nameTable [decimalText 1, longName]
        (appendInsertRow (fun _ => 0) (lit "db") (insertName longName) (nameState [])).2 := by
  obtain ⟨b, hserving, -⟩ := activate_serving (UsableCaches.fresh (nameFiles []))
    (show loadTableDefinition (lit "db") (State.fresh (nameFiles [])).files ⟨none, lit "t"⟩ =
      .ok nameTable by decide +kernel)
    (show alreadyActive nameTable (State.fresh (nameFiles [])).globals = false by decide +kernel)
    (show ((State.fresh (nameFiles [])).files nameTable.dataPath).getD [] = stream encodeRow [] by
      decide +kernel)
    (fun row hr => absurd hr (by simp))
    (show (activateStorageForTable (fun _ => 0) nameTable (State.fresh (nameFiles []))).1 = none by
      decide +kernel)
  change Serving (lit "db") nameTable [] b (nameState []) at hserving
  have hcounter : nextId (nameState []).globals.nextIdCounter = 1 := by decide +kernel
  have hplanned : plannedRow nameTable (.insert (insertName longName)) (nameState []) =
      some [decimalText 1, longName] := by
    rw [plannedRow, if_neg (show ¬(insertName longName).columns.length ≠
      (insertName longName).values.length by simp [insertName]), prepareInsert_insertName]
    dsimp only
    rw [hcounter]
    rfl
  have hwritable : Writable [decimalText 1, longName] := by
    intro value hv
    rcases List.mem_cons.mp hv with rfl | hv
    · decide
    · rw [List.mem_singleton.mp hv, longName_length]
      decide
  obtain ⟨b', -, -, heq⟩ := hserving.accept (fun _ => 0) rfl hplanned hwritable
    (by simp [idsOf, bindingsOf])
  have haccept : (appendInsertRow (fun _ => 0) (lit "db") (insertName longName) (nameState [])).1 =
      .ok ⟨1, nameTable.columns, [decimalText 1, longName]⟩ := by
    rw [heq]
  refine ⟨haccept, fun hreads => ?_⟩
  have hlimits := (hserving.readsBack_iff (fun _ => 0) rfl haccept).mp hreads
  have hstored : (lit "name", longName) ∈ storedPairs (insertName longName) := by
    rw [storedPairs, List.mem_filter]
    exact ⟨List.mem_cons_self, by decide⟩
  have hle := hlimits.2.1 _ hstored
  rw [longName_length] at hle
  omega

theorem accepted_insert_readable_short :
    ReadsBack (fun _ => 0) (lit "db") nameTable [lit "2", lit "b"]
        (appendInsertRow (fun _ => 0) (lit "db") (insertName (lit "b"))
          (nameState (encodeRow [lit "1", lit "a"]))).2 ↔
      nameTable.columns.length ≤ maxBinaryFields ∧ ValuesInLimit (insertName (lit "b")) ∧
        ∀ row ∈ [[lit "1", lit "a"]], nameTable.columns.length ≤ row.length :=
  accepted_insert_readable (fun _ => 0) (lit "db") (nameFiles (encodeRow [lit "1", lit "a"])) [] []
    ⟨none, lit "t"⟩ nameTable [[lit "1", lit "a"]]
    (State.fresh (nameFiles (encodeRow [lit "1", lit "a"]))) _ _ (insertName (lit "b"))
    ⟨1, nameTable.columns, [lit "2", lit "b"]⟩ rfl (by decide +kernel) (by decide +kernel)
    (by decide +kernel)
    (by
      intro row hr
      rw [List.mem_singleton.mp hr]
      exact ⟨by decide, by decide, by decide⟩)
    (by decide +kernel) rfl (fun _ hst => absurd hst (by simp)) (fun _ hst => absurd hst (by simp))
    (by
      intro earlier statement later heq
      cases earlier <;> cases heq)
    rfl rfl (by decide +kernel)

end MiniSql
