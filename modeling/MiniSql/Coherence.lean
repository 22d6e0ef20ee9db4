import MiniSql.GeneratedIds

/-!
# Caches and data file

A table is `Serving` rows when its data file is the encoding of these rows, the reader accepts all of them,
and the caches are what the scan of an activation builds from them.

* `InReaderLimits`: an INSERT is within the limits of the reader (`ValuesInLimit`, and at most 4096 columns).
* `Serving.accept`, `Serving.accepted_iff`: an INSERT that passes its checks adds its row to the file and to
  the caches, exactly if the row can be written and its id is new.
* `Serving.step`, `Serving.run`: so a run of statements that never wraps the counter keeps the table served,
  by its old rows and those it has added.
* `activate_serving`, `activation_serves`, `statements_serve`: a scan of encoded rows serves them, in any
  process.
* `Serving.fresh`: a fresh process activates a served table with the same caches.

Main result: `caches_equal_rebuilt`, the caches kept by INSERTs are those that a fresh process builds.  It is
about activations that scan the data file: `caches_after_failed_scan` shows the early return behind a scan
that failed, where there are no rebuilt caches at all.
-/

namespace MiniSql

open Framing

/-! ### Which rows INSERT writes -/

theorem decimalText_length (id : UInt64) : (decimalText id).length ≤ 20 := by
  have hlt : id.toNat < 10 ^ 20 := lt_trans id.toNat_lt (by norm_num)
  have hdigits : (Nat.digits 10 id.toNat).length ≤ 20 :=
    (Nat.digits_length_le_iff (show 1 < 10 by omega) id.toNat).mpr hlt
  show (decimalBytes id.toNat).length ≤ 20
  rw [decimalBytes]
  split
  · decide
  · rw [List.length_map, List.length_reverse]
    exact hdigits

/-- The values an INSERT stores are within the limit of the reader. -/
def ValuesInLimit (statement : InsertStatement) : Prop :=
  ∀ p ∈ storedPairs statement, p.2.length ≤ maxBinaryFieldBytes

/-- An INSERT writes a row the reader accepts exactly within the limits of the reader. -/
theorem planned_readable_iff {columns : StringList} {statement : InsertStatement} {g : Globals}
    {plan : InsertPlan} (h : prepareInsert columns statement g = .ok plan) (id : UInt64) :
    Readable (plan.row id) ↔ columns.length ≤ maxBinaryFields ∧ ValuesInLimit statement := by
  have hplan := prepareInsert_ok h
  have hlength : (plan.row id).length = columns.length := by
    rw [plan.row_length, hplan.length]
  have htext : (decimalText id).length ≤ maxBinaryFieldBytes :=
    (decimalText_length id).trans (by decide)
  have hvalues : (∀ v ∈ plan.row id, v.length ≤ maxBinaryFieldBytes) ↔ ValuesInLimit statement := by
    rw [hplan.row_forall_length id htext]
    exact prepareInsert_forall h (P := fun v => v.length ≤ maxBinaryFieldBytes) (Nat.zero_le _)
  constructor
  · intro hr
    exact ⟨hlength ▸ hr.count_le, hvalues.mp hr.field_le⟩
  · rintro ⟨hcols, hvals⟩
    refine ⟨?_, by rw [hlength]; exact hcols, hvalues.mpr hvals⟩
    have hpos := findColumnIndex_lt hplan.id_column
    omega

/-- The row of a plan joins the caches under an id that is not there yet. -/
theorem PlanFor.newRow {columns : StringList} {g : Globals} {plan : InsertPlan}
    (hp : PlanFor columns g plan) {rows : List (RowRef × StringList)}
    (hc : CacheModel columns rows g.index g.studentNoSet)
    (hcolumn : g.activeStudentNoColumn = findColumnIndex columns studentNoName) {id : UInt64}
    (hnew : id ∉ idsOf columns rows) : NewRow columns rows (plan.row id) id := by
  refine ⟨hp.idOf_row id, hnew, fun hs => ?_⟩
  obtain ⟨column, hcol⟩ := Option.ne_none_iff_exists'.mp hs
  obtain ⟨v, hv, -, hne, hnot⟩ := hp.student_no column hcol
  have hcontains := hnot (hcolumn.trans hcol)
  rw [(hc.studentNos hs).2.contains, decide_eq_false_iff_not] at hcontains
  exact ⟨v, by rw [hp.studentNoOf_row, hv], hne, hcontains⟩

/-! ### Activating a file of encoded rows -/

theorem Built.unique {columns : StringList} {rows : List (RowRef × StringList)} {b b' : IndexBuild}
    (h : Built columns rows b) (h' : Built columns rows b') : b = b' := by
  rw [Built] at h h'
  rw [h] at h'
  exact (Prod.mk.inj (Option.some.inj h')).2

section Stream

variable {uninit : ℕ → UInt32} {table : TableDefinition} {files : FileSystem} {rows : List StringList}

theorem loads_stream_iff (hfile : files table.dataPath = some (stream encodeRow rows))
    (hrows : ∀ row ∈ rows, Readable row) (b : IndexBuild) :
    Loads uninit table files b ↔
      findColumnIndex table.columns idName ≠ none ∧ Built table.columns (rowsAt rows) b := by
  have hscan := scannedRows_encoded uninit hrows
  constructor
  · intro h
    obtain ⟨content, hcontent, -, hb⟩ := h.built
    obtain rfl := Option.some.inj (hfile.symm.trans hcontent)
    rw [hscan] at hb
    exact ⟨h.id_column, hb⟩
  · rintro ⟨hid, hb⟩
    refine Built.loads hfile hid ?_ ?_
    · rw [hscan]
    · rw [hscan]
      exact hb

/-- A full activation of a file of encoded rows. -/
theorem activate_stream (uninit : ℕ → UInt32) {s : State} (hf : NoFail s)
    (hearly : alreadyActive table s.globals = false)
    (hfile : (s.files table.dataPath).getD [] = stream encodeRow rows)
    (hrows : ∀ row ∈ rows, Readable row) :
    (∃ b, findColumnIndex table.columns idName ≠ none ∧ Built table.columns (rowsAt rows) b ∧
      activateStorageForTable uninit table s =
        (none, ⟨loadedGlobals table b, ensureDataFile s.files table.dataPath⟩)) ∨
    ((¬∃ b, findColumnIndex table.columns idName ≠ none ∧ Built table.columns (rowsAt rows) b) ∧
      ∃ e g', activateStorageForTable uninit table s =
        (some e, ⟨g', ensureDataFile s.files table.dataPath⟩)) := by
  have hdata := ensureDataFile_self s.files table.dataPath
  rw [hfile] at hdata
  have hbinary := fileLooksBinary_stream uninit hrows
  rw [activateStorageForTable, if_neg (by rw [hearly]; decide), switchStorageToTable_eq]
  rcases migrateIfText_cases uninit hdata with ⟨-, hm⟩ | ⟨htext, -⟩ | ⟨htext, -⟩
  · rw [hm]
    dsimp only
    rcases buildIndexForTable_cases uninit table s.globals (ensureDataFile s.files table.dataPath) hf
      with ⟨b, hb, heq⟩ | ⟨hno, e, g', heq⟩
    · obtain ⟨hid, hbuilt⟩ := (loads_stream_iff hdata hrows b).mp hb
      exact Or.inl ⟨b, hid, hbuilt, heq⟩
    · refine Or.inr ⟨?_, e, g', heq⟩
      rintro ⟨b, hb⟩
      exact hno ⟨b, (loads_stream_iff hdata hrows b).mpr hb⟩
  · rw [hbinary] at htext
    cases htext
  · rw [hbinary] at htext
    cases htext

end Stream

/-! ### Serving -/

/-- The table is active; its data file encodes `rows`, all of them rows the reader accepts; the index
and the `student_no` set are those of `b`, which the scan of the rows builds. -/
structure Serving (dbRoot : CString) (table : TableDefinition) (rows : List StringList)
    (b : IndexBuild) (s : State) : Prop where
  load : loadTableDefinition dbRoot s.files table.name = .ok table
  path : s.globals.activeDataPath = some table.dataPath
  file : s.files table.dataPath = some (stream encodeRow rows)
  readable : ∀ row ∈ rows, Readable row
  id_column : findColumnIndex table.columns idName ≠ none
  student_column : s.globals.activeStudentNoColumn = findColumnIndex table.columns studentNoName
  built : Built table.columns (rowsAt rows) b
  index : s.globals.index = b.index
  set : s.globals.studentNoSet = b.studentNoSet

section Serving

variable {uninit : ℕ → UInt32} {dbRoot : CString} {table : TableDefinition} {rows : List StringList}
  {b : IndexBuild} {s : State}

theorem Serving.caches (h : Serving dbRoot table rows b s) :
    CacheModel table.columns (rowsAt rows) s.globals.index s.globals.studentNoSet := by
  rw [h.index, h.set]
  exact h.built.spec.1

theorem Serving.onTable (h : Serving dbRoot table rows b s) : OnTable dbRoot table s := by
  obtain ⟨es, hm, -⟩ := h.caches.index
  refine ⟨h.load, h.path, ⟨es, hm⟩, ?_⟩
  have hloads : Loads (fun _ => 0) table s.files b :=
    (loads_stream_iff h.file h.readable b).mpr ⟨h.id_column, h.built⟩
  rw [h.set]
  exact hloads.usable.2

/-- Replacing `activeTable` does not matter. -/
theorem Serving.setActive (h : Serving dbRoot table rows b s) (active : Option TableDefinition) :
    Serving dbRoot table rows b { s with globals := { s.globals with activeTable := active } } :=
  ⟨h.load, h.path, h.file, h.readable, h.id_column, h.student_column, h.built, h.index, h.set⟩

/-- Appending a row to the file and to its rows. -/
theorem rowsAt_snoc (rows : List StringList) (row : StringList) :
    rowsAt (rows ++ [row]) = rowsAt rows ++ [((stream encodeRow rows).length, row)] := by
  rw [rowsAt, located_append, Nat.zero_add]
  rfl

theorem stream_snoc (rows : List StringList) (row : StringList) :
    stream encodeRow (rows ++ [row]) = stream encodeRow rows ++ encodeRow row := by
  rw [stream_append, stream_cons, stream_nil, List.append_nil]

/-- `storeRow` when the row can be written, its id is new and its `student_no` can join the set. -/
theorem storeRow_accepted {columns : StringList} {plan : InsertPlan} {path : CString} {content : Bytes}
    {index' : IdIndex} (hpath : s.globals.activeDataPath = some path)
    (hfile : s.files path = some content)
    (hw : Writable (plan.row (nextId s.globals.nextIdCounter)))
    (hins : indexInsert s.globals.index (nextId s.globals.nextIdCounter) content.length = (0, index'))
    (hset : ∀ v ∈ plan.studentNo, (studentNoSetInsert s.globals.studentNoSet v).1 = .ok) :
    storeRow columns plan s =
      (.ok ⟨1, columns, plan.row (nextId s.globals.nextIdCounter)⟩,
        ⟨⟨index', nextId s.globals.nextIdCounter, some path, none, s.globals.activeStudentNoColumn,
          match plan.studentNo with
          | none => s.globals.studentNoSet
          | some v => (studentNoSetInsert s.globals.studentNoSet v).2⟩,
        s.files.write path
          (content ++ encodeRow (plan.row (nextId s.globals.nextIdCounter)))⟩) := by
  rw [storeRow]
  dsimp only
  rw [hpath, binaryWriterAppendRow_ok hfile hw]
  dsimp only
  rw [if_neg (by omega), hins]
  dsimp only
  rw [if_neg (by omega), if_neg (by omega)]
  cases hstudent : plan.studentNo with
  | none => rfl
  | some v =>
    have hok := hset v hstudent
    dsimp only
    rcases hr : studentNoSetInsert s.globals.studentNoSet v with ⟨r, set'⟩
    rw [hr] at hok
    obtain rfl : r = .ok := hok
    rfl

/-- **Accepted.**  An INSERT that passes its checks with a row that can be written and an id that is
new: the row joins the file and the caches. -/
theorem Serving.accept (uninit : ℕ → UInt32) (h : Serving dbRoot table rows b s)
    {statement : InsertStatement} (hname : statement.target = table.name) {row : StringList}
    (hplanned : plannedRow table (.insert statement) s = some row) (hw : Writable row)
    (hnew : nextId s.globals.nextIdCounter ∉ idsOf table.columns (rowsAt rows)) :
    ∃ b', Built table.columns (rowsAt (rows ++ [row])) b' ∧
      b'.maxId = (if b.maxId < nextId s.globals.nextIdCounter then nextId s.globals.nextIdCounter
        else b.maxId) ∧
      appendInsertRow uninit dbRoot statement s =
        (.ok ⟨1, table.columns, row⟩,
          ⟨⟨b'.index, nextId s.globals.nextIdCounter, some table.dataPath, none,
            findColumnIndex table.columns studentNoName, b'.studentNoSet⟩,
          s.files.write table.dataPath (stream encodeRow (rows ++ [row]))⟩) := by
  obtain ⟨plan, hplan, rfl, heq⟩ := h.onTable.insert_planned uninit hname hplanned
  have hfor := prepareInsert_ok hplan
  have hrow := hfor.newRow h.caches h.student_column hnew
  obtain ⟨-, -, hset, -⟩ := h.caches.add hrow (stream encodeRow rows).length
  obtain ⟨index', hins, hbuilt⟩ := h.built.snoc hrow (stream encodeRow rows).length
  rw [← rowsAt_snoc] at hbuilt
  refine ⟨_, hbuilt, rfl, ?_⟩
  rw [← h.index] at hins
  rw [hfor.studentNoOf_row] at hset
  rw [heq, storeRow_accepted (s := withActive table s) h.path h.file hw hins hset, stream_snoc]
  have hafter : (match plan.studentNo with
      | none => s.globals.studentNoSet
      | some v => (studentNoSetInsert s.globals.studentNoSet v).2) =
      setAfter table.columns (plan.row (nextId s.globals.nextIdCounter)) b.studentNoSet := by
    cases hstudent : plan.studentNo <;>
      simp only [setAfter, hfor.studentNoOf_row, hstudent, h.set]
  rw [IndexBuild.after]
  dsimp only [withActive]
  rw [hafter, h.student_column]

/-- An INSERT into a served table that passes its checks is accepted exactly if the row can be written
and its id is new. -/
theorem Serving.accepted_iff (uninit : ℕ → UInt32) (h : Serving dbRoot table rows b s)
    {statement : InsertStatement} (hname : statement.target = table.name) {row : StringList}
    (hplanned : plannedRow table (.insert statement) s = some row) :
    (∃ r, (appendInsertRow uninit dbRoot statement s).1 = .ok r) ↔
      Writable row ∧ nextId s.globals.nextIdCounter ∉ idsOf table.columns (rowsAt rows) := by
  constructor
  · rintro ⟨r, hr⟩
    obtain ⟨plan, -, rfl, heq⟩ := h.onTable.insert_planned uninit hname hplanned
    rw [heq] at hr
    have hrej := storeRow_rejected table.columns plan h.onTable.reactivate.path h.onTable.index
      h.onTable.set
    have hnot : ¬∃ e, (storeRow table.columns plan (withActive table s)).1 = .error e := by
      rintro ⟨e, he⟩
      rw [hr] at he
      cases he
    rw [hrej, not_or, not_or, not_not] at hnot
    refine ⟨hnot.1, fun hmem => hnot.2.1 ?_⟩
    obtain ⟨es, hm, hids⟩ := h.caches.mem_ids
    have hfind := hm.find (nextId s.globals.nextIdCounter)
    cases hval : valueOf es (nextId s.globals.nextIdCounter) with
    | none => exact absurd ((hids _).mpr hmem) (valueOf_eq_none.mp hval)
    | some ref =>
      rw [hval] at hfind
      show (indexFind s.globals.index (nextId s.globals.nextIdCounter)).1 = 0
      rw [hfind]
  · rintro ⟨hw, hnew⟩
    obtain ⟨b', -, -, heq⟩ := h.accept uninit hname hplanned hw hnew
    exact ⟨_, by rw [heq]⟩

/-- An INSERT into the table is within the limits of the reader. -/
def InReaderLimits (table : TableDefinition) : Statement → Prop
  | .insert statement => table.columns.length ≤ maxBinaryFields ∧
      ∀ v ∈ statement.values, v.length ≤ maxBinaryFieldBytes
  | .select _ => True

theorem InReaderLimits.values {statement : InsertStatement}
    (h : InReaderLimits table (.insert statement)) : ValuesInLimit statement := by
  intro p hp
  have hzip := (List.mem_filter.mp hp).1
  exact h.2 p.2 (List.of_mem_zip hzip).2

theorem plannedRow_length {statement : Statement} {row : StringList}
    (h : plannedRow table statement s = some row) : row.length = table.columns.length := by
  obtain ⟨insert, plan, -, -, hplan, rfl⟩ := plannedRow_some h
  rw [plan.row_length, (prepareInsert_ok hplan).length]

/-- Within the limits of the reader and with ids left, a row handed to the writer can be read, and its
id is new. -/
theorem Serving.planned_new (h : Serving dbRoot table rows b s)
    (hmax : s.globals.nextIdCounter = b.maxId) {statement : Statement}
    (hlimits : InReaderLimits table statement)
    (hcounter : drawnId table statement s ≠ none → s.globals.nextIdCounter ≠ uint64Max)
    {row : StringList} (hplanned : plannedRow table statement s = some row) :
    Readable row ∧ s.globals.nextIdCounter < nextId s.globals.nextIdCounter ∧
      nextId s.globals.nextIdCounter ∉ idsOf table.columns (rowsAt rows) := by
  obtain ⟨insert, plan, rfl, -, hplan, hrow⟩ := plannedRow_some hplanned
  have hlt := lt_nextId (hcounter (by rw [drawnId, hplanned]; simp))
  refine ⟨?_, hlt, fun hmem => ?_⟩
  · rw [hrow, planned_readable_iff hplan]
    exact ⟨hlimits.1, hlimits.values⟩
  · have hle := h.built.spec.2.1.1 _ hmem
    rw [← hmax] at hle
    exact absurd hlt (not_lt.mpr hle)

/-- One statement: what is served grows by at most a row, and the counter stays the greatest id. -/
theorem Serving.step (uninit : ℕ → UInt32) (h : Serving dbRoot table rows b s)
    (hmax : s.globals.nextIdCounter = b.maxId) {statement : Statement}
    (hname : statement.name = table.name) (hlimits : InReaderLimits table statement)
    (hcounter : drawnId table statement s ≠ none → s.globals.nextIdCounter ≠ uint64Max) :
    ∃ b', Serving dbRoot table (rows ++ (plannedRow table statement s).toList) b'
        (executeStatement uninit dbRoot statement s).2 ∧
      (executeStatement uninit dbRoot statement s).2.globals.nextIdCounter = b'.maxId := by
  cases hplanned : plannedRow table statement s with
  | none =>
    obtain ⟨active, heq⟩ := h.onTable.unplanned uninit hname hplanned
    rw [heq, Option.toList_none, List.append_nil]
    exact ⟨b, h.setActive active, hmax⟩
  | some row =>
    obtain ⟨hreadable, hlt, hnew⟩ := h.planned_new hmax hlimits hcounter hplanned
    obtain ⟨insert, plan, rfl, -, -, -⟩ := plannedRow_some hplanned
    obtain ⟨b', hbuilt, hmaxId, heq⟩ := h.accept uninit hname hplanned hreadable.writable hnew
    have hload := (h.onTable.step uninit hname).load
    rw [executeStatement] at hload ⊢
    dsimp only at hload ⊢
    rw [heq] at hload ⊢
    refine ⟨b', ⟨hload, rfl, FileSystem.write_self _ _ _, ?_, h.id_column, rfl, hbuilt, rfl, rfl⟩, ?_⟩
    · intro r hr
      rcases List.mem_append.mp hr with hr | hr
      · exact h.readable r hr
      · rw [List.mem_singleton.mp hr]
        exact hreadable
    · rw [hmaxId, if_pos (by rw [← hmax]; exact hlt)]

/-- A run of statements on the table that never wraps the counter. -/
theorem Serving.run (uninit : ℕ → UInt32) (statements : List Statement)
    (h : Serving dbRoot table rows b s) (hmax : s.globals.nextIdCounter = b.maxId)
    (hname : ∀ statement ∈ statements, statement.name = table.name)
    (hlimits : ∀ statement ∈ statements, InReaderLimits table statement)
    (hcounter : NeverWraps uninit dbRoot table statements s) :
    ∃ added b', (∀ row ∈ added, row.length = table.columns.length) ∧
      Serving dbRoot table (rows ++ added) b' (runStatements uninit dbRoot statements s) ∧
      (runStatements uninit dbRoot statements s).globals.nextIdCounter = b'.maxId := by
  induction statements generalizing s rows b with
  | nil =>
    refine ⟨[], b, by simp, ?_, hmax⟩
    rw [List.append_nil]
    exact h
  | cons statement statements ih =>
    obtain ⟨b₁, h₁, hmax₁⟩ := h.step uninit hmax (hname statement List.mem_cons_self)
      (hlimits statement List.mem_cons_self) hcounter.head
    obtain ⟨added, b', hlength, h', hmax'⟩ := ih h₁ hmax₁
      (fun st hst => hname st (List.mem_cons_of_mem statement hst))
      (fun st hst => hlimits st (List.mem_cons_of_mem statement hst)) hcounter.tail
    refine ⟨(plannedRow table statement s).toList ++ added, b', ?_, ?_, hmax'⟩
    · intro row hr
      rcases List.mem_append.mp hr with hr | hr
      · exact plannedRow_length (Option.mem_toList.mp hr)
      · exact hlength row hr
    · rw [← List.append_assoc]
      exact h'

/-- A successful scan of encoded rows serves them, with the greatest id in the counter. -/
theorem activate_serving {name : QualifiedName} (hs : UsableCaches s)
    (hload : loadTableDefinition dbRoot s.files name = .ok table)
    (hearly : alreadyActive table s.globals = false)
    (hfile : (s.files table.dataPath).getD [] = stream encodeRow rows)
    (hrows : ∀ row ∈ rows, Readable row)
    (hactivate : (activateStorageForTable uninit table s).1 = none) :
    ∃ b, Serving dbRoot table rows b (activateStorageForTable uninit table s).2 ∧
      (activateStorageForTable uninit table s).2.globals.nextIdCounter = b.maxId := by
  have hon := activateStorageForTable_onTable hs hload hactivate
  rcases activate_stream uninit hs.no_fail hearly hfile hrows with
    ⟨b, hid, hbuilt, heq⟩ | ⟨-, e, g', heq⟩
  · rw [heq] at hon ⊢
    have hdata := ensureDataFile_self s.files table.dataPath
    rw [hfile] at hdata
    exact ⟨b, ⟨hon.load, rfl, hdata, hrows, hid, rfl, hbuilt, rfl, rfl⟩, rfl⟩
  · rw [heq] at hactivate
    cases hactivate

/-- The activation of a table in a process that has run any statements. -/
theorem activation_serves (uninit : ℕ → UInt32) {files : FileSystem} {before : List Statement}
    {name : QualifiedName} {s₀ s₁ : State}
    (h₀ : s₀ = runStatements uninit dbRoot before (State.fresh files))
    (hload : loadTableDefinition dbRoot s₀.files name = .ok table)
    (hscan : alreadyActive table s₀.globals = false)
    (hfile : (s₀.files table.dataPath).getD [] = stream encodeRow rows)
    (hrows : ∀ row ∈ rows, Readable row)
    (hactivate : (activateStorageForTable uninit table s₀).1 = none)
    (h₁ : s₁ = (activateStorageForTable uninit table s₀).2) :
    ∃ b, Serving dbRoot table rows b s₁ ∧ s₁.globals.nextIdCounter = b.maxId := by
  have husable : UsableCaches s₀ := by
    rw [h₀]
    exact runStatements_usable uninit dbRoot files before
  rw [h₁]
  exact activate_serving husable hload hscan hfile hrows hactivate

/-- The statements on the table behind its activation. -/
theorem statements_serve (uninit : ℕ → UInt32) {files : FileSystem} {before statements : List Statement}
    {name : QualifiedName} {s₀ s₁ s₂ : State}
    (h₀ : s₀ = runStatements uninit dbRoot before (State.fresh files))
    (hload : loadTableDefinition dbRoot s₀.files name = .ok table)
    (hscan : alreadyActive table s₀.globals = false)
    (hfile : (s₀.files table.dataPath).getD [] = stream encodeRow rows)
    (hrows : ∀ row ∈ rows, Readable row)
    (hactivate : (activateStorageForTable uninit table s₀).1 = none)
    (h₁ : s₁ = (activateStorageForTable uninit table s₀).2)
    (hname : ∀ statement ∈ statements, statement.name = name)
    (hlimits : ∀ statement ∈ statements, InReaderLimits table statement)
    (hcounter : NeverWraps uninit dbRoot table statements s₁)
    (h₂ : s₂ = runStatements uninit dbRoot statements s₁) :
    ∃ added b, (∀ row ∈ added, row.length = table.columns.length) ∧
      Serving dbRoot table (rows ++ added) b s₂ ∧ s₂.globals.nextIdCounter = b.maxId := by
  obtain ⟨b, hserving, hmax⟩ := activation_serves uninit h₀ hload hscan hfile hrows hactivate h₁
  have hname' : ∀ statement ∈ statements, statement.name = table.name := fun statement hst => by
    rw [hname statement hst, loadTableDefinition_name hload]
  rw [h₂]
  exact hserving.run uninit statements hmax hname' hlimits hcounter

/-- A fresh process activates a served table with the same caches. -/
theorem Serving.fresh (uninit : ℕ → UInt32) (h : Serving dbRoot table rows b s) :
    ∃ files, activateStorageForTable uninit table (State.fresh s.files) =
      (none, ⟨loadedGlobals table b, files⟩) := by
  have hearly : alreadyActive table (State.fresh s.files).globals = false := by
    simp [alreadyActive, State.fresh, Globals.initial]
  have hfile : ((State.fresh s.files).files table.dataPath).getD [] = stream encodeRow rows := by
    show (s.files table.dataPath).getD [] = _
    rw [h.file]
    rfl
  rcases activate_stream uninit (s := State.fresh s.files) rfl hearly hfile h.readable with
    ⟨b', -, hbuilt, heq⟩ | ⟨hno, -⟩
  · rw [heq, hbuilt.unique h.built]
    exact ⟨_, rfl⟩
  · exact absurd ⟨b, h.id_column, h.built⟩ hno

end Serving

/-- **Caches equal rebuilt caches.**  In a process that started on any files and ran any statements, let
the activation of a table scan a data file of encoded rows and succeed.  After any statements on the
table within the limits of the reader, none of which draws an id at `UINT64_MAX`, a fresh process
activates the table with the same id-to-offset mapping, the same id counter and the same
`student_no` members. -/
theorem caches_equal_rebuilt (uninit : ℕ → UInt32) (dbRoot : CString) (files : FileSystem)
    (before statements : List Statement) (name : QualifiedName) (table : TableDefinition)
    (rows : List StringList) (s₀ s₁ s₂ : State)
    (h₀ : s₀ = runStatements uninit dbRoot before (State.fresh files))
    (hload : loadTableDefinition dbRoot s₀.files name = .ok table)
    (hscan : alreadyActive table s₀.globals = false)
    (hfile : (s₀.files table.dataPath).getD [] = stream encodeRow rows)
    (hrows : ∀ row ∈ rows, Readable row)
    (hactivate : (activateStorageForTable uninit table s₀).1 = none)
    (h₁ : s₁ = (activateStorageForTable uninit table s₀).2)
    (hname : ∀ statement ∈ statements, statement.name = name)
    (hlimits : ∀ statement ∈ statements, InReaderLimits table statement)
    (hcounter : NeverWraps uninit dbRoot table statements s₁)
    (h₂ : s₂ = runStatements uninit dbRoot statements s₁) :
    ∃ s₃, activateStorageForTable uninit table (State.fresh s₂.files) = (none, s₃) ∧
      (∀ id, indexFind s₂.globals.index id = indexFind s₃.globals.index id) ∧
      s₂.globals.nextIdCounter = s₃.globals.nextIdCounter ∧
      ∀ v, studentNoSetContains s₂.globals.studentNoSet v =
        studentNoSetContains s₃.globals.studentNoSet v := by
  obtain ⟨added, b', -, hserving', hmax'⟩ :=
    statements_serve uninit h₀ hload hscan hfile hrows hactivate h₁ hname hlimits hcounter h₂
  obtain ⟨files', heq⟩ := hserving'.fresh uninit
  refine ⟨_, heq, fun id => ?_, hmax', fun v => ?_⟩
  · rw [hserving'.index]
    rfl
  · rw [hserving'.set]
    rfl

theorem caches_equal_rebuilt_insert :
    ∃ s₃, activateStorageForTable (fun _ => 0) nameTable (State.fresh
        (runStatements (fun _ => 0) (lit "db") [.insert (insertName (lit "b"))]
          (nameState (encodeRow [lit "1", lit "a"]))).files) = (none, s₃) ∧
      (∀ id, indexFind (runStatements (fun _ => 0) (lit "db") [.insert (insertName (lit "b"))]
          (nameState (encodeRow [lit "1", lit "a"]))).globals.index id =
        indexFind s₃.globals.index id) ∧
      (runStatements (fun _ => 0) (lit "db") [.insert (insertName (lit "b"))]
          (nameState (encodeRow [lit "1", lit "a"]))).globals.nextIdCounter =
        s₃.globals.nextIdCounter ∧
      ∀ v, studentNoSetContains (runStatements (fun _ => 0) (lit "db")
          [.insert (insertName (lit "b"))]
          (nameState (encodeRow [lit "1", lit "a"]))).globals.studentNoSet v =
        studentNoSetContains s₃.globals.studentNoSet v :=
  caches_equal_rebuilt (fun _ => 0) (lit "db") (nameFiles (encodeRow [lit "1", lit "a"])) []
    [.insert (insertName (lit "b"))] ⟨none, lit "t"⟩ nameTable [[lit "1", lit "a"]]
    (State.fresh (nameFiles (encodeRow [lit "1", lit "a"]))) _ _ rfl (by decide +kernel)
    (by decide +kernel) (by decide +kernel) (by
      intro row hr
      rw [List.mem_singleton.mp hr]
      exact ⟨by decide, by decide, by decide⟩)
    (by decide +kernel) rfl
    (by
      intro statement hst
      rw [List.mem_singleton.mp hst]
      rfl)
    (by
      intro statement hst
      rw [List.mem_singleton.mp hst]
      exact ⟨by decide, by decide⟩)
    (by
      intro earlier statement later heq _
      match earlier, heq with
      | [], _ => decide +kernel
      | _ :: [], heq => cases (List.cons.inj heq).2
      | _ :: _ :: _, heq => cases (List.cons.inj heq).2)
    rfl

/-- Two rows with one id, behind another one. -/
def duplicateRows : List StringList := [[lit "1", lit "a"], [lit "2", lit "b"], [lit "2", lit "c"]]

theorem duplicateRows_readable : ∀ row ∈ duplicateRows, Readable row := by
  have hrows : ∀ row ∈ duplicateRows, 1 ≤ row.length ∧ row.length ≤ maxBinaryFields ∧
      ∀ value ∈ row, value.length ≤ maxBinaryFieldBytes := by decide
  intro row hrow
  obtain ⟨hpos, hcount, hfields⟩ := hrows row hrow
  exact ⟨hpos, hcount, hfields⟩

/-- A scan of these rows fails, and so it does in a fresh process.  The next activation returns early with
success, and leaves the caches as the failed scan has left them. -/
theorem caches_after_failed_scan :
    loadTableDefinition (lit "db") (nameFiles (stream encodeRow duplicateRows)) ⟨none, lit "t"⟩ =
        .ok nameTable ∧
      (∀ row ∈ duplicateRows, Readable row) ∧
      (activateStorageForTable (fun _ => 0) nameTable
        (State.fresh (nameFiles (stream encodeRow duplicateRows)))).1 = some .duplicateIdInData ∧
      (activateStorageForTable (fun _ => 0) nameTable (nameState (stream encodeRow duplicateRows))).1 =
        none ∧
      ¬∃ s₃, activateStorageForTable (fun _ => 0) nameTable (State.fresh (activateStorageForTable
          (fun _ => 0) nameTable (nameState (stream encodeRow duplicateRows))).2.files) = (none, s₃) := by
  refine ⟨by decide +kernel, duplicateRows_readable, by decide +kernel, by decide +kernel, ?_⟩
  rintro ⟨s₃, hfresh⟩
  have hfails : (activateStorageForTable (fun _ => 0) nameTable (State.fresh (activateStorageForTable
      (fun _ => 0) nameTable (nameState (stream encodeRow duplicateRows))).2.files)).1 =
        some .duplicateIdInData := by decide +kernel
  rw [hfresh] at hfails
  cases hfails

end MiniSql
