import MiniSql.ReaderLimits
import MiniSql.TablePaths

/-!
# Histories

A process runs INSERT and SELECT statements on any tables in any order, and may be restarted at any point.

* `Event` is a statement or a restart, `runEvents` the state after a sequence of them.
* `history` are the rows of the INSERTs into a table that returned true, in order.
* `Event.Admitted` and `UsableSchemas` are the limits: names as the parser makes them, values of at most 16
  MiB, schemas with an `id` column and at most 4096 columns.
* `Faithful` is the invariant of such runs: the data file of every table encodes the rows of the INSERTs into
  it that were accepted, these are numbered from 1 (`Stored`), and whichever table is the active one is served
  from its file.

Main results:

* `Faithful.statement`, `Faithful.step`, `Faithful.run`: a statement gives the table it is about its row and
  leaves every other table alone; the run is by induction over the events.
* `history_determines_files`: so after any run the data file of a table is the encoding of its history, which
  is what a client can rely on.
-/

namespace MiniSql

open Framing

/-! ### Events -/

/-- A statement, or the start of a new process on the same files. -/
inductive Event where
  | statement (statement : Statement)
  | restart
  deriving DecidableEq

def runEvent (uninit : ℕ → UInt32) (dbRoot : CString) (event : Event) (s : State) : State :=
  match event with
  | .statement statement => (executeStatement uninit dbRoot statement s).2
  | .restart => State.fresh s.files

/-- The state after a sequence of events. -/
def runEvents (uninit : ℕ → UInt32) (dbRoot : CString) : List Event → State → State
  | [], s => s
  | event :: events, s => runEvents uninit dbRoot events (runEvent uninit dbRoot event s)

/-- The row an accepted INSERT reports. -/
def Outcome.row : Outcome → Option StringList
  | .inserted (.ok result) => some result.values
  | _ => none

/-- The row of the event, if it is an INSERT into the table that returns true. -/
def acceptedRow (uninit : ℕ → UInt32) (dbRoot : CString) (name : QualifiedName) (event : Event)
    (s : State) : Option StringList :=
  match event with
  | .statement statement =>
      if statement.name = name then (executeStatement uninit dbRoot statement s).1.row else none
  | .restart => none

/-- The rows of the INSERTs into the table that returned true, in order. -/
def history (uninit : ℕ → UInt32) (dbRoot : CString) (name : QualifiedName) :
    List Event → State → List StringList
  | [], _ => []
  | event :: events, s =>
      (acceptedRow uninit dbRoot name event s).toList ++
        history uninit dbRoot name events (runEvent uninit dbRoot event s)

/-- The event is an INSERT. -/
def Event.isInsert : Event → Bool
  | .statement (.insert _) => true
  | _ => false

def insertCount (events : List Event) : ℕ := events.countP Event.isInsert

/-- The event names a table as the parser does, and the values it inserts are at most 16 MiB. -/
def Event.Admitted : Event → Prop
  | .statement (.insert insert) =>
      ParsedName insert.target ∧ ∀ v ∈ insert.values, v.length ≤ maxBinaryFieldBytes
  | .statement (.select select) => ParsedName select.source
  | .restart => True

section Events

variable (uninit : ℕ → UInt32) (dbRoot : CString)

theorem insertCount_cons (event : Event) (events : List Event) :
    insertCount (event :: events) = insertCount events + if event.isInsert then 1 else 0 :=
  List.countP_cons

/-- Only an INSERT adds a row. -/
theorem acceptedRow_length (name : QualifiedName) (event : Event) (s : State) :
    (acceptedRow uninit dbRoot name event s).toList.length ≤ if event.isInsert then 1 else 0 := by
  cases event with
  | restart => exact Nat.zero_le _
  | statement statement =>
    cases statement with
    | insert statement => exact Option.length_toList_le
    | select statement =>
      rw [acceptedRow]
      split <;> exact Nat.zero_le _

theorem history_length (name : QualifiedName) (events : List Event) (s : State) :
    (history uninit dbRoot name events s).length ≤ insertCount events := by
  induction events generalizing s with
  | nil => exact Nat.zero_le _
  | cons event events ih =>
    have hrow := acceptedRow_length uninit dbRoot name event s
    have hrest := ih (runEvent uninit dbRoot event s)
    rw [history, List.length_append, insertCount_cons]
    omega

end Events

/-! ### One statement -/

/-- A statement that does not get to the activation changes nothing. -/
theorem executeStatement_unactivated (uninit : ℕ → UInt32) {dbRoot : CString} {statement : Statement}
    {s : State} (h : activatedTable dbRoot s.files statement = none) :
    (executeStatement uninit dbRoot statement s).1.row = none ∧
      (executeStatement uninit dbRoot statement s).2 = s := by
  cases statement with
  | insert statement =>
    rw [activatedTable] at h
    rw [executeStatement, appendInsertRow]
    split at h
    · rename_i hcount
      rw [if_pos hcount]
      exact ⟨rfl, rfl⟩
    · rename_i hcount
      rw [if_neg hcount]
      cases hload : loadTableDefinition dbRoot s.files statement.target with
      | error e => exact ⟨rfl, rfl⟩
      | ok table =>
        rw [hload] at h
        cases h
  | select statement =>
    rw [activatedTable] at h
    rw [executeStatement, runSelectQuery]
    cases hload : loadTableDefinition dbRoot s.files statement.source with
    | error e => exact ⟨rfl, rfl⟩
    | ok table =>
      rw [hload] at h
      cases h

section Statement

variable {uninit : ℕ → UInt32} {dbRoot : CString} {table : TableDefinition} {s : State}

/-- A statement runs as in the state after its activation. -/
theorem executeStatement_activated {statement : Statement} {s₁ : State}
    (htable : activatedTable dbRoot s.files statement = some table)
    (hactivate : activateStorageForTable uninit table s = (none, s₁))
    (hactive : s₁.globals.activeTable = some table) (hon : OnTable dbRoot table s₁) :
    executeStatement uninit dbRoot statement s = executeStatement uninit dbRoot statement s₁ := by
  have hload := activatedTable_load htable
  have hname := loadTableDefinition_name hload
  have hsame : withActive table s₁ = s₁ := by
    rw [withActive, ← hactive]
  cases statement with
  | insert statement =>
    rw [executeStatement, executeStatement, hon.insert_eq hname.symm, appendInsertRow]
    rw [activatedTable] at htable
    split at htable
    · cases htable
    · rename_i hcount
      change loadTableDefinition dbRoot s.files statement.target = _ at hload
      rw [if_neg hcount, if_neg hcount, hload]
      dsimp only
      rw [hactivate, hsame]
  | select statement =>
    change loadTableDefinition dbRoot s.files statement.source = _ at hload
    rw [executeStatement, executeStatement, hon.select_eq hname.symm, runSelectQuery, hload]
    dsimp only
    rw [hactivate, hsame]

/-- A statement on the active table touches no file but its data file. -/
theorem OnTable.step_files (uninit : ℕ → UInt32) (h : OnTable dbRoot table s) {statement : Statement}
    (hname : statement.name = table.name) {p : CString} (hp : p ≠ table.dataPath) :
    (executeStatement uninit dbRoot statement s).2.files p = s.files p := by
  cases statement with
  | insert statement =>
    show (appendInsertRow uninit dbRoot statement s).2.files p = s.files p
    rcases h.insert_cases uninit hname with ⟨e, active, -, heq⟩ | ⟨plan, -, -, heq⟩
    · rw [heq]
    · obtain ⟨bytes, -, -, hfiles⟩ := binaryWriterAppendRow_files table.dataPath s.files
        (plan.row (nextId s.globals.nextIdCounter))
      rw [heq, storeRow_files]
      show (binaryWriterAppendRow s.globals.activeDataPath s.files
        (plan.row (nextId s.globals.nextIdCounter))).1 p = s.files p
      rw [h.path, hfiles, FileSystem.write_of_ne _ hp]
  | select statement =>
    show (runSelectQuery uninit dbRoot statement s).2.files p = s.files p
    obtain ⟨active, heq⟩ := h.select_state uninit hname
    rw [heq]

/-- The row a statement on a served table reports is the one it handed to the writer. -/
theorem Serving.step_row (uninit : ℕ → UInt32) {rows : List StringList} {b : IndexBuild}
    (h : Serving dbRoot table rows b s) (hmax : s.globals.nextIdCounter = b.maxId)
    {statement : Statement} (hname : statement.name = table.name)
    (hlimits : InReaderLimits table statement)
    (hcounter : drawnId table statement s ≠ none → s.globals.nextIdCounter ≠ uint64Max) :
    (executeStatement uninit dbRoot statement s).1.row = plannedRow table statement s := by
  cases statement with
  | select statement => rfl
  | insert statement =>
    show Outcome.row (.inserted (appendInsertRow uninit dbRoot statement s).1) = _
    cases hplanned : plannedRow table (.insert statement) s with
    | none =>
      cases hresult : (appendInsertRow uninit dbRoot statement s).1 with
      | error e => rfl
      | ok result =>
        obtain ⟨row, hrow⟩ := h.onTable.planned_of_ok hname hresult
        rw [hplanned] at hrow
        cases hrow
    | some row =>
      obtain ⟨hreadable, -, hnew⟩ := h.planned_new hmax hlimits hcounter hplanned
      obtain ⟨b', -, -, heq⟩ := h.accept uninit hname hplanned hreadable.writable hnew
      rw [heq]
      rfl

end Statement

/-! ### Rows of a history -/

theorem PlanFor.cell_row {columns : StringList} {g : Globals} {plan : InsertPlan}
    (hp : PlanFor columns g plan) (id : UInt64) :
    cell columns idName (plan.row id) = decimalText id := by
  rw [cell, hp.id_column, Option.getD_some, InsertPlan.row, List.getD_eq_getElem?_getD,
    List.getElem?_set_self hp.id_lt, Option.getD_some]

/-- The rows of a table that was filled by INSERTs only. -/
structure Stored (columns : StringList) (rows : List StringList) : Prop where
  readable : ∀ row ∈ rows, Readable row
  numbered : ∀ n row, rows[n]? = some row → (cell columns idName row).bytes = decimalBytes (n + 1)
  built : ∃ b, Built columns (rowsAt rows) b ∧ b.maxId.toNat = rows.length

theorem Stored.nil (columns : StringList) : Stored columns [] :=
  ⟨by simp, by simp, startBuild columns, built_nil columns, rfl⟩

/-- No two rows share a `student_no`, and none has an empty one. -/
theorem Stored.student_nos {columns : StringList} {rows : List StringList} (h : Stored columns rows)
    (hs : HasStudentNo columns) :
    (rows.Pairwise fun r r' => studentNoOf columns r ≠ studentNoOf columns r') ∧
      ∀ row ∈ rows, ∃ v, studentNoOf columns row = some v ∧ v.bytes ≠ [] := by
  obtain ⟨b, hbuilt, -⟩ := h.built
  obtain ⟨hall, hset⟩ := hbuilt.spec.1.studentNos hs
  have hrows : studentNosOf columns (rowsAt rows) = rows.filterMap (studentNoOf columns) := by
    have hmap := List.filterMap_map (f := Prod.snd) (g := studentNoOf columns) (l := rowsAt rows)
    rw [rowsAt, located_map_snd] at hmap
    exact hmap.symm
  have hnodup := hset.nodup
  rw [hrows, List.Nodup, List.pairwise_filterMap] at hnodup
  have hvalue : ∀ row ∈ rows, ∃ v, studentNoOf columns row = some v ∧ v.bytes ≠ [] := by
    intro row hr
    obtain ⟨ref, hmem⟩ := exists_mem_located encodeRow 0 hr
    exact hall (ref, row) hmem
  refine ⟨hnodup.imp_of_mem ?_, hvalue⟩
  intro r r' hr _ hne heq
  obtain ⟨v, hv, -⟩ := hvalue r hr
  exact hne v hv v (heq.symm.trans hv) rfl

/-- The row of a statement on a served table takes the next number. -/
theorem Stored.step {uninit : ℕ → UInt32} {dbRoot : CString} {table : TableDefinition} {s : State}
    {rows : List StringList} {b b' : IndexBuild} (h : Stored table.columns rows)
    (hserving : Serving dbRoot table rows b s) (hmax : s.globals.nextIdCounter = b.maxId)
    {statement : Statement} (hname : statement.name = table.name)
    (hcounter : drawnId table statement s ≠ none → s.globals.nextIdCounter ≠ uint64Max)
    (hserving' : Serving dbRoot table (rows ++ (plannedRow table statement s).toList) b'
      (executeStatement uninit dbRoot statement s).2)
    (hmax' : (executeStatement uninit dbRoot statement s).2.globals.nextIdCounter = b'.maxId) :
    Stored table.columns (rows ++ (plannedRow table statement s).toList) := by
  have hafter : (executeStatement uninit dbRoot statement s).2.globals.nextIdCounter =
      (drawnId table statement s).getD s.globals.nextIdCounter := hserving.onTable.counter_step hname
  obtain ⟨b₀, hbuilt, hlength⟩ := h.built
  rw [hbuilt.unique hserving.built, ← hmax] at hlength
  cases hplanned : plannedRow table statement s with
  | none =>
    rw [Option.toList_none, List.append_nil]
    exact h
  | some row =>
    have hnumber : (nextId s.globals.nextIdCounter).toNat = rows.length + 1 := by
      rw [nextId_toNat (hcounter (by rw [drawnId, hplanned]; simp)), hlength]
    rw [drawnId, hplanned] at hafter
    rw [hplanned] at hserving'
    refine ⟨hserving'.readable, ?_, b', hserving'.built, ?_⟩
    · intro n r hr
      rw [Option.toList_some] at hr
      rcases Nat.lt_trichotomy n rows.length with hlt | rfl | hgt
      · rw [List.getElem?_append_left hlt] at hr
        exact h.numbered n r hr
      · rw [List.getElem?_concat_length] at hr
        obtain rfl := Option.some.inj hr
        obtain ⟨insert, plan, -, -, hplan, rfl⟩ := plannedRow_some hplanned
        rw [(prepareInsert_ok hplan).cell_row]
        show decimalBytes (nextId s.globals.nextIdCounter).toNat = _
        rw [hnumber]
      · rw [List.getElem?_eq_none (by rw [List.length_append, List.length_singleton]; omega)] at hr
        cases hr
    · rw [← hmax', hafter, Option.toList_some, List.length_append]
      exact hnumber

/-! ### The invariant -/

/-- `rows name` is what the INSERTs into each table have stored, and the active table is served. -/
structure Faithful (dbRoot : CString) (files : FileSystem) (rows : QualifiedName → List StringList)
    (s : State) : Prop where
  usable : UsableCaches s
  schemas : ∀ base : CString, s.files (base ++ lit ".schema") = files (base ++ lit ".schema")
  data : ∀ name table, ParsedName name → loadTableDefinition dbRoot files name = .ok table →
    (s.files table.dataPath).getD [] = stream encodeRow (rows name) ∧
      Stored table.columns (rows name)
  active : ∀ name table, ParsedName name → loadTableDefinition dbRoot files name = .ok table →
    alreadyActive table s.globals = true →
      ∃ b, Serving dbRoot table (rows name) b s ∧ s.globals.nextIdCounter = b.maxId

/-- Every schema has an `id` column and at most 4096 columns. -/
def UsableSchemas (dbRoot : CString) (files : FileSystem) : Prop :=
  ∀ name table, ParsedName name → loadTableDefinition dbRoot files name = .ok table →
    findColumnIndex table.columns idName ≠ none ∧ table.columns.length ≤ maxBinaryFields

section Faithful

variable {dbRoot : CString} {files : FileSystem} {rows : QualifiedName → List StringList} {s : State}

/-- A fresh process on empty data files. -/
theorem Faithful.start (hempty : ∀ name table, ParsedName name →
      loadTableDefinition dbRoot files name = .ok table → (files table.dataPath).getD [] = []) :
    Faithful dbRoot files (fun _ => []) (State.fresh files) where
  usable := UsableCaches.fresh files
  schemas := fun _ => rfl
  data := fun name table hname hload => ⟨hempty name table hname hload, Stored.nil table.columns⟩
  active := fun name table _ _ hactive => by
    rw [alreadyActive, State.fresh, Globals.initial] at hactive
    cases hactive

/-- A restart keeps the files and forgets the caches. -/
theorem Faithful.restart (h : Faithful dbRoot files rows s) :
    Faithful dbRoot files rows (State.fresh s.files) where
  usable := UsableCaches.fresh s.files
  schemas := h.schemas
  data := h.data
  active := fun name table _ _ hactive => by
    rw [alreadyActive, State.fresh, Globals.initial] at hactive
    cases hactive

/-- The activation of any table succeeds, serves its rows and touches only its data file. -/
theorem Faithful.activated (uninit : ℕ → UInt32) (hschemas : UsableSchemas dbRoot files)
    (h : Faithful dbRoot files rows s) {name : QualifiedName} {table : TableDefinition}
    (hname : ParsedName name) (hload : loadTableDefinition dbRoot files name = .ok table) :
    ∃ s₁ b, activateStorageForTable uninit table s = (none, s₁) ∧
      s₁.globals.activeTable = some table ∧ Serving dbRoot table (rows name) b s₁ ∧
      s₁.globals.nextIdCounter = b.maxId ∧ ∀ p, p ≠ table.dataPath → s₁.files p = s.files p := by
  by_cases hearly : alreadyActive table s.globals = true
  · obtain ⟨b, hserving, hmax⟩ := h.active name table hname hload hearly
    exact ⟨withActive table s, b, if_pos hearly, rfl, hserving.setActive (some table), hmax,
      fun p _ => rfl⟩
  · obtain ⟨hfile, hstored⟩ := h.data name table hname hload
    obtain ⟨b, hbuilt, -⟩ := hstored.built
    rcases activate_stream uninit h.usable.no_fail (Bool.eq_false_iff.mpr hearly) hfile
      hstored.readable with ⟨b', hid, hbuilt', heq⟩ | ⟨hno, -⟩
    · have hschemas' : ∀ base : CString, ensureDataFile s.files table.dataPath
          (base ++ lit ".schema") = files (base ++ lit ".schema") := by
        intro base
        rw [ensureDataFile_of_ne _ (schemaPath_ne_dataPath hload base), h.schemas]
      have hload' := (loadTableDefinition_schemas dbRoot hschemas' name).trans hload
      rw [← loadTableDefinition_name hload] at hload'
      have hdata := ensureDataFile_self s.files table.dataPath
      rw [hfile] at hdata
      exact ⟨_, b', heq, rfl,
        ⟨hload', rfl, hdata, hstored.readable, hid, rfl, hbuilt', rfl, rfl⟩, rfl,
        fun p hp => ensureDataFile_of_ne _ hp⟩
    · exact absurd ⟨b, (hschemas name table hname hload).1, hbuilt⟩ hno

/-- One statement: the table it is about gets the accepted row, every other table keeps its rows. -/
theorem Faithful.statement (uninit : ℕ → UInt32) (hschemas : UsableSchemas dbRoot files)
    (h : Faithful dbRoot files rows s) {statement : Statement}
    (hadmitted : (Event.statement statement).Admitted)
    (hcount : (rows statement.name).length + insertCount [.statement statement] < 2 ^ 64) :
    Faithful dbRoot files
      (fun name => rows name ++ (acceptedRow uninit dbRoot name (.statement statement) s).toList)
      (executeStatement uninit dbRoot statement s).2 := by
  have hparsed : ParsedName statement.name := by
    cases statement with
    | insert statement => exact hadmitted.1
    | select statement => exact hadmitted
  cases htable : activatedTable dbRoot s.files statement with
  | none =>
    obtain ⟨hrow, hsame⟩ := executeStatement_unactivated uninit htable
    have hrows : (fun name => rows name ++
        (acceptedRow uninit dbRoot name (.statement statement) s).toList) = rows := by
      funext name
      rw [acceptedRow, hrow, ite_self]
      exact List.append_nil _
    rw [hsame, hrows]
    exact h
  | some table =>
    have hload := (loadTableDefinition_schemas dbRoot h.schemas statement.name).symm.trans
      (activatedTable_load htable)
    have hname : statement.name = table.name := (loadTableDefinition_name hload).symm
    obtain ⟨s₁, b, hactivate, hactive, hserving, hmax, hframe⟩ :=
      h.activated uninit hschemas hparsed hload
    have hexecute := executeStatement_activated htable hactivate hactive hserving.onTable
    obtain ⟨-, hstored⟩ := h.data statement.name table hparsed hload
    have hlimits : InReaderLimits table statement := by
      cases statement with
      | insert statement => exact ⟨(hschemas _ table hparsed hload).2, hadmitted.2⟩
      | select statement => trivial
    have hcounter : drawnId table statement s₁ ≠ none → s₁.globals.nextIdCounter ≠ uint64Max := by
      intro hdraw heq
      obtain ⟨b₀, hbuilt, hlength⟩ := hstored.built
      rw [hbuilt.unique hserving.built, ← hmax, heq] at hlength
      cases statement with
      | insert statement =>
        have hone : insertCount [.statement (.insert statement)] = 1 := rfl
        have hlast : uint64Max.toNat = 2 ^ 64 - 1 := rfl
        omega
      | select statement => exact hdraw rfl
    have hrow := hserving.step_row uninit hmax hname hlimits hcounter
    obtain ⟨b', hserving', hmax'⟩ := hserving.step uninit hmax hname hlimits hcounter
    have hstored' := hstored.step hserving hmax hname hcounter hserving' hmax'
    have hframe' := fun p (hp : p ≠ table.dataPath) =>
      (hserving.onTable.step_files uninit hname hp).trans (hframe p hp)
    rw [← hrow] at hserving' hstored'
    rw [← hexecute] at hserving' hmax' hstored' hframe'
    -- only this table has a new row
    have hmine : acceptedRow uninit dbRoot statement.name (.statement statement) s =
        (executeStatement uninit dbRoot statement s).1.row := if_pos rfl
    have hother : ∀ name, name ≠ statement.name →
        rows name ++ (acceptedRow uninit dbRoot name (.statement statement) s).toList =
          rows name := by
      intro name hne
      rw [acceptedRow, if_neg (Ne.symm hne)]
      exact List.append_nil _
    rw [← hmine] at hserving' hstored'
    refine ⟨executeStatement_usable uninit dbRoot statement h.usable, ?_, ?_, ?_⟩
    · intro base
      rw [hframe' _ (schemaPath_ne_dataPath hload base), h.schemas]
    · intro name table' hname' hload'
      by_cases hsame : name = statement.name
      · subst hsame
        obtain rfl : table = table' := Except.ok.inj (hload.symm.trans hload')
        refine ⟨?_, hstored'⟩
        rw [hserving'.file]
        rfl
      · have hne : table'.dataPath ≠ table.dataPath := fun heq =>
          hsame (dataPath_injective hname' hparsed hload' hload heq)
        rw [hframe' _ hne, hother name hsame]
        exact h.data name table' hname' hload'
    · intro name table' hname' hload' hearly
      rw [alreadyActive, Bool.and_eq_true, decide_eq_true_eq, hserving'.path] at hearly
      have hsame := dataPath_injective hparsed hname' hload hload' (Option.some.inj hearly.1)
      subst hsame
      obtain rfl : table = table' := Except.ok.inj (hload.symm.trans hload')
      exact ⟨b', hserving', hmax'⟩

/-- One event. -/
theorem Faithful.step (uninit : ℕ → UInt32) (hschemas : UsableSchemas dbRoot files)
    (h : Faithful dbRoot files rows s) {event : Event} (hadmitted : event.Admitted)
    (hcount : ∀ name, (rows name).length + insertCount [event] < 2 ^ 64) :
    Faithful dbRoot files (fun name => rows name ++ (acceptedRow uninit dbRoot name event s).toList)
      (runEvent uninit dbRoot event s) := by
  cases event with
  | statement statement => exact h.statement uninit hschemas hadmitted (hcount statement.name)
  | restart =>
    have hrows : (fun name => rows name ++ (acceptedRow uninit dbRoot name .restart s).toList) =
        rows := by
      funext name
      exact List.append_nil _
    rw [hrows]
    exact h.restart

/-- Any run of events. -/
theorem Faithful.run (uninit : ℕ → UInt32) (hschemas : UsableSchemas dbRoot files)
    (events : List Event) (h : Faithful dbRoot files rows s)
    (hadmitted : ∀ event ∈ events, event.Admitted)
    (hcount : ∀ name, (rows name).length + insertCount events < 2 ^ 64) :
    Faithful dbRoot files (fun name => rows name ++ history uninit dbRoot name events s)
      (runEvents uninit dbRoot events s) := by
  induction events generalizing rows s with
  | nil =>
    have hrows : (fun name => rows name ++ history uninit dbRoot name [] s) = rows := by
      funext name
      exact List.append_nil _
    rw [hrows]
    exact h
  | cons event events ih =>
    have hstep := h.step uninit hschemas (hadmitted event List.mem_cons_self) (fun name => by
      have hname := hcount name
      rw [insertCount_cons] at hname ⊢
      rw [show insertCount [] = 0 from rfl]
      omega)
    have hrun := ih hstep (fun e he => hadmitted e (List.mem_cons_of_mem event he)) (fun name => by
      have hname := hcount name
      have hrow := acceptedRow_length uninit dbRoot name event s
      rw [insertCount_cons] at hname
      rw [List.length_append]
      omega)
    have hrows : (fun name => rows name ++ history uninit dbRoot name (event :: events) s) =
        fun name => (rows name ++ (acceptedRow uninit dbRoot name event s).toList) ++
          history uninit dbRoot name events (runEvent uninit dbRoot event s) := by
      funext name
      rw [history, List.append_assoc]
    rw [hrows]
    exact hrun

end Faithful

/-! ### The main theorem -/

/-- **From histories to files.**  Let every data file be empty or missing, and every schema have an `id`
column and at most 4096 columns.  In any sequence of fewer than 2^64 INSERTs with any SELECTs and
restarts among them, on any tables the parser can name and with values of at most 16 MiB, at every
point: the data file of a table is the encoding of the rows of the INSERTs into it that returned true,
in order; the n-th of them has the id n; no two have the same `student_no`, and none an empty one; and
an event that is not such an INSERT leaves the bytes of the file as they are. -/
theorem history_determines_files (uninit : ℕ → UInt32) (dbRoot : CString) (files : FileSystem)
    (earlier later : List Event) (name : QualifiedName) (table : TableDefinition)
    (rows : List StringList) (s : State)
    (hempty : ∀ name table, ParsedName name → loadTableDefinition dbRoot files name = .ok table →
      (files table.dataPath).getD [] = [])
    (hschemas : UsableSchemas dbRoot files)
    (hadmitted : ∀ event ∈ earlier ++ later, event.Admitted)
    (hcount : insertCount (earlier ++ later) < 2 ^ 64) (hname : ParsedName name)
    (hload : loadTableDefinition dbRoot files name = .ok table)
    (hs : s = runEvents uninit dbRoot earlier (State.fresh files))
    (hrows : rows = history uninit dbRoot name earlier (State.fresh files)) :
    (s.files table.dataPath).getD [] = stream encodeRow rows ∧
      (∀ n row, rows[n]? = some row →
        (cell table.columns idName row).bytes = decimalBytes (n + 1)) ∧
      (HasStudentNo table.columns →
        (rows.Pairwise fun r r' => studentNoOf table.columns r ≠ studentNoOf table.columns r') ∧
          ∀ row ∈ rows, ∃ v, studentNoOf table.columns row = some v ∧ v.bytes ≠ []) ∧
      ∀ event ∈ later.head?, acceptedRow uninit dbRoot name event s = none →
        ((runEvent uninit dbRoot event s).files table.dataPath).getD [] =
          (s.files table.dataPath).getD [] := by
  rw [insertCount, List.countP_append] at hcount
  have hrun := (Faithful.start hempty).run uninit hschemas earlier
    (fun event he => hadmitted event (List.mem_append_left later he)) (fun _ => by
      rw [List.length_nil, insertCount]
      omega)
  have hlength := history_length uninit dbRoot
  rw [← hs] at hrun
  obtain ⟨hfile, hstored⟩ := hrun.data name table hname hload
  rw [List.nil_append, ← hrows] at hfile hstored
  refine ⟨hfile, hstored.numbered, hstored.student_nos, ?_⟩
  intro event hevent hnone
  obtain ⟨rest, hlater⟩ := List.head?_eq_some_iff.mp hevent
  have hnext := hrun.step uninit hschemas (hadmitted event (by rw [hlater]; simp)) (fun name => by
    have hle := hlength name earlier (State.fresh files)
    have hhead : insertCount later = insertCount [event] + insertCount rest := by
      rw [hlater, insertCount_cons, insertCount_cons]
      rw [show insertCount [] = 0 from rfl]
      omega
    rw [List.nil_append]
    rw [insertCount] at hhead hle
    omega)
  obtain ⟨hfile', -⟩ := hnext.data name table hname hload
  rw [hnone, List.nil_append, Option.toList_none, List.append_nil, ← hrows] at hfile'
  rw [hfile', hfile]

/-- Every table that can be loaded from these files has the columns of `nameTable`. -/
theorem nameFiles_columns {dbRoot : CString} {data : Bytes} {name : QualifiedName}
    {table : TableDefinition} (h : loadTableDefinition dbRoot (nameFiles data) name = .ok table) :
    table.columns = nameTable.columns := by
  obtain ⟨base, content, -, hcontent, rfl, -⟩ := loadTableDefinition_ok h
  dsimp only at hcontent ⊢
  rw [nameFiles] at hcontent
  split at hcontent
  · rw [← Option.some.inj hcontent]
    decide +kernel
  · split at hcontent
    · rename_i hdata
      exact absurd hdata (append_ne_of_suffix 2 (t := lit ".data") (by decide) (by decide) (by decide)
        base (lit "db/t"))
    · cases hcontent

theorem parsedName_nameTable : ParsedName nameTable.name :=
  ⟨by simp [nameTable], ⟨116, by decide +kernel, by decide⟩, by decide +kernel⟩

/-- Two INSERTs with a restart between them, and then a SELECT. -/
theorem history_determines_files_restart :
    ((runEvents (fun _ => 0) (lit "db")
        [.statement (.insert (insertName (lit "a"))), .restart,
          .statement (.insert (insertName (lit "b")))]
        (State.fresh (nameFiles []))).files nameTable.dataPath).getD [] =
      stream encodeRow [[lit "1", lit "a"], [lit "2", lit "b"]] :=
  (history_determines_files (fun _ => 0) (lit "db") (nameFiles [])
    [.statement (.insert (insertName (lit "a"))), .restart,
      .statement (.insert (insertName (lit "b")))]
    [.statement (.select (selectAll nameTable))] ⟨none, lit "t"⟩ nameTable
    [[lit "1", lit "a"], [lit "2", lit "b"]] _
    (by
      intro name table _ hload
      have hne : table.dataPath ≠ lit "db/t.schema" := fun heq =>
        schemaPath_ne_dataPath hload (lit "db/t") heq.symm
      rw [nameFiles, if_neg hne]
      split <;> rfl)
    (by
      intro name table _ hload
      rw [nameFiles_columns hload]
      exact ⟨by decide, by decide⟩)
    (by
      intro event he
      simp only [List.cons_append, List.nil_append, List.mem_cons, List.not_mem_nil, or_false] at he
      rcases he with rfl | rfl | rfl | rfl
      · exact ⟨parsedName_nameTable, by decide +kernel⟩
      · trivial
      · exact ⟨parsedName_nameTable, by decide +kernel⟩
      · exact parsedName_nameTable)
    (by decide) parsedName_nameTable (by decide +kernel) rfl (by decide +kernel)).1

end MiniSql
