import MiniSql.Storage

/-!
# INSERT and SELECT

`append_insert_row` and `run_select_query` with the helpers below them, and `execute_statement`, which
dispatches to one of the two.

* INSERT: `assignColumns` is the column loop, `checkStudentNo` the checks behind it, `prepareInsert` all that
  happens between the activation and `next_id`, with an `InsertPlan` as its result; `storeRow` is the rest.
  `appendInsertRow` puts the activation in front.
* SELECT: `runSelectById`, `runSelectByIdRange` and `runSelectLinear` are the three access paths,
  `isIdEqualityPredicate` and `isIdRangePredicate` choose between them, and `projectRow` cuts the selected
  columns out of a row.  `runSelectQuery` is the whole; its outcome can be a `fault`, an access outside the
  fields of a row.
* The loops of the range path are `walkSlots` and `walkLeaves`, over any `emit` and any accumulator.
* `executeStatement` and `runStatements` are one statement and a sequence of them.

What every statement shares:

* `storeRow_globals`, `storeRow_files`: what `storeRow` does to the globals and the files.
* `executeStatement_preserves`, `runStatements_preserves`: a statement is an activation, at most one
  `storeRow` and a new `activeTable`; what these three preserve, every run of statements preserves.
-/

namespace MiniSql

/-! ### INSERT -/

structure InsertStatement where
  target : QualifiedName
  columns : StringList
  values : StringList
  deriving DecidableEq

/-- `*affected_rows`, `*out_insert_columns` and `*out_insert_values` of an accepted INSERT. -/
structure InsertResult where
  affectedRows : ℕ
  columns : StringList
  values : StringList
  deriving DecidableEq

/-- The column loop of `append_insert_row` over the (column, value) pairs of the statement, with
`assigned_columns` and `ordered_values`.  A value given for an `id` column is dropped. -/
def assignColumns (columns : StringList) : List (CString × CString) → List Bool → StringList →
    Except StorageError (List Bool × StringList)
  | [], assigned, ordered => .ok (assigned, ordered)
  | (name, value) :: pairs, assigned, ordered =>
      match findColumnIndex columns name with
      | none => .error (.insertUnknownColumn name)
      | some target =>
          if assigned.getD target false then .error (.insertDuplicateColumn name)
          else
            let assigned := assigned.set target true
            if sqlStricmp (columns.getD target CString.empty) idName = 0 then
              assignColumns columns pairs assigned ordered
            else assignColumns columns pairs assigned (ordered.set target value)

/-- The `student_no` checks: the value to add to the set, if the table has the column. -/
def checkStudentNo (g : Globals) (studentNoColumn : Option ℕ) (assigned : List Bool)
    (ordered : StringList) : Except StorageError (Option CString) :=
  match studentNoColumn with
  | none => .ok none
  | some column =>
      if ¬assigned.getD column false then .error .studentNoRequired
      else
        let studentNo := ordered.getD column CString.empty
        if studentNo.bytes = [] then .error .studentNoEmpty
        else if g.activeStudentNoColumn = some column ∧ studentNoSetContains g.studentNoSet studentNo
        then .error .duplicateStudentNo
        else .ok (some studentNo)

/-- What is known when all checks of `append_insert_row` have passed: the values in schema order, the
`id` column and the `student_no` value. -/
structure InsertPlan where
  ordered : StringList
  idColumn : ℕ
  studentNo : Option CString
  deriving DecidableEq

/-- `append_insert_row` between the activation and `next_id`. -/
def prepareInsert (columns : StringList) (statement : InsertStatement) (g : Globals) :
    Except StorageError InsertPlan :=
  match assignColumns columns (statement.columns.zip statement.values)
      (columns.map fun _ => false) (columns.map fun _ => CString.empty) with
  | .error e => .error e
  | .ok (assigned, ordered) =>
      match findColumnIndex columns idName with
      | none => .error .insertIdColumnMissing
      | some idColumn =>
          match checkStudentNo g (findColumnIndex columns studentNoName) assigned ordered with
          | .error e => .error e
          | .ok studentNo => .ok ⟨ordered, idColumn, studentNo⟩

/-- The row an INSERT stores when it draws `id`. -/
def InsertPlan.row (plan : InsertPlan) (id : UInt64) : StringList :=
  plan.ordered.set plan.idColumn (decimalText id)

/-- `append_insert_row` from `next_id` on. -/
def storeRow (columns : StringList) (plan : InsertPlan) (s : State) :
    Except StorageError InsertResult × State :=
  let id := nextId s.globals.nextIdCounter
  let g := { s.globals with nextIdCounter := id }
  match binaryWriterAppendRow g.activeDataPath s.files (plan.row id) with
  | (files, rc, ref) =>
      if rc ≠ 0 then (.error .writeRow, ⟨g, files⟩)
      else
        match indexInsert g.index id ref with
        | (rc, index) =>
            let g := { g with index := index }
            if rc = 1 then (.error .duplicateKey, ⟨g, files⟩)
            else if rc ≠ 0 then (.error .indexUpdate, ⟨g, files⟩)
            else
              let done := fun set : StudentNoSet =>
                (Except.ok ⟨1, columns, plan.row id⟩,
                  (⟨{ g with studentNoSet := set, activeTable := none }, files⟩ : State))
              match plan.studentNo with
              | none => done g.studentNoSet
              | some studentNo =>
                  match studentNoSetInsert g.studentNoSet studentNo with
                  | (.duplicate, set) =>
                      (.error .duplicateStudentNo, ⟨{ g with studentNoSet := set }, files⟩)
                  | (.error, set) =>
                      (.error .studentNoCacheUpdate, ⟨{ g with studentNoSet := set }, files⟩)
                  | (.ok, set) => done set

/-- `append_insert_row` on the activated table. -/
def insertIntoTable (table : TableDefinition) (statement : InsertStatement) (s : State) :
    Except StorageError InsertResult × State :=
  match prepareInsert table.columns statement s.globals with
  | .error e => (.error e, s)
  | .ok plan => storeRow table.columns plan s

def appendInsertRow (uninit : ℕ → UInt32) (dbRoot : CString) (statement : InsertStatement)
    (s : State) : Except StorageError InsertResult × State :=
  if statement.columns.length ≠ statement.values.length then (.error .insertCounts, s)
  else
    match loadTableDefinition dbRoot s.files statement.target with
    | .error e => (.error e, s)
    | .ok table =>
        match activateStorageForTable uninit table s with
        | (some e, s) => (.error e, s)
        | (none, s) => insertIntoTable table statement s

/-! ### SELECT -/

structure WhereClause where
  column : CString
  value : CString
  op : WhereOperator
  deriving DecidableEq

/-- A SELECT statement; `where_` is `none` when the clause is not enabled. -/
structure SelectStatement where
  source : QualifiedName
  selectAll : Bool
  columns : StringList
  where_ : Option WhereClause
  deriving DecidableEq

structure QueryResult where
  columns : StringList
  rows : List StringList
  deriving DecidableEq

/-- How a SELECT ends; `fault` is an access outside the fields of a row. -/
inductive SelectOutcome where
  | ok (result : QueryResult)
  | error (e : StorageError)
  | fault
  deriving DecidableEq

/-- `is_id_equality_predicate` with `*out_id`. -/
def isIdEqualityPredicate (statement : SelectStatement) : Option UInt64 :=
  match statement.where_ with
  | none => none
  | some w =>
      if sqlStricmp w.column idName ≠ 0 then none
      else if w.op ≠ .equal then none
      else parseU64Strict w.value

/-- `is_id_range_predicate` with `*out_op` and `*out_id`. -/
def isIdRangePredicate (statement : SelectStatement) : Option (WhereOperator × UInt64) :=
  match statement.where_ with
  | none => none
  | some w =>
      if sqlStricmp w.column idName ≠ 0 then none
      else if w.op = .equal then none
      else (parseU64Strict w.value).map fun id => (w.op, id)

/-- `append_row_by_ref`: return code and the rows of the full result. -/
def appendRowByRef (uninit : ℕ → UInt32) (s : State) (table : TableDefinition) (ref : RowRef)
    (out : List StringList) : ℤ × List StringList :=
  match binaryReaderReadRowAt uninit s.globals.activeDataPath s.files ref with
  | (rc, values) =>
      if rc ≠ 0 then (-1, out)
      else if values.length ≠ table.columns.length then (-1, out)
      else (0, out ++ [values])

def runSelectById (uninit : ℕ → UInt32) (s : State) (id : UInt64) (out : List StringList) :
    ℤ × List StringList :=
  match s.globals.activeTable with
  | none => (-1, out)
  | some table =>
      match indexFind s.globals.index id with
      | (0, some ref) => appendRowByRef uninit s table ref out
      | _ => (0, out)

/-- What the loops of `run_select_by_id_range` do with a slot. -/
inductive SlotAction where
  | skip
  | stop
  | emit
  deriving DecidableEq

section Walk

variable {α : Type*}

/-- The slots of one leaf: `some rc` if the loop returns from the function. -/
def walkSlots (emit : RowRef → α → ℤ × α) (action : UInt64 → SlotAction) :
    List (UInt64 × RowRef) → α → Option ℤ × α
  | [], out => (none, out)
  | (key, ref) :: slots, out =>
      match action key with
      | .skip => walkSlots emit action slots out
      | .stop => (some 0, out)
      | .emit =>
          match emit ref out with
          | (rc, out) => if rc ≠ 0 then (some (-1), out) else walkSlots emit action slots out

/-- The walk along the leaf chain from slot `index` of a leaf.  A chain has no more leaves than the
heap has nodes. -/
def walkLeaves (emit : RowRef → α → ℤ × α) (action : UInt64 → SlotAction) (heap : BptHeap) :
    ℕ → Option ℕ → ℕ → α → ℤ × α
  | _, none, _, out => (0, out)
  | 0, some _, _, out => (-1, out)
  | fuel + 1, some leaf, index, out =>
      match leafAt heap leaf with
      | none => (-1, out)
      | some (slots, next) =>
          match walkSlots emit action (slots.drop index) out with
          | (some rc, out) => (rc, out)
          | (none, out) => walkLeaves emit action heap fuel next 0 out

end Walk

/-- The tests in the two loops of `run_select_by_id_range`. -/
def rangeAction (op : WhereOperator) (id key : UInt64) : SlotAction :=
  match op with
  | .greater => if key ≤ id then .skip else .emit
  | .less => if id ≤ key then .stop else .emit
  | .lessEqual => if id < key then .stop else .emit
  | _ => .emit

def runSelectByIdRange (uninit : ℕ → UInt32) (s : State) (op : WhereOperator) (id : UInt64)
    (out : List StringList) : ℤ × List StringList :=
  match s.globals.activeTable, s.globals.index.ready, s.globals.index.root with
  | some table, true, some root =>
      let heap := s.globals.index.heap
      let walk := walkLeaves (appendRowByRef uninit s table) (rangeAction op id) heap
        (heap.nodes.length + 1)
      if op = .greater ∨ op = .greaterEqual then
        match bptLowerBound heap root id with
        | none => (0, out)
        | some (leaf, index) => walk (some leaf) index out
      else walk (bptLeftmostLeaf heap root) 0 out
  | _, _, _ => (-1, out)

/-- `linear_scan_callback`, with the WHERE column looked up by the caller. -/
def linearScanCallback (filter : Option (ℕ × WhereClause)) (stopAfterFirstMatch : Bool) :
    RowCallback (List StringList) :=
  fun _ values out =>
    match filter with
    | none => some (if stopAfterFirstMatch then 1 else 0, out ++ [values])
    | some (whereIndex, w) =>
        match values[whereIndex]? with
        | none => none
        | some value =>
            if whereValueMatches value w.value w.op then
              some (if stopAfterFirstMatch then 1 else 0, out ++ [values])
            else some (0, out)

/-- `run_select_linear`; `none` is an access outside a row. -/
def runSelectLinear (uninit : ℕ → UInt32) (s : State) (statement : SelectStatement)
    (out : List StringList) : Option (ℤ × List StringList) :=
  match s.globals.activeTable with
  | none => some (-1, out)
  | some table =>
      let scan := fun filter stop =>
        match binaryReaderScanAll uninit s.globals.activeDataPath s.files
            (linearScanCallback filter stop) out with
        | none => none
        | some (rc, out) => some (if rc ≠ 0 then -1 else 0, out)
      match statement.where_ with
      | none => scan none false
      | some w =>
          match findColumnIndex table.columns w.column with
          | none => some (-1, out)
          | some whereIndex =>
              scan (some (whereIndex, w))
                (decide (w.op = .equal) && decide (sqlStricmp w.column studentNoName = 0))

/-- The full result of a SELECT: by id, by a range of ids, or by a linear scan. -/
def runFullQuery (uninit : ℕ → UInt32) (s : State) (statement : SelectStatement) :
    Option (Except StorageError (List StringList)) :=
  match isIdEqualityPredicate statement with
  | some id =>
      match runSelectById uninit s id [] with
      | (rc, rows) => some (if rc ≠ 0 then .error .idIndexPath else .ok rows)
  | none =>
      match isIdRangePredicate statement with
      | some (op, id) =>
          match runSelectByIdRange uninit s op id [] with
          | (rc, rows) => some (if rc ≠ 0 then .error .idRangePath else .ok rows)
      | none =>
          match runSelectLinear uninit s statement [] with
          | none => none
          | some (rc, rows) => some (if rc ≠ 0 then .error .linearScanPath else .ok rows)

/-- The column loop of `run_select_query`: the positions of the selected columns. -/
def selectedIndexes (columns : StringList) : StringList → Except StorageError (List ℕ)
  | [] => .ok []
  | name :: names =>
      match findColumnIndex columns name with
      | none => .error (.selectUnknownColumn name)
      | some index =>
          match selectedIndexes columns names with
          | .error e => .error e
          | .ok indexes => .ok (index :: indexes)

/-- `project_row`. -/
def projectRow (source : StringList) : List ℕ → Except StorageError StringList
  | [] => .ok []
  | index :: indexes =>
      match source[index]? with
      | none => .error .projection
      | some value =>
          match projectRow source indexes with
          | .error e => .error e
          | .ok values => .ok (value :: values)

def projectRows (indexes : List ℕ) : List StringList → Except StorageError (List StringList)
  | [] => .ok []
  | row :: rows =>
      match projectRow row indexes with
      | .error e => .error e
      | .ok values =>
          match projectRows indexes rows with
          | .error e => .error e
          | .ok projected => .ok (values :: projected)

/-- `run_select_query` on the activated table. -/
def selectFromTable (uninit : ℕ → UInt32) (table : TableDefinition) (statement : SelectStatement)
    (s : State) : SelectOutcome :=
  match runFullQuery uninit s statement with
  | none => .fault
  | some (.error e) => .error e
  | some (.ok rows) =>
      match (if statement.selectAll then .ok (List.range table.columns.length)
          else selectedIndexes table.columns statement.columns) with
      | .error e => .error e
      | .ok indexes =>
          match projectRows indexes rows with
          | .error e => .error e
          | .ok projected =>
              .ok ⟨indexes.map fun index => table.columns.getD index CString.empty, projected⟩

/-- The state a SELECT leaves: a successful one clears `g_active_table`. -/
def SelectOutcome.state (outcome : SelectOutcome) (s : State) : State :=
  match outcome with
  | .ok _ => { s with globals := { s.globals with activeTable := none } }
  | _ => s

def runSelectQuery (uninit : ℕ → UInt32) (dbRoot : CString) (statement : SelectStatement)
    (s : State) : SelectOutcome × State :=
  match loadTableDefinition dbRoot s.files statement.source with
  | .error e => (.error e, s)
  | .ok table =>
      match activateStorageForTable uninit table s with
      | (some e, s) => (.error e, s)
      | (none, s) =>
          let outcome := selectFromTable uninit table statement s
          (outcome, outcome.state s)

/-! ### Statements -/

inductive Statement where
  | insert (statement : InsertStatement)
  | select (statement : SelectStatement)
  deriving DecidableEq

/-- The outcome of a statement. -/
inductive Outcome where
  | inserted (result : Except StorageError InsertResult)
  | selected (outcome : SelectOutcome)

/-- `execute_statement`. -/
def executeStatement (uninit : ℕ → UInt32) (dbRoot : CString) (statement : Statement) (s : State) :
    Outcome × State :=
  match statement with
  | .insert statement =>
      let r := appendInsertRow uninit dbRoot statement s
      (.inserted r.1, r.2)
  | .select statement =>
      let r := runSelectQuery uninit dbRoot statement s
      (.selected r.1, r.2)

/-- The state after a sequence of statements. -/
def runStatements (uninit : ℕ → UInt32) (dbRoot : CString) : List Statement → State → State
  | [], s => s
  | statement :: statements, s =>
      runStatements uninit dbRoot statements (executeStatement uninit dbRoot statement s).2

/-! ### What storing a row changes -/

/-- What `storeRow` does to the globals: the counter is the drawn id, and index and set have got at
most one insert each. -/
theorem storeRow_globals (columns : StringList) (plan : InsertPlan) (s : State) :
    (storeRow columns plan s).2.globals.nextIdCounter = nextId s.globals.nextIdCounter ∧
    (storeRow columns plan s).2.globals.activeDataPath = s.globals.activeDataPath ∧
    (storeRow columns plan s).2.globals.activeStudentNoColumn = s.globals.activeStudentNoColumn ∧
    ((storeRow columns plan s).2.globals.index = s.globals.index ∨
      ∃ id ref, (storeRow columns plan s).2.globals.index =
        (indexInsert s.globals.index id ref).2) ∧
    ((storeRow columns plan s).2.globals.studentNoSet = s.globals.studentNoSet ∨
      ∃ v, (storeRow columns plan s).2.globals.studentNoSet =
        (studentNoSetInsert s.globals.studentNoSet v).2) := by
  rw [storeRow]
  dsimp only
  rcases binaryWriterAppendRow s.globals.activeDataPath s.files
    (plan.row (nextId s.globals.nextIdCounter)) with ⟨files, rc, ref⟩
  dsimp only
  split
  · exact ⟨rfl, rfl, rfl, Or.inl rfl, Or.inl rfl⟩
  · split
    · exact ⟨rfl, rfl, rfl, Or.inr ⟨_, _, rfl⟩, Or.inl rfl⟩
    · split
      · exact ⟨rfl, rfl, rfl, Or.inr ⟨_, _, rfl⟩, Or.inl rfl⟩
      · split
        · exact ⟨rfl, rfl, rfl, Or.inr ⟨_, _, rfl⟩, Or.inl rfl⟩
        · rename_i v hv
          split <;> rename_i heq <;>
            exact ⟨rfl, rfl, rfl, Or.inr ⟨_, _, rfl⟩, Or.inr ⟨v, by rw [heq]⟩⟩

/-- The files after `storeRow` are those after the write. -/
theorem storeRow_files (columns : StringList) (plan : InsertPlan) (s : State) :
    (storeRow columns plan s).2.files = (binaryWriterAppendRow s.globals.activeDataPath s.files
      (plan.row (nextId s.globals.nextIdCounter))).1 := by
  rw [storeRow]
  dsimp only
  rcases binaryWriterAppendRow s.globals.activeDataPath s.files
    (plan.row (nextId s.globals.nextIdCounter)) with ⟨files, rc, ref⟩
  dsimp only
  split
  · rfl
  · split
    · rfl
    · split
      · rfl
      · split
        · rfl
        · split <;> rfl

/-! ### What every statement preserves -/

section Preserves

variable {uninit : ℕ → UInt32} {P : State → Prop}

/-- A statement is an activation, at most one `storeRow`, and a new `activeTable`: what these three
preserve, a statement preserves. -/
theorem executeStatement_preserves (dbRoot : CString)
    (hactivate : ∀ table s, P s → P (activateStorageForTable uninit table s).2)
    (hstore : ∀ columns plan s, P s → P (storeRow columns plan s).2)
    (hclear : ∀ s, P s → P { s with globals := { s.globals with activeTable := none } })
    (statement : Statement) {s : State} (hs : P s) :
    P (executeStatement uninit dbRoot statement s).2 := by
  cases statement with
  | insert statement =>
    rw [executeStatement, appendInsertRow]
    split
    · exact hs
    · split
      · exact hs
      · rename_i table hload
        have hact := hactivate table s hs
        rcases hr : activateStorageForTable uninit table s with ⟨_ | e, s'⟩
        · rw [hr] at hact
          dsimp only
          rw [insertIntoTable]
          split
          · exact hact
          · exact hstore table.columns _ s' hact
        · rw [hr] at hact
          exact hact
  | select statement =>
    rw [executeStatement, runSelectQuery]
    split
    · exact hs
    · rename_i table hload
      have hact := hactivate table s hs
      rcases hr : activateStorageForTable uninit table s with ⟨_ | e, s'⟩
      · rw [hr] at hact
        have hstate : ∀ outcome : SelectOutcome, P (outcome.state s') := by
          intro outcome
          cases outcome with
          | ok result => exact hclear s' hact
          | error e => exact hact
          | fault => exact hact
        exact hstate _
      · rw [hr] at hact
        exact hact

/-- What every statement preserves, every run preserves. -/
theorem runStatements_preserves {dbRoot : CString}
    (hstep : ∀ statement s, P s → P (executeStatement uninit dbRoot statement s).2)
    (statements : List Statement) {s : State} (hs : P s) :
    P (runStatements uninit dbRoot statements s) := by
  induction statements generalizing s with
  | nil => exact hs
  | cons statement statements ih => exact ih (hstep statement s hs)

end Preserves

end MiniSql
