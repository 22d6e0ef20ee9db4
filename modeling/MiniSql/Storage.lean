import MiniSql.StudentNoSet
import MiniSql.Numbers
import MiniSql.TextMigration

/-!
# Tables and the active storage

The process-wide state of `storage.c`, and what makes a table the active one.

* `Globals` are the static variables, `State` the globals with the files; `State.fresh` is a process that has
  just started.  Every function takes the state and returns the new one with its result.
* `StorageError` are the errors of statements, with the texts they leave in the error buffer.
* `buildTablePaths` and `loadTableDefinition` find and read the schema file of a table.
* `activateStorageForTable` is `activate_storage_for_table`: `alreadyActive` is its early-return test,
  `switchStorageToTable` the rest, with `migrateIfText` for a data file in the text format and
  `buildIndexForTable` for the scan that fills the index and the `student_no` set.

Memory allocation succeeds, except that node allocations follow the pattern in the heap of the index; file
operations fail only on missing files.  What the functions do is described in `Activation` and in the modules
behind it.
-/

namespace MiniSql

structure QualifiedName where
  schema : Option CString
  table : CString
  deriving DecidableEq

structure TableDefinition where
  name : QualifiedName
  columns : StringList
  schemaPath : CString
  dataPath : CString
  deriving DecidableEq

/-- The static variables of `storage.c`.  After a failed statement `activeTable` is a dangling pointer,
which no statement follows before it has set it again. -/
structure Globals where
  index : IdIndex
  nextIdCounter : UInt64
  activeDataPath : Option CString
  activeTable : Option TableDefinition
  activeStudentNoColumn : Option ℕ
  studentNoSet : StudentNoSet
  deriving DecidableEq

/-- The globals of a process that has not run a statement yet. -/
def Globals.initial : Globals := ⟨IdIndex.initial, 0, none, none, none, studentNoSetFree⟩

/-- The globals of the process and the files. -/
structure State where
  globals : Globals
  files : FileSystem

/-- A fresh process on the given files. -/
def State.fresh (files : FileSystem) : State := ⟨Globals.initial, files⟩

/-! ### Errors -/

inductive StorageError where
  | tableNameEmpty
  | openFile (path : CString)
  | schemaEmpty
  | migration
  | migrationBackup
  | migrationFinalize
  | indexInit
  | idColumnMissing
  | scan
  | rowIdColumnIndex
  | rowIdColumn
  | rowStudentNoColumnIndex
  | studentNoEmpty
  | duplicateStudentNoInData
  | studentNoCacheBuild
  | duplicateIdInData
  | indexBuild
  | insertCounts
  | insertUnknownColumn (name : CString)
  | insertDuplicateColumn (name : CString)
  | insertIdColumnMissing
  | studentNoRequired
  | duplicateStudentNo
  | writeRow
  | duplicateKey
  | indexUpdate
  | studentNoCacheUpdate
  | idIndexPath
  | idRangePath
  | linearScanPath
  | selectUnknownColumn (name : CString)
  | projection
  deriving DecidableEq

/-- The text a failing statement leaves in its error buffer. -/
def StorageError.message : StorageError → CString
  | tableNameEmpty => lit "table name is empty"
  | openFile path => lit "failed to open file: " ++ path
  -- the table is freed before the text is printed, which sets its schema path to `NULL`
  | schemaEmpty => lit "schema file is empty: (null)"
  | migration => lit "failed to migrate text data to binary"
  | migrationBackup => lit "failed to backup text data during migration"
  | migrationFinalize => lit "failed to finalize binary migration"
  | indexInit => lit "failed to initialize id index"
  | idColumnMissing => lit "table must include id column"
  | scan => lit "failed to scan binary data for index build"
  | rowIdColumnIndex => lit "binary row has invalid id column index"
  | rowIdColumn => lit "binary row has invalid id column"
  | rowStudentNoColumnIndex => lit "binary row has invalid student_no column index"
  | studentNoEmpty => lit "student_no must not be empty"
  | duplicateStudentNoInData => lit "duplicate student_no in data"
  | studentNoCacheBuild => lit "failed to build student_no cache"
  | duplicateIdInData => lit "duplicate id in data"
  | indexBuild => lit "failed to build index"
  | insertCounts => lit "INSERT column count and value count do not match"
  | insertUnknownColumn name => lit "unknown column in INSERT: " ++ name
  | insertDuplicateColumn name => lit "duplicate column in INSERT: " ++ name
  | insertIdColumnMissing => lit "table must include id column for auto-id INSERT"
  | studentNoRequired => lit "student_no is required in INSERT"
  | duplicateStudentNo => lit "duplicate student_no: already inserted value"
  | writeRow => lit "failed to write binary row"
  | duplicateKey => lit "duplicate key: already inserted value"
  | indexUpdate => lit "failed to update id index"
  | studentNoCacheUpdate => lit "failed to update student_no cache after insert"
  | idIndexPath => lit "failed to run id index path"
  | idRangePath => lit "failed to run id range index path"
  | linearScanPath => lit "failed to run linear scan path"
  | selectUnknownColumn name => lit "unknown column in SELECT: " ++ name
  | projection => lit "projection index out of range"

/-! ### Table definitions -/

/-- `build_table_paths`: the schema path and the data path, if `snprintf` can format them, which it does up to
`INT_MAX` bytes. -/
def buildTablePaths (dbRoot : CString) (name : QualifiedName) :
    Except StorageError (CString × CString) :=
  if name.table.bytes = [] then .error .tableNameEmpty
  else
    let base :=
      match name.schema with
      | none => dbRoot ++ lit "/" ++ name.table
      | some schema =>
          if schema.bytes = [] then dbRoot ++ lit "/" ++ name.table
          else dbRoot ++ lit "/" ++ schema ++ lit "/" ++ name.table
    .ok (base ++ lit ".schema", base ++ lit ".data")

/-- A schema file that can be opened can be read to its end, and memory is never refused. -/
def loadTableDefinition (dbRoot : CString) (files : FileSystem) (name : QualifiedName) :
    Except StorageError TableDefinition :=
  match buildTablePaths dbRoot name with
  | .error e => .error e
  | .ok (schemaPath, dataPath) =>
      match files schemaPath with
      | none => .error (.openFile schemaPath)
      | some schemaContent =>
          let columns := splitPipeLine schemaContent
          if columns.map CString.bytes = [[]] then .error .schemaEmpty
          else .ok ⟨name, columns, schemaPath, dataPath⟩

/-- The column names the store treats specially. -/
def idName : CString := lit "id"

def studentNoName : CString := lit "student_no"

/-! ### Building the caches -/

/-- What the scan of `activate_storage_for_table` works on: the index, the `student_no` set, and the
`max_id` and `error` of `IndexBuildContext`. -/
structure IndexBuild where
  index : IdIndex
  studentNoSet : StudentNoSet
  maxId : UInt64
  error : Option StorageError
  deriving DecidableEq

/-- The `student_no` part of `build_index_callback`. -/
def buildStudentNo (studentNoColumn : Option ℕ) (values : StringList) (set : StudentNoSet) :
    Option StorageError × StudentNoSet :=
  match studentNoColumn with
  | none => (none, set)
  | some column =>
      match values[column]? with
      | none => (some .rowStudentNoColumnIndex, set)
      | some studentNo =>
          if studentNo.bytes = [] then (some .studentNoEmpty, set)
          else
            match studentNoSetInsert set studentNo with
            | (.duplicate, set) => (some .duplicateStudentNoInData, set)
            | (.error, set) => (some .studentNoCacheBuild, set)
            | (.ok, set) => (none, set)

def buildIndexCallback (idColumn studentNoColumn : Option ℕ) : RowCallback IndexBuild :=
  fun ref values build =>
    match idColumn.bind fun column => values[column]? with
    | none => some (-1, { build with error := some .rowIdColumnIndex })
    | some idText =>
        match parseU64Strict idText with
        | none => some (-1, { build with error := some .rowIdColumn })
        | some id =>
            match buildStudentNo studentNoColumn values build.studentNoSet with
            | (some e, set) => some (-1, { build with studentNoSet := set, error := some e })
            | (none, set) =>
                match indexInsert build.index id ref with
                | (rc, index) =>
                    if rc = 1 then
                      some (-1, ⟨index, set, build.maxId, some .duplicateIdInData⟩)
                    else if rc ≠ 0 then some (-1, ⟨index, set, build.maxId, some .indexBuild⟩)
                    else
                      some (0, ⟨index, set, if build.maxId < id then id else build.maxId,
                        build.error⟩)

/-! ### Activation -/

/-- The temporary and the backup file of a migration. -/
def tmpPathOf (path : CString) : CString := path ++ lit ".bin.tmp"

def bakPathOf (path : CString) : CString := path ++ lit ".text.bak"

/-- The migration step of `activate_storage_for_table` on the data file at `path`. -/
def migrateIfText (uninit : ℕ → UInt32) (files : FileSystem) (path : CString) :
    Option StorageError × FileSystem :=
  if fileLooksBinary uninit (files path) then (none, files)
  else
    match migrateTextDataToBinary files path (tmpPathOf path) with
    | (files, rc) =>
        if rc ≠ 0 then (some .migration, files.remove (tmpPathOf path))
        else
          match (files.remove (bakPathOf path)).rename path (bakPathOf path) with
          | none =>
              (some .migrationBackup, (files.remove (bakPathOf path)).remove (tmpPathOf path))
          | some files =>
              match files.rename (tmpPathOf path) path with
              | none =>
                  (some .migrationFinalize,
                    ((files.rename (bakPathOf path) path).getD files).remove (tmpPathOf path))
              | some files => (none, files)

/-- The index build of `activate_storage_for_table`, with the data file in place. -/
def buildIndexForTable (uninit : ℕ → UInt32) (table : TableDefinition) (s : State) :
    Option StorageError × State :=
  match indexInit s.globals.index with
  | (rc, index) =>
      let g := { s.globals with index := index }
      if rc ≠ 0 then (some .indexInit, ⟨g, s.files⟩)
      else
        let idColumn := findColumnIndex table.columns idName
        let studentNoColumn := findColumnIndex table.columns studentNoName
        if idColumn = none then (some .idColumnMissing, ⟨g, s.files⟩)
        else
          let g := if studentNoColumn = none then g
            else { g with studentNoSet := studentNoSetInit, activeStudentNoColumn := studentNoColumn }
          match binaryReaderScanAll uninit g.activeDataPath s.files
              (buildIndexCallback idColumn studentNoColumn) ⟨g.index, g.studentNoSet, 0, none⟩ with
          | none => (some .scan, ⟨g, s.files⟩)
          | some (rc, build) =>
              let g := { g with index := build.index, studentNoSet := build.studentNoSet }
              if rc ≠ 0 then (some (build.error.getD .scan), ⟨g, s.files⟩)
              else
                (none, ⟨{ g with nextIdCounter := build.maxId, activeTable := some table }, s.files⟩)

/-- `activate_storage_for_table` when the table is not the active one. -/
def switchStorageToTable (uninit : ℕ → UInt32) (table : TableDefinition) (s : State) :
    Option StorageError × State :=
  let g := { s.globals with
    activeStudentNoColumn := none
    studentNoSet := studentNoSetFree
    activeDataPath := some table.dataPath }
  let files := if s.files table.dataPath = none then s.files.write table.dataPath [] else s.files
  match migrateIfText uninit files table.dataPath with
  | (some e, files) => (some e, ⟨g, files⟩)
  | (none, files) => buildIndexForTable uninit table ⟨g, files⟩

/-- The early-return test of `activate_storage_for_table`. -/
def alreadyActive (table : TableDefinition) (g : Globals) : Bool :=
  decide (g.activeDataPath = some table.dataPath) && g.index.ready

/-- `activate_storage_for_table`; `none` is success. -/
def activateStorageForTable (uninit : ℕ → UInt32) (table : TableDefinition) (s : State) :
    Option StorageError × State :=
  if alreadyActive table s.globals then
    (none, { s with globals := { s.globals with activeTable := some table } })
  else switchStorageToTable uninit table s

end MiniSql
