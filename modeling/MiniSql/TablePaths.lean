import MiniSql.FailedActivation

/-!
# Names and paths

The parser builds table names from identifiers, which have no `/`.

* `IsIdentifier` is the lexeme of an identifier token, `ParsedName` a name as `parse_qualified_name` fills it
  in.
* `relativePath` is the path of a table below `db_root`, without the suffix.

Main results, for names below one `db_root`:

* `dataPath_injective`: two tables with one data path have one name.
* `schemaPath_ne_dataPath`: no data file is a schema file.
* `alreadyActive_name`: so the storage of one table is never taken for the storage of another one, whatever
  has happened to the files since.
* `loadTableDefinition_schemas`: loading a table reads schema files only.

The buffers the paths are formatted into are in `PathBuffers`.
-/

namespace MiniSql

/-- `isalpha` -/
def isalpha (c : UInt8) : Bool := (65 ≤ c && c ≤ 90) || (97 ≤ c && c ≤ 122)

/-- The bytes of an identifier: `isalnum` or `_`. -/
def isIdentifierByte (c : UInt8) : Bool := isalpha c || isdigit c || c == 95

/-- The lexeme of an identifier token. -/
structure IsIdentifier (text : CString) : Prop where
  start : ∃ c ∈ text.bytes.head?, isalpha c = true ∨ c = 95
  bytes : ∀ c ∈ text.bytes, isIdentifierByte c = true

/-- A name as `parse_qualified_name` fills it in. -/
structure ParsedName (name : QualifiedName) : Prop where
  schema : ∀ schema ∈ name.schema, IsIdentifier schema
  table : IsIdentifier name.table

theorem IsIdentifier.ne_nil {text : CString} (h : IsIdentifier text) : text.bytes ≠ [] := by
  intro hnil
  obtain ⟨c, hc, -⟩ := h.start
  rw [hnil] at hc
  cases hc

theorem IsIdentifier.no_slash {text : CString} (h : IsIdentifier text) :
    (47 : UInt8) ∉ text.bytes := by
  intro hmem
  exact absurd (h.bytes 47 hmem) (by decide)

/-! ### Data paths -/

/-- The path of a table below `db_root`, without the suffix. -/
def relativePath (name : QualifiedName) : Bytes :=
  match name.schema with
  | none => name.table.bytes
  | some schema => schema.bytes ++ 47 :: name.table.bytes

theorem relativePath_injective {name name' : QualifiedName} (h : ParsedName name)
    (h' : ParsedName name') (heq : relativePath name = relativePath name') : name = name' := by
  obtain ⟨schema, table⟩ := name
  obtain ⟨schema', table'⟩ := name'
  have hslash : ∀ a b : Bytes, (47 : UInt8) ∈ a ++ 47 :: b :=
    fun a b => List.mem_append_right a List.mem_cons_self
  cases schema with
  | none =>
    cases schema' with
    | none =>
      have htable : table = table' := CString.ext heq
      rw [htable]
    | some schema' =>
      change table.bytes = schema'.bytes ++ 47 :: table'.bytes at heq
      refine absurd ?_ h.table.no_slash
      rw [heq]
      exact hslash _ _
  | some schema =>
    cases schema' with
    | none =>
      change schema.bytes ++ 47 :: table.bytes = table'.bytes at heq
      refine absurd ?_ h'.table.no_slash
      rw [← heq]
      exact hslash _ _
    | some schema' =>
      change schema.bytes ++ 47 :: table.bytes = schema'.bytes ++ 47 :: table'.bytes at heq
      -- no identifier has the separator, so both sides are split at the same place
      obtain ⟨hschema, -, htable⟩ := (List.append_cons_inj_of_notMem
        (h.schema schema rfl).no_slash h.table.no_slash).mp heq
      have htable' : table = table' := CString.ext htable
      rw [CString.ext hschema, htable']

/-- The two paths of a name that the parser fills in. -/
theorem buildTablePaths_parsed (dbRoot : CString) {name : QualifiedName} (hname : ParsedName name) :
    ∃ base : CString, base.bytes = dbRoot.bytes ++ 47 :: relativePath name ∧
      buildTablePaths dbRoot name = .ok (base ++ lit ".schema", base ++ lit ".data") := by
  have hslash : (lit "/").bytes = [47] := by decide
  rw [buildTablePaths, if_neg hname.table.ne_nil]
  refine ⟨_, ?_, rfl⟩
  cases hschema : name.schema with
  | none =>
    rw [relativePath, hschema]
    simp only [CString.append_bytes, hslash, List.append_assoc, List.cons_append, List.nil_append]
  | some schema =>
    have hne := (hname.schema schema hschema).ne_nil
    rw [relativePath, hschema]
    dsimp only
    rw [if_neg hne]
    simp only [CString.append_bytes, hslash, List.append_assoc, List.cons_append, List.nil_append]

/-- The data path of a table that the parser can name. -/
theorem dataPath_bytes {dbRoot : CString} {files : FileSystem} {name : QualifiedName}
    {table : TableDefinition} (hname : ParsedName name)
    (h : loadTableDefinition dbRoot files name = .ok table) :
    table.dataPath.bytes = dbRoot.bytes ++ 47 :: relativePath name ++ (lit ".data").bytes := by
  obtain ⟨base, content, hpaths, -, rfl, -⟩ := loadTableDefinition_ok h
  obtain ⟨base', hbase, hpaths'⟩ := buildTablePaths_parsed dbRoot hname
  rw [hpaths] at hpaths'
  obtain ⟨-, hdata⟩ := Prod.mk.inj (Except.ok.inj hpaths')
  dsimp only
  rw [hdata, CString.append_bytes, hbase]

/-- Two tables with one data path have one name. -/
theorem dataPath_injective {dbRoot : CString} {files files' : FileSystem} {name name' : QualifiedName}
    {table table' : TableDefinition} (hname : ParsedName name) (hname' : ParsedName name')
    (h : loadTableDefinition dbRoot files name = .ok table)
    (h' : loadTableDefinition dbRoot files' name' = .ok table')
    (heq : table.dataPath = table'.dataPath) : name = name' := by
  have hbytes := congrArg CString.bytes heq
  rw [dataPath_bytes hname h, dataPath_bytes hname' h'] at hbytes
  have hfront := List.append_cancel_right hbytes
  have hback := List.append_cancel_left hfront
  exact relativePath_injective hname hname' (List.cons.inj hback).2

/-- The storage of one table is never taken for the storage of another one, whatever has happened to the
files since. -/
theorem alreadyActive_name {dbRoot : CString} {files files' : FileSystem} {name name' : QualifiedName}
    {table table' : TableDefinition} {g : Globals} (hname : ParsedName name) (hname' : ParsedName name')
    (h : loadTableDefinition dbRoot files name = .ok table)
    (h' : loadTableDefinition dbRoot files' name' = .ok table')
    (hactive : g.activeDataPath = some table.dataPath) (hfound : alreadyActive table' g = true) :
    name = name' := by
  rw [alreadyActive, hactive, Bool.and_eq_true, decide_eq_true_eq] at hfound
  exact dataPath_injective hname hname' h h' (Option.some.inj hfound.1)

/-- A schema file is not a data file. -/
theorem schemaPath_ne_dataPath {dbRoot : CString} {files : FileSystem} {name : QualifiedName}
    {table : TableDefinition} (h : loadTableDefinition dbRoot files name = .ok table)
    (base : CString) : base ++ lit ".schema" ≠ table.dataPath := by
  obtain ⟨base', content, -, -, rfl, -⟩ := loadTableDefinition_ok h
  exact append_ne_of_suffix 2 (by decide) (by decide) (by decide) _ _

/-- Loading a table reads schema files only. -/
theorem loadTableDefinition_schemas (dbRoot : CString) {files files' : FileSystem}
    (h : ∀ base : CString, files' (base ++ lit ".schema") = files (base ++ lit ".schema"))
    (name : QualifiedName) :
    loadTableDefinition dbRoot files' name = loadTableDefinition dbRoot files name := by
  unfold loadTableDefinition buildTablePaths
  by_cases hempty : name.table.bytes = []
  · rw [if_pos hempty]
  · rw [if_neg hempty]
    dsimp only
    rw [h]

end MiniSql
