import MiniSql.CommandLine
import MiniSql.InteractiveMode
import MiniSql.Library.Searching

/-!
# Hints for errors

`contains_text_ci`, `error_hint_ko` and `print_error_ko` of `main.c`.  The hint is found by searching the text
of the error, which may contain names and paths, for patterns in a certain order.

* `hintTable` has the patterns of the branches in the order of the tests; `errorHintKo` is the search, and
  `printErrorKo` what is written to `stderr`.
* `ParseError.hint`, `StorageError.hint` and `ReadFault.hint` say which hint belongs to each kind of error.  A
  file that is not read to its end has the general hint, since the pattern for it does not occur in its text.
* `Silent`: a text contains no pattern of the table.

Where the names and paths are silent, the search finds the hint that belongs to the kind of the error:

* `errorHint_congr`: only the patterns that occur in a text count.
* `hint_named`: a text with a colon and a silent name behind it gets the hint of what is before the colon.
* `ParseError.hint_message`, `StorageError.hint_message`: the errors of the parser and of the store.
-/

namespace MiniSql

open Searching

/-! ### `main.c` -/

/-- `SQL_ERROR_SIZE` -/
def sqlErrorSize : ℕ := 512

/-- What `snprintf` leaves in an error buffer. -/
def errorBuffer (message : CString) : CString := CString.ofBuffer (message.bytes.take (sqlErrorSize - 1))

/-- `contains_text_ci`. -/
def containsTextCi (text pattern : CString) : Bool :=
  if pattern.bytes = [] then false else contains tolower text.bytes pattern.bytes

/-- The branches of `error_hint_ko`. -/
inductive Hint where
  | unknownOption
  | missingValue
  | positionals
  | mixed
  | grammar
  | unknownColumn
  | duplicate
  | emptySchema
  | file
  | noInput
  | query
  | memory
  | other
  deriving DecidableEq

def Hint.text : Hint → CString
  | unknownOption => lit "지원하지 않는 옵션입니다. -h/--help로 사용 가능한 옵션을 확인해 주세요."
  | missingValue => lit "옵션 값이 누락되었습니다. 옵션 뒤에 경로/파일 값을 함께 입력해 주세요."
  | positionals => lit "위치 인자가 너무 많습니다. <db_root> <sql_file> 형태만 허용됩니다."
  | mixed => lit "옵션 인자와 위치 인자를 혼용했습니다. 한 가지 방식만 사용해 주세요."
  | grammar => lit "SQL 문법 또는 지원하지 않는 구문 문제입니다. 키워드/괄호/세미콜론(;)을 확인해 주세요."
  | unknownColumn => lit "존재하지 않는 컬럼을 사용했습니다. 스키마 컬럼명 오타를 확인해 주세요."
  | duplicate => lit "이미 입력된 키 값입니다. 중복되지 않는 값으로 다시 시도해 주세요."
  | emptySchema => lit "스키마 파일이 비어 있습니다. 테이블 스키마를 먼저 정의해 주세요."
  | file => lit "파일 경로가 잘못되었거나 접근 권한이 없습니다. 경로를 다시 확인해 주세요."
  | noInput => lit "표준입력으로 SQL이 전달되지 않았습니다. 파일 인자(-f) 또는 파이프 입력을 사용해 주세요."
  | query => lit "조회 실행 중 내부 오류가 발생했습니다. 조건값과 데이터 파일 상태를 확인해 주세요."
  | memory => lit "메모리가 부족합니다. 입력 크기를 줄이거나 프로세스를 다시 실행해 주세요."
  | other => lit "입력값 또는 데이터 상태를 확인한 뒤 다시 시도해 주세요."

/-- The patterns of the branches, in the order of the tests. -/
def hintTable : List (List CString × Hint) :=
  [([lit "unknown option"], .unknownOption),
    ([lit "missing value for"], .missingValue),
    ([lit "too many positional arguments"], .positionals),
    ([lit "cannot mix --db", lit "cannot mix --file"], .mixed),
    ([lit "unexpected character", lit "expected ", lit "unterminated string literal",
      lit "unsupported statement"], .grammar),
    ([lit "unknown column"], .unknownColumn),
    ([lit "duplicate key", lit "duplicate id", lit "duplicate student_no"], .duplicate),
    ([lit "schema file is empty"], .emptySchema),
    ([lit "failed to open file", lit "failed to read file"], .file),
    ([lit "no SQL input provided"], .noInput),
    ([lit "failed to run id index path", lit "failed to run id range index path",
      lit "failed to run linear scan path"], .query),
    ([lit "out of memory"], .memory)]

/-- The tests of `error_hint_ko`, one after the other. -/
def firstHint (error : CString) : List (List CString × Hint) → Hint
  | [] => .other
  | (patterns, hint) :: rows =>
      if patterns.any fun pattern => containsTextCi error pattern then hint else firstHint error rows

def errorHint (error : CString) : Hint := firstHint error hintTable

/-- `error_hint_ko`. -/
def errorHintKo (error : CString) : CString := (errorHint error).text

/-- What `print_error_ko` writes to `stderr`. -/
def printErrorKo (label error : CString) (suggestRetry : Bool) : Bytes :=
  (label ++ lit ": " ++ error ++ lit "\n").bytes ++
    (lit "안내: " ++ errorHintKo error ++ lit "\n").bytes ++
    if suggestRetry then (lit "다시 입력해 주세요.\n").bytes else []

/-! ### The kinds of errors -/

def CliError.hint : CliError → Hint
  | missingValue _ => .missingValue
  | unknownOption _ => .unknownOption
  | tooManyPositionals => .positionals
  | mixedDatabase => .mixed
  | mixedFile => .mixed
  | _ => .other

/-- A comment without an end is not counted as a fault of the grammar. -/
def ParseError.hint : ParseError → Hint
  | located _ _ _ => .grammar
  | comparisonOperator => .grammar
  | unterminatedComment => .other

def StorageError.hint : StorageError → Hint
  | openFile _ => .file
  | schemaEmpty => .emptySchema
  | duplicateStudentNoInData => .duplicate
  | duplicateIdInData => .duplicate
  | insertUnknownColumn _ => .unknownColumn
  | duplicateStudentNo => .duplicate
  | duplicateKey => .duplicate
  | idIndexPath => .query
  | idRangePath => .query
  | linearScanPath => .query
  | selectUnknownColumn _ => .unknownColumn
  | _ => .other

/-- A file that is not read to its end is not counted as a fault of the path. -/
def ReadFault.hint : ReadFault → Hint
  | memory => .memory
  | _ => .other

/-- The text and the hint of an error; a fault leaves no text. -/
def RunError.message : RunError → Option CString
  | parse e => some e.message
  | storage e => some e.message
  | history message => some message
  | fault => none

def RunError.hint : RunError → Hint
  | parse e => e.hint
  | storage e => e.hint
  | history _ => .memory
  | fault => .other

/-! ### Patterns in parts of a text -/

/-- A text as the search sees it. -/
def folded (text : Bytes) : List ℕ := text.map fun c => (tolower c).toNat

/-- The patterns of the table. -/
def patterns : List CString := hintTable.flatMap Prod.fst

/-- The text contains the pattern. -/
def Occurs (pattern : CString) (text : Bytes) : Prop := folded pattern.bytes <:+: folded text

/-- The text contains no pattern of the table. -/
def Silent (text : Bytes) : Prop := ∀ pattern ∈ patterns, ¬Occurs pattern text

/-- The digits and the bytes of `-, at line column'`. -/
def isPositionByte (c : ℕ) : Bool :=
  decide (48 ≤ c ∧ c ≤ 57) ||
    decide (c ∈ [32, 39, 44, 45, 97, 99, 101, 105, 108, 109, 110, 111, 116, 117])

/-- The digits, the quote, the slash and the colon keep parts of a text apart: they are in no pattern. -/
def isSeparator (c : ℕ) : Bool := decide (48 ≤ c ∧ c ≤ 57) || decide (c ∈ [39, 47, 58])

/-- What all patterns have in common. -/
def PatternShape (pattern : List ℕ) : Prop :=
  1 < pattern.length ∧ 32 ∈ pattern ∧ pattern.head? ≠ some 32 ∧
    (∀ c ∈ pattern, isSeparator c = false) ∧ ∃ c ∈ pattern, isPositionByte c = false

instance decidablePatternShape (pattern : List ℕ) : Decidable (PatternShape pattern) :=
  inferInstanceAs (Decidable (_ ∧ _))

theorem patterns_shape : ∀ pattern ∈ patterns, PatternShape (folded pattern.bytes) := by
  decide +kernel

theorem folded_ne_nil {pattern : CString} (h : pattern ∈ patterns) : folded pattern.bytes ≠ [] := by
  obtain ⟨hlength, -⟩ := patterns_shape pattern h
  intro hnil
  rw [hnil] at hlength
  exact absurd hlength (by decide)

theorem containsTextCi_iff {error pattern : CString} (h : pattern ∈ patterns) :
    containsTextCi error pattern = true ↔ Occurs pattern error.bytes := by
  have hne : pattern.bytes ≠ [] := fun hnil => folded_ne_nil h (congrArg folded hnil)
  rw [containsTextCi, if_neg hne, contains_iff hne, ← infix_map_iff_of_injective fun _ _ => UInt8.toNat_inj.mp,
    List.map_map, List.map_map]
  rfl

/-- Two texts that contain the same patterns get the same hint. -/
theorem errorHint_congr {error error' : CString}
    (h : ∀ pattern ∈ patterns, Occurs pattern error.bytes ↔ Occurs pattern error'.bytes) :
    errorHint error = errorHint error' := by
  have hrows : ∀ rows, (∀ row ∈ rows, ∀ pattern ∈ row.1, pattern ∈ patterns) →
      firstHint error rows = firstHint error' rows := by
    intro rows hrows
    induction rows with
    | nil => rfl
    | cons row rows ih =>
      obtain ⟨hrow, hrest⟩ := List.forall_mem_cons.mp hrows
      have hany : (row.1.any fun pattern => containsTextCi error pattern) =
          row.1.any fun pattern => containsTextCi error' pattern := by
        rw [Bool.eq_iff_iff, List.any_eq_true, List.any_eq_true]
        refine exists_congr fun pattern => and_congr_right fun hpattern => ?_
        rw [containsTextCi_iff (hrow pattern hpattern), containsTextCi_iff (hrow pattern hpattern)]
        exact h pattern (hrow pattern hpattern)
      show (if _ then _ else _) = if _ then _ else _
      rw [hany, ih hrest]
  exact hrows hintTable fun row hrow pattern hpattern =>
    List.mem_flatMap.mpr ⟨row, hrow, hpattern⟩

/-- A separator keeps a silent text apart from the rest. -/
theorem occurs_before {c : UInt8} (hc : isSeparator (tolower c).toNat = true) {pattern : CString}
    (hpattern : pattern ∈ patterns) {before after : Bytes} (h : Silent after) :
    Occurs pattern (before ++ c :: after) ↔ Occurs pattern before := by
  have hnot : (tolower c).toNat ∉ folded pattern.bytes := by
    obtain ⟨-, -, -, hseparators, -⟩ := patterns_shape pattern hpattern
    intro hmem
    rw [hseparators _ hmem] at hc
    cases hc
  rw [Occurs, folded, folded, List.map_append, List.map_cons, ← folded,
    infix_around hnot (folded_ne_nil hpattern)]
  exact or_iff_left (h pattern hpattern)

theorem Silent.of_prefix {text front : Bytes} (h : Silent text) (hfront : front <+: text) :
    Silent front := fun pattern hpattern hocc =>
  h pattern hpattern (hocc.trans (hfront.map _).isInfix)

/-- Two silent texts with a separator between them. -/
theorem Silent.join {before after : Bytes} {c : UInt8} (hbefore : Silent before) (hafter : Silent after)
    (hc : isSeparator (tolower c).toNat = true) : Silent (before ++ c :: after) :=
  fun pattern hpattern hocc =>
    hbefore pattern hpattern ((occurs_before hc hpattern hafter).mp hocc)

/-- No pattern starts with a blank. -/
theorem Silent.behind_blank {text : Bytes} (h : Silent text) : Silent (32 :: text) := by
  intro pattern hpattern hocc
  obtain ⟨-, -, hhead, -⟩ := patterns_shape pattern hpattern
  exact h pattern hpattern ((infix_behind hhead (folded_ne_nil hpattern)).mp hocc)

/-- Every pattern contains a blank. -/
theorem silent_of_no_blank {text : Bytes} (h : (32 : UInt8) ∉ text) : Silent text := by
  have hfold : ∀ c : UInt8, (tolower c).toNat = 32 → c = 32 := by decide +kernel
  intro pattern hpattern hocc
  obtain ⟨-, hblank, -⟩ := patterns_shape pattern hpattern
  obtain ⟨c, hc, heq⟩ := List.mem_map.mp (hocc.subset hblank)
  exact h (hfold c heq ▸ hc)

/-- Every pattern contains a byte that is in no position. -/
theorem silent_of_position {text : Bytes}
    (h : ∀ c ∈ text, isPositionByte (tolower c).toNat = true) : Silent text := by
  intro pattern hpattern hocc
  obtain ⟨-, -, -, -, b, hb, hother⟩ := patterns_shape pattern hpattern
  obtain ⟨c, hc, rfl⟩ := List.mem_map.mp (hocc.subset hb)
  rw [h c hc] at hother
  cases hother

/-- Every pattern has more than one byte. -/
theorem silent_of_length {text : Bytes} (h : text.length ≤ 1) : Silent text := by
  intro pattern hpattern hocc
  obtain ⟨hlong, -⟩ := patterns_shape pattern hpattern
  have hlength := hocc.length_le
  rw [folded, folded, List.length_map, List.length_map] at hlength
  rw [folded, List.length_map] at hlong
  omega

/-! ### Names and paths -/

theorem IsIdentifier.no_blank {name : CString} (h : IsIdentifier name) : (32 : UInt8) ∉ name.bytes :=
  fun hmem => absurd (h.bytes 32 hmem) (by decide)

theorem IsIdentifier.silent {name : CString} (h : IsIdentifier name) : Silent name.bytes :=
  silent_of_no_blank h.no_blank

/-- The schema path of a table whose name the parser has read. -/
theorem ParsedName.silent_schemaPath {dbRoot schemaPath dataPath : CString} {name : QualifiedName}
    (hname : ParsedName name) (hroot : Silent dbRoot.bytes)
    (h : buildTablePaths dbRoot name = .ok (schemaPath, dataPath)) : Silent schemaPath.bytes := by
  have hslash : (lit "/").bytes = [47] := by decide
  have hfile : Silent (name.table ++ lit ".schema").bytes := by
    apply silent_of_no_blank
    rw [CString.append_bytes, List.mem_append, not_or]
    exact ⟨hname.table.no_blank, by decide⟩
  rw [buildTablePaths, if_neg hname.table.ne_nil] at h
  obtain ⟨rfl, -⟩ := Prod.mk.inj (Except.ok.inj h)
  cases hschema : name.schema with
  | none =>
    have hbytes : (dbRoot ++ lit "/" ++ name.table ++ lit ".schema").bytes =
        dbRoot.bytes ++ 47 :: (name.table ++ lit ".schema").bytes := by
      simp [hslash]
    exact hbytes ▸ hroot.join hfile (by decide)
  | some schema =>
    have hidentifier := hname.schema schema hschema
    have hbytes : (dbRoot ++ lit "/" ++ schema ++ lit "/" ++ name.table ++ lit ".schema").bytes =
        dbRoot.bytes ++ 47 :: (schema.bytes ++ 47 :: (name.table ++ lit ".schema").bytes) := by
      simp [hslash]
    dsimp only
    rw [if_neg hidentifier.ne_nil, hbytes]
    exact hroot.join (hidentifier.silent.join hfile (by decide)) (by decide)

/-! ### Hints of the texts -/

/-- The buffer with a silent text behind a separator gets the hint of what is before the separator. -/
theorem errorHint_before {message : CString} {c : UInt8} {before after : Bytes}
    (hmessage : message.bytes = before ++ c :: after) (hbefore : before.length < sqlErrorSize - 1)
    (hc : isSeparator (tolower c).toNat = true) (h : Silent after) :
    errorHint (errorBuffer message) = errorHint (CString.ofBuffer before) := by
  obtain ⟨room, hroom⟩ := Nat.exists_eq_add_of_lt hbefore
  have hnul : (0 : UInt8) ∉ before := fun hmem =>
    message.nul_free (hmessage ▸ List.mem_append_left _ hmem)
  have htake : message.bytes.take (sqlErrorSize - 1) = before ++ c :: after.take room := by
    rw [hroom, hmessage, Nat.add_assoc, List.take_length_add_append, List.take_succ_cons]
  have hbuffer : (errorBuffer message).bytes = before ++ c :: after.take room := by
    rw [errorBuffer, htake]
    refine CString.ofBuffer_bytes fun hmem => message.nul_free ?_
    rw [← htake] at hmem
    exact List.mem_of_mem_take hmem
  refine errorHint_congr fun pattern hpattern => ?_
  rw [hbuffer, CString.ofBuffer_bytes hnul]
  exact occurs_before hc hpattern (h.of_prefix (List.take_prefix room after))

/-- The table with the bytes of its patterns, and the search in it. -/
def hintBytes : List (List Bytes × Hint) := hintTable.map fun row => (row.1.map CString.bytes, row.2)

def firstHintBytes (text : List ℕ) : List (List Bytes × Hint) → Hint
  | [] => .other
  | (patterns, hint) :: rows =>
      if patterns.any fun pattern => contains id text (folded pattern) then hint
      else firstHintBytes text rows

theorem errorHint_eq (error : CString) :
    errorHint error = firstHintBytes (folded error.bytes) hintBytes := by
  have hrows : ∀ rows, (∀ row ∈ rows, ∀ pattern ∈ row.1, pattern ∈ patterns) →
      firstHint error rows = firstHintBytes (folded error.bytes)
        (rows.map fun row => (row.1.map CString.bytes, row.2)) := by
    intro rows hrows
    induction rows with
    | nil => rfl
    | cons row rows ih =>
      obtain ⟨hrow, hrest⟩ := List.forall_mem_cons.mp hrows
      have hany : (row.1.any fun pattern => containsTextCi error pattern) =
          (row.1.map CString.bytes).any fun pattern =>
            contains id (folded error.bytes) (folded pattern) := by
        rw [Bool.eq_iff_iff, List.any_map, List.any_eq_true, List.any_eq_true]
        refine exists_congr fun pattern => and_congr_right fun hpattern => ?_
        rw [containsTextCi_iff (hrow pattern hpattern), Function.comp_apply,
          contains_iff (folded_ne_nil (hrow pattern hpattern)), List.map_id, List.map_id]
        rfl
      show (if _ then _ else _) = if _ then _ else _
      rw [hany, ih hrest]
  exact hrows hintTable fun row hrow pattern hpattern => List.mem_flatMap.mpr ⟨row, hrow, hpattern⟩

/-! ### Errors of the store -/

/-- The errors whose texts contain no name and no path. -/
def plainErrors : List StorageError :=
  [.tableNameEmpty, .schemaEmpty, .migration, .migrationBackup, .migrationFinalize, .indexInit,
    .idColumnMissing, .scan, .rowIdColumnIndex, .rowIdColumn, .rowStudentNoColumnIndex, .studentNoEmpty,
    .duplicateStudentNoInData, .studentNoCacheBuild, .duplicateIdInData, .indexBuild, .insertCounts,
    .insertIdColumnMissing, .studentNoRequired, .duplicateStudentNo, .writeRow, .duplicateKey, .indexUpdate,
    .studentNoCacheUpdate, .idIndexPath, .idRangePath, .linearScanPath, .projection]

/-- The name or the path in the text of an error. -/
def StorageError.detail : StorageError → CString
  | openFile path => path
  | insertUnknownColumn name => name
  | insertDuplicateColumn name => name
  | selectUnknownColumn name => name
  | _ => CString.empty

/-- What is before the colon in the texts of the others, and some texts of other errors. -/
def fixedTexts : List (CString × Hint) :=
  [(lit "failed to open file", .file), (lit "unknown column in INSERT", .unknownColumn),
    (lit "duplicate column in INSERT", .other), (lit "unknown column in SELECT", .unknownColumn),
    (lit "unexpected character ", .grammar),
    (lit "unterminated block comment", .other),
    (lit "expected comparison operator (=, >, >=, <, <=) in WHERE clause", .grammar),
    (lit "out of memory while storing command history", .memory),
    (lit "no SQL input provided", .noInput), (lit "failed to seek file", .other),
    (lit "failed to determine file size", .other), (lit "failed to rewind file", .other),
    (lit "out of memory while reading", .memory), (lit "failed to read complete file", .other)]

theorem hint_plain : ∀ e ∈ plainErrors,
    e.message.bytes.length < sqlErrorSize ∧ errorHint e.message = e.hint := by
  simp only [errorHint_eq]
  decide +kernel

theorem hint_fixedTexts : ∀ entry ∈ fixedTexts,
    entry.1.bytes.length < sqlErrorSize - 1 ∧ errorHint entry.1 = entry.2 := by
  simp only [errorHint_eq]
  decide +kernel

theorem errorBuffer_of_short {message : CString} (h : message.bytes.length < sqlErrorSize) :
    errorBuffer message = message := by
  rw [errorBuffer, List.take_of_length_le (Nat.le_sub_one_of_lt h), CString.ofBuffer_of_bytes]

/-- A text with a colon and a silent name behind it. -/
theorem hint_named {text front name : CString} {hint : Hint} (htext : (text, hint) ∈ fixedTexts)
    (hfront : front.bytes = text.bytes ++ [58, 32]) (hname : Silent name.bytes) :
    errorHint (errorBuffer (front ++ name)) = hint := by
  obtain ⟨hlength, hhint⟩ := hint_fixedTexts _ htext
  have hbytes : (front ++ name).bytes = text.bytes ++ 58 :: 32 :: name.bytes := by
    rw [CString.append_bytes, hfront, List.append_assoc]
    rfl
  rw [errorHint_before hbytes hlength (by decide) hname.behind_blank, CString.ofBuffer_of_bytes]
  exact hhint

theorem StorageError.hint_message {e : StorageError} (h : Silent e.detail.bytes) :
    errorHint (errorBuffer e.message) = e.hint := by
  have hplain : ∀ e ∈ plainErrors, errorHint (errorBuffer e.message) = e.hint := by
    intro e he
    obtain ⟨hlength, hhint⟩ := hint_plain e he
    rw [errorBuffer_of_short hlength, hhint]
  cases e with
  | openFile path => exact hint_named (List.mem_of_getElem? (i := 0) rfl) (by decide) h
  | insertUnknownColumn name => exact hint_named (List.mem_of_getElem? (i := 1) rfl) (by decide) h
  | insertDuplicateColumn name => exact hint_named (List.mem_of_getElem? (i := 2) rfl) (by decide) h
  | selectUnknownColumn name => exact hint_named (List.mem_of_getElem? (i := 3) rfl) (by decide) h
  | _ => exact hplain _ (by simp [plainErrors])

/-! ### Errors of the parser -/

/-- The texts of the tokenizer and the parser that have a position behind them. -/
def locatedTexts : List CString :=
  [lit "unterminated string literal", lit "expected identifier", lit "expected literal value",
    lit "expected table name", lit "expected identifier after '.'", lit "expected INTO after INSERT",
    lit "expected '(' after table name", lit "expected ')' after column list",
    lit "expected VALUES keyword", lit "expected '(' before VALUES list",
    lit "expected ')' after VALUES list", lit "expected FROM after select list",
    lit "expected column name after WHERE", lit "expected literal after '='",
    lit "unsupported statement"]

def unexpectedText (ch : UInt8) : CString :=
  lit "unexpected character '" ++ CString.ofBuffer [ch] ++ lit "'"

/-- The errors of `parse_sql_script`. -/
def ParseError.Known : ParseError → Prop
  | located text _ _ => text ∈ locatedTexts ∨ ∃ ch, text = unexpectedText ch
  | unterminatedComment => True
  | comparisonOperator => True

theorem hint_locatedTexts : ∀ text ∈ locatedTexts, ∀ line ∈ [lit " at line ", lit " at line -"],
    (text ++ line).bytes.length < sqlErrorSize - 1 ∧ errorHint (text ++ line) = .grammar := by
  simp only [errorHint_eq]
  decide +kernel

theorem isPositionByte_digit : ∀ c : UInt8, isdigit c = true →
    isPositionByte (tolower c).toNat = true ∧ isSeparator (tolower c).toNat = true := by decide +kernel

theorem isPositionByte_intBytes (n : ℤ) : ∀ c ∈ intBytes n, isPositionByte (tolower c).toNat = true := by
  intro c hc
  rcases intBytes_digits n c hc with rfl | hdigit
  · decide
  · exact (isPositionByte_digit c hdigit).1

/-- What is behind the first bytes of a position. -/
theorem silent_column {front : Bytes} (hfront : ∀ c ∈ front, isPositionByte (tolower c).toNat = true)
    (column : ℕ) : Silent (front ++ (lit ", column " ++ positionText column).bytes) := by
  have hlit : ∀ c ∈ (lit ", column ").bytes, isPositionByte (tolower c).toNat = true :=
    List.all_eq_true.mp (by decide)
  apply silent_of_position
  exact List.forall_mem_append.mpr ⟨hfront, List.forall_mem_append.mpr
    ⟨hlit, isPositionByte_intBytes _⟩⟩

theorem hint_located {text : CString} (htext : text ∈ locatedTexts) (line column : ℕ) :
    errorHint (errorBuffer (ParseError.located text line column).message) = .grammar := by
  have hlines := hint_locatedTexts text htext
  obtain ⟨d, digits, hdigits⟩ := List.exists_cons_of_ne_nil (decimalBytes_ne_nil (toCInt line).natAbs)
  have hall := decimalBytes_digits (toCInt line).natAbs
  rw [hdigits] at hall
  obtain ⟨hd, hrest⟩ := List.forall_mem_cons.mp hall
  have hsilent := silent_column (fun c hc => (isPositionByte_digit c (hrest c hc)).1) column
  -- the minus sign is no separator: it goes with what is before the digits
  have hsigned : ∀ front ∈ [lit " at line ", lit " at line -"],
      (lit " at line ").bytes ++ signBytes (toCInt line) = front.bytes →
      errorHint (errorBuffer (ParseError.located text line column).message) = .grammar := by
    intro front hmem hfront
    obtain ⟨hlength, hhint⟩ := hlines front hmem
    have hbytes : (ParseError.located text line column).message.bytes =
        (text ++ front).bytes ++ d :: (digits ++ (lit ", column " ++ positionText column).bytes) := by
      simp [ParseError.message, positionText, intBytes, ← hfront, hdigits]
    rw [errorHint_before hbytes hlength (isPositionByte_digit d hd).2 hsilent, CString.ofBuffer_of_bytes,
      hhint]
  rcases signBytes_cases (toCInt line) with hnil | hminus
  · exact hsigned (lit " at line ") (by simp) (by rw [hnil, List.append_nil])
  · exact hsigned (lit " at line -") (by simp) (by rw [hminus]; decide)

theorem hint_unexpected (ch : UInt8) (line column : ℕ) :
    errorHint (errorBuffer (ParseError.located (unexpectedText ch) line column).message) = .grammar := by
  obtain ⟨hlength, hhint⟩ := hint_fixedTexts _ (List.mem_of_getElem? (i := 4) rfl)
  have hquote : (lit "unexpected character '").bytes = (lit "unexpected character ").bytes ++ [39] := by
    decide
  have hbytes : (ParseError.located (unexpectedText ch) line column).message.bytes =
      (lit "unexpected character ").bytes ++ 39 :: ((CString.ofBuffer [ch]).bytes ++
        39 :: (((lit " at line ").bytes ++ intBytes (toCInt line)) ++
          (lit ", column " ++ positionText column).bytes)) := by
    simp [ParseError.message, unexpectedText, hquote, positionText, show (lit "'").bytes = [39] by decide]
  have hline : ∀ c ∈ (lit " at line ").bytes ++ intBytes (toCInt line),
      isPositionByte (tolower c).toNat = true := by
    exact List.forall_mem_append.mpr ⟨List.all_eq_true.mp (by decide), isPositionByte_intBytes _⟩
  have hcharacter : Silent (CString.ofBuffer [ch]).bytes :=
    silent_of_length (CString.length_ofBuffer_le [ch])
  have hsilent := hcharacter.join (silent_column hline column)
    (show isSeparator (tolower 39).toNat = true by decide)
  rw [errorHint_before hbytes hlength (by decide) hsilent, CString.ofBuffer_of_bytes]
  exact hhint

theorem hint_fixed {text : CString} {hint : Hint} (h : (text, hint) ∈ fixedTexts) :
    errorHint (errorBuffer text) = hint := by
  obtain ⟨hlength, hhint⟩ := hint_fixedTexts _ h
  rw [errorBuffer_of_short (hlength.trans_le (Nat.sub_le _ _)), hhint]

theorem ParseError.hint_message {e : ParseError} (h : e.Known) :
    errorHint (errorBuffer e.message) = e.hint := by
  cases e with
  | located text line column =>
    rcases h with htext | ⟨ch, rfl⟩
    · exact hint_located htext line column
    · exact hint_unexpected ch line column
  | unterminatedComment => exact hint_fixed (List.mem_of_getElem? (i := 5) rfl)
  | comparisonOperator => exact hint_fixed (List.mem_of_getElem? (i := 6) rfl)

/-! ### Errors of the reading -/

theorem ReadFault.hint_message (fault : ReadFault) {path : CString} (h : Silent path.bytes) :
    errorHint (errorBuffer (fault.message path)) = fault.hint := by
  cases fault with
  | seek => exact hint_named (List.mem_of_getElem? (i := 9) rfl) (by decide) h
  | size => exact hint_named (List.mem_of_getElem? (i := 10) rfl) (by decide) h
  | rewind => exact hint_named (List.mem_of_getElem? (i := 11) rfl) (by decide) h
  | memory => exact hint_named (List.mem_of_getElem? (i := 12) rfl) (by decide) h
  | short => exact hint_named (List.mem_of_getElem? (i := 13) rfl) (by decide) h

/-! ### Errors of the command line -/

/-- The errors of `parse_cli_options` other than an unknown option. -/
def cliErrors : List CliError :=
  [.missingValue (lit "--db"), .missingValue (lit "-d"), .missingValue (lit "--file"),
    .missingValue (lit "-f"), .databaseTwice, .fileTwice, .tooManyPositionals, .mixedDatabase, .mixedFile,
    .missingDatabase, .interactiveFile]

theorem hint_cliErrors : ∀ e ∈ cliErrors,
    e.message.bytes.length < sqlErrorSize ∧ errorHint e.message = e.hint := by
  simp only [errorHint_eq]
  decide +kernel

/-- The pattern for an unknown option is the first one, and the text starts with it. -/
theorem hint_unknownOption (arg : CString) :
    errorHint (errorBuffer (CliError.unknownOption arg).message) = .unknownOption := by
  have hfront : (lit "unknown option: ").bytes = (lit "unknown option").bytes ++ [58, 32] := by
    decide
  have hlength : (lit "unknown option").bytes.length = 14 := by decide
  have hshort : (lit "unknown option").bytes.length ≤ sqlErrorSize - 1 := by
    rw [hlength]
    decide
  have hbytes : (errorBuffer (CliError.unknownOption arg).message).bytes =
      (lit "unknown option").bytes ++ ([58, 32] ++ arg.bytes).take (sqlErrorSize - 1 - 14) := by
    have htake : (CliError.unknownOption arg).message.bytes.take (sqlErrorSize - 1) =
        (lit "unknown option").bytes ++ ([58, 32] ++ arg.bytes).take (sqlErrorSize - 1 - 14) := by
      rw [CliError.message, CString.append_bytes, hfront, List.append_assoc, List.take_append,
        List.take_of_length_le hshort, hlength]
    rw [errorBuffer, htake]
    refine CString.ofBuffer_bytes fun hmem => ?_
    rw [← htake] at hmem
    exact (CliError.unknownOption arg).message.nul_free (List.mem_of_mem_take hmem)
  have hfirst : containsTextCi (errorBuffer (CliError.unknownOption arg).message) (lit "unknown option") =
      true := by
    rw [containsTextCi_iff (by simp [patterns, hintTable]), Occurs, hbytes, folded, folded, List.map_append]
    exact (List.prefix_append _ _).isInfix
  rw [errorHint, hintTable, firstHint, if_pos (by rw [List.any_cons, hfirst]; rfl)]

end MiniSql
