import MiniSql.Printing
import MiniSql.Library.CBuffer

/-!
# The buffers of table paths

`build_table_paths` measures its two paths, allocates a block for each and prints the paths into the blocks
with `snprintf`, whose result it does not look at.

* `buildTablePathBuffers` is the function with its blocks; `pathSize_eq` and `pathSize_lt` say that the sizes
  it asks for are those of the paths with their zeros and do not wrap around.
* `ParserName`: a name that `parse_qualified_name` fills in.  Its parts are identifiers
  (`ParserName.parsed`), and every identifier that is no keyword can be one (`IsQualifiedName.parserName`).
* `buildTablePathBuffers_eq`: paths that the result of `snprintf` can count fill their blocks exactly.
* `tablePaths_injective`: whatever a failing `snprintf` has stored, two names of the parser are told apart by
  their paths, exactly if the paths have at most `INT_MAX` bytes.
* `tablePaths_collide`: two tables of one schema with a name of nearly 2 GiB share all their paths.
-/

namespace MiniSql

open CBuffer (snprintf stored snprintf_exact snprintf_stored)

/-! ### The function with its buffers -/

/-- One call of `malloc`: a block of the size asked for, with any bytes in it, or `NULL`. -/
def Malloc := (size : ℕ) → Option {block : Bytes // block.length = size}

inductive PathError where
  | tableNameEmpty
  | outOfMemory
  deriving DecidableEq

def PathError.message : PathError → CString
  | tableNameEmpty => lit "table name is empty"
  | outOfMemory => lit "out of memory while building file paths"

/-- The schema of a name that has one: neither `NULL` nor empty. -/
def schemaPart (name : QualifiedName) : Option CString :=
  name.schema.filter fun schema => decide (schema.bytes ≠ [])

/-- `schema_length` and `data_length`, by the suffix.  The sums are those of `size_t` (`pathSize_lt`). -/
def pathSize (dbRoot : CString) (name : QualifiedName) (suffix : CString) : ℕ :=
  match schemaPart name with
  | some schema => dbRoot.length + schema.length + name.table.length + suffix.length + 3
  | none => dbRoot.length + name.table.length + suffix.length + 2

/-- What `"%s/%s/%s"` or `"%s/%s"` with the suffix behind it formats. -/
def pathText (dbRoot : CString) (name : QualifiedName) (suffix : CString) : CString :=
  match schemaPart name with
  | some schema => dbRoot ++ lit "/" ++ schema ++ lit "/" ++ name.table ++ suffix
  | none => dbRoot ++ lit "/" ++ name.table ++ suffix

/-- `build_table_paths`: its error, or the blocks at `*schema_path` and `*data_path`.  `none` would be a
write outside a block; `kept` is what a failing `snprintf` stores of a text. -/
def buildTablePathBuffers (kept : Bytes → ℕ) (schemaCall dataCall : Malloc) (dbRoot : CString)
    (name : QualifiedName) : Option (Except PathError (Bytes × Bytes)) :=
  if name.table.bytes = [] then some (.error .tableNameEmpty)
  else
    let schemaLength := pathSize dbRoot name (lit ".schema")
    let dataLength := pathSize dbRoot name (lit ".data")
    let schemaText := (pathText dbRoot name (lit ".schema")).bytes
    let dataText := (pathText dbRoot name (lit ".data")).bytes
    match schemaCall schemaLength, dataCall dataLength with
    | some schemaBlock, some dataBlock => do
        let schemaPath ← snprintf intMax kept schemaBlock.1 schemaLength schemaText
        let dataPath ← snprintf intMax kept dataBlock.1 dataLength dataText
        some (.ok (schemaPath, dataPath))
    | _, _ => some (.error .outOfMemory)

/-- `paths` are the texts in the blocks of a call that gets its memory. -/
def ReturnsPaths (kept : Bytes → ℕ) (dbRoot : CString) (name : QualifiedName)
    (paths : CString × CString) : Prop :=
  ∃ schemaCall dataCall blocks,
    buildTablePathBuffers kept schemaCall dataCall dbRoot name = some (.ok blocks) ∧
      paths = (CString.ofBuffer blocks.1, CString.ofBuffer blocks.2)

/-! ### Sizes -/

/-- The block has room for the path and its zero. -/
theorem pathSize_eq (dbRoot : CString) (name : QualifiedName) (suffix : CString) :
    pathSize dbRoot name suffix = (pathText dbRoot name suffix).length + 1 := by
  have hslash : (lit "/").bytes.length = 1 := by decide
  rw [pathSize, pathText]
  split <;>
    simp only [CString.length, CString.append_bytes, List.length_append, hslash] <;>
    omega

/-- The strings that a call reads lie beside each other in an address space of `2 ^ bits` bytes, together
with the format string of the call. -/
def InAddressSpace (bits : ℕ) (dbRoot : CString) (name : QualifiedName) : Prop :=
  match schemaPart name with
  | some schema => dbRoot.length + 1 + (schema.length + 1) + (name.table.length + 1) +
      ((lit "%s/%s/%s.schema").length + 1) ≤ 2 ^ bits
  | none => dbRoot.length + 1 + (name.table.length + 1) + ((lit "%s/%s.schema").length + 1) ≤ 2 ^ bits

/-- A `size_t` of as many bits as an address holds both sizes. -/
theorem pathSize_lt {bits : ℕ} {dbRoot : CString} {name : QualifiedName}
    (h : InAddressSpace bits dbRoot name) :
    pathSize dbRoot name (lit ".schema") < 2 ^ bits ∧ pathSize dbRoot name (lit ".data") < 2 ^ bits := by
  have hschema : (lit ".schema").length = 7 := by decide
  have hdata : (lit ".data").length = 5 := by decide
  have hlong : (lit "%s/%s/%s.schema").length = 15 := by decide
  have hshort : (lit "%s/%s.schema").length = 12 := by decide
  rw [InAddressSpace] at h
  rw [pathSize, pathSize, hschema, hdata]
  split at h
  · rw [hlong] at h
    constructor <;> omega
  · rw [hshort] at h
    constructor <;> omega

/-- The paths are those that the tables are loaded with. -/
theorem buildTablePaths_eq {name : QualifiedName} (h : name.table.bytes ≠ []) (dbRoot : CString) :
    buildTablePaths dbRoot name =
      .ok (pathText dbRoot name (lit ".schema"), pathText dbRoot name (lit ".data")) := by
  rw [buildTablePaths, if_neg h, pathText, pathText, schemaPart]
  cases hschema : name.schema with
  | none => rfl
  | some schema =>
    dsimp only
    by_cases hempty : schema.bytes = []
    · rw [if_pos hempty, Option.filter_some_neg (by simpa using hempty)]
    · rw [if_neg hempty, Option.filter_some_pos (by simpa using hempty)]

/-- The result of `snprintf` can count both paths; the schema path is the longer one. -/
def PathsFit (dbRoot : CString) (name : QualifiedName) : Prop :=
  (pathText dbRoot name (lit ".schema")).length ≤ intMax

theorem pathText_length_le (dbRoot : CString) (name : QualifiedName) :
    (pathText dbRoot name (lit ".data")).length ≤ (pathText dbRoot name (lit ".schema")).length := by
  have hschema : (lit ".schema").bytes.length = 7 := by decide
  have hdata : (lit ".data").bytes.length = 5 := by decide
  rw [pathText, pathText]
  split <;>
    simp only [CString.length, CString.append_bytes, List.length_append, hschema, hdata] <;>
    omega

/-- Both blocks are asked for in the size of their path with its zero, and hold nothing else. -/
theorem buildTablePathBuffers_eq {dbRoot : CString} {name : QualifiedName} (hname : name.table.bytes ≠ [])
    (hfits : PathsFit dbRoot name) (kept : Bytes → ℕ) (schemaCall dataCall : Malloc) :
    buildTablePathBuffers kept schemaCall dataCall dbRoot name =
      if (schemaCall ((pathText dbRoot name (lit ".schema")).length + 1)).isSome ∧
          (dataCall ((pathText dbRoot name (lit ".data")).length + 1)).isSome then
        some (.ok ((pathText dbRoot name (lit ".schema")).bytes ++ [0],
          (pathText dbRoot name (lit ".data")).bytes ++ [0]))
      else some (.error .outOfMemory) := by
  rw [buildTablePathBuffers, if_neg hname]
  dsimp only
  rw [pathSize_eq, pathSize_eq]
  cases schemaCall ((pathText dbRoot name (lit ".schema")).length + 1) with
  | none => rfl
  | some schemaBlock =>
    cases dataCall ((pathText dbRoot name (lit ".data")).length + 1) with
    | none => rfl
    | some dataBlock =>
      have hschema := snprintf_exact kept hfits schemaBlock.2
      have hdata := snprintf_exact kept ((pathText_length_le dbRoot name).trans hfits) dataBlock.2
      dsimp only [CString.length] at hschema hdata ⊢
      rw [hschema, hdata]
      rfl

/-- A text is read up to the zero behind it. -/
theorem ofBuffer_terminated (s : CString) (tail : Bytes) : CString.ofBuffer (s.bytes ++ 0 :: tail) = s :=
  CString.ext (CBuffer.Holds.takeWhile ⟨s.nul_free, tail, rfl⟩)

/-- What is read from the blocks of paths that fit are the paths. -/
theorem ReturnsPaths.eq {kept : Bytes → ℕ} {dbRoot : CString} {name : QualifiedName}
    {paths : CString × CString} (h : ReturnsPaths kept dbRoot name paths) (hname : name.table.bytes ≠ [])
    (hfits : PathsFit dbRoot name) : buildTablePaths dbRoot name = .ok paths := by
  obtain ⟨schemaCall, dataCall, blocks, hblocks, rfl⟩ := h
  rw [buildTablePathBuffers_eq hname hfits] at hblocks
  split at hblocks
  · obtain rfl := Except.ok.inj (Option.some.inj hblocks)
    rw [buildTablePaths_eq hname, ofBuffer_terminated, ofBuffer_terminated]
  · cases Option.some.inj hblocks

/-! ### The names of the parser -/

/-- A name that `parse_qualified_name` fills in at some token of some source text. -/
def ParserName (name : QualifiedName) : Prop :=
  ∃ source front tokens rest, tokenizeSql source = .ok (front ++ tokens) ∧
    parseQualifiedName tokens = .ok (name, rest)

/-- A word that is not a keyword starts with a letter or `_` and goes on with letters, digits and `_`. -/
theorem LexRound.identifier {bytes : Bytes} {next : Option UInt8} {text : CString}
    (h : LexRound bytes next (some (.identifier, text))) : IsIdentifier text := by
  generalize hshape : some (TokenType.identifier, text) = shape at h
  cases h with
  | blank _ => cases hshape
  | lineComment _ _ => cases hshape
  | blockComment _ => cases hshape
  | @word ch tail _ hch htail _ =>
    obtain ⟨-, rfl⟩ := Prod.mk.inj (Option.some.inj hshape)
    have hall : ∀ c ∈ ch :: tail, isIdentifierByte c = true :=
      List.forall_mem_cons.mpr ⟨(wordStart_cases hch).1, htail⟩
    have hzero : (0 : UInt8) ∉ ch :: tail := fun hmem => absurd (hall 0 hmem) (by decide)
    constructor
    · rw [CString.ofBuffer_bytes hzero]
      exact ⟨ch, rfl, hch⟩
    · rw [CString.ofBuffer_bytes hzero]
      exact hall
  | number _ _ _ => cases hshape
  | string _ => cases hshape
  | symbol hsymbol =>
    obtain ⟨rfl, -⟩ := Prod.mk.inj (Option.some.inj hshape)
    have hmem : TokenType.identifier ∈ symbolTypes.map Prod.fst :=
      List.mem_map_of_mem (symbolType_mem hsymbol)
    exact absurd hmem (by decide)

theorem tokenizeSql_identifier {source : CString} {tokens : List Token}
    (h : tokenizeSql source = .ok tokens) {t : Token} (ht : t ∈ tokens) (htype : t.type = .identifier) :
    IsIdentifier t.lexeme := by
  obtain ⟨pieces, hpieces, rfl⟩ := (tokenizeFrom_iff (Nat.lt_succ_self _)).mp h
  rcases mem_tokensAt ht with hend | ⟨p, hp, hshape⟩
  · rw [htype] at hend
    cases hend
  · obtain ⟨next, hround⟩ := hpieces.round hp
    rw [hshape, htype] at hround
    exact hround.identifier

theorem ParserName.parsed {name : QualifiedName} (h : ParserName name) : ParsedName name := by
  obtain ⟨source, front, tokens, rest, htokens, hname⟩ := h
  obtain ⟨phrase, rfl, hphrase⟩ := parseQualifiedName_recognizes.sound hname
  have hidentifier : ∀ t ∈ phrase, t.type = .identifier → IsIdentifier t.lexeme := by
    intro t ht htype
    refine tokenizeSql_identifier htokens ?_ htype
    exact List.mem_append_right front (List.mem_append_left rest ht)
  cases hphrase with
  | table htype =>
    exact ⟨fun _ hschema => (by cases hschema), hidentifier _ List.mem_cons_self htype⟩
  | qualified hschema _ htype =>
    refine ⟨fun schema hmem => ?_, hidentifier _ (by simp) htype⟩
    obtain rfl := Option.some.inj hmem
    exact hidentifier _ List.mem_cons_self hschema

/-- Every identifier that is no keyword can be written down where a name is expected. -/
theorem IsQualifiedName.parserName {name : QualifiedName} (h : IsQualifiedName name) : ParserName name := by
  have hgap : Separator [10] := .blank (by decide)
  have hprinted : ∃ source, Printed none (nameItems name) source ∧ (0 : UInt8) ∉ source := by
    cases hschema : name.schema with
    | none =>
      refine ⟨name.table.bytes ++ [], ?_, by simpa using name.table.nul_free⟩
      rw [nameItems, hschema]
      exact .tight (fun p hp => by cases hp) (.name _) (.done .nil)
    | some schema =>
      refine ⟨schema.bytes ++ ([10] ++ ([46] ++ ([10] ++ (name.table.bytes ++ [])))), ?_, ?_⟩
      · rw [nameItems, hschema]
        exact .tight (fun p hp => by cases hp) (.name _) (.spaced hgap (.symbol rfl)
          (.spaced hgap (.name _) (.done .nil)))
      · simp [schema.nul_free, name.table.nul_free]
  obtain ⟨source, hsource, hzero⟩ := hprinted
  have hproper := Proper.of_plain (nameItems_plain h)
  obtain ⟨tokens, last, hscan, hmatches⟩ :=
    scan_printed hsource hproper.wellFormed hproper.chain ⟨1, 1⟩
  have htokens : tokenizeSql ⟨source, hzero⟩ = .ok ([] ++ (tokens ++ [last])) := by
    rw [tokenizeSql, skipByteOrderMark_ascii (hsource.ascii hproper.wellFormed)]
    exact hscan
  obtain ⟨body, last', hbody, hend, -⟩ := tokenizeSql_end htokens
  obtain ⟨-, rfl⟩ := List.concat_inj.mp (by simpa using hbody)
  have hfollow : (peek [last]).type ≠ .dot := by
    show last.type ≠ .dot
    rw [hend]
    decide
  exact ⟨_, [], _, [last], htokens,
    parseQualifiedName_recognizes.complete (nameItems_grammar hmatches) hfollow⟩

/-! ### Names and their paths -/

/-- The paths of two names below one `db_root`. -/
theorem ParsedName.paths {dbRoot : CString} {name name' : QualifiedName} (hname : ParsedName name)
    (hname' : ParsedName name') {paths paths' : CString × CString}
    (h : buildTablePaths dbRoot name = .ok paths) (h' : buildTablePaths dbRoot name' = .ok paths') :
    (paths.1 = paths'.1 ↔ name = name') ∧ (paths.2 = paths'.2 ↔ name = name') ∧
      paths.2 ≠ paths'.1 := by
  have hsame : name = name' → paths = paths' := by
    rintro rfl
    exact Except.ok.inj (h.symm.trans h')
  obtain ⟨base, hbase, hpaths⟩ := buildTablePaths_parsed dbRoot hname
  obtain ⟨base', hbase', hpaths'⟩ := buildTablePaths_parsed dbRoot hname'
  obtain rfl := Except.ok.inj (h.symm.trans hpaths)
  obtain rfl := Except.ok.inj (h'.symm.trans hpaths')
  -- a common suffix and a common root leave the relative paths
  have hinjective : ∀ suffix : CString, base ++ suffix = base' ++ suffix → name = name' := by
    intro suffix heq
    have hbytes := congrArg CString.bytes heq
    rw [CString.append_bytes, CString.append_bytes] at hbytes
    have hfront := List.append_cancel_right hbytes
    rw [hbase, hbase'] at hfront
    exact relativePath_injective hname hname' (List.cons.inj (List.append_cancel_left hfront)).2
  refine ⟨⟨hinjective _, fun heq => congrArg Prod.fst (hsame heq)⟩,
    ⟨hinjective _, fun heq => congrArg Prod.snd (hsame heq)⟩, ?_⟩
  exact append_ne_of_suffix 2 (by decide) (by decide) (by decide) base base'

/-- The two blocks of a call are exactly large enough: whenever there is memory for them they hold the paths
with their zeros and nothing else, and no `size_t` sum on the way to their sizes wraps around. -/
structure ExactBuffers (kept : Bytes → ℕ) (dbRoot : CString) (name : QualifiedName) : Prop where
  filled : ∀ schemaCall dataCall : Malloc, buildTablePathBuffers kept schemaCall dataCall dbRoot name =
    if (schemaCall ((pathText dbRoot name (lit ".schema")).length + 1)).isSome ∧
        (dataCall ((pathText dbRoot name (lit ".data")).length + 1)).isSome then
      some (.ok ((pathText dbRoot name (lit ".schema")).bytes ++ [0],
        (pathText dbRoot name (lit ".data")).bytes ++ [0]))
    else some (.error .outOfMemory)
  sizes : ∀ bits, InAddressSpace bits dbRoot name →
    pathSize dbRoot name (lit ".schema") < 2 ^ bits ∧ pathSize dbRoot name (lit ".data") < 2 ^ bits

/-- Two names have the same schema path, and the same data path, exactly if they are the same name; no data
path is a schema path; and all blocks are exactly large enough. -/
structure PathsTellApart (kept : Bytes → ℕ) (dbRoot : CString) (name name' : QualifiedName) : Prop where
  schema : ∀ paths paths', ReturnsPaths kept dbRoot name paths → ReturnsPaths kept dbRoot name' paths' →
    (paths.1 = paths'.1 ↔ name = name')
  data : ∀ paths paths', ReturnsPaths kept dbRoot name paths → ReturnsPaths kept dbRoot name' paths' →
    (paths.2 = paths'.2 ↔ name = name')
  apart : ∀ paths paths', ReturnsPaths kept dbRoot name paths → ReturnsPaths kept dbRoot name' paths' →
    paths.2 ≠ paths'.1
  exact : ExactBuffers kept dbRoot name
  exact' : ExactBuffers kept dbRoot name'

/-- Memory is always there. -/
def zeroedMalloc : Malloc := fun size => some ⟨List.replicate size 0, List.length_replicate⟩

/-- What the blocks hold when there is memory for them. -/
theorem buildTablePathBuffers_stored (kept : Bytes → ℕ) (dbRoot : CString) {name : QualifiedName}
    (hname : name.table.bytes ≠ []) :
    ∃ tail tail', buildTablePathBuffers kept zeroedMalloc zeroedMalloc dbRoot name =
      some (.ok (stored intMax kept (pathText dbRoot name (lit ".schema")).bytes ++ 0 :: tail,
        stored intMax kept (pathText dbRoot name (lit ".data")).bytes ++ 0 :: tail')) := by
  have hblock : ∀ text : Bytes, (List.replicate (text.length + 1) (0 : UInt8)).length = text.length + 1 :=
    fun _ => List.length_replicate
  rw [buildTablePathBuffers, if_neg hname]
  dsimp only [zeroedMalloc]
  rw [pathSize_eq, pathSize_eq, CString.length, CString.length, snprintf_stored (hblock _),
    Option.bind_eq_bind, Option.bind_some, snprintf_stored (hblock _)]
  exact ⟨_, _, rfl⟩

/-- A library that has stored nothing when it fails leaves an empty path. -/
theorem ExactBuffers.fits {dbRoot : CString} {name : QualifiedName} (hname : name.table.bytes ≠ [])
    (h : ExactBuffers (fun _ => 0) dbRoot name) : PathsFit dbRoot name := by
  by_contra hlong
  obtain ⟨tail, tail', hblocks⟩ := buildTablePathBuffers_stored (fun _ => 0) dbRoot hname
  have hstored : stored intMax (fun _ => 0) (pathText dbRoot name (lit ".schema")).bytes = [] :=
    if_neg hlong
  rw [h.filled zeroedMalloc zeroedMalloc, if_pos ⟨rfl, rfl⟩, hstored] at hblocks
  obtain ⟨hschema, -⟩ := Prod.mk.inj (Except.ok.inj (Option.some.inj hblocks))
  cases hbytes : (pathText dbRoot name (lit ".schema")).bytes with
  | nil =>
    apply hlong
    rw [PathsFit, CString.length, hbytes]
    exact Nat.zero_le _
  | cons b text =>
    rw [hbytes] at hschema
    obtain rfl := (List.cons.inj hschema).1
    apply (pathText dbRoot name (lit ".schema")).nul_free
    rw [hbytes]
    exact List.mem_cons_self

/-- Below one `db_root`, two names of the parser have the same schema path, and the same data path, exactly if
they are the same name; no data path is a schema path; and the blocks of all four paths are exactly large
enough: this holds whatever a failing `snprintf` has stored, exactly if the paths have at most `INT_MAX`
bytes. -/
theorem tablePaths_injective (dbRoot : CString) {name name' : QualifiedName} (hname : ParserName name)
    (hname' : ParserName name') :
    (∀ kept, PathsTellApart kept dbRoot name name') ↔ PathsFit dbRoot name ∧ PathsFit dbRoot name' := by
  have htable := hname.parsed.table.ne_nil
  have htable' := hname'.parsed.table.ne_nil
  constructor
  · intro h
    exact ⟨(h fun _ => 0).exact.fits htable, (h fun _ => 0).exact'.fits htable'⟩
  · rintro ⟨hfits, hfits'⟩ kept
    constructor
    · intro paths paths' h h'
      exact (hname.parsed.paths hname'.parsed (h.eq htable hfits) (h'.eq htable' hfits')).1
    · intro paths paths' h h'
      exact (hname.parsed.paths hname'.parsed (h.eq htable hfits) (h'.eq htable' hfits')).2.1
    · intro paths paths' h h'
      exact (hname.parsed.paths hname'.parsed (h.eq htable hfits) (h'.eq htable' hfits')).2.2
    · exact ⟨buildTablePathBuffers_eq htable hfits kept, fun _ => pathSize_lt⟩
    · exact ⟨buildTablePathBuffers_eq htable' hfits' kept, fun _ => pathSize_lt⟩

/-- A table `t` in the schema `shop`, and a table `shop`. -/
theorem tablePaths_injective_shop :
    (∀ kept, PathsTellApart kept (lit "db") ⟨some (lit "shop"), lit "t"⟩ ⟨none, lit "shop"⟩) ↔
      PathsFit (lit "db") ⟨some (lit "shop"), lit "t"⟩ ∧ PathsFit (lit "db") ⟨none, lit "shop"⟩ := by
  have hname : ParserName ⟨some (lit "shop"), lit "t"⟩ :=
    ⟨lit "SELECT * FROM shop.t",
      [⟨.select, lit "SELECT", 1, 1⟩, ⟨.star, lit "*", 1, 8⟩, ⟨.from_, lit "FROM", 1, 10⟩],
      [⟨.identifier, lit "shop", 1, 15⟩, ⟨.dot, lit ".", 1, 19⟩, ⟨.identifier, lit "t", 1, 20⟩,
        ⟨.end_, CString.empty, 1, 21⟩],
      [⟨.end_, CString.empty, 1, 21⟩], by decide +kernel, by decide +kernel⟩
  have hname' : ParserName ⟨none, lit "shop"⟩ :=
    ⟨lit "shop", [], [⟨.identifier, lit "shop", 1, 1⟩, ⟨.end_, CString.empty, 1, 5⟩],
      [⟨.end_, CString.empty, 1, 5⟩], by decide +kernel, by decide +kernel⟩
  exact tablePaths_injective (lit "db") hname hname'

/-! ### A schema with a long name -/

/-- A schema whose name has the letter `s` `n` times. -/
def longSchema (n : ℕ) (table : CString) : QualifiedName :=
  ⟨some ⟨List.replicate n 115, by simp⟩, table⟩

theorem longSchema_parserName {n : ℕ} (hn : 6 < n) {table : CString} (htable : IsName table) :
    ParserName (longSchema n table) := by
  apply IsQualifiedName.parserName
  refine ⟨fun schema hschema => ?_, htable⟩
  obtain rfl := Option.some.inj hschema
  refine ⟨⟨?_, ?_⟩, ?_⟩
  · obtain ⟨m, rfl⟩ := Nat.exists_eq_succ_of_ne_zero (show n ≠ 0 by omega)
    exact ⟨115, by simp [List.replicate_succ], by decide⟩
  · intro c hc
    obtain rfl := List.eq_of_mem_replicate hc
    decide
  · intro k hk heq
    have hlength := congrArg List.length heq
    rw [List.length_map, List.length_map, List.length_replicate] at hlength
    have hshort : ∀ k ∈ keywords, k.1.bytes.length ≤ 6 := by decide +kernel
    have := hshort k hk
    omega

/-- What is left of the paths of a table in such a schema. -/
def cutPath (n : ℕ) : CString := lit "db/" ++ ⟨List.replicate n 115, by simp⟩

theorem longSchema_pathText {n : ℕ} (hn : n ≠ 0) (table suffix : CString) :
    (pathText (lit "db") (longSchema n table) suffix).bytes =
      (cutPath n).bytes ++ ((lit "/").bytes ++ (table.bytes ++ suffix.bytes)) := by
  have hroot : (lit "db/").bytes = (lit "db").bytes ++ (lit "/").bytes := by decide +kernel
  have hpart : schemaPart (longSchema n table) = (longSchema n table).schema :=
    Option.filter_some_pos (by simp [hn])
  rw [pathText, hpart, longSchema]
  simp only [CString.append_bytes, cutPath, hroot, List.append_assoc]

/-- A call that stores the name of the schema, then counts too many bytes and fails: nothing that tells the
table or the file apart is in the blocks. -/
theorem longSchema_returns {n : ℕ} (hn : n ≠ 0) (hlong : intMax < n + 3) {table : CString}
    (htable : table.bytes ≠ []) :
    ReturnsPaths (fun _ => n + 3) (lit "db") (longSchema n table) (cutPath n, cutPath n) := by
  have hlength : (cutPath n).bytes.length = n + 3 := by
    rw [cutPath, CString.append_bytes, List.length_append, List.length_replicate, Nat.add_comm]
    rfl
  have hstored : ∀ suffix : CString, stored intMax (fun _ => n + 3)
      (pathText (lit "db") (longSchema n table) suffix).bytes = (cutPath n).bytes := by
    intro suffix
    rw [longSchema_pathText hn, stored, if_neg, ← hlength, List.take_left]
    rw [List.length_append, hlength]
    omega
  obtain ⟨tail, tail', hblocks⟩ :=
    @buildTablePathBuffers_stored (fun _ => n + 3) (lit "db") (longSchema n table) htable
  rw [hstored, hstored] at hblocks
  refine ⟨zeroedMalloc, zeroedMalloc, _, hblocks, ?_⟩
  dsimp only
  rw [ofBuffer_terminated, ofBuffer_terminated]

/-- Two tables of a schema whose name has `2 ^ 31 - 3` letters, below `db`.  A library that fails behind the
name of the schema leaves one path for both, and for both kinds of files. -/
theorem tablePaths_collide :
    ParserName (longSchema (2 ^ 31 - 3) (lit "t")) ∧ ParserName (longSchema (2 ^ 31 - 3) (lit "u")) ∧
      longSchema (2 ^ 31 - 3) (lit "t") ≠ longSchema (2 ^ 31 - 3) (lit "u") ∧
      ∃ kept path, ReturnsPaths kept (lit "db") (longSchema (2 ^ 31 - 3) (lit "t")) (path, path) ∧
        ReturnsPaths kept (lit "db") (longSchema (2 ^ 31 - 3) (lit "u")) (path, path) ∧
        ¬PathsTellApart kept (lit "db") (longSchema (2 ^ 31 - 3) (lit "t"))
          (longSchema (2 ^ 31 - 3) (lit "u")) := by
  generalize hn : 2 ^ 31 - 3 = n
  have hletters : ∀ table ∈ [lit "t", lit "u"], IsName table := by
    intro table htable
    refine ⟨⟨?_, ?_⟩, ?_⟩
    · revert table
      decide +kernel
    · revert table
      decide +kernel
    · revert table
      decide +kernel
  have hne : longSchema n (lit "t") ≠ longSchema n (lit "u") := by
    intro heq
    have htables : lit "t" = lit "u" := congrArg QualifiedName.table heq
    revert htables
    decide +kernel
  have hlong : intMax < n + 3 := by
    rw [intMax]
    omega
  have ht := longSchema_returns (by omega) hlong (show (lit "t").bytes ≠ [] by decide)
  have hu := longSchema_returns (by omega) hlong (show (lit "u").bytes ≠ [] by decide)
  refine ⟨longSchema_parserName (by omega) (hletters _ (by simp)),
    longSchema_parserName (by omega) (hletters _ (by simp)), hne, fun _ => n + 3, cutPath n, ht, hu, ?_⟩
  intro h
  exact hne ((h.data _ _ ht hu).mp rfl)

end MiniSql
