import MiniSql.RowFormat

/-!
# Text rows and their migration

The text format of the older version, and the functions that read it.  The codes below are `\n` 10, `\r` 13,
`\\` 92, `n` 110, `r` 114 and `|` 124.

* `splitPipeLine`, `readTextLine`, `migrateTextDataToBinary` and `fileLooksBinary` are the functions of
  `storage.c` under their names.
* `textRows text` are the rows the migration finds in a file, whatever its bytes: the lines in order, less the
  blank ones.
* `TextOf rows text` describes the text files that stand for `rows`: any line ends, blank lines anywhere, the
  characters of a field escaped (`textRow`).

Main results:

* `migrateFrom_iff`: the migration returns 0 exactly if all of `textRows text` can be written, and then its
  output is their encoding.
* `textRows_textOf`: the rows of a text that stands for `rows` are `rows`.
* `migrateTextDataToBinary_rows`: so a migration turns such a file into the binary encoding of exactly these
  rows.
* `fileLooksBinary_encodeRow`: a file that starts with an encoded row looks binary.
-/

namespace MiniSql

open Framing

/-! ### Text rows -/

/-- The character a backslash escape stands for. -/
def unescape (next : UInt8) : Option UInt8 :=
  if next = 110 then some 10
  else if next = 114 then some 13
  else if next = 124 ∨ next = 92 then some next
  else none

/-- The loop of `split_pipe_line` with the current field in `buffer`. -/
def splitPipeFrom : Bytes → Bytes → StringList
  | buffer, [] => [CString.ofBuffer buffer]
  | buffer, ch :: rest =>
      if ch = 0 ∨ ch = 10 then [CString.ofBuffer buffer]
      else if ch = 13 then splitPipeFrom buffer rest
      else if ch = 124 then CString.ofBuffer buffer :: splitPipeFrom [] rest
      else if ch = 92 then
        match rest with
        | [] => splitPipeFrom (buffer ++ [ch]) []
        | next :: rest' =>
          match unescape next with
          | some c => splitPipeFrom (buffer ++ [c]) rest'
          | none => splitPipeFrom (buffer ++ [ch]) (next :: rest')
      else splitPipeFrom (buffer ++ [ch]) rest
  termination_by structural _ line => line

/-- `split_pipe_line`: the fields up to the first newline or NUL. -/
def splitPipeLine (line : Bytes) : StringList := splitPipeFrom [] line

/-- `read_text_line`: the bytes up to and including the next newline, and the rest; an empty line is
the `NULL` at the end of the file. -/
def readTextLine : Bytes → Bytes × Bytes
  | [] => ([], [])
  | ch :: rest =>
      if ch = 10 then ([ch], rest)
      else
        let (line, rest') := readTextLine rest
        (ch :: line, rest')

/-! ### Migration -/

/-- The loop of `migrate_text_data_to_binary`: what it writes and its return code.  The fields are
written as by the row writer. -/
def migrateFrom : ℕ → Bytes → Bytes × ℤ
  | 0, _ => ([], -1)
  | fuel + 1, rest =>
      let (line, rest') := readTextLine rest
      if line = [] then ([], 0)
      else
        let values := splitPipeLine line
        if values.map CString.bytes = [[]] then migrateFrom fuel rest'
        else
          let (fields, ok) := writeFields values
          if ok then
            let (out, rc) := migrateFrom fuel rest'
            (encodeU32 values.length ++ fields ++ out, rc)
          else (encodeU32 values.length ++ fields, -1)

/-- `migrate_text_data_to_binary`.  Opening the output truncates it before the input is read. -/
def migrateTextDataToBinary (files : FileSystem) (textPath binPath : CString) : FileSystem × ℤ :=
  match files textPath with
  | none => (files, -1)
  | some _ =>
      let text := ((files.write binPath []) textPath).getD []
      let (out, rc) := migrateFrom (text.length + 1) text
      (files.write binPath out, rc)

/-! ### Format sniffing -/

/-- The field loop of `file_looks_binary`; seeking past the end succeeds. -/
def looksBinaryFields (uninit : ℕ → UInt32) : ℕ → ℕ → Bytes → Bool
  | 0, _, _ => true
  | n + 1, i, rest =>
      let (len, rest) := (readU32 rest).getD ((uninit i).toNat, [])
      if maxBinaryFieldBytes < len then false
      else looksBinaryFields uninit n (i + 1) (rest.drop len)

/-- `file_looks_binary`. -/
def fileLooksBinary (uninit : ℕ → UInt32) : Option Bytes → Bool
  | none => true
  | some content =>
      match readU32 content with
      | none => true
      | some (fieldCount, rest) =>
          if fieldCount = 0 ∨ maxBinaryFields < fieldCount then false
          else looksBinaryFields uninit fieldCount 0 rest

theorem looksBinaryFields_encode (uninit : ℕ → UInt32) {values : StringList}
    (h : ∀ value ∈ values, value.length ≤ maxBinaryFieldBytes) (i : ℕ) (rest : Bytes) :
    looksBinaryFields uninit values.length i (values.flatMap encodeField ++ rest) = true := by
  induction values generalizing i with
  | nil => rfl
  | cons value values ih =>
    have hv := h value List.mem_cons_self
    have hlt : value.length < 2 ^ 32 := by
      rw [maxBinaryFieldBytes] at hv
      omega
    have hlen : value.length = value.bytes.length := rfl
    rw [List.flatMap_cons, encodeField, List.append_assoc, List.append_assoc, List.length_cons,
      looksBinaryFields, readU32_encodeU32 hlt]
    simp only [Option.getD_some]
    rw [if_neg (by omega), hlen, List.drop_left]
    exact ih (fun v hv => h v (List.mem_cons_of_mem value hv)) (i + 1)

/-- A file that starts with an encoded row looks binary. -/
theorem fileLooksBinary_encodeRow (uninit : ℕ → UInt32) {row : StringList} (h : Readable row)
    (rest : Bytes) : fileLooksBinary uninit (some (encodeRow row ++ rest)) = true := by
  have h1 := h.count_pos
  have h2 := h.count_le
  have hlt : row.length < 2 ^ 32 := by
    rw [maxBinaryFields] at h2
    omega
  rw [encodeRow, List.append_assoc, fileLooksBinary, readU32_encodeU32 hlt]
  dsimp only
  rw [if_neg (by omega)]
  exact looksBinaryFields_encode uninit h.field_le 0 rest

theorem fileLooksBinary_stream (uninit : ℕ → UInt32) {rows : List StringList}
    (h : ∀ row ∈ rows, Readable row) :
    fileLooksBinary uninit (some (stream encodeRow rows)) = true := by
  cases rows with
  | nil => rfl
  | cons row rows => exact fileLooksBinary_encodeRow uninit (h row List.mem_cons_self) _

theorem readFields_of_not_looksBinary (uninit : ℕ → UInt32) {n i : ℕ} {rest : Bytes}
    (h : looksBinaryFields uninit n i rest = false) :
    ∃ e, readFields uninit n i rest = .error e := by
  induction n generalizing i rest with
  | zero => simp [looksBinaryFields] at h
  | succ n ih =>
    rw [looksBinaryFields] at h
    generalize hread : (readU32 rest).getD ((uninit i).toNat, []) = r at h
    obtain ⟨len, rest'⟩ := r
    dsimp only at h
    rw [readFields_succ_error hread]
    by_cases hlarge : maxBinaryFieldBytes < len
    · exact Or.inl hlarge
    · rw [if_neg hlarge] at h
      exact Or.inr (Or.inr (ih h))

/-- What the sniffer rejects the row reader rejects too. -/
theorem binaryReadRow_of_not_looksBinary (uninit : ℕ → UInt32) {content : Bytes}
    (h : fileLooksBinary uninit (some content) = false) :
    ∃ e, binaryReadRowFromFile uninit content = .failed e := by
  rw [fileLooksBinary] at h
  cases hr : readU32 content with
  | none => rw [hr] at h; simp at h
  | some r =>
    obtain ⟨fieldCount, rest⟩ := r
    rw [hr] at h
    dsimp only at h
    rw [binaryReadRow_failed hr]
    by_cases hcount : fieldCount = 0 ∨ maxBinaryFields < fieldCount
    · exact Or.inl hcount
    · rw [if_neg hcount] at h
      exact Or.inr (readFields_of_not_looksBinary uninit h)

/-! ### The rows of any text -/

/-- The rows read in at most `fuel` lines. -/
def textRowsFrom : ℕ → Bytes → List StringList
  | 0, _ => []
  | fuel + 1, rest =>
      let (line, rest') := readTextLine rest
      if line = [] then []
      else
        let values := splitPipeLine line
        if values.map CString.bytes = [[]] then textRowsFrom fuel rest'
        else values :: textRowsFrom fuel rest'

/-- The rows of a text file; every line takes at least one byte. -/
def textRows (text : Bytes) : List StringList := textRowsFrom (text.length + 1) text

/-- What a migration of the whole text writes. -/
def migrated (text : Bytes) : Bytes := stream encodeRow (textRows text)

theorem readTextLine_append (rest : Bytes) :
    (readTextLine rest).1 ++ (readTextLine rest).2 = rest := by
  induction rest with
  | nil => rfl
  | cons c rest ih =>
    rw [readTextLine]
    by_cases hc : c = 10
    · rw [if_pos hc]
      rfl
    · rw [if_neg hc]
      exact congrArg (c :: ·) ih

theorem readTextLine_shorter {rest : Bytes} (h : (readTextLine rest).1 ≠ []) :
    (readTextLine rest).2.length < rest.length := by
  have hpos := List.length_pos_iff.mpr h
  have hlen := congrArg List.length (readTextLine_append rest)
  rw [List.length_append] at hlen
  omega

theorem migrateFrom_ok {fuel : ℕ} {rest : Bytes} (hfuel : rest.length < fuel)
    (hw : ∀ row ∈ textRowsFrom fuel rest, Writable row) :
    migrateFrom fuel rest = (stream encodeRow (textRowsFrom fuel rest), 0) := by
  induction fuel generalizing rest with
  | zero => exact absurd hfuel (Nat.not_lt_zero _)
  | succ fuel ih =>
    have hshorter := @readTextLine_shorter rest
    rw [textRowsFrom] at hw ⊢
    rw [migrateFrom]
    generalize readTextLine rest = r at hshorter hw ⊢
    obtain ⟨line, rest'⟩ := r
    dsimp only at hshorter hw ⊢
    by_cases hline : line = []
    · rw [if_pos hline, if_pos hline]
      rfl
    · have hrest' : rest'.length < fuel := by
        have := hshorter hline
        omega
      rw [if_neg hline] at hw ⊢
      rw [if_neg hline]
      by_cases hblank : (splitPipeLine line).map CString.bytes = [[]]
      · rw [if_pos hblank] at hw ⊢
        rw [if_pos hblank]
        exact ih hrest' hw
      · rw [if_neg hblank] at hw ⊢
        obtain ⟨hrow, hrows⟩ := List.forall_mem_cons.mp hw
        rw [if_neg hblank, writeFields_ok hrow, ih hrest' hrows, stream_cons]
        rfl

theorem migrateFrom_writable {fuel : ℕ} {rest : Bytes} (h : (migrateFrom fuel rest).2 = 0) :
    ∀ row ∈ textRowsFrom fuel rest, Writable row := by
  induction fuel generalizing rest with
  | zero => exact absurd (show (-1 : ℤ) = 0 from h) (by decide)
  | succ fuel ih =>
    rw [textRowsFrom]
    rw [migrateFrom] at h
    generalize readTextLine rest = r at h ⊢
    obtain ⟨line, rest'⟩ := r
    dsimp only at h ⊢
    by_cases hline : line = []
    · rw [if_pos hline]
      exact fun row hrow => absurd hrow List.not_mem_nil
    · rw [if_neg hline] at h ⊢
      by_cases hblank : (splitPipeLine line).map CString.bytes = [[]]
      · rw [if_pos hblank] at h ⊢
        exact ih h
      · rw [if_neg hblank] at h ⊢
        have hok := writeFields_snd (splitPipeLine line)
        generalize writeFields (splitPipeLine line) = w at h hok
        obtain ⟨fields, ok⟩ := w
        cases ok with
        | false => exact absurd (show (-1 : ℤ) = 0 from h) (by decide)
        | true => exact List.forall_mem_cons.mpr ⟨hok.mp rfl, ih h⟩

/-- **Migration of any text.**  It returns 0 exactly if every row can be written. -/
theorem migrateFrom_iff (text : Bytes) {out : Bytes} :
    migrateFrom (text.length + 1) text = (out, 0) ↔
      (∀ row ∈ textRows text, Writable row) ∧ out = migrated text := by
  constructor
  · intro h
    have hw := migrateFrom_writable (congrArg Prod.snd h)
    rw [migrateFrom_ok (Nat.lt_succ_self _) hw] at h
    exact ⟨hw, (congrArg Prod.fst h).symm⟩
  · rintro ⟨hw, rfl⟩
    exact migrateFrom_ok (Nat.lt_succ_self _) hw

theorem migrateFrom_rc (text : Bytes) :
    (migrateFrom (text.length + 1) text).2 = 0 ↔ ∀ row ∈ textRows text, Writable row := by
  refine ⟨migrateFrom_writable, fun hw => ?_⟩
  rw [(migrateFrom_iff text).mpr ⟨hw, rfl⟩]

/-- More fuel than lines makes no difference. -/
theorem textRowsFrom_fuel {fuel fuel' : ℕ} {rest : Bytes} (h : rest.length < fuel)
    (h' : rest.length < fuel') : textRowsFrom fuel rest = textRowsFrom fuel' rest := by
  induction fuel generalizing fuel' rest with
  | zero => exact absurd h (Nat.not_lt_zero _)
  | succ fuel ih =>
    obtain ⟨fuel', rfl⟩ : ∃ f, fuel' = f + 1 := ⟨fuel' - 1, by omega⟩
    have hshorter := @readTextLine_shorter rest
    rw [textRowsFrom, textRowsFrom]
    generalize readTextLine rest = r at hshorter ⊢
    obtain ⟨line, rest'⟩ := r
    dsimp only at hshorter ⊢
    by_cases hline : line = []
    · rw [if_pos hline, if_pos hline]
    · have hlt := hshorter hline
      rw [if_neg hline, if_neg hline, @ih fuel' rest' (by omega) (by omega)]

/-- The first line of a text that is a row. -/
theorem textRows_cons {text line rest : Bytes} (hline : readTextLine text = (line, rest))
    (hne : line ≠ []) (hrow : (splitPipeLine line).map CString.bytes ≠ [[]]) :
    textRows text = splitPipeLine line :: textRows rest := by
  have hshorter := @readTextLine_shorter text
  rw [hline] at hshorter
  rw [textRows, textRowsFrom, hline]
  dsimp only
  rw [if_neg hne, if_neg hrow, textRows,
    textRowsFrom_fuel (hshorter hne) (Nat.lt_succ_self rest.length)]

/-- The first line of a text that is blank. -/
theorem textRows_blank {text line rest : Bytes} (hline : readTextLine text = (line, rest))
    (hne : line ≠ []) (hblank : (splitPipeLine line).map CString.bytes = [[]]) :
    textRows text = textRows rest := by
  have hshorter := @readTextLine_shorter text
  rw [hline] at hshorter
  rw [textRows, textRowsFrom, hline]
  dsimp only
  rw [if_neg hne, if_pos hblank, textRows,
    textRowsFrom_fuel (hshorter hne) (Nat.lt_succ_self rest.length)]

@[simp] theorem textRows_nil : textRows [] = [] := rfl

/-! ### Escaped text -/

/-- How a character of a field is written in a text row. -/
def escapeByte (c : UInt8) : Bytes :=
  if c = 92 then [92, 92]
  else if c = 124 then [92, 124]
  else if c = 10 then [92, 110]
  else if c = 13 then [92, 114]
  else [c]

def escapeField (value : CString) : Bytes := value.bytes.flatMap escapeByte

/-- A text row without its line end. -/
def textRow (row : StringList) : Bytes := List.intercalate [124] (row.map escapeField)

inductive LineEnd where
  | lf
  | crlf
  deriving DecidableEq

def LineEnd.bytes : LineEnd → Bytes
  | .lf => [10]
  | .crlf => [13, 10]

/-- The texts with one line per row: any line end, the last one optional, blank lines anywhere. -/
inductive TextOf : List StringList → Bytes → Prop
  | nil : TextOf [] []
  | blank {rows : List StringList} {text : Bytes} (e : LineEnd) :
      TextOf rows text → TextOf rows (e.bytes ++ text)
  | row {rows : List StringList} {text : Bytes} (row : StringList) (e : LineEnd) :
      TextOf rows text → TextOf (row :: rows) (textRow row ++ (e.bytes ++ text))
  | last (row : StringList) : TextOf [row] (textRow row)

theorem splitPipeFrom_newline (buffer rest : Bytes) :
    splitPipeFrom buffer (10 :: rest) = [CString.ofBuffer buffer] := by
  conv_lhs => rw [splitPipeFrom.eq_def]
  rfl

theorem splitPipeFrom_return (buffer rest : Bytes) :
    splitPipeFrom buffer (13 :: rest) = splitPipeFrom buffer rest := by
  conv_lhs => rw [splitPipeFrom.eq_def]
  rfl

theorem splitPipeFrom_pipe (buffer rest : Bytes) :
    splitPipeFrom buffer (124 :: rest) = CString.ofBuffer buffer :: splitPipeFrom [] rest := by
  conv_lhs => rw [splitPipeFrom.eq_def]
  rfl

theorem splitPipeFrom_plain {c : UInt8} (hc : ¬(c = 0 ∨ c = 10)) (h13 : c ≠ 13) (h124 : c ≠ 124)
    (h92 : c ≠ 92) (buffer rest : Bytes) :
    splitPipeFrom buffer (c :: rest) = splitPipeFrom (buffer ++ [c]) rest := by
  conv_lhs => rw [splitPipeFrom.eq_def]
  dsimp only
  rw [if_neg hc, if_neg h13, if_neg h124, if_neg h92]

/-- Reading back one escaped character. -/
theorem splitPipeFrom_escapeByte {c : UInt8} (hc : c ≠ 0) (buffer rest : Bytes) :
    splitPipeFrom buffer (escapeByte c ++ rest) = splitPipeFrom (buffer ++ [c]) rest := by
  rw [escapeByte]
  split
  · rename_i h
    subst h
    rfl
  · rename_i h92
    split
    · rename_i h
      subst h
      rfl
    · rename_i h124
      split
      · rename_i h
        subst h
        rfl
      · rename_i h10
        split
        · rename_i h
          subst h
          rfl
        · rename_i h13
          exact splitPipeFrom_plain (by simp [hc, h10]) h13 h124 h92 buffer rest

theorem splitPipeFrom_escape {value : Bytes} (hv : (0 : UInt8) ∉ value) (buffer rest : Bytes) :
    splitPipeFrom buffer (value.flatMap escapeByte ++ rest) =
      splitPipeFrom (buffer ++ value) rest := by
  induction value generalizing buffer with
  | nil => simp
  | cons c value ih =>
    have hc : c ≠ 0 := fun h => hv (by simp [h])
    rw [List.flatMap_cons, List.append_assoc, splitPipeFrom_escapeByte hc,
      ih fun h => hv (List.mem_cons_of_mem c h), List.append_assoc]
    rfl

/-- What may follow the last field of a line: the line end, or nothing. -/
def EndsLine (rest : Bytes) : Prop := rest = [] ∨ ∃ e : LineEnd, ∃ tail, rest = e.bytes ++ tail

theorem splitPipeFrom_end {rest : Bytes} (h : EndsLine rest) (buffer : Bytes) :
    splitPipeFrom buffer rest = [CString.ofBuffer buffer] := by
  rcases h with rfl | ⟨e, tail, rfl⟩
  · rfl
  · cases e with
    | lf => exact splitPipeFrom_newline buffer tail
    | crlf => exact (splitPipeFrom_return buffer _).trans (splitPipeFrom_newline buffer tail)

theorem splitPipeLine_textRow {row : StringList} (hrow : row ≠ []) {rest : Bytes}
    (h : EndsLine rest) : splitPipeLine (textRow row ++ rest) = row := by
  induction row with
  | nil => exact absurd rfl hrow
  | cons value row ih =>
    rw [splitPipeLine, textRow, List.map_cons]
    cases row with
    | nil =>
      rw [List.map_nil, List.intercalate_singleton, escapeField,
        splitPipeFrom_escape value.nul_free, splitPipeFrom_end h]
      simp
    | cons value' row =>
      have ih' := ih (by simp)
      rw [splitPipeLine, textRow, List.map_cons] at ih'
      rw [List.map_cons, List.intercalate_cons_cons, List.append_assoc, List.append_assoc,
        escapeField, splitPipeFrom_escape value.nul_free, List.singleton_append,
        splitPipeFrom_pipe, ih']
      simp

theorem newline_notMem_escapeByte (c : UInt8) : (10 : UInt8) ∉ escapeByte c := by
  rw [escapeByte]
  split_ifs with h1 h2 h3 h4
  · decide
  · decide
  · decide
  · decide
  · simpa using Ne.symm h3

theorem newline_notMem_textRow (row : StringList) : (10 : UInt8) ∉ textRow row := by
  have hfield : ∀ value : CString, (10 : UInt8) ∉ escapeField value := by
    intro value h
    obtain ⟨c, -, hc⟩ := List.mem_flatMap.mp h
    exact newline_notMem_escapeByte c hc
  induction row with
  | nil => simp [textRow]
  | cons value row ih =>
    cases row with
    | nil => simpa [textRow] using hfield value
    | cons value' row =>
      rw [textRow, List.map_cons, List.map_cons, List.intercalate_cons_cons]
      rw [textRow, List.map_cons] at ih
      intro h
      rcases List.mem_append.mp h with h | h
      · rcases List.mem_append.mp h with h | h
        · exact hfield value h
        · exact absurd (List.mem_singleton.mp h) (by decide)
      · exact ih h

/-! ### Lines -/

theorem readTextLine_newline {line : Bytes} (h : (10 : UInt8) ∉ line) (rest : Bytes) :
    readTextLine (line ++ 10 :: rest) = (line ++ [10], rest) := by
  induction line with
  | nil => rfl
  | cons c line ih =>
    have hc : c ≠ 10 := fun heq => h (by simp [heq])
    rw [List.cons_append, readTextLine, if_neg hc, ih fun hm => h (List.mem_cons_of_mem c hm)]
    rfl

theorem readTextLine_last {line : Bytes} (h : (10 : UInt8) ∉ line) :
    readTextLine line = (line, []) := by
  induction line with
  | nil => rfl
  | cons c line ih =>
    have hc : c ≠ 10 := fun heq => h (by simp [heq])
    rw [readTextLine, if_neg hc, ih fun hm => h (List.mem_cons_of_mem c hm)]

theorem readTextLine_lineEnd {line : Bytes} (h : (10 : UInt8) ∉ line) (e : LineEnd) (rest : Bytes) :
    readTextLine (line ++ (e.bytes ++ rest)) = (line ++ e.bytes, rest) := by
  cases e with
  | lf => exact readTextLine_newline h rest
  | crlf =>
    have h13 : (10 : UInt8) ∉ line ++ [13] := by
      intro hm
      rcases List.mem_append.mp hm with hm | hm
      · exact h hm
      · exact absurd (List.mem_singleton.mp hm) (by decide)
    have hline := readTextLine_newline h13 rest
    simpa [LineEnd.bytes] using hline

/-! ### The migration of a text file -/

/-- The rows of a text that stands for rows are these rows. -/
theorem textRows_textOf {rows : List StringList} {text : Bytes} (ht : TextOf rows text)
    (hrows : ∀ row ∈ rows, row ≠ [] ∧ row ≠ [CString.empty]) : textRows text = rows := by
  have hnot : ∀ row : StringList, row ≠ [CString.empty] → row.map CString.bytes ≠ [[]] := by
    intro row hne heq
    obtain ⟨value, rfl⟩ := List.length_eq_one_iff.mp
      (show row.length = 1 by rw [← List.length_map (f := CString.bytes), heq]; rfl)
    refine hne (congrArg (fun v => [v]) (CString.ext ?_))
    simpa using heq
  have hend : ∀ e : LineEnd, EndsLine e.bytes := fun e => Or.inr ⟨e, [], by simp⟩
  have hbytes : ∀ e : LineEnd, e.bytes ≠ [] := fun e => by cases e <;> decide
  induction ht with
  | nil => rfl
  | @blank rows text e ht ih =>
    have hline := readTextLine_lineEnd (show (10 : UInt8) ∉ ([] : Bytes) by simp) e text
    rw [List.nil_append, List.nil_append] at hline
    have hblank : (splitPipeLine e.bytes).map CString.bytes = [[]] := by
      rw [splitPipeLine, splitPipeFrom_end (hend e)]
      rfl
    rw [textRows_blank hline (hbytes e) hblank]
    exact ih hrows
  | @row rows text row e ht ih =>
    obtain ⟨hrow, hne⟩ := hrows row List.mem_cons_self
    have hline := readTextLine_lineEnd (newline_notMem_textRow row) e text
    have hsplit := splitPipeLine_textRow hrow (hend e)
    rw [textRows_cons hline (List.append_ne_nil_of_right_ne_nil _ (hbytes e))
      (by rw [hsplit]; exact hnot row hne), hsplit,
      ih fun r hr => hrows r (List.mem_cons_of_mem row hr)]
  | last row =>
    obtain ⟨hrow, hne⟩ := hrows row List.mem_cons_self
    have hsplit := splitPipeLine_textRow hrow (Or.inl rfl)
    rw [List.append_nil] at hsplit
    have htext : textRow row ≠ [] := by
      intro hnil
      rw [hnil] at hsplit
      exact hne (by rw [← hsplit]; rfl)
    rw [textRows_cons (readTextLine_last (newline_notMem_textRow row)) htext
      (by rw [hsplit]; exact hnot row hne), hsplit, textRows_nil]

/-- The migration of an existing file into another one. -/
theorem migrateTextDataToBinary_eq {files : FileSystem} {textPath binPath : CString} {text : Bytes}
    (hpaths : textPath ≠ binPath) (hfile : files textPath = some text) :
    migrateTextDataToBinary files textPath binPath =
      (files.write binPath (migrateFrom (text.length + 1) text).1,
        (migrateFrom (text.length + 1) text).2) := by
  rw [migrateTextDataToBinary, hfile]
  dsimp only
  rw [FileSystem.write_of_ne files hpaths, hfile, Option.getD_some]

/-- **Migration.**  A text file of rows within the limits migrates with return code 0, and a scan of
the output runs its callback over exactly these rows, in order. -/
theorem migrateTextDataToBinary_rows (uninit : ℕ → UInt32) (files : FileSystem)
    (textPath binPath : CString) (hpaths : textPath ≠ binPath) (rows : List StringList)
    (text : Bytes) (hfile : files textPath = some text) (ht : TextOf rows text)
    (hrows : ∀ row ∈ rows, Readable row ∧ row ≠ [CString.empty]) :
    (migrateTextDataToBinary files textPath binPath).2 = 0 ∧
    ∀ (S : Type) (f : RowRef → StringList → S → S) (s : S),
      binaryReaderScanAll uninit (some binPath)
          (migrateTextDataToBinary files textPath binPath).1
          (fun ref row s => some (0, f ref row s)) s =
        some (0, (rowsAt rows).foldl (fun s e => f e.1 e.2 s) s) := by
  have hmig : migrateTextDataToBinary files textPath binPath =
      (files.write binPath (stream encodeRow rows), 0) := by
    have hnonempty : ∀ row ∈ rows, row ≠ [] ∧ row ≠ [CString.empty] := by
      intro row hrow
      obtain ⟨hread, hne⟩ := hrows row hrow
      exact ⟨List.length_pos_iff.mp hread.count_pos, hne⟩
    have hmigrate : migrateFrom (text.length + 1) text = (stream encodeRow rows, 0) := by
      rw [migrateFrom_iff, migrated, textRows_textOf ht hnonempty]
      exact ⟨fun row hrow => (hrows row hrow).1.writable, rfl⟩
    rw [migrateTextDataToBinary_eq hpaths hfile, hmigrate]
  rw [hmig]
  refine ⟨rfl, fun S f s => ?_⟩
  rw [binaryReaderScanAll_eq uninit (FileSystem.write_self ..),
    scannedRows_encoded uninit fun row hr => (hrows row hr).1, foldRows_continue]
  rfl

theorem migrateTextDataToBinary_rows_two :
    (migrateTextDataToBinary (fun _ => some [97, 124, 92, 92, 13, 10, 10, 98]) (lit "t") (lit "b")).2
      = 0 :=
  (migrateTextDataToBinary_rows (fun _ => 0) (fun _ => some [97, 124, 92, 92, 13, 10, 10, 98])
    (lit "t") (lit "b") (by decide) [[lit "a", lit "\\"], [lit "b"]] _ rfl
    (TextOf.row [lit "a", lit "\\"] .crlf (TextOf.blank .lf (TextOf.last [lit "b"])))
    (by
      intro row hr
      rcases (by simpa using hr : row = [lit "a", lit "\\"] ∨ row = [lit "b"]) with rfl | rfl
      · exact ⟨⟨by decide, by decide, by decide⟩, by decide⟩
      · exact ⟨⟨by decide, by decide, by decide⟩, by decide⟩)).1

end MiniSql
