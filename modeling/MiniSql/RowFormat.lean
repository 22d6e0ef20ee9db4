import MiniSql.Files
import MiniSql.BPlusTree
import MiniSql.Library.Framing
import MiniSql.Library.LittleEndian

/-!
# The binary row format

A row is a 32-bit field count followed by the fields, each a 32-bit length and that many bytes.

* `binaryWriterAppendRow`, `binaryReadRowFromFile`, `binaryReaderReadRowAt` and `binaryReaderScanAll` are the
  functions of `storage.c` under their names.  An open file is the bytes that are still to be read, a
  `RowCallback` is a function on a context of any type.
* `read_u32` returns `true` at the end of the file without filling its variable, and the row reader does not
  look at the end-of-file flag for a field length.  `uninit i` stands for the value the length variable of
  field `i` then has.
* `encodeRow` is the encoding of a row, `rowsAt` pairs rows with their offsets (`Framing.located`); `Readable`
  are the rows the reader accepts, `Writable` those the writer writes to the end.

Main results:

* `binaryReadRow_encodeRow`: the reader decodes what the writer encoded and stops right behind it.
* `binaryReaderScanAll_eq`: a scan runs its callback over the rows of the file (`scannedRows`), whatever the
  file is; the later modules reason about `foldRows` and no longer about the loop.
* `binaryWriter_reader_roundTrip`: appended rows come back, by a scan and by their references.
-/

namespace MiniSql

open LittleEndian Framing

/-- `MAX_BINARY_FIELDS`. -/
def maxBinaryFields : ℕ := 4096

/-- `MAX_BINARY_FIELD_BYTES`. -/
def maxBinaryFieldBytes : ℕ := 16 * 1024 * 1024

/-- `UINT32_MAX`. -/
def uint32Max : ℕ := 2 ^ 32 - 1

/-! ### Writing -/

/-- `fwrite` of `(uint32_t) n`. -/
def encodeU32 (n : ℕ) : Bytes := leBytes 4 n

/-- The field loop of the writer: what it has written when it ends, and whether it ran to the end. -/
def writeFields : StringList → Bytes × Bool
  | [] => ([], true)
  | value :: values =>
      if uint32Max < value.length then ([], false)
      else
        let (bytes, ok) := writeFields values
        (encodeU32 value.length ++ value.bytes ++ bytes, ok)

/-- `binary_writer_append_row`: the files after the call, the return code and `*out_ref`. -/
def binaryWriterAppendRow (path : Option CString) (files : FileSystem) (values : StringList) :
    FileSystem × ℤ × RowRef :=
  match path with
  | none => (files, -1, 0)
  | some path =>
      let content := (files path).getD []
      let (fields, ok) := writeFields values
      (files.write path (content ++ (encodeU32 values.length ++ fields)), if ok then 0 else -1,
        content.length)

/-! ### Reading -/

/-- `read_u32`; `none` when fewer than four bytes are left, which are then consumed. -/
def readU32 (rest : Bytes) : Option (ℕ × Bytes) :=
  if 4 ≤ rest.length then some (leValue (rest.take 4), rest.drop 4) else none

/-- The errors of `binary_read_row_from_file`. -/
inductive ReadError where
  | fieldCount
  | fieldTooLarge
  | payload
  deriving DecidableEq, Repr

def ReadError.message : ReadError → CString
  | .fieldCount => lit "invalid binary field_count"
  | .fieldTooLarge => lit "binary field too large"
  | .payload => lit "failed to read binary payload"

/-- The field loop of `binary_read_row_from_file`, at field `i` with `n` fields to go. -/
def readFields (uninit : ℕ → UInt32) : ℕ → ℕ → Bytes → Except ReadError (StringList × Bytes)
  | 0, _, rest => .ok ([], rest)
  | n + 1, i, rest =>
      let (length, rest) := (readU32 rest).getD ((uninit i).toNat, [])
      if maxBinaryFieldBytes < length then .error .fieldTooLarge
      else if rest.length < length then .error .payload
      else
        match readFields uninit n (i + 1) (rest.drop length) with
        | .error e => .error e
        | .ok (values, rest') => .ok (CString.ofBuffer (rest.take length) :: values, rest')

inductive RowRead where
  | eof
  | failed (error : ReadError)
  | row (values : StringList) (rest : Bytes)
  deriving DecidableEq

def binaryReadRowFromFile (uninit : ℕ → UInt32) (rest : Bytes) : RowRead :=
  match readU32 rest with
  | none => .eof
  | some (fieldCount, rest) =>
      if fieldCount = 0 ∨ maxBinaryFields < fieldCount then .failed .fieldCount
      else
        match readFields uninit fieldCount 0 rest with
        | .error e => .failed e
        | .ok (values, rest) => .row values rest

/-- `binary_reader_read_row_at`: return code and `*out_values`. -/
def binaryReaderReadRowAt (uninit : ℕ → UInt32) (path : Option CString) (files : FileSystem)
    (ref : RowRef) : ℤ × StringList :=
  match path.bind files with
  | none => (-1, [])
  | some content =>
      match binaryReadRowFromFile uninit (content.drop ref) with
      | .failed _ => (-1, [])
      | .eof => (1, [])
      | .row values _ => (0, values)

section Scan

variable {S : Type}

/-- A `RowCallback`: return code and new context; `none` stands for an access outside the row. -/
abbrev RowCallback (S : Type) := RowRef → StringList → S → Option (ℤ × S)

/-- The loop of `binary_reader_scan_all` over a file of `size` bytes.  Every row takes at least four
bytes, so `size + 1` rounds are enough. -/
def scanFrom (uninit : ℕ → UInt32) (cb : RowCallback S) (size : ℕ) :
    ℕ → Bytes → S → Option (ℤ × S)
  | 0, _, s => some (-1, s)
  | fuel + 1, rest, s =>
      match binaryReadRowFromFile uninit rest with
      | .failed _ => some (-1, s)
      | .eof => some (0, s)
      | .row values rest' =>
        match cb (size - rest.length) values s with
        | none => none
        | some (rc, s) =>
          if rc < 0 then some (-1, s)
          else if 0 < rc then some (0, s)
          else scanFrom uninit cb size fuel rest' s

def binaryReaderScanAll (uninit : ℕ → UInt32) (path : Option CString) (files : FileSystem)
    (cb : RowCallback S) (s : S) : Option (ℤ × S) :=
  match path.bind files with
  | none => some (-1, s)
  | some content => scanFrom uninit cb content.length (content.length + 1) content s

end Scan

/-! ### Encoded rows -/

/-- The encoding of a field. -/
def encodeField (value : CString) : Bytes := encodeU32 value.length ++ value.bytes

/-- The encoding of a row. -/
def encodeRow (values : StringList) : Bytes :=
  encodeU32 values.length ++ values.flatMap encodeField

/-- The rows the reader accepts: 1 to 4096 fields of at most 16 MiB. -/
structure Readable (row : StringList) : Prop where
  count_pos : 1 ≤ row.length
  count_le : row.length ≤ maxBinaryFields
  field_le : ∀ value ∈ row, value.length ≤ maxBinaryFieldBytes

/-- The rows the writer can write to the end. -/
def Writable (row : StringList) : Prop := ∀ value ∈ row, value.length ≤ uint32Max

instance decidableWritable (row : StringList) : Decidable (Writable row) :=
  inferInstanceAs (Decidable (∀ value ∈ row, value.length ≤ uint32Max))

theorem Readable.writable {row : StringList} (h : Readable row) : Writable row := by
  intro value hv
  have h1 := h.field_le value hv
  rw [maxBinaryFieldBytes] at h1
  rw [uint32Max]
  omega

@[simp] theorem encodeU32_length (n : ℕ) : (encodeU32 n).length = 4 := leBytes_length 4 n

theorem encodeRow_length_pos (row : StringList) : 4 ≤ (encodeRow row).length := by
  rw [encodeRow, List.length_append, encodeU32_length]
  omega

theorem readU32_encodeU32 {n : ℕ} (hn : n < 2 ^ 32) (rest : Bytes) :
    readU32 (encodeU32 n ++ rest) = some (n, rest) := by
  have htake : (encodeU32 n ++ rest).take 4 = encodeU32 n := by
    have h : (encodeU32 n ++ rest).take (encodeU32 n).length = encodeU32 n := List.take_left
    rwa [encodeU32_length] at h
  have hdrop : (encodeU32 n ++ rest).drop 4 = rest := by
    have h : (encodeU32 n ++ rest).drop (encodeU32 n).length = rest := List.drop_left
    rwa [encodeU32_length] at h
  rw [readU32, if_pos (by rw [List.length_append, encodeU32_length]; omega), htake, hdrop]
  rw [encodeU32, leValue_leBytes_of_lt (by simpa using hn)]

theorem writeFields_ok {values : StringList} (h : Writable values) :
    writeFields values = (values.flatMap encodeField, true) := by
  induction values with
  | nil => rfl
  | cons value values ih =>
    have hv := h value List.mem_cons_self
    have ih' := ih fun v hv => h v (List.mem_cons_of_mem value hv)
    rw [writeFields, if_neg (by omega), ih', List.flatMap_cons, encodeField]

theorem writeFields_snd (values : StringList) : (writeFields values).2 = true ↔ Writable values := by
  induction values with
  | nil => simp [writeFields, Writable]
  | cons value values ih =>
    rw [writeFields]
    by_cases hlong : uint32Max < value.length
    · rw [if_pos hlong]
      refine ⟨fun h => (Bool.noConfusion h), fun h => ?_⟩
      exact absurd (h value List.mem_cons_self) (not_le.mpr hlong)
    · rw [if_neg hlong]
      dsimp only
      rw [ih, Writable, Writable, List.forall_mem_cons]
      exact ⟨fun h => ⟨not_lt.mp hlong, h⟩, fun h => h.2⟩

/-- What the writer returns. -/
theorem binaryWriterAppendRow_rc (path : CString) (files : FileSystem) (row : StringList) :
    (binaryWriterAppendRow (some path) files row).2.1 = 0 ↔ Writable row := by
  rw [← writeFields_snd, binaryWriterAppendRow]
  cases h : (writeFields row).2 <;> simp [h]

/-- The writer always appends something, and the whole row if it can. -/
theorem binaryWriterAppendRow_files (path : CString) (files : FileSystem) (row : StringList) :
    ∃ bytes, 4 ≤ bytes.length ∧ (Writable row → bytes = encodeRow row) ∧
      (binaryWriterAppendRow (some path) files row).1 =
        files.write path ((files path).getD [] ++ bytes) := by
  refine ⟨encodeU32 row.length ++ (writeFields row).1, ?_, fun hw => ?_, rfl⟩
  · rw [List.length_append, encodeU32_length]
    omega
  · rw [writeFields_ok hw, encodeRow]

/-- The writer appends the encoding of the row and returns its offset. -/
theorem binaryWriterAppendRow_ok {files : FileSystem} {path : CString} {content : Bytes}
    {row : StringList} (hfile : files path = some content) (hw : Writable row) :
    binaryWriterAppendRow (some path) files row =
      (files.write path (content ++ encodeRow row), 0, content.length) := by
  rw [binaryWriterAppendRow]
  dsimp only
  rw [hfile, writeFields_ok hw]
  rfl

theorem readU32_suffix {rest rest' : Bytes} {n : ℕ} (h : readU32 rest = some (n, rest')) :
    rest' <:+ rest := by
  rw [readU32] at h
  split at h
  · obtain ⟨-, rfl⟩ := Prod.mk.inj (Option.some.inj h)
    exact List.drop_suffix 4 rest
  · cases h

/-- A round of the field loop that succeeds reads one field and goes on. -/
theorem readFields_succ_ok {uninit : ℕ → UInt32} {n i : ℕ} {rest rest' : Bytes} {values : StringList}
    (h : readFields uninit (n + 1) i rest = .ok (values, rest')) :
    ∃ length after value values', (readU32 rest).getD ((uninit i).toNat, []) = (length, after) ∧
      values = value :: values' ∧
      readFields uninit n (i + 1) (after.drop length) = .ok (values', rest') := by
  rw [readFields] at h
  generalize (readU32 rest).getD ((uninit i).toNat, []) = r at h
  obtain ⟨length, after⟩ := r
  dsimp only at h
  split at h
  · cases h
  · split at h
    · cases h
    · split at h
      · cases h
      · rename_i values' rest₂ hfields
        obtain ⟨rfl, rfl⟩ := Prod.mk.inj (Except.ok.inj h)
        exact ⟨length, after, _, values', rfl, rfl, hfields⟩

/-- A round of the field loop fails on its own length or payload, or leaves it to the other fields. -/
theorem readFields_succ_error {uninit : ℕ → UInt32} {n i length : ℕ} {rest after : Bytes}
    (hlength : (readU32 rest).getD ((uninit i).toNat, []) = (length, after)) :
    (∃ e, readFields uninit (n + 1) i rest = .error e) ↔
      maxBinaryFieldBytes < length ∨ after.length < length ∨
        ∃ e, readFields uninit n (i + 1) (after.drop length) = .error e := by
  rw [readFields, hlength]
  dsimp only
  by_cases hlarge : maxBinaryFieldBytes < length
  · rw [if_pos hlarge]
    exact iff_of_true ⟨_, rfl⟩ (Or.inl hlarge)
  · by_cases hshort : after.length < length
    · rw [if_neg hlarge, if_pos hshort]
      exact iff_of_true ⟨_, rfl⟩ (Or.inr (Or.inl hshort))
    · rw [if_neg hlarge, if_neg hshort]
      cases readFields uninit n (i + 1) (after.drop length) with
      | error e => exact iff_of_true ⟨e, rfl⟩ (Or.inr (Or.inr ⟨e, rfl⟩))
      | ok r => simp [hlarge, hshort]

/-- A row is a field count within the limits and that many fields. -/
theorem binaryReadRow_row {uninit : ℕ → UInt32} {rest rest' : Bytes} {row : StringList}
    (h : binaryReadRowFromFile uninit rest = .row row rest') :
    ∃ fieldCount after, readU32 rest = some (fieldCount, after) ∧ 1 ≤ fieldCount ∧
      fieldCount ≤ maxBinaryFields ∧ readFields uninit fieldCount 0 after = .ok (row, rest') := by
  rw [binaryReadRowFromFile] at h
  split at h
  · cases h
  · rename_i fieldCount after hcount
    split at h
    · cases h
    · rename_i hlimit
      split at h
      · cases h
      · rename_i values rest₂ hfields
        obtain ⟨rfl, rfl⟩ := RowRead.row.inj h
        exact ⟨fieldCount, after, hcount, by omega, by omega, hfields⟩

/-- The row reader fails on the field count or in the field loop. -/
theorem binaryReadRow_failed {uninit : ℕ → UInt32} {fieldCount : ℕ} {rest after : Bytes}
    (hcount : readU32 rest = some (fieldCount, after)) :
    (∃ e, binaryReadRowFromFile uninit rest = .failed e) ↔
      (fieldCount = 0 ∨ maxBinaryFields < fieldCount) ∨
        ∃ e, readFields uninit fieldCount 0 after = .error e := by
  rw [binaryReadRowFromFile, hcount]
  dsimp only
  by_cases hbad : fieldCount = 0 ∨ maxBinaryFields < fieldCount
  · rw [if_pos hbad]
    exact iff_of_true ⟨_, rfl⟩ (Or.inl hbad)
  · rw [if_neg hbad]
    cases readFields uninit fieldCount 0 after with
    | error e => exact iff_of_true ⟨e, rfl⟩ (Or.inr ⟨e, rfl⟩)
    | ok r => simp [hbad]

theorem readFields_length {uninit : ℕ → UInt32} {n i : ℕ} {rest rest' : Bytes} {values : StringList}
    (h : readFields uninit n i rest = .ok (values, rest')) : values.length = n := by
  induction n generalizing i rest rest' values with
  | zero =>
    obtain ⟨rfl, -⟩ := Prod.mk.inj (Except.ok.inj h)
    rfl
  | succ n ih =>
    obtain ⟨length, after, value, values', -, rfl, hfields⟩ := readFields_succ_ok h
    rw [List.length_cons, ih hfields]

theorem readFields_suffix {uninit : ℕ → UInt32} {n i : ℕ} {rest rest' : Bytes} {values : StringList}
    (h : readFields uninit n i rest = .ok (values, rest')) : rest' <:+ rest := by
  induction n generalizing i rest values with
  | zero =>
    obtain ⟨-, rfl⟩ := Prod.mk.inj (Except.ok.inj h)
    exact List.suffix_refl rest
  | succ n ih =>
    have hlength : ((readU32 rest).getD ((uninit i).toNat, [])).2 <:+ rest := by
      cases hread : readU32 rest with
      | none => exact List.nil_suffix
      | some r => exact readU32_suffix hread
    obtain ⟨length, after, value, values', hafter, rfl, hfields⟩ := readFields_succ_ok h
    rw [hafter] at hlength
    exact (ih hfields).trans ((List.drop_suffix length after).trans hlength)

/-- What is left after a row is the end of what was there. -/
theorem binaryReadRow_suffix {uninit : ℕ → UInt32} {rest rest' : Bytes} {row : StringList}
    (h : binaryReadRowFromFile uninit rest = .row row rest') : rest' <:+ rest := by
  obtain ⟨fieldCount, after, hcount, -, -, hfields⟩ := binaryReadRow_row h
  exact (readFields_suffix hfields).trans (readU32_suffix hcount)

/-- A row the reader yields has at most 4096 fields. -/
theorem binaryReadRow_length {uninit : ℕ → UInt32} {rest rest' : Bytes} {row : StringList}
    (h : binaryReadRowFromFile uninit rest = .row row rest') : row.length ≤ maxBinaryFields := by
  obtain ⟨fieldCount, after, -, -, hle, hfields⟩ := binaryReadRow_row h
  rw [readFields_length hfields]
  exact hle

theorem readFields_encode (uninit : ℕ → UInt32) {values : StringList}
    (h : ∀ value ∈ values, value.length ≤ maxBinaryFieldBytes) (i : ℕ) (rest : Bytes) :
    readFields uninit values.length i (values.flatMap encodeField ++ rest) = .ok (values, rest) := by
  induction values generalizing i with
  | nil => rfl
  | cons value values ih =>
    have hv := h value List.mem_cons_self
    have hlt : value.length < 2 ^ 32 := by
      rw [maxBinaryFieldBytes] at hv
      omega
    have ih' := ih (fun v hv => h v (List.mem_cons_of_mem value hv)) (i + 1)
    have hlen : value.length = value.bytes.length := rfl
    rw [List.flatMap_cons, encodeField, List.append_assoc, List.append_assoc, List.length_cons,
      readFields, readU32_encodeU32 hlt]
    simp only [Option.getD_some]
    rw [if_neg (by omega), if_neg (by rw [List.length_append, hlen]; omega), hlen, List.drop_left,
      List.take_left, ih']
    simp

/-- **One row.**  The reader decodes what the writer encoded and stops right behind it. -/
theorem binaryReadRow_encodeRow (uninit : ℕ → UInt32) {row : StringList} (h : Readable row)
    (rest : Bytes) : binaryReadRowFromFile uninit (encodeRow row ++ rest) = .row row rest := by
  have h1 := h.count_pos
  have h2 := h.count_le
  have hlt : row.length < 2 ^ 32 := by
    rw [maxBinaryFields] at h2
    omega
  rw [encodeRow, List.append_assoc, binaryReadRowFromFile, readU32_encodeU32 hlt]
  dsimp only
  rw [if_neg (by omega), readFields_encode uninit h.field_le]

/-! ### Whole files -/

/-- The rows of a file with their offsets. -/
abbrev rowsAt (rows : List StringList) : List (RowRef × StringList) := located encodeRow 0 rows

/-- `binary_reader_read_row_at` at the offset of a row, whatever follows. -/
theorem binaryReaderReadRowAt_located (uninit : ℕ → UInt32) {files : FileSystem} {path : CString}
    {rows : List StringList} {tail : Bytes} {ref : RowRef} {row : StringList}
    (hfile : files path = some (stream encodeRow rows ++ tail)) (hmem : (ref, row) ∈ rowsAt rows)
    (hrow : Readable row) : binaryReaderReadRowAt uninit (some path) files ref = (0, row) := by
  obtain ⟨rest, hdrop⟩ := drop_located hmem tail
  rw [binaryReaderReadRowAt, Option.bind_some, hfile]
  dsimp only
  rw [hdrop, binaryReadRow_encodeRow uninit hrow]

/-- The rows a scan reads from `rest`, with their offsets, and whether it gets to the end of the file
rather than to a row it cannot read. -/
def readRows (uninit : ℕ → UInt32) (size : ℕ) : ℕ → Bytes → List (RowRef × StringList) × Bool
  | 0, _ => ([], false)
  | fuel + 1, rest =>
      match binaryReadRowFromFile uninit rest with
      | .failed _ => ([], false)
      | .eof => ([], true)
      | .row values rest' =>
          let (rows, clean) := readRows uninit size fuel rest'
          ((size - rest.length, values) :: rows, clean)

/-- The rows of a file as the reader sees them. -/
def scannedRows (uninit : ℕ → UInt32) (content : Bytes) : List (RowRef × StringList) × Bool :=
  readRows uninit content.length (content.length + 1) content

/-- A scanned row is read back at its offset, whatever the file is. -/
theorem readRows_readAt {uninit : ℕ → UInt32} {fuel : ℕ} {content rest : Bytes}
    (hrest : rest <:+ content) {e : RowRef × StringList}
    (he : e ∈ (readRows uninit content.length fuel rest).1) :
    ∃ rest', binaryReadRowFromFile uninit (content.drop e.1) = .row e.2 rest' := by
  induction fuel generalizing rest with
  | zero => exact absurd he List.not_mem_nil
  | succ fuel ih =>
    rw [readRows] at he
    cases hrow : binaryReadRowFromFile uninit rest with
    | failed e => rw [hrow] at he; exact absurd he List.not_mem_nil
    | eof => rw [hrow] at he; exact absurd he List.not_mem_nil
    | row values rest' =>
      rw [hrow] at he
      rcases List.mem_cons.mp he with rfl | he
      · dsimp only
        rw [← List.suffix_iff_eq_drop.mp hrest]
        exact ⟨rest', hrow⟩
      · exact ih ((binaryReadRow_suffix hrow).trans hrest) he

theorem binaryReaderReadRowAt_scanned {uninit : ℕ → UInt32} {files : FileSystem} {path : CString}
    {content : Bytes} (hfile : files path = some content) {e : RowRef × StringList}
    (he : e ∈ (scannedRows uninit content).1) :
    binaryReaderReadRowAt uninit (some path) files e.1 = (0, e.2) := by
  obtain ⟨rest', hrow⟩ := readRows_readAt (List.suffix_refl content) he
  rw [binaryReaderReadRowAt, Option.bind_some, hfile]
  dsimp only
  rw [hrow]

section Scan

variable {S : Type}

/-- Running a callback over located rows: `some rc` if it ends the scan with `rc`. -/
def foldRows (cb : RowCallback S) : List (RowRef × StringList) → S → Option (Option ℤ × S)
  | [], s => some (none, s)
  | (ref, row) :: rows, s =>
      match cb ref row s with
      | none => none
      | some (rc, s) =>
        if rc < 0 then some (some (-1), s)
        else if 0 < rc then some (some 0, s)
        else foldRows cb rows s

/-- The result of a scan, given what the callback did with the rows. -/
def scanResult (clean : Bool) : Option (Option ℤ × S) → Option (ℤ × S)
  | none => none
  | some (some rc, s) => some (rc, s)
  | some (none, s) => some (if clean then 0 else -1, s)

theorem scanFrom_eq (uninit : ℕ → UInt32) (cb : RowCallback S) (size fuel : ℕ) (rest : Bytes)
    (s : S) : scanFrom uninit cb size fuel rest s =
      scanResult (readRows uninit size fuel rest).2 (foldRows cb (readRows uninit size fuel rest).1 s)
    := by
  induction fuel generalizing rest s with
  | zero => rfl
  | succ fuel ih =>
    rw [scanFrom, readRows]
    cases binaryReadRowFromFile uninit rest with
    | failed e => rfl
    | eof => rfl
    | row values rest' =>
      dsimp only
      rw [foldRows]
      cases cb (size - rest.length) values s with
      | none => rfl
      | some r =>
        obtain ⟨rc, s'⟩ := r
        dsimp only
        by_cases hneg : rc < 0
        · rw [if_pos hneg, if_pos hneg]
          rfl
        · rw [if_neg hneg, if_neg hneg]
          by_cases hpos : 0 < rc
          · rw [if_pos hpos, if_pos hpos]
            rfl
          · rw [if_neg hpos, if_neg hpos, ih]

/-- **Scan.**  A scan runs its callback over the rows of the file. -/
theorem binaryReaderScanAll_eq (uninit : ℕ → UInt32) {files : FileSystem} {path : CString}
    {content : Bytes} (hfile : files path = some content) (cb : RowCallback S) (s : S) :
    binaryReaderScanAll uninit (some path) files cb s =
      scanResult (scannedRows uninit content).2 (foldRows cb (scannedRows uninit content).1 s) := by
  rw [binaryReaderScanAll, Option.bind_some, hfile]
  exact scanFrom_eq uninit cb _ _ _ _

/-- A scan of two parts is the scan of the second one from where the first one ran through. -/
theorem foldRows_append (cb : RowCallback S) (rows₁ rows₂ : List (RowRef × StringList)) (s : S) :
    foldRows cb (rows₁ ++ rows₂) s =
      match foldRows cb rows₁ s with
      | some (none, s') => foldRows cb rows₂ s'
      | r => r := by
  induction rows₁ generalizing s with
  | nil => rfl
  | cons e rows₁ ih =>
    obtain ⟨ref, row⟩ := e
    rw [List.cons_append, foldRows, foldRows]
    cases cb ref row s with
    | none => rfl
    | some r =>
      obtain ⟨rc, s'⟩ := r
      dsimp only
      by_cases hneg : rc < 0
      · rw [if_pos hneg, if_pos hneg]
      · rw [if_neg hneg, if_neg hneg]
        by_cases hpos : 0 < rc
        · rw [if_pos hpos, if_pos hpos]
        · rw [if_neg hpos, if_neg hpos, ih]

/-- What every call of the callback preserves, a scan preserves. -/
theorem foldRows_preserves {P : S → Prop} {cb : RowCallback S}
    (hcb : ∀ ref row s rc s', P s → cb ref row s = some (rc, s') → P s')
    {rows : List (RowRef × StringList)} {s s' : S} {o : Option ℤ} (hs : P s)
    (h : foldRows cb rows s = some (o, s')) : P s' := by
  induction rows generalizing s with
  | nil =>
    obtain ⟨-, rfl⟩ := Prod.mk.inj (Option.some.inj h)
    exact hs
  | cons e rows ih =>
    obtain ⟨ref, row⟩ := e
    rw [foldRows] at h
    rcases hr : cb ref row s with _ | ⟨rc, s₁⟩
    · rw [hr] at h
      cases h
    · rw [hr] at h
      dsimp only at h
      have hs₁ := hcb ref row s rc s₁ hs hr
      by_cases hneg : rc < 0
      · rw [if_pos hneg] at h
        obtain ⟨-, rfl⟩ := Prod.mk.inj (Option.some.inj h)
        exact hs₁
      · rw [if_neg hneg] at h
        by_cases hpos : 0 < rc
        · rw [if_pos hpos] at h
          obtain ⟨-, rfl⟩ := Prod.mk.inj (Option.some.inj h)
          exact hs₁
        · rw [if_neg hpos] at h
          exact ih hs₁ h

theorem binaryReaderScanAll_preserves (uninit : ℕ → UInt32) {P : S → Prop} {cb : RowCallback S}
    (hcb : ∀ ref row s rc s', P s → cb ref row s = some (rc, s') → P s')
    {path : Option CString} {files : FileSystem} {s s' : S} {rc : ℤ} (hs : P s)
    (h : binaryReaderScanAll uninit path files cb s = some (rc, s')) : P s' := by
  rw [binaryReaderScanAll] at h
  split at h
  · obtain ⟨-, rfl⟩ := Prod.mk.inj (Option.some.inj h)
    exact hs
  · rename_i content hcontent
    rw [scanFrom_eq] at h
    rcases hf : foldRows cb (readRows uninit content.length (content.length + 1) content).1 s with
      _ | ⟨_ | rc', s₁⟩
    · rw [hf] at h
      cases h
    · rw [hf] at h
      obtain ⟨-, rfl⟩ := Prod.mk.inj (Option.some.inj h)
      exact foldRows_preserves hcb hs hf
    · rw [hf] at h
      obtain ⟨-, rfl⟩ := Prod.mk.inj (Option.some.inj h)
      exact foldRows_preserves hcb hs hf

/-- A callback that always continues sees every row. -/
theorem foldRows_continue (f : RowRef → StringList → S → S) (rows : List (RowRef × StringList))
    (s : S) : foldRows (fun ref row s => some (0, f ref row s)) rows s =
      some (none, rows.foldl (fun s e => f e.1 e.2 s) s) := by
  induction rows generalizing s with
  | nil => rfl
  | cons e rows ih =>
    rw [foldRows, List.foldl_cons]
    exact ih (f e.1 e.2 s)

end Scan

theorem readRows_encoded (uninit : ℕ → UInt32) {rows : List StringList}
    (hrows : ∀ row ∈ rows, Readable row) {size off fuel : ℕ}
    (hsize : size = off + (stream encodeRow rows).length)
    (hfuel : (stream encodeRow rows).length < fuel) :
    readRows uninit size fuel (stream encodeRow rows) = (located encodeRow off rows, true) := by
  induction rows generalizing off fuel with
  | nil =>
    obtain ⟨fuel, rfl⟩ : ∃ f, fuel = f + 1 := ⟨fuel - 1, by omega⟩
    rfl
  | cons row rows ih =>
    obtain ⟨fuel, rfl⟩ : ∃ f, fuel = f + 1 := ⟨fuel - 1, by omega⟩
    have hpos := encodeRow_length_pos row
    rw [stream_cons, List.length_append] at hsize hfuel
    have hoff : size - (encodeRow row ++ stream encodeRow rows).length = off := by
      rw [List.length_append]
      omega
    rw [stream_cons, readRows, binaryReadRow_encodeRow uninit (hrows row List.mem_cons_self)]
    dsimp only
    rw [hoff, ih (fun r hr => hrows r (List.mem_cons_of_mem row hr))
      (show size = off + (encodeRow row).length + _ by omega) (by omega), located]

/-- The rows of a file of encoded rows are exactly these rows, each with its offset. -/
theorem scannedRows_encoded (uninit : ℕ → UInt32) {rows : List StringList}
    (hrows : ∀ row ∈ rows, Readable row) :
    scannedRows uninit (stream encodeRow rows) = (rowsAt rows, true) :=
  readRows_encoded uninit hrows (by omega) (by omega)

/-! ### Append runs -/

/-- Appending rows one by one: the files at the end, and return code and ref of each call. -/
def appendRun (path : Option CString) : FileSystem → List StringList →
    FileSystem × List (ℤ × RowRef)
  | files, [] => (files, [])
  | files, row :: rows =>
      let (files', rc, ref) := binaryWriterAppendRow path files row
      let (files'', results) := appendRun path files' rows
      (files'', (rc, ref) :: results)

theorem appendRun_ok {files : FileSystem} {path : CString} {content : Bytes} {rows : List StringList}
    (hfile : files path = some content) (hrows : ∀ row ∈ rows, Writable row) :
    appendRun (some path) files rows = (files.write path (content ++ stream encodeRow rows),
      (located encodeRow content.length rows).map fun e => (0, e.1)) := by
  induction rows generalizing files content with
  | nil => simp [appendRun, FileSystem.write_same hfile]
  | cons row rows ih =>
    have hrow := hrows row List.mem_cons_self
    have ih' := ih (FileSystem.write_self files path (content ++ encodeRow row))
      (fun r hr => hrows r (List.mem_cons_of_mem row hr))
    rw [appendRun, binaryWriterAppendRow_ok hfile hrow]
    dsimp only
    rw [ih', FileSystem.write_write, located, stream_cons, List.append_assoc, List.length_append]
    rfl

/-- Whatever is appended, and whether or not the appends succeed, the old content stays in front. -/
theorem appendRun_prefix {files : FileSystem} {path : CString} {content : Bytes}
    (hfile : files path = some content) (rows : List StringList) :
    ∃ tail, (appendRun (some path) files rows).1 path = some (content ++ tail) := by
  induction rows generalizing files content with
  | nil => exact ⟨[], by simpa [appendRun] using hfile⟩
  | cons row rows ih =>
    obtain ⟨tail, htail⟩ := ih (FileSystem.write_self files path
      (content ++ (encodeU32 row.length ++ (writeFields row).1)))
    refine ⟨encodeU32 row.length ++ (writeFields row).1 ++ tail, ?_⟩
    rw [appendRun, binaryWriterAppendRow]
    dsimp only
    rw [hfile]
    dsimp only [Option.getD_some]
    rw [htail, List.append_assoc]

/-- **Round trip.**  Readable rows appended one by one to an empty file are all written; a scan with a
callback that continues sees exactly these rows in order, each with the ref its append returned, and
returns 0; and each ref reads back its row, whatever is appended later. -/
theorem binaryWriter_reader_roundTrip (uninit : ℕ → UInt32) (files : FileSystem) (path : CString)
    (rows : List StringList) (hfile : files path = some []) (hrows : ∀ row ∈ rows, Readable row) :
    (∀ r ∈ (appendRun (some path) files rows).2, r.1 = 0) ∧
    (appendRun (some path) files rows).2.length = rows.length ∧
    (∀ (S : Type) (f : RowRef → StringList → S → S) (s : S),
      binaryReaderScanAll uninit (some path) (appendRun (some path) files rows).1
          (fun ref row s => some (0, f ref row s)) s =
        some (0, (((appendRun (some path) files rows).2.map Prod.snd).zip rows).foldl
          (fun s e => f e.1 e.2 s) s)) ∧
    ∀ e ∈ ((appendRun (some path) files rows).2.map Prod.snd).zip rows, ∀ more : List StringList,
      binaryReaderReadRowAt uninit (some path)
        (appendRun (some path) (appendRun (some path) files rows).1 more).1 e.1 = (0, e.2) := by
  have hrun := appendRun_ok hfile fun row hr => (hrows row hr).writable
  rw [List.nil_append, List.length_nil] at hrun
  have hzip : ((appendRun (some path) files rows).2.map Prod.snd).zip rows = rowsAt rows := by
    rw [hrun, List.map_map]
    exact zip_located encodeRow 0 rows
  have hcontent : (appendRun (some path) files rows).1 path = some (stream encodeRow rows) := by
    rw [hrun]
    exact FileSystem.write_self files path _
  rw [hzip]
  refine ⟨?_, ?_, ?_, ?_⟩
  · rw [hrun]
    intro r hr
    obtain ⟨e, -, rfl⟩ := List.mem_map.mp hr
    rfl
  · rw [hrun, List.length_map, ← List.length_map (f := Prod.snd), located_map_snd]
  · intro S f s
    rw [binaryReaderScanAll_eq uninit hcontent, scannedRows_encoded uninit hrows, foldRows_continue]
    rfl
  · rintro ⟨ref, row⟩ he more
    obtain ⟨tail, htail⟩ := appendRun_prefix hcontent more
    exact binaryReaderReadRowAt_located uninit htail he (hrows row (mem_of_mem_located he))

theorem binaryWriter_reader_roundTrip_two :
    binaryReaderReadRowAt (fun _ => 0) (some (lit "t.data"))
      (appendRun (some (lit "t.data")) (fun _ => some []) [[lit "1", lit ""], [lit "2"]]).1 13 =
        (0, [lit "2"]) :=
  (binaryWriter_reader_roundTrip (fun _ => 0) (fun _ => some []) (lit "t.data")
    [[lit "1", lit ""], [lit "2"]] rfl (by
      intro row hr
      rcases (by simpa using hr : row = [lit "1", lit ""] ∨ row = [lit "2"]) with rfl | rfl
      · exact ⟨by decide, by decide, by decide⟩
      · exact ⟨by decide, by decide, by decide⟩)).2.2.2 (13, [lit "2"]) (by decide) []

end MiniSql
