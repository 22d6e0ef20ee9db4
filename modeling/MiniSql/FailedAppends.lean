import MiniSql.PartialRows

/-!
# Appends that fail

`binary_writer_append_row` when a write fails: an `fwrite` stores only a part of its bytes, nothing after it
is written, and the call returns -1.

* `binaryWriterAppendRowWithin room` is the writer with room for so many bytes; what has been stored stays in
  the file.
* `appendedBytes` is what it would store without a limit.
* `Undamaged`: a scan still reports just the old rows, and a row appended later is reported behind them.

Main results:

* `binaryWriterAppendRowWithin_eq`: the writer stores what there is room for, and succeeds if that is the
  whole row.
* `binaryReadRow_shifted`, `not_undamaged_of_part`: any bytes of a row that is not complete damage the table;
  a row of 17 empty fields behind them shows it where a scan alone does not.
* `binaryWriterAppendRow_failed`: so a failed append leaves the table undamaged exactly if nothing could be
  stored.
* `binaryWriterAppendRow_failed_payload`: a row that does not fit into the buffer of the stream, with room for
  its field count and its first length.
-/

namespace MiniSql

open LittleEndian Framing

/-! ### The writer with a limit -/

/-- The field loop of the writer: what it has stored when it ends, and whether it ran to the end. -/
def writeFieldsWithin : ℕ → StringList → Bytes × Bool
  | _, [] => ([], true)
  | room, value :: values =>
      if uint32Max < value.length then ([], false)
      else if room < 4 then ((encodeU32 value.length).take room, false)
      else if room - 4 < value.length then
        (encodeU32 value.length ++ value.bytes.take (room - 4), false)
      else
        let (bytes, ok) := writeFieldsWithin (room - 4 - value.length) values
        (encodeU32 value.length ++ value.bytes ++ bytes, ok)

/-- `binary_writer_append_row` when `room` bytes can be stored. -/
def binaryWriterAppendRowWithin (room : ℕ) (path : Option CString) (files : FileSystem)
    (values : StringList) : FileSystem × ℤ × RowRef :=
  match path with
  | none => (files, -1, 0)
  | some path =>
      let content := (files path).getD []
      if room < 4 then
        (files.write path (content ++ (encodeU32 values.length).take room), -1, content.length)
      else
        let (fields, ok) := writeFieldsWithin (room - 4) values
        (files.write path (content ++ (encodeU32 values.length ++ fields)), if ok then 0 else -1,
          content.length)

/-- The bytes the writer would store without a limit. -/
def appendedBytes (row : StringList) : Bytes := encodeU32 row.length ++ (writeFields row).1

theorem appendedBytes_length (row : StringList) :
    (appendedBytes row).length = 4 + (writeFields row).1.length := by
  rw [appendedBytes, List.length_append, encodeU32_length]

theorem appendedBytes_of_writable {row : StringList} (h : Writable row) :
    appendedBytes row = encodeRow row := by
  rw [appendedBytes, writeFields_ok h, encodeRow]

theorem writeFieldsWithin_eq (room : ℕ) (values : StringList) :
    writeFieldsWithin room values = ((writeFields values).1.take room,
      (writeFields values).2 && decide ((writeFields values).1.length ≤ room)) := by
  induction values generalizing room with
  | nil => simp [writeFieldsWithin, writeFields]
  | cons value values ih =>
    rw [writeFieldsWithin, writeFields]
    by_cases hlong : uint32Max < value.length
    · rw [if_pos hlong, if_pos hlong]
      simp
    · rw [if_neg hlong, if_neg hlong]
      dsimp only
      have hbytes : value.bytes.length = value.length := rfl
      have hlength : (encodeU32 value.length ++ value.bytes ++ (writeFields values).1).length =
          4 + value.length + (writeFields values).1.length := by
        rw [List.length_append, List.length_append, encodeU32_length, hbytes]
      have hassoc : encodeU32 value.length ++ value.bytes ++ (writeFields values).1 =
          encodeU32 value.length ++ (value.bytes ++ (writeFields values).1) := List.append_assoc ..
      rw [hlength, hassoc]
      by_cases hcount : room < 4
      · have hmore : ¬4 + value.length + (writeFields values).1.length ≤ room := by omega
        rw [if_pos hcount, decide_eq_false hmore, Bool.and_false,
          List.take_append_of_le_length (by rw [encodeU32_length]; omega)]
      · have htake : (encodeU32 value.length ++ (value.bytes ++ (writeFields values).1)).take room =
            encodeU32 value.length ++ (value.bytes ++ (writeFields values).1).take (room - 4) := by
          rw [List.take_append, encodeU32_length,
            List.take_of_length_le (by rw [encodeU32_length]; omega)]
        rw [if_neg hcount, htake]
        by_cases hpayload : room - 4 < value.length
        · have hmore : ¬4 + value.length + (writeFields values).1.length ≤ room := by omega
          rw [if_pos hpayload, decide_eq_false hmore, Bool.and_false,
            List.take_append_of_le_length (by rw [hbytes]; omega)]
        · have hrest : (value.bytes ++ (writeFields values).1).take (room - 4) =
              value.bytes ++ (writeFields values).1.take (room - 4 - value.length) := by
            rw [List.take_append, hbytes, List.take_of_length_le (by rw [hbytes]; omega)]
          have hfits : decide (4 + value.length + (writeFields values).1.length ≤ room) =
              decide ((writeFields values).1.length ≤ room - 4 - value.length) := by
            rw [decide_eq_decide]
            omega
          rw [if_neg hpayload, hrest, hfits, ih, List.append_assoc]

/-- The writer stores what there is room for, and succeeds if that is the whole row. -/
theorem binaryWriterAppendRowWithin_eq (room : ℕ) (path : CString) (files : FileSystem)
    (row : StringList) :
    (binaryWriterAppendRowWithin room (some path) files row).1 =
      files.write path ((files path).getD [] ++ (appendedBytes row).take room) ∧
    ((binaryWriterAppendRowWithin room (some path) files row).2.1 = -1 ↔
      ¬(Writable row ∧ (encodeRow row).length ≤ room)) := by
  rw [binaryWriterAppendRowWithin]
  dsimp only
  by_cases hcount : room < 4
  · rw [if_pos hcount, appendedBytes,
      List.take_append_of_le_length (by rw [encodeU32_length]; omega)]
    refine ⟨rfl, fun _ h => ?_, fun _ => rfl⟩
    have hpos := encodeRow_length_pos row
    omega
  · have htake : (appendedBytes row).take room =
        encodeU32 row.length ++ (writeFields row).1.take (room - 4) := by
      rw [appendedBytes, List.take_append, encodeU32_length,
        List.take_of_length_le (by rw [encodeU32_length]; omega)]
    rw [if_neg hcount, writeFieldsWithin_eq, htake]
    refine ⟨rfl, ?_⟩
    dsimp only
    by_cases hw : Writable row
    · have hlength := appendedBytes_length row
      rw [appendedBytes_of_writable hw] at hlength
      rw [(writeFields_snd row).mpr hw, Bool.true_and, hlength]
      by_cases hfits : (writeFields row).1.length ≤ room - 4
      · rw [decide_eq_true hfits]
        exact ⟨fun h => absurd (show (0 : ℤ) = -1 from h) (by decide),
          fun h => absurd ⟨hw, by omega⟩ h⟩
      · rw [decide_eq_false hfits]
        exact ⟨fun _ h => hfits (by omega), fun _ => rfl⟩
    · have hfalse : (writeFields row).2 = false := by
        rw [Bool.eq_false_iff]
        exact fun h => hw ((writeFields_snd row).mp h)
      rw [hfalse, Bool.false_and]
      exact ⟨fun _ h => hw h.1, fun _ => rfl⟩

/-- With room for the row it is the writer. -/
theorem binaryWriterAppendRowWithin_enough {room : ℕ} {row : StringList}
    (h : (appendedBytes row).length ≤ room) (path : Option CString) (files : FileSystem) :
    binaryWriterAppendRowWithin room path files row = binaryWriterAppendRow path files row := by
  cases path with
  | none => rfl
  | some path =>
    rw [appendedBytes_length] at h
    rw [binaryWriterAppendRowWithin, binaryWriterAppendRow]
    dsimp only
    rw [if_neg (by omega), writeFieldsWithin_eq, List.take_of_length_le (by omega),
      decide_eq_true (by omega), Bool.and_true]

/-! ### What a failed append leaves -/

/-- A scan still reports just these rows, and a row appended later is reported behind them. -/
structure Undamaged (uninit : ℕ → UInt32) (path : CString) (rows : List StringList)
    (files : FileSystem) : Prop where
  scan : ScansAs uninit path files rows 0
  later : ∀ row, Readable row → (binaryWriterAppendRow (some path) files row).2.1 = 0 →
    ScansAs uninit path (binaryWriterAppendRow (some path) files row).1 (rows ++ [row]) 0

theorem undamaged_stream (uninit : ℕ → UInt32) {path : CString} {files : FileSystem}
    {rows : List StringList} (hrows : ∀ row ∈ rows, Readable row)
    (hfile : files path = some (stream encodeRow rows)) : Undamaged uninit path rows files where
  scan := by
    have hempty : files path = some (stream encodeRow rows ++ []) := by rw [List.append_nil, hfile]
    rw [scansAs_tail hrows hempty, binaryReadRow_eof.mpr (by decide)]
  later := by
    intro row hrow _
    rw [binaryWriterAppendRow_ok hfile hrow.writable]
    have hrows' : ∀ r ∈ rows ++ [row], Readable r :=
      List.forall_mem_append.mpr ⟨hrows, List.forall_mem_singleton.mpr hrow⟩
    have hfile' : files.write path (stream encodeRow rows ++ encodeRow row) path =
        some (stream encodeRow (rows ++ [row]) ++ []) := by
      rw [FileSystem.write_self, stream_append, stream_cons, stream_nil, List.append_nil,
        List.append_nil]
    exact (scansAs_tail hrows' hfile' 0).mpr (by rw [binaryReadRow_eof.mpr (by decide)])

/-- A row of 17 empty fields. -/
def emptyFields : StringList := List.replicate 17 CString.empty

/-- Behind one to three bytes of another row, its field count is read as a number above 4096. -/
theorem binaryReadRow_shifted (uninit : ℕ → UInt32) {part : Bytes} (hne : part ≠ [])
    (hlen : part.length < 4) :
    binaryReadRowFromFile uninit (part ++ encodeRow emptyFields) = .failed .fieldCount := by
  have hcount : ∃ tail, encodeRow emptyFields = 17 :: 0 :: 0 :: 0 :: tail := ⟨_, rfl⟩
  obtain ⟨tail, htail⟩ := hcount
  have hread : ∃ n rest, readU32 (part ++ encodeRow emptyFields) = some (n, rest) ∧
      maxBinaryFields < n := by
    rw [htail]
    match part, hne, hlen with
    | [a], _, _ =>
      refine ⟨_, _, rfl, ?_⟩
      show maxBinaryFields < leValue [a, 17, 0, 0]
      simp only [leValue, maxBinaryFields, UInt8.reduceToNat]
      omega
    | [a, b], _, _ =>
      refine ⟨_, _, rfl, ?_⟩
      show maxBinaryFields < leValue [a, b, 17, 0]
      simp only [leValue, maxBinaryFields, UInt8.reduceToNat]
      omega
    | [a, b, c], _, _ =>
      refine ⟨_, _, rfl, ?_⟩
      show maxBinaryFields < leValue [a, b, c, 17]
      simp only [leValue, maxBinaryFields, UInt8.reduceToNat]
      omega
  obtain ⟨n, rest, hread, hlarge⟩ := hread
  rw [binaryReadRowFromFile, hread]
  exact if_pos (Or.inr hlarge)

/-- Any bytes of a row that is not complete damage the table. -/
theorem not_undamaged_of_part (uninit : ℕ → UInt32) {path : CString} {files : FileSystem}
    {rows : List StringList} (hrows : ∀ row ∈ rows, Readable row) {part : Bytes} (hne : part ≠ [])
    (hfile : files path = some (stream encodeRow rows ++ part)) :
    ¬Undamaged uninit path rows files := by
  intro h
  have hlen : part.length < 4 := by
    have hscan := (scansAs_tail hrows hfile 0).mp h.scan
    apply binaryReadRow_eof.mp
    show binaryReadRowFromFile uninit part = .eof
    cases hread : binaryReadRowFromFile uninit part with
    | eof => rfl
    | failed e =>
      rw [hread] at hscan
      exact absurd (show (0 : ℤ) = -1 from hscan) (by decide)
    | row values rest =>
      rw [hread] at hscan
      exact hscan.elim
  have hempty : Readable emptyFields := ⟨by decide, by decide, by decide⟩
  have hlater := h.later emptyFields hempty
    ((binaryWriterAppendRow_rc path files emptyFields).mpr hempty.writable)
  rw [binaryWriterAppendRow_ok hfile hempty.writable, List.append_assoc] at hlater
  have hscan := (scansAs_iff (FileSystem.write_self ..) _ _).mp hlater
  obtain ⟨more, clean, hread, hmore⟩ :=
    scannedRows_tail uninit hrows (part ++ encodeRow emptyFields)
  rw [binaryReadRow_shifted uninit hne hlen] at hmore
  obtain ⟨rfl, rfl⟩ := hmore
  rw [hread] at hscan
  exact absurd (show (0 : ℤ) = -1 from hscan.2) (by decide)

/-- **Failed appends.**  Let a row be appended to a file of encoded rows with room for `room` bytes.  That
a failed append leaves the table undamaged holds exactly if nothing could be stored, or the append does
not fail because the row can be written and fits. -/
theorem binaryWriterAppendRow_failed (uninit : ℕ → UInt32) (files : FileSystem) (path : CString)
    (rows : List StringList) (row : StringList) (room : ℕ) (hrows : ∀ r ∈ rows, Readable r)
    (hfile : files path = some (stream encodeRow rows)) :
    ((binaryWriterAppendRowWithin room (some path) files row).2.1 = -1 →
      Undamaged uninit path rows (binaryWriterAppendRowWithin room (some path) files row).1) ↔
    room = 0 ∨ (Writable row ∧ (encodeRow row).length ≤ room) := by
  obtain ⟨hfiles, hrc⟩ := binaryWriterAppendRowWithin_eq room path files row
  rw [hfile, Option.getD_some] at hfiles
  rw [hfiles, hrc]
  constructor
  · intro h
    by_contra hnot
    obtain ⟨hroom, hfits⟩ := not_or.mp hnot
    have hpart : (appendedBytes row).take room ≠ [] := by
      intro hnil
      have hlen := congrArg List.length hnil
      rw [List.length_take, appendedBytes_length, List.length_nil] at hlen
      omega
    exact not_undamaged_of_part uninit hrows hpart (FileSystem.write_self ..) (h hfits)
  · rintro (rfl | hfits) hfailed
    · rw [List.take_zero, List.append_nil, FileSystem.write_same hfile]
      exact undamaged_stream uninit hrows hfile
    · exact absurd hfits hfailed

/-- A row that does not fit into the buffer of the stream. -/
def unbufferedRow : StringList := [CString.ofBuffer (List.replicate 5000 120)]

theorem binaryWriterAppendRow_failed_full :
    (binaryWriterAppendRowWithin 0 (some (lit "t.data")) (fun _ => some []) unbufferedRow).2.1 = -1 ∧
    Undamaged (fun _ => 0) (lit "t.data") []
      (binaryWriterAppendRowWithin 0 (some (lit "t.data")) (fun _ => some []) unbufferedRow).1 := by
  have hfails : (binaryWriterAppendRowWithin 0 (some (lit "t.data")) (fun _ => some [])
      unbufferedRow).2.1 = -1 := by decide +kernel
  exact ⟨hfails, (binaryWriterAppendRow_failed (fun _ => 0) (fun _ => some []) (lit "t.data") []
    unbufferedRow 0 (by simp) rfl).mpr (Or.inl rfl) hfails⟩

/-- An append of it with room for the field count and the length only: the table is no longer read to
its end. -/
theorem binaryWriterAppendRow_failed_payload :
    (binaryWriterAppendRowWithin 8 (some (lit "t.data")) (fun _ => some []) unbufferedRow).2.1 = -1 ∧
    binaryReaderScanAll (fun _ => 0) (some (lit "t.data"))
      (binaryWriterAppendRowWithin 8 (some (lit "t.data")) (fun _ => some []) unbufferedRow).1
      (fun _ row s => some (0, s ++ [row])) [] = some (-1, ([] : List StringList)) := by
  decide +kernel

end MiniSql
