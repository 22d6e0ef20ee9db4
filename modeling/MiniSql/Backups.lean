import MiniSql.MigrationFaults

/-!
# The backup of a migration

A migration keeps the text in the `.text.bak` file, and removes what was there before.  Every activation tests
the format again, so a migrated file that looks like text is migrated a second time, and the backup of the
text is gone.

* `ActivationEvent` is a start of a process or an attempt to activate the table, under any faults of memory
  but none of files; `runActivations` is a sequence of them.
* `TextKept`: the text is the content of the data file or of its backup.
* `SurvivesRepetition`: the four ways in which a second migration cannot lose the text.

Main results:

* `text_kept_by_activations`: over all sequences of starts and attempts the text is kept, exactly if it
  survives repetition.  `InPlace` is what the induction carries, `lost_by_twoStarts` the other direction.
* `survives_too_long`, `survives_fixed`: the third and the fourth way alone, on texts that the first two do
  not cover.
* `wideText_lost`: a text row of 4097 fields is lost at the second start.
-/

namespace MiniSql

open Framing

/-! ### Runs -/

/-- Only memory may run out: every file operation of the activation works. -/
structure ActivationFaults.FilesWork (faults : ActivationFaults) : Prop where
  probe : faults.probe = false
  createData : faults.createData = false
  sniffOpen : faults.sniffOpen = false
  sniffRead : faults.sniffRead = false
  openText : faults.openText = false
  openTmp : faults.openTmp = false
  readStop : faults.readStop = .none
  landed : faults.landed = .none
  removeTmp : faults.removeTmp = false
  removeBak : faults.removeBak = false
  renameText : faults.renameText = false
  renameTmp : faults.renameTmp = false
  renameBack : faults.renameBack = false

/-- What happens to a table: a new process starts, or an activation is attempted. -/
inductive ActivationEvent where
  | restart
  | attempt (uninit : ℕ → UInt32) (faults : ActivationFaults)

def ActivationEvent.FilesWork : ActivationEvent → Prop
  | .restart => True
  | .attempt _ faults => faults.FilesWork

def runActivationEvent (table : TableDefinition) (event : ActivationEvent) (s : State) : State :=
  match event with
  | .restart => State.fresh s.files
  | .attempt uninit faults => (activateWithFaults uninit faults table s).2

def runActivations (table : TableDefinition) : List ActivationEvent → State → State
  | [], s => s
  | event :: events, s => runActivations table events (runActivationEvent table event s)

/-- The text is the content of the data file or of its backup. -/
def TextKept (table : TableDefinition) (text : Bytes) (files : FileSystem) : Prop :=
  files table.dataPath = some text ∨ files (bakPathOf table.dataPath) = some text

/-! ### One attempt -/

section Attempt

variable {table : TableDefinition} {s : State} {content : Bytes}

/-- An attempt leaves the data file and the backup as they are, or migrates. -/
theorem attempt_files (uninit : ℕ → UInt32) {faults : ActivationFaults} (hw : faults.FilesWork)
    (hfile : s.files table.dataPath = some content) :
    ((activateWithFaults uninit faults table s).2.files table.dataPath = some content ∧
      (activateWithFaults uninit faults table s).2.files (bakPathOf table.dataPath) =
        s.files (bakPathOf table.dataPath)) ∨
    (fileLooksBinary uninit (some content) = false ∧ (∀ row ∈ textRows content, Writable row) ∧
      (activateWithFaults uninit faults table s).2.files table.dataPath =
        some (migrated content) ∧
      (activateWithFaults uninit faults table s).2.files (bakPathOf table.dataPath) =
        some content) := by
  have hread : faults.textRead content = content := by
    rw [ActivationFaults.textRead, hw.readStop]
    exact List.take_length
  have hlanded : faults.landedRows content = migrated content := by
    rw [ActivationFaults.landedRows, hread, ActivationFaults.written, hw.landed]
    exact List.take_length
  have hprobe : probeDataFile faults s.files table.dataPath = some s.files :=
    if_pos ⟨hw.probe, by rw [hfile]; simp⟩
  rw [activateWithFaults]
  split
  · exact Or.inl ⟨hfile, rfl⟩
  · split
    · exact Or.inl ⟨hfile, rfl⟩
    · cases faults.parentDirectory with
      | some text => exact Or.inl ⟨hfile, rfl⟩
      | none =>
        dsimp only
        rw [hprobe]
        dsimp only
        cases hlooks : looksBinaryWithFault uninit faults (some content) with
        | true =>
          rw [migrateIfTextWithFaults, hfile, if_pos hlooks]
          dsimp only
          rw [buildWithFaults_files]
          exact Or.inl ⟨hfile, rfl⟩
        | false =>
          have htext : fileLooksBinary uninit (some content) = false := by
            rw [looksBinaryWithFault, hw.sniffOpen, hw.sniffRead] at hlooks
            exact hlooks
          rcases migrateIfTextWithFaults_cases uninit hfile hlooks with
            ⟨hstops, e, files', heq, hkept, hframe⟩ | ⟨-, htmp, -⟩ |
            ⟨hstops, -, files', heq, hdata, hbackup⟩
          · -- the files work, so it is the migration that stopped
            have hm : ¬Migrates faults content := by
              rcases hstops with hm | hrename | ⟨hrename, -⟩
              · exact hm
              · rw [hw.renameText] at hrename
                cases hrename
              · rw [hw.renameTmp] at hrename
                cases hrename
            rw [heq]
            exact Or.inl ⟨hkept, hframe hm _ (tmpPathOf_ne_bakPathOf table.dataPath).symm⟩
          · rw [hw.renameTmp] at htmp
            cases htmp
          · have hm : Migrates faults content := by
              by_contra hm
              exact hstops (Or.inl hm)
            have hwritable := hm.writable
            rw [hread] at hwritable
            rw [hlanded] at hdata
            rw [heq]
            dsimp only
            rw [buildWithFaults_files]
            exact Or.inr ⟨htext, hwritable, hdata, hbackup⟩

theorem filesWork_none : ActivationFaults.none.FilesWork :=
  ⟨rfl, rfl, rfl, rfl, rfl, rfl, rfl, rfl, rfl, rfl, rfl, rfl, rfl⟩

/-- In a new process without faults a text that can be migrated is migrated. -/
theorem attempt_migrates {uninit : ℕ → UInt32} {files : FileSystem}
    (hfile : files table.dataPath = some content)
    (htext : fileLooksBinary uninit (some content) = false)
    (hwritable : ∀ row ∈ textRows content, Writable row) :
    (activateWithFaults uninit .none table (State.fresh files)).2.files table.dataPath =
        some (migrated content) ∧
      (activateWithFaults uninit .none table (State.fresh files)).2.files
        (bakPathOf table.dataPath) = some content := by
  have hread : ActivationFaults.none.textRead content = content := List.take_length
  have hlanded : ActivationFaults.none.landedRows content = migrated content := by
    rw [ActivationFaults.landedRows, hread]
    exact List.take_length
  have hfresh : ¬alreadyActive table (State.fresh files).globals = true := by
    simp [alreadyActive, State.fresh, Globals.initial]
  have hprobe : probeDataFile .none (State.fresh files).files table.dataPath = some files :=
    if_pos ⟨rfl, by rw [show (State.fresh files).files = files from rfl, hfile]; simp⟩
  have hm : Migrates .none content := ⟨rfl, rfl, rfl, rfl, by rw [hread]; exact hwritable⟩
  rw [activateWithFaults, if_neg hfresh,
    if_neg (show ¬ActivationFaults.none.activePath = true from Bool.false_ne_true),
    show ActivationFaults.none.parentDirectory = none from rfl]
  dsimp only
  rw [hprobe]
  dsimp only
  rcases migrateIfTextWithFaults_cases uninit hfile
    (show looksBinaryWithFault uninit .none (some content) = false from htext) with
    ⟨hstops, -⟩ | ⟨-, htmp, -⟩ | ⟨-, -, files', heq, hdata, hbackup⟩
  · rcases hstops with hnot | hrename | ⟨hrename, -⟩
    · exact absurd hm hnot
    · cases hrename
    · cases hrename
  · cases htmp
  · rw [heq]
    dsimp only
    rw [buildWithFaults_files, ← hlanded]
    exact ⟨hdata, hbackup⟩

end Attempt

/-! ### All runs -/

/-- A second migration cannot lose the text: there is none, because the text or the migrated rows
cannot be migrated or because the migrated file looks binary, or it gives the text back. -/
def SurvivesRepetition (text : Bytes) : Prop :=
  (¬∀ row ∈ textRows text, Writable row) ∨
  (∀ row ∈ (textRows text).head?, Sniffable row) ∨
  (¬∀ row ∈ textRows (migrated text), Writable row) ∨
  migrated (migrated text) = text

/-- The text is in the data file, or in the backup after a migration. -/
def InPlace (table : TableDefinition) (text : Bytes) (files : FileSystem) : Prop :=
  files table.dataPath = some text ∨
    ((∀ row ∈ textRows text, Writable row) ∧ files table.dataPath = some (migrated text) ∧
      files (bakPathOf table.dataPath) = some text)

/-- What decides about a migrated file is the first row. -/
theorem fileLooksBinary_migrated (uninit : ℕ → UInt32) {text : Bytes}
    (hw : ∀ row ∈ textRows text, Writable row) :
    fileLooksBinary uninit (some (migrated text)) = true ↔
      ∀ row ∈ (textRows text).head?, Sniffable row := by
  rw [migrated]
  cases hrows : textRows text with
  | nil => simp [stream, fileLooksBinary, readU32]
  | cons row rows =>
    rw [hrows] at hw
    rw [stream_cons, fileLooksBinary_row uninit (hw row List.mem_cons_self)]
    simp

theorem InPlace.attempt {table : TableDefinition} {text : Bytes} {s : State}
    (hsurvives : SurvivesRepetition text) (h : InPlace table text s.files) (uninit : ℕ → UInt32)
    {faults : ActivationFaults} (hw : faults.FilesWork) :
    InPlace table text (activateWithFaults uninit faults table s).2.files := by
  rcases h with hdata | ⟨hrows, hdata, hbackup⟩
  · rcases attempt_files uninit hw hdata with ⟨hsame, -⟩ | ⟨-, hrows, hmigrated, hbackup⟩
    · exact Or.inl hsame
    · exact Or.inr ⟨hrows, hmigrated, hbackup⟩
  · rcases attempt_files uninit hw hdata with ⟨hsame, hsame'⟩ | ⟨htext, hwritable, hmigrated, -⟩
    · exact Or.inr ⟨hrows, hsame, hsame'.trans hbackup⟩
    · -- the data file is migrated a second time
      rcases hsurvives with hnot | hsniff | hnot | hback
      · exact absurd hrows hnot
      · rw [(fileLooksBinary_migrated uninit hrows).mpr hsniff] at htext
        cases htext
      · exact absurd hwritable hnot
      · rw [hback] at hmigrated
        exact Or.inl hmigrated

theorem InPlace.run {table : TableDefinition} {text : Bytes} (hsurvives : SurvivesRepetition text)
    {events : List ActivationEvent} (hw : ∀ event ∈ events, event.FilesWork) {s : State}
    (h : InPlace table text s.files) :
    InPlace table text (runActivations table events s).files := by
  induction events generalizing s with
  | nil => exact h
  | cons event events ih =>
    obtain ⟨hevent, hevents⟩ := List.forall_mem_cons.mp hw
    apply ih hevents
    cases event with
    | restart => exact h
    | attempt uninit faults => exact h.attempt hsurvives uninit hevent

/-- Two starts with an activation each. -/
def twoStarts (uninit : ℕ → UInt32) : List ActivationEvent :=
  [.restart, .attempt uninit .none, .restart, .attempt uninit .none]

theorem twoStarts_filesWork (uninit : ℕ → UInt32) : ∀ event ∈ twoStarts uninit, event.FilesWork := by
  simp [twoStarts, ActivationEvent.FilesWork, filesWork_none]

/-- Two migrations in a row leave the text only if they give it back. -/
theorem lost_by_twoStarts {uninit : ℕ → UInt32} {table : TableDefinition} {s : State} {text : Bytes}
    (hfile : s.files table.dataPath = some text)
    (htext : fileLooksBinary uninit (some text) = false)
    (hrows : ∀ row ∈ textRows text, Writable row)
    (hsniff : ¬∀ row ∈ (textRows text).head?, Sniffable row)
    (hrows' : ∀ row ∈ textRows (migrated text), Writable row)
    (hback : migrated (migrated text) ≠ text) :
    ¬TextKept table text (runActivations table (twoStarts uninit) s).files := by
  have hlooks : fileLooksBinary uninit (some (migrated text)) = false := by
    rw [← Bool.not_eq_true, fileLooksBinary_migrated uninit hrows]
    exact hsniff
  obtain ⟨hdata₁, -⟩ := attempt_migrates hfile htext hrows
  obtain ⟨hdata₂, hbackup₂⟩ := attempt_migrates hdata₁ hlooks hrows'
  intro hkept
  rw [TextKept] at hkept
  simp only [twoStarts, runActivations, runActivationEvent] at hkept
  rw [hdata₂, hbackup₂, Option.some.injEq, Option.some.injEq] at hkept
  rcases hkept with heq | heq
  · exact hback heq
  · rw [heq, heq] at hback
    exact hback rfl

/-- **Repeated activations.**  Take any text file that the format test classifies as text.  Over all
sequences of process starts and activations, whatever their results, the text stays in the data file
or in the backup exactly if a second migration cannot lose it. -/
theorem text_kept_by_activations (uninit : ℕ → UInt32) (table : TableDefinition) (s : State)
    (text : Bytes) (hfile : s.files table.dataPath = some text)
    (htext : fileLooksBinary uninit (some text) = false) :
    (∀ events : List ActivationEvent, (∀ event ∈ events, event.FilesWork) →
        TextKept table text (runActivations table events s).files) ↔
      SurvivesRepetition text := by
  constructor
  · intro h
    by_contra hlost
    simp only [SurvivesRepetition, not_or, not_not] at hlost
    obtain ⟨hrows, hsniff, hrows', hback⟩ := hlost
    exact lost_by_twoStarts hfile htext hrows hsniff hrows' hback
      (h (twoStarts uninit) (twoStarts_filesWork uninit))
  · intro hsurvives events hw
    rcases InPlace.run hsurvives hw (Or.inl hfile : InPlace table text s.files) with
      hdata | ⟨-, -, hbackup⟩
    · exact Or.inl hdata
    · exact Or.inr hbackup

theorem text_kept_by_activations_row :
    TextKept nameTable (lit "1|a\n").bytes
      (runActivations nameTable (twoStarts fun _ => 0)
        (State.fresh (nameFiles (lit "1|a\n").bytes))).files := by
  refine (text_kept_by_activations (fun _ => 0) nameTable _ (lit "1|a\n").bytes rfl
    (by decide +kernel)).mpr (Or.inr (Or.inl fun row hrow => ?_)) _ (twoStarts_filesWork _)
  have hhead : (textRows (lit "1|a\n").bytes).head? = some [lit "1", lit "a"] := by decide +kernel
  rw [hhead] at hrow
  obtain rfl := Option.some.inj hrow
  have hreadable : Readable [lit "1", lit "a"] := ⟨by decide, by decide, by decide⟩
  exact hreadable.sniffable

/-! ### Files that survive in other ways -/

/-- The field `aa...a`. -/
def letters (n : ℕ) : CString := ⟨List.replicate n 97, by simp⟩

/-- A byte that stands for itself in a text row. -/
def IsPlain (c : UInt8) : Prop := c ≠ 0 ∧ c ≠ 10 ∧ c ≠ 13 ∧ c ≠ 124 ∧ c ≠ 92

theorem splitPipeFrom_plainBytes {bytes : Bytes} (h : ∀ c ∈ bytes, IsPlain c) (buffer rest : Bytes) :
    splitPipeFrom buffer (bytes ++ rest) = splitPipeFrom (buffer ++ bytes) rest := by
  induction bytes generalizing buffer with
  | nil => rw [List.nil_append, List.append_nil]
  | cons c bytes ih =>
    obtain ⟨⟨hzero, hten, hreturn, hpipe, hescape⟩, hbytes⟩ := List.forall_mem_cons.mp h
    rw [List.cons_append, splitPipeFrom_plain (by simp [hzero, hten]) hreturn hpipe hescape, ih hbytes,
      List.append_assoc, List.singleton_append]

theorem splitPipeFrom_returns (r : ℕ) (buffer rest : Bytes) :
    splitPipeFrom buffer (List.replicate r 13 ++ rest) = splitPipeFrom buffer rest := by
  induction r with
  | zero => rfl
  | succ r ih => rw [List.replicate_succ, List.cons_append, splitPipeFrom_return, ih]

theorem letters_plain (n : ℕ) : ∀ c ∈ (letters n).bytes, IsPlain c := by
  intro c hc
  rw [List.eq_of_mem_replicate hc]
  exact ⟨by decide, by decide, by decide, by decide, by decide⟩

/-- `k` fields, each behind a pipe and some carriage returns, which do not count. -/
def letterFields (r n k : ℕ) : Bytes :=
  (List.replicate k (124 :: (List.replicate r 13 ++ (letters n).bytes))).flatten

theorem splitPipeFrom_letterFields (r n k : ℕ) (buffer : Bytes) :
    splitPipeFrom buffer (letterFields r n k) =
      CString.ofBuffer buffer :: List.replicate k (letters n) := by
  induction k generalizing buffer with
  | zero => rfl
  | succ k ih =>
    rw [letterFields, List.replicate_succ, List.flatten_cons, List.cons_append, splitPipeFrom_pipe,
      List.append_assoc, splitPipeFrom_returns, splitPipeFrom_plainBytes (letters_plain n), List.nil_append]
    show _ :: splitPipeFrom (letters n).bytes (letterFields r n k) = _
    rw [ih, CString.ofBuffer_of_bytes, List.replicate_succ]

/-- A text of one line, without its newline. -/
theorem textRows_line {line : Bytes} {row : StringList} (hnewline : (10 : UInt8) ∉ line) (hne : line ≠ [])
    (hsplit : splitPipeLine line = row) (hrow : row.map CString.bytes ≠ [[]]) : textRows line = [row] := by
  rw [textRows_cons (readTextLine_last hnewline) hne (by rw [hsplit]; exact hrow), hsplit, textRows_nil]

theorem newline_notMem_letterFields (r n k : ℕ) : (10 : UInt8) ∉ letterFields r n k := by
  intro hmem
  obtain ⟨field, hfield, hbyte⟩ := List.mem_flatten.mp hmem
  rw [List.eq_of_mem_replicate hfield] at hbyte
  simp [List.mem_replicate, letters] at hbyte

theorem letters_ne_nil {n : ℕ} (hn : 0 < n) : (letters n).bytes ≠ [] := by
  obtain ⟨k, rfl⟩ : ∃ k, n = k + 1 := ⟨n - 1, by omega⟩
  simp [letters]

/-- Behind some carriage returns, one field and `k` fields of another length. -/
theorem textRows_letters (start r m k : ℕ) {n : ℕ} (hn : 0 < n) :
    textRows (List.replicate start 13 ++ ((letters n).bytes ++ letterFields r m k)) =
      [letters n :: List.replicate k (letters m)] := by
  apply textRows_line
  · rw [List.mem_append, List.mem_append, not_or, not_or]
    refine ⟨fun hmem => ?_, fun hmem => (letters_plain n 10 hmem).2.1 rfl,
      newline_notMem_letterFields r m k⟩
    exact absurd (List.eq_of_mem_replicate hmem) (by decide)
  · exact List.append_ne_nil_of_right_ne_nil _
      (List.append_ne_nil_of_left_ne_nil (letters_ne_nil hn) _)
  · rw [splitPipeLine, splitPipeFrom_returns, splitPipeFrom_plainBytes (letters_plain n),
      splitPipeFrom_letterFields, List.nil_append, CString.ofBuffer_of_bytes]
  · rw [List.map_cons]
    exact fun h => letters_ne_nil hn (List.cons.inj h).1

/-- Bytes that stand for themselves are one field. -/
theorem textRows_plain {line : Bytes} (hplain : ∀ c ∈ line, IsPlain c) (hne : line ≠ []) :
    textRows line = [[CString.ofBuffer line]] := by
  have hnul : (0 : UInt8) ∉ line := fun hmem => (hplain 0 hmem).1 rfl
  apply textRows_line
  · exact fun hmem => (hplain 10 hmem).2.1 rfl
  · exact hne
  · have hline := splitPipeFrom_plainBytes hplain [] []
    rw [List.append_nil, List.nil_append] at hline
    rw [splitPipeLine, hline, splitPipeFrom]
  · rw [List.map_singleton, CString.ofBuffer_bytes hnul]
    exact fun hnil => hne (List.cons.inj hnil).1

theorem migrated_row {text : Bytes} {row : StringList} (h : textRows text = [row]) :
    migrated text = encodeRow row := by
  rw [migrated, h, stream_cons, stream_nil, List.append_nil]

theorem letters_length (n : ℕ) : (letters n).length = n := List.length_replicate

theorem letters_writable {n : ℕ} (hn : n ≤ uint32Max) {k : ℕ} :
    Writable (List.replicate k (letters n)) := by
  intro value hvalue
  rw [List.eq_of_mem_replicate hvalue, letters_length]
  exact hn

/-- More than 4096 fields. -/
theorem not_sniffable {row : StringList} (hlow : maxBinaryFields < row.length)
    (hhigh : row.length < 2 ^ 32) : ¬Sniffable row := by
  intro h
  have hcount := h.count_le
  rw [Nat.mod_eq_of_lt hhigh] at hcount
  omega

/-- A row whose field count and lengths are plain bytes. -/
theorem encodeRow_letters_plain {n : ℕ} (hn : encodeU32 n = [1, 1, 1, 1]) :
    ∀ c ∈ encodeRow (List.replicate n (letters n)), IsPlain c := by
  have hone : ∀ c ∈ ([1, 1, 1, 1] : Bytes), IsPlain c := by
    intro c hc
    have hc : c = 1 := by simpa using hc
    rw [hc]
    exact ⟨by decide, by decide, by decide, by decide, by decide⟩
  intro c hc
  rw [encodeRow, List.length_replicate, hn, List.flatMap_replicate] at hc
  rcases List.mem_append.mp hc with hc | hc
  · exact hone c hc
  · obtain ⟨field, hfield, hc⟩ := List.mem_flatten.mp hc
    rw [List.eq_of_mem_replicate hfield, encodeField, letters_length, hn] at hc
    rcases List.mem_append.mp hc with hc | hc
    · exact hone c hc
    · exact letters_plain n c hc

theorem encodeRow_letters_length (n k : ℕ) :
    (encodeRow (List.replicate k (letters n))).length = 4 + k * (4 + n) := by
  rw [encodeRow, List.flatMap_replicate, List.length_append, List.length_flatten, List.map_replicate,
    List.sum_replicate, encodeField, List.length_append, encodeU32_length, encodeU32_length, smul_eq_mul]
  exact congrArg (fun length => 4 + k * (4 + length)) (letters_length n)

/-- The third case alone: a line of `0x01010101` fields of as many letters.  Its count and its lengths have
no byte that ends a field or a line, so the migrated file is one field, and too long a one. -/
theorem survives_too_long : ∃ text, fileLooksBinary (fun _ => 0) (some text) = false ∧
    (∀ row ∈ textRows text, Writable row) ∧ (¬∀ row ∈ (textRows text).head?, Sniffable row) ∧
      ¬∀ row ∈ textRows (migrated text), Writable row := by
  obtain ⟨n, hn⟩ : ∃ n : ℕ, n = 16843009 := ⟨_, rfl⟩
  have hencode : encodeU32 n = [1, 1, 1, 1] := by
    rw [hn]
    decide
  obtain ⟨k, hk⟩ : ∃ k, n = k + 1 := ⟨n - 1, by omega⟩
  have hpos : 0 < n := by omega
  have htext : textRows ((letters n).bytes ++ letterFields 0 n k) = [List.replicate n (letters n)] := by
    have h := textRows_letters 0 0 n k hpos
    rw [List.replicate_zero, List.nil_append, ← List.replicate_succ, ← hk] at h
    exact h
  -- the migrated file is one field
  have hplain := encodeRow_letters_plain hencode
  have hlength : uint32Max < (encodeRow (List.replicate n (letters n))).length := by
    rw [encodeRow_letters_length, hn]
    decide
  have hne : encodeRow (List.replicate n (letters n)) ≠ [] := by
    intro hnil
    rw [hnil] at hlength
    exact absurd hlength (by decide)
  refine ⟨(letters n).bytes ++ letterFields 0 n k, ?_, ?_, ?_, ?_⟩
  · refine (fileLooksBinary_text _ (List.append_ne_nil_of_left_ne_nil (letters_ne_nil hpos) _) ?_).mpr ?_
    · rw [List.mem_append, not_or]
      refine ⟨(letters n).nul_free, fun hmem => ?_⟩
      obtain ⟨field, hfield, hbyte⟩ := List.mem_flatten.mp hmem
      rw [List.eq_of_mem_replicate hfield] at hbyte
      simp [letters] at hbyte
    · rw [List.length_append, letters, List.length_replicate]
      omega
  · rw [htext]
    exact List.forall_mem_singleton.mpr (letters_writable (by rw [hn]; decide))
  · rw [htext, List.head?_cons]
    intro h
    refine not_sniffable ?_ ?_ (h _ (Option.mem_some_self _))
    · rw [List.length_replicate, hn]
      decide
    · rw [List.length_replicate, hn]
      decide
  · rw [migrated_row htext, textRows_plain hplain hne]
    intro h
    have hfits := h _ (List.mem_singleton_self _) _ (List.mem_singleton_self _)
    rw [CString.length, CString.ofBuffer_bytes fun hmem => (hplain 0 hmem).1 rfl] at hfits
    exact absurd hfits (not_le.mpr hlength)

/-- The fourth case alone: the row of `0x0D0D0D0D` fields whose count is four carriage returns, as is the
length of the first field; the length of each other field is a pipe and three carriage returns.  Its
encoding, read as text, is the row again. -/
theorem survives_fixed : ∃ text, fileLooksBinary (fun _ => 0) (some text) = false ∧
    (∀ row ∈ textRows text, Writable row) ∧ (¬∀ row ∈ (textRows text).head?, Sniffable row) ∧
      (∀ row ∈ textRows (migrated text), Writable row) ∧ migrated (migrated text) = text := by
  obtain ⟨n, hn⟩ : ∃ n : ℕ, n = 218959117 := ⟨_, rfl⟩
  obtain ⟨m, hm⟩ : ∃ m : ℕ, m = 218959228 := ⟨_, rfl⟩
  have hcount : encodeU32 n = List.replicate 4 13 := by
    rw [hn]
    decide
  have hpipe : encodeU32 m = 124 :: List.replicate 3 13 := by
    rw [hm]
    decide
  obtain ⟨k, hk⟩ : ∃ k, n = k + 1 := ⟨n - 1, by omega⟩
  obtain ⟨row, hrow⟩ : ∃ row, row = letters n :: List.replicate k (letters m) := ⟨_, rfl⟩
  have hwidth : row.length = n := by rw [hrow, List.length_cons, List.length_replicate, hk]
  have hencode : encodeRow row =
      List.replicate 8 13 ++ ((letters n).bytes ++ letterFields 3 m k) := by
    rw [encodeRow, hwidth, hrow, List.flatMap_cons, List.flatMap_replicate, encodeField, encodeField,
      letters_length, letters_length, hcount, hpipe, List.append_assoc, letterFields, List.cons_append]
    rfl
  have htext : textRows (encodeRow row) = [row] := by
    rw [hencode, hrow]
    exact textRows_letters 8 3 m k (by omega)
  have hmigrated : migrated (encodeRow row) = encodeRow row := migrated_row htext
  have hwritable : Writable row := by
    rw [hrow]
    refine List.forall_mem_cons.mpr ⟨?_, letters_writable (by rw [hm]; decide)⟩
    rw [letters_length, hn]
    decide
  have hsniff : ¬Sniffable row := not_sniffable (by rw [hwidth, hn]; decide) (by rw [hwidth, hn]; decide)
  refine ⟨encodeRow row, ?_, ?_, ?_, ?_, ?_⟩
  · have hbinary := (fileLooksBinary_row (fun _ => 0) hwritable []).not.mpr hsniff
    rw [List.append_nil, Bool.not_eq_true] at hbinary
    exact hbinary
  · rw [htext]
    exact List.forall_mem_singleton.mpr hwritable
  · rw [htext, List.head?_cons]
    exact fun h => hsniff (h _ (Option.mem_some_self _))
  · rw [hmigrated, htext]
    exact List.forall_mem_singleton.mpr hwritable
  · rw [hmigrated, hmigrated]

/-! ### A row past the limit of the reader -/

/-- A text row with the id 1 and `n` empty fields. -/
def wideText (n : ℕ) : Bytes := 49 :: (List.replicate n 124 ++ [10])

def wideRow (n : ℕ) : StringList := lit "1" :: List.replicate n CString.empty

theorem splitPipeFrom_pipes (n : ℕ) (buffer : Bytes) :
    splitPipeFrom buffer (List.replicate n 124 ++ [10]) =
      CString.ofBuffer buffer :: List.replicate n CString.empty := by
  induction n generalizing buffer with
  | zero => exact splitPipeFrom_newline buffer []
  | succ n ih =>
    rw [List.replicate_succ, List.cons_append, splitPipeFrom_pipe, ih, List.replicate_succ]
    rfl

theorem textRows_wideText (n : ℕ) : textRows (wideText n) = [wideRow n] := by
  have hline : readTextLine (wideText n) = (wideText n, []) := by
    have h : (10 : UInt8) ∉ 49 :: List.replicate n (124 : UInt8) := by
      simp [List.mem_replicate]
    exact readTextLine_newline h []
  have hsplit : splitPipeLine (wideText n) = wideRow n := by
    rw [splitPipeLine, wideText, splitPipeFrom_plain (by decide) (by decide) (by decide) (by decide),
      splitPipeFrom_pipes]
    exact congrArg (· :: List.replicate n CString.empty) (by decide)
  have hne : wideText n ≠ [] := List.cons_ne_nil _ _
  have hrow : (splitPipeLine (wideText n)).map CString.bytes ≠ [[]] := by
    rw [hsplit, wideRow, List.map_cons]
    intro h
    exact absurd (List.cons.inj h).1 (by decide)
  rw [textRows_cons hline hne hrow, hsplit, textRows_nil]

theorem migrated_wideText (n : ℕ) : migrated (wideText n) = encodeRow (wideRow n) :=
  migrated_row (textRows_wideText n)

theorem wideText_looks_text {n : ℕ} (hn : 2 ≤ n) (uninit : ℕ → UInt32) :
    fileLooksBinary uninit (some (wideText n)) = false := by
  rw [wideText]
  refine (fileLooksBinary_text uninit (List.cons_ne_nil _ _) ?_).mpr ?_
  · simp [List.mem_replicate]
  · simp only [List.length_cons, List.length_append, List.length_replicate,
      List.length_nil]
    omega

theorem wideRow_length (n : ℕ) : (wideRow n).length = n + 1 := by
  rw [wideRow, List.length_cons, List.length_replicate]

theorem wideRow_writable (n : ℕ) : Writable (wideRow n) := by
  refine List.forall_mem_cons.mpr ⟨by decide, fun value hvalue => ?_⟩
  rw [List.eq_of_mem_replicate hvalue]
  decide

theorem newline_notMem_wideRow (n : ℕ) : (10 : UInt8) ∉ (wideRow n).flatMap encodeField := by
  intro hmem
  obtain ⟨value, hvalue, hbyte⟩ := List.mem_flatMap.mp hmem
  rcases List.mem_cons.mp hvalue with rfl | hvalue
  · exact absurd hbyte (by decide)
  · rw [List.eq_of_mem_replicate hvalue] at hbyte
    exact absurd hbyte (by decide)

theorem encodeRow_wideRow :
    encodeRow (wideRow 4096) = 1 :: 16 :: 0 :: 0 :: (wideRow 4096).flatMap encodeField := by
  have hcount : encodeU32 4097 = [1, 16, 0, 0] := by decide
  rw [encodeRow, wideRow_length, hcount]
  rfl

/-- The encoding starts with the field count, which read as text is a field of the bytes 1 and 16. -/
theorem textRows_encodeRow_wideRow :
    textRows (encodeRow (wideRow 4096)) = [[⟨[1, 16], by decide⟩]] := by
  rw [encodeRow_wideRow]
  have hline := @readTextLine_last (1 :: 16 :: 0 :: 0 :: (wideRow 4096).flatMap encodeField) (by
    simp only [List.mem_cons, newline_notMem_wideRow, or_false]
    decide)
  have hsplit : splitPipeLine (1 :: 16 :: 0 :: 0 :: (wideRow 4096).flatMap encodeField) =
      [⟨[1, 16], by decide⟩] := by
    rw [splitPipeLine, splitPipeFrom_plain (by decide) (by decide) (by decide) (by decide),
      splitPipeFrom_plain (by decide) (by decide) (by decide) (by decide)]
    rfl
  have hrow : (splitPipeLine (1 :: 16 :: 0 :: 0 :: (wideRow 4096).flatMap encodeField)).map
      CString.bytes ≠ [[]] := by
    rw [hsplit]
    decide
  rw [textRows_cons hline (List.cons_ne_nil _ _) hrow, hsplit, textRows_nil]

/-- A text row of 4097 fields is gone after the second activation, which takes the migrated file for a
text file and migrates it over the backup. -/
theorem wideText_lost :
    fileLooksBinary (fun _ => 0) (some (wideText 4096)) = false ∧
    (∀ event ∈ twoStarts fun _ => 0, event.FilesWork) ∧
    ¬TextKept nameTable (wideText 4096) (runActivations nameTable (twoStarts fun _ => 0)
      (State.fresh (nameFiles (wideText 4096)))).files := by
  have htext := wideText_looks_text (show 2 ≤ 4096 by decide) (fun _ => 0)
  have hfile : ∀ data, (State.fresh (nameFiles data)).files nameTable.dataPath = some data :=
    fun _ => rfl
  have hrows : ∀ row ∈ textRows (wideText 4096), Writable row := by
    rw [textRows_wideText]
    exact List.forall_mem_singleton.mpr (wideRow_writable 4096)
  have hrows' : ∀ row ∈ textRows (migrated (wideText 4096)), Writable row := by
    rw [migrated_wideText, textRows_encodeRow_wideRow]
    exact List.forall_mem_singleton.mpr (by decide)
  refine ⟨htext, twoStarts_filesWork _, lost_by_twoStarts (hfile _) htext hrows ?_ hrows' ?_⟩
  · rw [textRows_wideText, List.head?_cons]
    intro h
    have hcount := (h (wideRow 4096) (Option.mem_some_self _)).count_le
    rw [wideRow_length] at hcount
    exact absurd hcount (by decide)
  · rw [migrated_wideText, migrated, textRows_encodeRow_wideRow]
    exact fun heq => absurd (List.cons.inj heq).1 (by decide)

end MiniSql
