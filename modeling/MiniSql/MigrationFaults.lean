import MiniSql.ActiveTable
import MiniSql.FormatSniffing

/-!
# Activations under faults

`activate_storage_for_table` with every call in it that can fail: allocations, opening, reading, writing,
removing and renaming files.

* `ActivationFaults` says which of them do; `activateWithFaults` is the activation under them, and
  `activateWithFaults_none` gives back the one of a machine without faults.
* `migrateTextWithFaults`, `migrateIfTextWithFaults` and `buildWithFaults` are its parts.
* `Migrates`: the migration of the text returns 0; `IndexBuilds`: the index build on a data file succeeds.
* `StopsBeforeSwitch`: the activation fails while the text is in place, or puts it back.

The switch-over to the migrated file stands in front of the index build, which is what looks at the rows.

* `migrateIfTextWithFaults_cases`: on a text file the migration step stops with the text in place, stops
  without a data file, or switches over.
* `failed_activation_keeps_text`: so a failing activation keeps the text exactly as long as it does not get
  behind the switch-over, or the file it has switched to is the text again.
* `failed_activation_replaces_text`: a text row with an id that is no number is rejected only when the
  migrated file has taken the place of the text.
-/

namespace MiniSql

open Framing

/-! ### Faults -/

/-- What fails in an activation. -/
structure ActivationFaults where
  /-- `sql_strdup` of the data path -/
  activePath : Bool
  /-- `ensure_parent_directory`, with its error text -/
  parentDirectory : Option CString
  /-- the `fopen` that probes the data file -/
  probe : Bool
  /-- `write_text_file` for a new data file -/
  createData : Bool
  /-- the `fopen` of `file_looks_binary` -/
  sniffOpen : Bool
  /-- a read or a seek of `file_looks_binary` -/
  sniffRead : Bool
  /-- `malloc` of one of the two paths -/
  paths : Bool
  openText : Bool
  openTmp : Bool
  /-- the number of bytes after which `fgetc` reports a read error, which looks like the end -/
  readStop : Option ℕ
  /-- an allocation or an `fwrite` of the migration loop -/
  rowStep : Bool
  /-- the number of bytes that reach the temporary file by the time it is closed -/
  landed : Option ℕ
  removeTmp : Bool
  removeBak : Bool
  /-- `rename` of the data file to the backup -/
  renameText : Bool
  /-- `rename` of the temporary file to the data file -/
  renameTmp : Bool
  /-- `rename` of the backup back to the data file -/
  renameBack : Bool
  /-- an allocation or a read of the index build: its error and the globals it leaves -/
  build : Option (StorageError × Globals)

/-- Nothing fails. -/
def ActivationFaults.none : ActivationFaults :=
  ⟨false, .none, false, false, false, false, false, false, false, .none, false, .none, false, false,
    false, false, false, .none⟩

inductive ActivationError where
  | storage (e : StorageError)
  | activePath
  | parentDirectory (text : CString)
  | createData (path : CString)
  | paths
  deriving DecidableEq

def ActivationError.message : ActivationError → CString
  | storage e => e.message
  | activePath => lit "out of memory while switching active table"
  | parentDirectory text => text
  | createData path => lit "failed to open file for writing: " ++ path
  | paths => lit "out of memory while preparing migration paths"

/-! ### The activation -/

/-- `remove`, which leaves a file it cannot remove. -/
def removeWithFault (fails : Bool) (files : FileSystem) (path : CString) : FileSystem :=
  if fails then files else files.remove path

/-- `rename`; `none` if it fails. -/
def renameWithFault (fails : Bool) (files : FileSystem) (old new : CString) : Option FileSystem :=
  if fails then none else files.rename old new

/-- The part of the text that the migration reads. -/
def ActivationFaults.textRead (faults : ActivationFaults) (text : Bytes) : Bytes :=
  text.take (faults.readStop.getD text.length)

/-- The part of an output that gets to the disk. -/
def ActivationFaults.written (faults : ActivationFaults) (out : Bytes) : Bytes :=
  out.take (faults.landed.getD out.length)

/-- `migrate_text_data_to_binary`.  Errors from closing the output are not looked at. -/
def migrateTextWithFaults (faults : ActivationFaults) (files : FileSystem)
    (textPath binPath : CString) : FileSystem × ℤ :=
  match if faults.openText then none else files textPath with
  | none => (files, -1)
  | some _ =>
      if faults.openTmp then (files, -1)
      else
        let text := faults.textRead (((files.write binPath []) textPath).getD [])
        let (out, rc) := migrateFrom (text.length + 1) text
        (files.write binPath (faults.written out), if faults.rowStep then -1 else rc)

/-- The data file is there, or made empty: also when only the probe could not open it. -/
def probeDataFile (faults : ActivationFaults) (files : FileSystem) (path : CString) :
    Option FileSystem :=
  if faults.probe = false ∧ files path ≠ none then some files
  else if faults.createData then none
  else some (files.write path [])

/-- `file_looks_binary`; a file that cannot be opened passes, one that cannot be read does not. -/
def looksBinaryWithFault (uninit : ℕ → UInt32) (faults : ActivationFaults)
    (content : Option Bytes) : Bool :=
  if faults.sniffOpen ∨ content = none then true
  else if faults.sniffRead then false
  else fileLooksBinary uninit content

/-- The migration step on the data file at `path`. -/
def migrateIfTextWithFaults (uninit : ℕ → UInt32) (faults : ActivationFaults) (files : FileSystem)
    (path : CString) : Option ActivationError × FileSystem :=
  if looksBinaryWithFault uninit faults (files path) then (none, files)
  else if faults.paths then (some .paths, files)
  else
    match migrateTextWithFaults faults files path (tmpPathOf path) with
    | (files, rc) =>
        if rc ≠ 0 then
          (some (.storage .migration), removeWithFault faults.removeTmp files (tmpPathOf path))
        else
          let files := removeWithFault faults.removeBak files (bakPathOf path)
          match renameWithFault faults.renameText files path (bakPathOf path) with
          | none =>
              (some (.storage .migrationBackup),
                removeWithFault faults.removeTmp files (tmpPathOf path))
          | some files =>
              match renameWithFault faults.renameTmp files (tmpPathOf path) path with
              | none =>
                  (some (.storage .migrationFinalize), removeWithFault faults.removeTmp
                    ((renameWithFault faults.renameBack files (bakPathOf path) path).getD files)
                    (tmpPathOf path))
              | some files => (none, files)

def buildWithFaults (uninit : ℕ → UInt32) (faults : ActivationFaults) (table : TableDefinition)
    (s : State) : Option ActivationError × State :=
  match faults.build with
  | some (e, g) => (some (.storage e), ⟨g, s.files⟩)
  | none =>
      let (e, s) := buildIndexForTable uninit table s
      (e.map .storage, s)

/-- `activate_storage_for_table`; `none` is success. -/
def activateWithFaults (uninit : ℕ → UInt32) (faults : ActivationFaults) (table : TableDefinition)
    (s : State) : Option ActivationError × State :=
  if alreadyActive table s.globals then
    (none, { s with globals := { s.globals with activeTable := some table } })
  else if faults.activePath then
    (some .activePath,
      ⟨{ switchedGlobals table s.globals with activeDataPath := none }, s.files⟩)
  else
    let g := switchedGlobals table s.globals
    match faults.parentDirectory with
    | some text => (some (.parentDirectory text), ⟨g, s.files⟩)
    | none =>
      match probeDataFile faults s.files table.dataPath with
      | none => (some (.createData table.dataPath), ⟨g, s.files⟩)
      | some files =>
        match migrateIfTextWithFaults uninit faults files table.dataPath with
        | (some e, files) => (some e, ⟨g, files⟩)
        | (none, files) => buildWithFaults uninit faults table ⟨g, files⟩

/-! ### Without faults -/

theorem looksBinaryWithFault_none (uninit : ℕ → UInt32) (content : Option Bytes) :
    looksBinaryWithFault uninit .none content = fileLooksBinary uninit content := by
  cases content with
  | none => rfl
  | some content => rfl

theorem migrateTextWithFaults_none (files : FileSystem) (textPath binPath : CString) :
    migrateTextWithFaults .none files textPath binPath =
      migrateTextDataToBinary files textPath binPath := by
  rw [migrateTextWithFaults, migrateTextDataToBinary]
  rw [show (if ActivationFaults.none.openText then none else files textPath) = files textPath from rfl]
  cases files textPath with
  | none => rfl
  | some content =>
    have hread : ∀ text, ActivationFaults.none.textRead text = text :=
      fun _ => List.take_length
    have hwritten : ∀ out, ActivationFaults.none.written out = out :=
      fun _ => List.take_length
    dsimp only
    rw [if_neg (show ¬ActivationFaults.none.openTmp = true from Bool.false_ne_true), hread]
    rcases migrateFrom _ _ with ⟨out, rc⟩
    dsimp only
    rw [hwritten]
    rfl

theorem migrateIfTextWithFaults_none (uninit : ℕ → UInt32) (files : FileSystem) (path : CString) :
    migrateIfTextWithFaults uninit .none files path =
      ((migrateIfText uninit files path).1.map .storage, (migrateIfText uninit files path).2) := by
  rw [migrateIfTextWithFaults, migrateIfText, migrateTextWithFaults_none]
  rw [looksBinaryWithFault_none]
  by_cases hbinary : fileLooksBinary uninit (files path) = true
  · rw [if_pos hbinary, if_pos hbinary]
    rfl
  · rw [if_neg hbinary, if_neg hbinary,
      if_neg (show ¬ActivationFaults.none.paths = true from Bool.false_ne_true)]
    rcases migrateTextDataToBinary files path (tmpPathOf path) with ⟨files₁, rc⟩
    dsimp only
    by_cases hrc : rc ≠ 0
    · rw [if_pos hrc, if_pos hrc]
      rfl
    · rw [if_neg hrc, if_neg hrc]
      have hremove : removeWithFault ActivationFaults.none.removeBak files₁ (bakPathOf path) =
          files₁.remove (bakPathOf path) := rfl
      have hrename : ∀ fs old new, renameWithFault ActivationFaults.none.renameText fs old new =
          fs.rename old new := fun _ _ _ => rfl
      have hrename' : ∀ fs old new, renameWithFault ActivationFaults.none.renameTmp fs old new =
          fs.rename old new := fun _ _ _ => rfl
      rw [hremove, hrename]
      cases (files₁.remove (bakPathOf path)).rename path (bakPathOf path) with
      | none => rfl
      | some files₂ =>
        dsimp only
        rw [hrename']
        cases files₂.rename (tmpPathOf path) path <;> rfl

/-- A machine without faults runs the plain activation. -/
theorem activateWithFaults_none (uninit : ℕ → UInt32) (table : TableDefinition) (s : State) :
    activateWithFaults uninit .none table s =
      ((activateStorageForTable uninit table s).1.map .storage,
        (activateStorageForTable uninit table s).2) := by
  rw [activateWithFaults, activateStorageForTable]
  by_cases hactive : alreadyActive table s.globals = true
  · rw [if_pos hactive, if_pos hactive]
    rfl
  · rw [if_neg hactive, if_neg hactive, switchStorageToTable_eq,
      if_neg (show ¬ActivationFaults.none.activePath = true from Bool.false_ne_true)]
    have hprobe : probeDataFile .none s.files table.dataPath =
        some (ensureDataFile s.files table.dataPath) := by
      rw [probeDataFile, ensureDataFile]
      by_cases hfile : s.files table.dataPath = none
      · rw [if_neg (fun h => h.2 hfile), if_pos hfile]
        rfl
      · rw [if_pos ⟨rfl, hfile⟩, if_neg hfile]
    rw [hprobe, show ActivationFaults.none.parentDirectory = none from rfl]
    dsimp only
    rw [migrateIfTextWithFaults_none]
    rcases migrateIfText uninit (ensureDataFile s.files table.dataPath) table.dataPath with
      ⟨_ | e, files⟩
    · rfl
    · rfl

/-! ### The switch-over -/

theorem removeWithFault_of_ne (fails : Bool) (files : FileSystem) {path p : CString} (h : p ≠ path) :
    removeWithFault fails files path p = files p := by
  rw [removeWithFault]
  split
  · rfl
  · exact FileSystem.remove_of_ne files h

/-- What the rename of an existing file does, if it works. -/
theorem renameWithFault_ok {files : FileSystem} {old new : CString} {content : Bytes}
    (h : files old = some content) :
    renameWithFault false files old new = some ((files.remove old).write new content) := by
  rw [renameWithFault, if_neg Bool.false_ne_true, FileSystem.rename, h]
  rfl

/-- What the migrated rows leave in the temporary file. -/
def ActivationFaults.landedRows (faults : ActivationFaults) (text : Bytes) : Bytes :=
  faults.written (migrated (faults.textRead text))

/-- The migration of the text into the temporary file returns 0. -/
structure Migrates (faults : ActivationFaults) (text : Bytes) : Prop where
  paths : faults.paths = false
  openText : faults.openText = false
  openTmp : faults.openTmp = false
  rowStep : faults.rowStep = false
  writable : ∀ row ∈ textRows (faults.textRead text), Writable row

section Migration

variable {faults : ActivationFaults} {files : FileSystem} {path binPath : CString} {text : Bytes}

theorem migrateTextWithFaults_ok (hm : Migrates faults text) (hne : path ≠ binPath)
    (hfile : files path = some text) :
    migrateTextWithFaults faults files path binPath =
      (files.write binPath (faults.landedRows text), 0) := by
  rw [migrateTextWithFaults, if_neg (by rw [hm.openText]; exact Bool.false_ne_true), hfile]
  dsimp only
  rw [if_neg (by rw [hm.openTmp]; exact Bool.false_ne_true), FileSystem.write_of_ne _ hne, hfile,
    Option.getD_some, (migrateFrom_iff _).mpr ⟨hm.writable, rfl⟩]
  dsimp only
  rw [if_neg (by rw [hm.rowStep]; exact Bool.false_ne_true)]
  rfl

theorem migrateTextWithFaults_failed (hpaths : faults.paths = false) (hm : ¬Migrates faults text)
    (hne : path ≠ binPath) (hfile : files path = some text) :
    ∃ files' rc, migrateTextWithFaults faults files path binPath = (files', rc) ∧ rc ≠ 0 ∧
      ∀ p, p ≠ binPath → files' p = files p := by
  rw [migrateTextWithFaults]
  cases hopenText : faults.openText with
  | true => exact ⟨files, -1, rfl, by decide, fun _ _ => rfl⟩
  | false =>
    rw [if_neg Bool.false_ne_true, hfile]
    dsimp only
    cases hopenTmp : faults.openTmp with
    | true => exact ⟨files, -1, rfl, by decide, fun _ _ => rfl⟩
    | false =>
      rw [if_neg Bool.false_ne_true, FileSystem.write_of_ne _ hne, hfile, Option.getD_some]
      refine ⟨_, _, rfl, ?_, fun p hp => FileSystem.write_of_ne _ hp _⟩
      cases hrowStep : faults.rowStep with
      | true => exact fun hrc => absurd (show (-1 : ℤ) = 0 from hrc) (by decide)
      | false =>
        intro hrc
        rw [if_neg Bool.false_ne_true] at hrc
        exact hm ⟨hpaths, hopenText, hopenTmp, hrowStep, (migrateFrom_rc _).mp hrc⟩

end Migration

/-- The activation fails while the text is in place, or puts it back. -/
def StopsBeforeSwitch (faults : ActivationFaults) (text : Bytes) : Prop :=
  ¬Migrates faults text ∨ faults.renameText = true ∨
    (faults.renameTmp = true ∧ faults.renameBack = false)

section Switch

variable {faults : ActivationFaults} {files : FileSystem} {path : CString} {text : Bytes}

/-- How the migration step ends on a text file: stopped with the text in place, stopped without a data
file, or switched over. -/
theorem migrateIfTextWithFaults_cases (uninit : ℕ → UInt32) (hfile : files path = some text)
    (hlooks : looksBinaryWithFault uninit faults (some text) = false) :
    (StopsBeforeSwitch faults text ∧ ∃ e files',
      migrateIfTextWithFaults uninit faults files path = (some e, files') ∧
      files' path = some text ∧
      (¬Migrates faults text → ∀ p, p ≠ tmpPathOf path → files' p = files p)) ∨
    (¬StopsBeforeSwitch faults text ∧ faults.renameTmp = true ∧ ∃ e files',
      migrateIfTextWithFaults uninit faults files path = (some e, files') ∧ files' path = none) ∨
    (¬StopsBeforeSwitch faults text ∧ faults.renameTmp = false ∧ ∃ files',
      migrateIfTextWithFaults uninit faults files path = (none, files') ∧
      files' path = some (faults.landedRows text) ∧ files' (bakPathOf path) = some text) := by
  have htmp := tmpPathOf_ne path
  have hbak := bakPathOf_ne path
  have htb := tmpPathOf_ne_bakPathOf path
  rw [migrateIfTextWithFaults, hfile, hlooks, if_neg Bool.false_ne_true]
  by_cases hm : Migrates faults text
  · rw [hm.paths, if_neg Bool.false_ne_true, migrateTextWithFaults_ok hm htmp hfile]
    dsimp only
    rw [if_neg (not_not.mpr rfl)]
    generalize hstart : removeWithFault faults.removeBak
      (files.write (tmpPathOf path) (faults.landedRows text)) (bakPathOf path) = start
    have hdata : start path = some text := by
      rw [← hstart, removeWithFault_of_ne _ _ hbak, FileSystem.write_of_ne _ htmp, hfile]
    have hlanded : start (tmpPathOf path) = some (faults.landedRows text) := by
      rw [← hstart, removeWithFault_of_ne _ _ htb, FileSystem.write_self]
    cases hrename : faults.renameText with
    | true =>
      refine Or.inl ⟨Or.inr (Or.inl hrename), _, _, rfl, ?_, fun h => absurd hm h⟩
      rw [removeWithFault_of_ne _ _ htmp, hdata]
    | false =>
      have hnotStops : StopsBeforeSwitch faults text ↔
          faults.renameTmp = true ∧ faults.renameBack = false := by
        rw [StopsBeforeSwitch, hrename]
        simp [hm]
      rw [renameWithFault_ok hdata]
      dsimp only
      generalize hmoved : (start.remove path).write (bakPathOf path) text = moved
      have hgone : moved path = none := by
        rw [← hmoved, FileSystem.write_of_ne _ hbak]
        exact if_pos rfl
      have hbackup : moved (bakPathOf path) = some text := by
        rw [← hmoved, FileSystem.write_self]
      have hready : moved (tmpPathOf path) = some (faults.landedRows text) := by
        rw [← hmoved, FileSystem.write_of_ne _ htb, FileSystem.remove_of_ne _ htmp.symm, hlanded]
      cases hfinal : faults.renameTmp with
      | true =>
        rw [renameWithFault, if_pos rfl]
        dsimp only
        cases hback : faults.renameBack with
        | true =>
          refine Or.inr (Or.inl ⟨fun h => ?_, rfl, _, _, rfl, ?_⟩)
          · exact Bool.false_ne_true ((hnotStops.mp h).2.symm.trans hback)
          · rw [removeWithFault_of_ne _ _ htmp]
            exact hgone
        | false =>
          refine Or.inl ⟨hnotStops.mpr ⟨hfinal, hback⟩, _, _, rfl, ?_, fun h => absurd hm h⟩
          rw [removeWithFault_of_ne _ _ htmp, renameWithFault_ok hbackup, Option.getD_some,
            FileSystem.write_self]
      | false =>
        rw [renameWithFault_ok hready]
        refine Or.inr (Or.inr ⟨fun h => ?_, rfl, _, rfl, FileSystem.write_self .., ?_⟩)
        · exact Bool.false_ne_true (hfinal.symm.trans (hnotStops.mp h).1)
        · rw [FileSystem.write_of_ne _ hbak.symm, FileSystem.remove_of_ne _ htb.symm, hbackup]
  · refine Or.inl ⟨Or.inl hm, ?_⟩
    cases hpaths : faults.paths with
    | true => exact ⟨_, _, rfl, hfile, fun _ _ _ => rfl⟩
    | false =>
      obtain ⟨files', rc, heq, hrc, hframe⟩ := migrateTextWithFaults_failed hpaths hm htmp hfile
      rw [if_neg Bool.false_ne_true, heq]
      dsimp only
      rw [if_pos hrc]
      refine ⟨_, _, rfl, ?_, fun _ p hp => ?_⟩
      · rw [removeWithFault_of_ne _ _ htmp, hframe path htmp, hfile]
      · rw [removeWithFault_of_ne _ _ hp, hframe p hp]

end Switch

/-! ### The index build -/

/-- The rows an index build accepts: each has an id, no two the same, and likewise a `student_no` if
the table has the column. -/
structure Loadable (columns : StringList) (rows : List (RowRef × StringList)) : Prop where
  ids : ∀ e ∈ rows, ∃ id, idOf columns e.2 = some id
  ids_nodup : (idsOf columns rows).Nodup
  studentNos : HasStudentNo columns →
    (∀ e ∈ rows, ∃ v, studentNoOf columns e.2 = some v ∧ v.bytes ≠ []) ∧
      (studentNosOf columns rows).Nodup

theorem Loadable.snoc_iff {columns : StringList} {rows : List (RowRef × StringList)} {ref : RowRef}
    {row : StringList} : Loadable columns (rows ++ [(ref, row)]) ↔
      Loadable columns rows ∧ ∃ id, NewRow columns rows row id := by
  have hnodup : ∀ {α : Type} (l : List α) (a : α), (l ++ [a]).Nodup ↔ l.Nodup ∧ a ∉ l := by
    intro α l a
    rw [List.nodup_append_comm, List.singleton_append, List.nodup_cons, and_comm]
  constructor
  · intro h
    obtain ⟨id, hid⟩ := h.ids (ref, row) (by simp)
    have hids := h.ids_nodup
    rw [idsOf_snoc hid, hnodup] at hids
    have hstudent : HasStudentNo columns → ∃ v, studentNoOf columns row = some v ∧ v.bytes ≠ [] ∧
        (studentNosOf columns rows).Nodup ∧ v ∉ studentNosOf columns rows := by
      intro hs
      obtain ⟨hall, hnos⟩ := h.studentNos hs
      obtain ⟨v, hv, hne⟩ := hall (ref, row) (by simp)
      rw [studentNosOf_append, studentNosOf_singleton hv, hnodup] at hnos
      exact ⟨v, hv, hne, hnos⟩
    refine ⟨⟨fun e he => h.ids e (List.mem_append_left _ he), hids.1, fun hs => ?_⟩, id, hid, hids.2,
      fun hs => ?_⟩
    · obtain ⟨v, -, -, hnos, -⟩ := hstudent hs
      exact ⟨fun e he => (h.studentNos hs).1 e (List.mem_append_left _ he), hnos⟩
    · obtain ⟨v, hv, hne, -, hnew⟩ := hstudent hs
      exact ⟨v, hv, hne, hnew⟩
  · rintro ⟨h, id, hn⟩
    refine ⟨?_, ?_, fun hs => ?_⟩
    · intro e he
      rcases List.mem_append.mp he with he | he
      · exact h.ids e he
      · rw [List.mem_singleton.mp he]
        exact ⟨id, hn.id_eq⟩
    · rw [idsOf_snoc hn.id_eq, hnodup]
      exact ⟨h.ids_nodup, hn.id_new⟩
    · obtain ⟨v, hv, hne, hnew⟩ := hn.studentNo hs
      obtain ⟨hall, hnos⟩ := h.studentNos hs
      constructor
      · intro e he
        rcases List.mem_append.mp he with he | he
        · exact hall e he
        · rw [List.mem_singleton.mp he]
          exact ⟨v, hv, hne⟩
      · rw [studentNosOf_append, studentNosOf_singleton hv, hnodup]
        exact ⟨hnos, hnew⟩

theorem built_iff_loadable (columns : StringList) (rows : List (RowRef × StringList)) :
    (∃ b, Built columns rows b) ↔ Loadable columns rows := by
  induction rows using List.reverseRecOn with
  | nil =>
    refine ⟨fun _ => ⟨fun e he => absurd he (by simp), by simp [idsOf, bindingsOf], fun _ => ?_⟩,
      fun _ => ⟨_, built_nil columns⟩⟩
    exact ⟨fun e he => absurd he (by simp), by simp [studentNosOf]⟩
  | append_singleton rows e ih =>
    obtain ⟨ref, row⟩ := e
    rw [Loadable.snoc_iff, ← ih]
    constructor
    · rintro ⟨b, hb⟩
      obtain ⟨b₁, id, hb₁, hn⟩ := hb.newRow
      exact ⟨⟨b₁, hb₁⟩, id, hn⟩
    · rintro ⟨⟨b, hb⟩, id, hn⟩
      obtain ⟨index', -, hb'⟩ := hb.snoc hn ref
      exact ⟨_, hb'⟩

/-- The index build on a data file with this content succeeds. -/
structure IndexBuilds (uninit : ℕ → UInt32) (faults : ActivationFaults) (table : TableDefinition)
    (content : Bytes) : Prop where
  build : faults.build = none
  id_column : findColumnIndex table.columns idName ≠ none
  clean : (scannedRows uninit content).2 = true
  loadable : Loadable table.columns (scannedRows uninit content).1

theorem buildIndexForTable_files (uninit : ℕ → UInt32) (table : TableDefinition) (s : State) :
    (buildIndexForTable uninit table s).2.files = s.files := by
  rw [buildIndexForTable]
  rcases indexInit s.globals.index with ⟨rc, index⟩
  dsimp only
  split
  · rfl
  · split
    · rfl
    · split
      · rfl
      · split <;> rfl

/-- No index build touches the files. -/
theorem buildWithFaults_files (uninit : ℕ → UInt32) (faults : ActivationFaults)
    (table : TableDefinition) (s : State) :
    (buildWithFaults uninit faults table s).2.files = s.files := by
  rw [buildWithFaults]
  cases faults.build with
  | some e => rfl
  | none => exact buildIndexForTable_files uninit table s

theorem buildWithFaults_ok (uninit : ℕ → UInt32) (faults : ActivationFaults)
    (table : TableDefinition) (g : Globals) {files : FileSystem} {content : Bytes}
    (hf : g.index.heap.callocFails = []) (hfile : files table.dataPath = some content) :
    (buildWithFaults uninit faults table ⟨switchedGlobals table g, files⟩).1 = none ↔
      IndexBuilds uninit faults table content := by
  rw [buildWithFaults]
  cases hbuild : faults.build with
  | some e =>
    obtain ⟨e, g'⟩ := e
    refine ⟨fun h => absurd h (by simp), fun h => ?_⟩
    rw [h.build] at hbuild
    cases hbuild
  | none =>
    rcases buildIndexForTable_cases uninit table g files hf with ⟨b, hb, heq⟩ | ⟨hno, e, g', heq⟩
    · rw [heq]
      obtain ⟨content', hfile', hclean, hbuilt⟩ := hb.built
      obtain rfl : content' = content := Option.some.inj (hfile'.symm.trans hfile)
      exact ⟨fun _ => ⟨hbuild, hb.id_column, hclean, (built_iff_loadable _ _).mp ⟨b, hbuilt⟩⟩,
        fun _ => rfl⟩
    · rw [heq]
      refine ⟨fun h => absurd h (by simp), fun h => ?_⟩
      obtain ⟨b, hb⟩ := (built_iff_loadable _ _).mpr h.loadable
      exact absurd ⟨b, hb.loads hfile h.id_column h.clean⟩ hno

/-! ### Failing activations of a text file -/

/-- The activation gets to the format test with the data file as it was, and finds that it is no binary
file. -/
def FindsText (uninit : ℕ → UInt32) (faults : ActivationFaults) (table : TableDefinition)
    (s : State) : Prop :=
  alreadyActive table s.globals = false ∧ faults.activePath = false ∧
    faults.parentDirectory = none ∧
      ∃ files, probeDataFile faults s.files table.dataPath = some files ∧
        files table.dataPath = s.files table.dataPath ∧
        looksBinaryWithFault uninit faults (files table.dataPath) = false

/-- **Failing activations.**  When an activation finds a text file, then the data file still holds the
text after a failure exactly in these cases: the activation stops in front of the switch-over or undoes
it; the rows that were switched to make an index, so that there is no failure; or they are the very
bytes of the text. -/
theorem failed_activation_keeps_text (uninit : ℕ → UInt32) (faults : ActivationFaults)
    (table : TableDefinition) (s : State) (text : Bytes) (hf : NoFail s)
    (hfile : s.files table.dataPath = some text) (hfinds : FindsText uninit faults table s) :
    ((activateWithFaults uninit faults table s).1 ≠ none →
        (activateWithFaults uninit faults table s).2.files table.dataPath = some text) ↔
      StopsBeforeSwitch faults text ∨ (faults.renameTmp = false ∧
        (faults.landedRows text = text ∨
          IndexBuilds uninit faults table (faults.landedRows text))) := by
  obtain ⟨hactive, hpath, hparent, files, hprobe, hsame, hlooks⟩ := hfinds
  rw [hfile] at hsame
  rw [hsame] at hlooks
  rw [activateWithFaults, if_neg (by rw [hactive]; exact Bool.false_ne_true),
    if_neg (by rw [hpath]; exact Bool.false_ne_true), hparent]
  dsimp only
  rw [hprobe]
  dsimp only
  rcases migrateIfTextWithFaults_cases uninit hsame hlooks with ⟨hstops, e, files', heq, hkept, -⟩ |
    ⟨hstops, htmp, e, files', heq, hgone⟩ | ⟨hstops, htmp, files', heq, hdata, -⟩
  · rw [heq]
    exact ⟨fun _ => Or.inl hstops, fun _ _ => hkept⟩
  · rw [heq]
    dsimp only
    rw [hgone]
    constructor
    · intro h
      exact absurd (h (by simp)) (by simp)
    · rintro (h | ⟨h, -⟩)
      · exact absurd h hstops
      · rw [htmp] at h
        cases h
  · have hok := buildWithFaults_ok uninit faults table s.globals hf hdata
    rw [heq]
    dsimp only
    rw [buildWithFaults_files]
    dsimp only
    rw [hdata, Option.some.injEq, Ne, hok, htmp]
    constructor
    · intro h
      by_cases hbuilds : IndexBuilds uninit faults table (faults.landedRows text)
      · exact Or.inr ⟨rfl, Or.inr hbuilds⟩
      · exact Or.inr ⟨rfl, Or.inl (h hbuilds)⟩
    · rintro (h | ⟨-, h | h⟩) hfails
      · exact absurd h hstops
      · exact h
      · exact absurd h hfails

/-- A text row with the id `x`. -/
def invalidIdText : Bytes := (lit "x|a\n").bytes

theorem invalidIdText_finds (faults : ActivationFaults) (hpath : faults.activePath = false)
    (hparent : faults.parentDirectory = none) (hprobe : faults.probe = false)
    (hopen : faults.sniffOpen = false) (hread : faults.sniffRead = false) :
    FindsText (fun _ => 0) faults nameTable (State.fresh (nameFiles invalidIdText)) := by
  refine ⟨by decide +kernel, hpath, hparent, nameFiles invalidIdText, ?_, rfl, ?_⟩
  · exact if_pos ⟨hprobe, by decide +kernel⟩
  · rw [looksBinaryWithFault, hopen, hread]
    decide +kernel

/-- When the second rename fails and the first one is undone, the text is back. -/
theorem failed_activation_keeps_text_undone :
    (activateWithFaults (fun _ => 0) { ActivationFaults.none with renameTmp := true } nameTable
      (State.fresh (nameFiles invalidIdText))).1 ≠ none ∧
    (activateWithFaults (fun _ => 0) { ActivationFaults.none with renameTmp := true } nameTable
      (State.fresh (nameFiles invalidIdText))).2.files nameTable.dataPath = some invalidIdText := by
  have hfails : (activateWithFaults (fun _ => 0) { ActivationFaults.none with renameTmp := true }
      nameTable (State.fresh (nameFiles invalidIdText))).1 ≠ none := by decide +kernel
  have hkeeps := failed_activation_keeps_text (fun _ => 0)
    { ActivationFaults.none with renameTmp := true } nameTable
    (State.fresh (nameFiles invalidIdText)) invalidIdText rfl (by decide +kernel)
    (invalidIdText_finds _ rfl rfl rfl rfl rfl)
  exact ⟨hfails, hkeeps.mpr (Or.inl (Or.inr (Or.inr ⟨rfl, rfl⟩))) hfails⟩

/-- The row is rejected only after the migrated file has taken the place of the text. -/
theorem failed_activation_replaces_text :
    FindsText (fun _ => 0) .none nameTable (State.fresh (nameFiles invalidIdText)) ∧
    (activateWithFaults (fun _ => 0) .none nameTable
      (State.fresh (nameFiles invalidIdText))).1 = some (.storage .rowIdColumn) ∧
    (activateWithFaults (fun _ => 0) .none nameTable
      (State.fresh (nameFiles invalidIdText))).2.files nameTable.dataPath ≠ some invalidIdText :=
  ⟨invalidIdText_finds _ rfl rfl rfl rfl rfl, by decide +kernel, by decide +kernel⟩

end MiniSql
