import MiniSql.Caches
import MiniSql.Statements

/-!
# Activation

What `activate_storage_for_table` does to the data file and to the globals.

* `Loads` says that a scan of all rows of the data file of a table succeeds and what it builds;
  `loadedGlobals` are the globals that it leaves.
* `TouchedBy` are the paths a migration may touch: the data file, its temporary and its backup file.

Main results:

* `migrateIfText_cases`: the three ways the migration step can end.
* `buildIndexForTable_cases`: the index build loads the data file, or fails without touching the files.
* `switchStorageToTable_cases`: a full activation loads the data file, or it fails and the data file it leaves
  cannot be loaded.
* `switchStorageToTable_congr`: a full activation does not depend on the globals it starts from.  The early
  return does, and its test looks only at the active path and at `g_index_ready`.
* `activateStorageForTable_files`, `activateStorageForTable_keeps`: what an activation leaves alone.
-/

namespace MiniSql

/-! ### Paths -/

theorem append_ne_of_suffix {s t : CString} (n : ℕ) (hs : n ≤ s.length) (ht : n ≤ t.length)
    (hne : s.bytes.reverse.take n ≠ t.bytes.reverse.take n) (a b : CString) : a ++ s ≠ b ++ t := by
  intro heq
  have hbytes := congrArg (fun x => (CString.bytes x).reverse.take n) heq
  simp only [CString.append_bytes, List.reverse_append] at hbytes
  rw [List.take_append_of_le_length (by rw [List.length_reverse]; exact hs),
    List.take_append_of_le_length (by rw [List.length_reverse]; exact ht)] at hbytes
  exact hne hbytes

theorem append_ne_self {t : CString} (ht : 0 < t.length) (a : CString) : a ≠ a ++ t := by
  intro heq
  have hlen := congrArg (fun x => (CString.bytes x).length) heq
  have hpos : 0 < t.bytes.length := ht
  simp only [CString.append_bytes, List.length_append] at hlen
  omega

theorem tmpPathOf_ne (path : CString) : path ≠ tmpPathOf path := append_ne_self (by decide) path

theorem bakPathOf_ne (path : CString) : path ≠ bakPathOf path := append_ne_self (by decide) path

theorem tmpPathOf_ne_bakPathOf (path : CString) : tmpPathOf path ≠ bakPathOf path :=
  append_ne_of_suffix 1 (by decide) (by decide) (by decide) path path

/-- A path that a migration of `path` may touch. -/
def TouchedBy (path p : CString) : Prop := p = path ∨ p = tmpPathOf path ∨ p = bakPathOf path

/-- What a loaded table definition is. -/
theorem loadTableDefinition_ok {dbRoot : CString} {files : FileSystem} {name : QualifiedName}
    {table : TableDefinition} (h : loadTableDefinition dbRoot files name = .ok table) :
    ∃ base content, buildTablePaths dbRoot name = .ok (base ++ lit ".schema", base ++ lit ".data") ∧
      files table.schemaPath = some content ∧
      table = ⟨name, splitPipeLine content, base ++ lit ".schema", base ++ lit ".data"⟩ ∧
      (splitPipeLine content).map CString.bytes ≠ [[]] := by
  rw [loadTableDefinition, buildTablePaths] at h
  rw [buildTablePaths]
  split at h
  · cases h
  · rename_i schemaPath dataPath hpaths
    by_cases hempty : name.table.bytes = []
    · rw [if_pos hempty] at hpaths
      cases hpaths
    · rw [if_neg hempty] at hpaths ⊢
      obtain ⟨rfl, rfl⟩ := Prod.mk.inj (Except.ok.inj hpaths)
      split at h
      · cases h
      · rename_i content hcontent
        dsimp only at h
        by_cases hcols : (splitPipeLine content).map CString.bytes = [[]]
        · rw [if_pos hcols] at h
          cases h
        · rw [if_neg hcols] at h
          obtain rfl := Except.ok.inj h
          exact ⟨_, content, rfl, hcontent, rfl, hcols⟩

/-- Loading a table reads the schema file only. -/
theorem loadTableDefinition_congr {dbRoot : CString} {files files' : FileSystem}
    {name : QualifiedName} {table : TableDefinition}
    (h : loadTableDefinition dbRoot files name = .ok table)
    (hschema : files' table.schemaPath = files table.schemaPath) :
    loadTableDefinition dbRoot files' name = .ok table := by
  obtain ⟨base, content, hpaths, hcontent, rfl, hcols⟩ := loadTableDefinition_ok h
  rw [loadTableDefinition, hpaths]
  dsimp only
  dsimp only at hschema hcontent
  rw [hschema, hcontent]
  exact if_neg hcols

theorem schemaPath_not_touched {dbRoot : CString} {files : FileSystem} {name : QualifiedName}
    {table : TableDefinition} (h : loadTableDefinition dbRoot files name = .ok table)
    (path base : CString) (hpath : path = base ++ lit ".data") :
    ¬TouchedBy path table.schemaPath := by
  obtain ⟨base', content, -, -, rfl, -⟩ := loadTableDefinition_ok h
  subst hpath
  rintro (heq | heq | heq)
  · exact append_ne_of_suffix 2 (by decide) (by decide) (by decide) _ _ heq
  · exact append_ne_of_suffix 1 (by decide) (by decide) (by decide) _ _ heq
  · exact append_ne_of_suffix 1 (by decide) (by decide) (by decide) _ _ heq

/-! ### The migration step -/

/-- The three ways the migration step can end: nothing to do, migrated, or `migrate` failed and the
text is still in place. -/
theorem migrateIfText_cases (uninit : ℕ → UInt32) {files : FileSystem} {path : CString}
    {content : Bytes} (hfile : files path = some content) :
    (fileLooksBinary uninit (some content) = true ∧ migrateIfText uninit files path = (none, files)) ∨
    (fileLooksBinary uninit (some content) = false ∧ ∃ out files',
      migrateFrom (content.length + 1) content = (out, 0) ∧
      migrateIfText uninit files path = (none, files') ∧ files' path = some out ∧
      files' (bakPathOf path) = some content ∧ ∀ p, ¬TouchedBy path p → files' p = files p) ∨
    (fileLooksBinary uninit (some content) = false ∧ ∃ files',
      migrateIfText uninit files path = (some .migration, files') ∧ files' path = some content ∧
      ∀ p, ¬TouchedBy path p → files' p = files p) := by
  rw [migrateIfText, hfile]
  cases hlooks : fileLooksBinary uninit (some content) with
  | true => exact Or.inl ⟨rfl, rfl⟩
  | false =>
    right
    have htmp := tmpPathOf_ne path
    have hbak := bakPathOf_ne path
    have htb := tmpPathOf_ne_bakPathOf path
    rw [if_neg (by decide), migrateTextDataToBinary_eq htmp hfile]
    simp only [true_and]
    rcases migrateFrom (content.length + 1) content with ⟨out, rc⟩
    by_cases hrc : rc ≠ 0
    · right
      rw [if_pos hrc]
      refine ⟨_, rfl, ?_, fun p hp => ?_⟩
      · rw [FileSystem.remove_of_ne _ htmp, FileSystem.write_of_ne _ htmp, hfile]
      · have hp2 : p ≠ tmpPathOf path := fun h => hp (Or.inr (Or.inl h))
        exact (FileSystem.remove_of_ne _ hp2).trans (FileSystem.write_of_ne _ hp2 _)
    · left
      obtain rfl : rc = 0 := not_not.mp hrc
      rw [if_neg hrc]
      have hback : ((files.write (tmpPathOf path) out).remove (bakPathOf path)).rename path
          (bakPathOf path) = some ((((files.write (tmpPathOf path) out).remove
            (bakPathOf path)).remove path).write (bakPathOf path) content) := by
        rw [FileSystem.rename, FileSystem.remove_of_ne _ hbak, FileSystem.write_of_ne _ htmp, hfile]
        rfl
      rw [hback]
      generalize hfiles₂ : (((files.write (tmpPathOf path) out).remove
        (bakPathOf path)).remove path).write (bakPathOf path) content = files₂
      have hout : files₂ (tmpPathOf path) = some out := by
        rw [← hfiles₂, FileSystem.write_of_ne _ htb, FileSystem.remove_of_ne _ htmp.symm,
          FileSystem.remove_of_ne _ htb, FileSystem.write_self]
      have hbackup : files₂ (bakPathOf path) = some content := by
        rw [← hfiles₂, FileSystem.write_self]
      have hfinal : files₂.rename (tmpPathOf path) path =
          some ((files₂.remove (tmpPathOf path)).write path out) := by
        rw [FileSystem.rename, hout]
        rfl
      dsimp only
      rw [hfinal]
      refine ⟨out, _, rfl, rfl, FileSystem.write_self .., ?_, fun p hp => ?_⟩
      · rw [FileSystem.write_of_ne _ hbak.symm, FileSystem.remove_of_ne _ htb.symm, hbackup]
      · have hp1 : p ≠ path := fun h => hp (Or.inl h)
        have hp2 : p ≠ tmpPathOf path := fun h => hp (Or.inr (Or.inl h))
        have hp3 : p ≠ bakPathOf path := fun h => hp (Or.inr (Or.inr h))
        rw [FileSystem.write_of_ne _ hp1, FileSystem.remove_of_ne _ hp2, ← hfiles₂,
          FileSystem.write_of_ne _ hp3, FileSystem.remove_of_ne _ hp1,
          FileSystem.remove_of_ne _ hp3, FileSystem.write_of_ne _ hp2]

/-! ### The index build -/

/-- The globals a successful activation leaves. -/
def loadedGlobals (table : TableDefinition) (b : IndexBuild) : Globals :=
  ⟨b.index, b.maxId, some table.dataPath, some table, findColumnIndex table.columns studentNoName,
    b.studentNoSet⟩

/-- A scan of all rows of the data file of the table succeeds and builds `b`. -/
structure Loads (uninit : ℕ → UInt32) (table : TableDefinition) (files : FileSystem)
    (b : IndexBuild) : Prop where
  id_column : findColumnIndex table.columns idName ≠ none
  scan : binaryReaderScanAll uninit (some table.dataPath) files (buildCallback table.columns)
    (startBuild table.columns) = some (0, b)

/-- A successful scan gets to the end of the file, and every row it reads joins the caches. -/
theorem Loads.built {uninit : ℕ → UInt32} {table : TableDefinition} {files : FileSystem}
    {b : IndexBuild} (h : Loads uninit table files b) :
    ∃ content, files table.dataPath = some content ∧ (scannedRows uninit content).2 = true ∧
      Built table.columns (scannedRows uninit content).1 b := by
  have hscan := h.scan
  cases hfile : files table.dataPath with
  | none =>
    rw [binaryReaderScanAll, Option.bind_some, hfile] at hscan
    exact absurd (Prod.mk.inj (Option.some.inj hscan)).1 (by decide)
  | some content =>
    rw [binaryReaderScanAll_eq uninit hfile] at hscan
    rcases buildCallback_foldRows table.columns (scannedRows uninit content).1
      (startBuild table.columns) with ⟨b', hb'⟩ | ⟨b', hb'⟩
    · rw [hb', scanResult] at hscan
      obtain ⟨hrc, rfl⟩ := Prod.mk.inj (Option.some.inj hscan)
      refine ⟨content, rfl, ?_, hb'⟩
      by_contra hclean
      rw [if_neg hclean] at hrc
      exact absurd hrc (by decide)
    · rw [hb', scanResult] at hscan
      exact absurd (Prod.mk.inj (Option.some.inj hscan)).1 (by decide)

/-- A file of which every row joins the caches is loaded. -/
theorem Built.loads {uninit : ℕ → UInt32} {table : TableDefinition} {files : FileSystem}
    {content : Bytes} {b : IndexBuild} (hfile : files table.dataPath = some content)
    (hid : findColumnIndex table.columns idName ≠ none)
    (hclean : (scannedRows uninit content).2 = true)
    (hb : Built table.columns (scannedRows uninit content).1 b) : Loads uninit table files b := by
  refine ⟨hid, ?_⟩
  rw [Built] at hb
  rw [binaryReaderScanAll_eq uninit hfile, hb, scanResult, if_pos hclean]

/-- The globals when the index build starts. -/
def switchedGlobals (table : TableDefinition) (g : Globals) : Globals :=
  { g with
    activeStudentNoColumn := none
    studentNoSet := studentNoSetFree
    activeDataPath := some table.dataPath }

theorem buildIndexForTable_eq (uninit : ℕ → UInt32) (table : TableDefinition) (g : Globals)
    (files : FileSystem) (hf : g.index.heap.callocFails = []) :
    buildIndexForTable uninit table ⟨switchedGlobals table g, files⟩ =
      if findColumnIndex table.columns idName = none then
        (some .idColumnMissing,
          ⟨{ switchedGlobals table g with index := (startBuild table.columns).index }, files⟩)
      else
        match binaryReaderScanAll uninit (some table.dataPath) files (buildCallback table.columns)
            (startBuild table.columns) with
        | none =>
            (some .scan, ⟨{ switchedGlobals table g with
              index := (startBuild table.columns).index
              studentNoSet := (startBuild table.columns).studentNoSet
              activeStudentNoColumn := findColumnIndex table.columns studentNoName }, files⟩)
        | some (rc, b) =>
            if rc ≠ 0 then
              (some (b.error.getD .scan), ⟨{ loadedGlobals table b with
                nextIdCounter := g.nextIdCounter
                activeTable := g.activeTable }, files⟩)
            else (none, ⟨loadedGlobals table b, files⟩) := by
  have hinit : indexInit (switchedGlobals table g).index = (0, (startBuild table.columns).index) :=
    indexInit_start hf table.columns
  rw [buildIndexForTable, hinit]
  simp only [ne_eq, not_true_eq_false, if_false]
  by_cases hid : findColumnIndex table.columns idName = none
  · rw [if_pos hid, if_pos hid]
  · rw [if_neg hid, if_neg hid]
    cases hcol : findColumnIndex table.columns studentNoName with
    | none =>
      unfold startBuild buildCallback loadedGlobals
      rw [hcol]
      rfl
    | some column =>
      unfold startBuild buildCallback loadedGlobals
      rw [hcol]
      rfl

/-- The outcome of the index build: loaded, or failed without touching the files. -/
theorem buildIndexForTable_cases (uninit : ℕ → UInt32) (table : TableDefinition) (g : Globals)
    (files : FileSystem) (hf : g.index.heap.callocFails = []) :
    (∃ b, Loads uninit table files b ∧
      buildIndexForTable uninit table ⟨switchedGlobals table g, files⟩ =
        (none, ⟨loadedGlobals table b, files⟩)) ∨
    ((¬∃ b, Loads uninit table files b) ∧ ∃ e g',
      buildIndexForTable uninit table ⟨switchedGlobals table g, files⟩ = (some e, ⟨g', files⟩)) := by
  rw [buildIndexForTable_eq uninit table g files hf]
  by_cases hid : findColumnIndex table.columns idName = none
  · rw [if_pos hid]
    exact Or.inr ⟨fun ⟨b, hb⟩ => hb.id_column hid, _, _, rfl⟩
  · rw [if_neg hid]
    rcases hscan : binaryReaderScanAll uninit (some table.dataPath) files
      (buildCallback table.columns) (startBuild table.columns) with _ | ⟨rc, b⟩
    · refine Or.inr ⟨fun ⟨b, hb⟩ => ?_, _, _, rfl⟩
      rw [hb.scan] at hscan
      cases hscan
    · dsimp only
      by_cases hrc : rc ≠ 0
      · rw [if_pos hrc]
        refine Or.inr ⟨fun ⟨b', hb⟩ => ?_, _, _, rfl⟩
        rw [hb.scan] at hscan
        exact hrc (Prod.mk.inj (Option.some.inj hscan)).1.symm
      · rw [if_neg hrc]
        obtain rfl : rc = 0 := not_not.mp hrc
        exact Or.inl ⟨b, ⟨hid, hscan⟩, rfl⟩

/-! ### A full activation -/

/-- The data file at the start of an activation: a missing one is created. -/
def ensureDataFile (files : FileSystem) (path : CString) : FileSystem :=
  if files path = none then files.write path [] else files

theorem ensureDataFile_self (files : FileSystem) (path : CString) :
    ensureDataFile files path path = some ((files path).getD []) := by
  rw [ensureDataFile]
  cases h : files path with
  | none => rw [if_pos rfl, FileSystem.write_self]; rfl
  | some content => rw [if_neg (by simp), h]; rfl

theorem ensureDataFile_of_ne (files : FileSystem) {path p : CString} (hp : p ≠ path) :
    ensureDataFile files path p = files p := by
  rw [ensureDataFile]
  split
  · exact FileSystem.write_of_ne files hp []
  · rfl

theorem switchStorageToTable_eq (uninit : ℕ → UInt32) (table : TableDefinition) (s : State) :
    switchStorageToTable uninit table s =
      match migrateIfText uninit (ensureDataFile s.files table.dataPath) table.dataPath with
      | (some e, files) => (some e, ⟨switchedGlobals table s.globals, files⟩)
      | (none, files) => buildIndexForTable uninit table ⟨switchedGlobals table s.globals, files⟩ :=
  rfl

/-- A full activation gives the same result and the same files whatever the globals were; a
successful one also leaves the same globals. -/
theorem switchStorageToTable_congr (uninit : ℕ → UInt32) (table : TableDefinition) {g g' : Globals}
    (files : FileSystem) (hf : g.index.heap.callocFails = []) (hf' : g'.index.heap.callocFails = []) :
    (switchStorageToTable uninit table ⟨g, files⟩).1 =
        (switchStorageToTable uninit table ⟨g', files⟩).1 ∧
      (switchStorageToTable uninit table ⟨g, files⟩).2.files =
        (switchStorageToTable uninit table ⟨g', files⟩).2.files ∧
      ((switchStorageToTable uninit table ⟨g, files⟩).1 = none →
        (switchStorageToTable uninit table ⟨g, files⟩).2 =
          (switchStorageToTable uninit table ⟨g', files⟩).2) := by
  rw [switchStorageToTable_eq, switchStorageToTable_eq]
  dsimp only
  rcases migrateIfText uninit (ensureDataFile files table.dataPath) table.dataPath with ⟨_ | e, files'⟩
  · dsimp only
    rw [buildIndexForTable_eq uninit table g files' hf, buildIndexForTable_eq uninit table g' files' hf']
    by_cases hid : findColumnIndex table.columns idName = none
    · rw [if_pos hid, if_pos hid]
      exact ⟨rfl, rfl, fun h => by cases h⟩
    · rw [if_neg hid, if_neg hid]
      rcases binaryReaderScanAll uninit (some table.dataPath) files' (buildCallback table.columns)
        (startBuild table.columns) with _ | ⟨rc, b⟩
      · exact ⟨rfl, rfl, fun h => by cases h⟩
      · dsimp only
        by_cases hrc : rc ≠ 0
        · rw [if_pos hrc, if_pos hrc]
          exact ⟨rfl, rfl, fun h => by cases h⟩
        · rw [if_neg hrc, if_neg hrc]
          exact ⟨rfl, rfl, fun _ => rfl⟩
  · exact ⟨rfl, rfl, fun h => by cases h⟩

/-- What a full activation does: it loads the data file, or it fails and the data file it leaves
cannot be loaded. -/
theorem switchStorageToTable_cases (uninit : ℕ → UInt32) (table : TableDefinition) (s : State)
    (hf : s.globals.index.heap.callocFails = []) :
    (∃ b files', Loads uninit table files' b ∧
      switchStorageToTable uninit table s = (none, ⟨loadedGlobals table b, files'⟩)) ∨
    ∃ e g' files', switchStorageToTable uninit table s = (some e, ⟨g', files'⟩) ∧
      ¬∃ b, Loads uninit table files' b := by
  rw [switchStorageToTable_eq]
  have hfile := ensureDataFile_self s.files table.dataPath
  have hbuild := fun files' => buildIndexForTable_cases uninit table s.globals files' hf
  rcases migrateIfText_cases uninit hfile with ⟨-, hm⟩ | ⟨-, out, files', -, hm, -⟩ |
    ⟨hlooks, files', hm, hdata, -⟩
  · rw [hm]
    rcases hbuild (ensureDataFile s.files table.dataPath) with ⟨b, hb, heq⟩ | ⟨hno, e, g', heq⟩
    · exact Or.inl ⟨b, _, hb, heq⟩
    · exact Or.inr ⟨e, g', _, heq, hno⟩
  · rw [hm]
    rcases hbuild files' with ⟨b, hb, heq⟩ | ⟨hno, e, g', heq⟩
    · exact Or.inl ⟨b, _, hb, heq⟩
    · exact Or.inr ⟨e, g', _, heq, hno⟩
  · -- the text could not be migrated; the reader rejects it as the sniffer did
    rw [hm]
    refine Or.inr ⟨_, _, _, rfl, fun ⟨b, hb⟩ => ?_⟩
    obtain ⟨e, he⟩ := binaryReadRow_of_not_looksBinary uninit hlooks
    have hscan := hb.scan
    rw [binaryReaderScanAll, Option.bind_some, hdata] at hscan
    dsimp only at hscan
    rw [scanFrom, he] at hscan
    exact absurd (Prod.mk.inj (Option.some.inj hscan)).1 (by decide)

/-- An activation touches only the data file of its table and the two files of a migration. -/
theorem activateStorageForTable_files (uninit : ℕ → UInt32) (table : TableDefinition) (s : State)
    (hf : s.globals.index.heap.callocFails = []) {p : CString} (hp : ¬TouchedBy table.dataPath p) :
    (activateStorageForTable uninit table s).2.files p = s.files p := by
  have hbuild : ∀ files', (buildIndexForTable uninit table
      ⟨switchedGlobals table s.globals, files'⟩).2.files = files' := by
    intro files'
    rcases buildIndexForTable_cases uninit table s.globals files' hf with
      ⟨b, -, heq⟩ | ⟨-, e, g', heq⟩ <;> rw [heq]
  have hne : p ≠ table.dataPath := fun h => hp (Or.inl h)
  rw [activateStorageForTable]
  split
  · rfl
  · rw [switchStorageToTable_eq]
    rcases migrateIfText_cases uninit (ensureDataFile_self s.files table.dataPath) with
      ⟨-, hm⟩ | ⟨-, out, files', -, hm, -, -, hframe⟩ | ⟨-, files', hm, -, hframe⟩
    · rw [hm]
      dsimp only
      rw [hbuild, ensureDataFile_of_ne _ hne]
    · rw [hm]
      dsimp only
      rw [hbuild, hframe p hp, ensureDataFile_of_ne _ hne]
    · rw [hm]
      dsimp only
      rw [hframe p hp, ensureDataFile_of_ne _ hne]

/-! ### What the caches keep -/

section Keeps

variable {P : IdIndex → Prop} {Q : StudentNoSet → Prop}

/-- What inserts keep, and what holds of new caches and of a freed set, an activation keeps. -/
theorem activateStorageForTable_keeps (uninit : ℕ → UInt32) {table : TableDefinition}
    (hk : KeptByInserts P Q)
    (hstart : P (startBuild table.columns).index ∧ Q (startBuild table.columns).studentNoSet)
    (hfree : Q studentNoSetFree) {s : State} (hf : s.globals.index.heap.callocFails = [])
    (hs : P s.globals.index ∧ Q s.globals.studentNoSet) :
    P (activateStorageForTable uninit table s).2.globals.index ∧
      Q (activateStorageForTable uninit table s).2.globals.studentNoSet := by
  have hbuild : ∀ files, P (buildIndexForTable uninit table
      ⟨switchedGlobals table s.globals, files⟩).2.globals.index ∧
      Q (buildIndexForTable uninit table
        ⟨switchedGlobals table s.globals, files⟩).2.globals.studentNoSet := by
    intro files
    rw [buildIndexForTable_eq uninit table s.globals files hf]
    split
    · exact ⟨hstart.1, hfree⟩
    · rcases hscan : binaryReaderScanAll uninit (some table.dataPath) files
        (buildCallback table.columns) (startBuild table.columns) with _ | ⟨rc, b⟩
      · exact hstart
      · have hb := binaryReaderScanAll_preserves uninit
          (P := fun b : IndexBuild => P b.index ∧ Q b.studentNoSet)
          (fun _ _ _ _ _ hb => buildCallback_keeps hk hb) hstart hscan
        dsimp only
        split <;> exact hb
  rw [activateStorageForTable]
  split
  · exact hs
  · rw [switchStorageToTable_eq]
    rcases migrateIfText uninit (ensureDataFile s.files table.dataPath) table.dataPath with
      ⟨_ | e, files⟩
    · exact hbuild files
    · exact ⟨hs.1, hfree⟩

theorem storeRow_keeps (hk : KeptByInserts P Q) (columns : StringList) (plan : InsertPlan)
    {s : State} (hs : P s.globals.index ∧ Q s.globals.studentNoSet) :
    P (storeRow columns plan s).2.globals.index ∧
      Q (storeRow columns plan s).2.globals.studentNoSet := by
  obtain ⟨-, -, -, hindex, hset⟩ := storeRow_globals columns plan s
  constructor
  · rcases hindex with heq | ⟨id, ref, heq⟩ <;> rw [heq]
    · exact hs.1
    · exact hk.index s.globals.index id ref hs.1
  · rcases hset with heq | ⟨v, heq⟩ <;> rw [heq]
    · exact hs.2
    · exact hk.set s.globals.studentNoSet v hs.2

end Keeps

end MiniSql
