import MiniSql.History

/-!
# Tables that exist already

A process may find rows in its data files: in binary form, or as the text of an older version that the first
activation migrates.

* `ValidTable`: an activation accepts these rows.  The reader accepts them, they have a value for every column
  and distinct ids, and distinct values of `student_no` that are not empty, if there is such a column.
* `lastId` is the number their ids have come to.
* `IsTextOf content rows`: a file in text form that the migration makes these rows of.

Main results:

* `ValidTable.built`, `Built.lastId`: the scan of a valid table runs through, and leaves the counter at its
  last id; `ValidTable.of_built` is the other direction.
* `IsTextOf.migrated`: the migration of such a text.
* `activate_valid`: the activation of a valid table from a data file of either kind succeeds, and then the
  data file is in binary form.
-/

namespace MiniSql

open Framing

/-! ### Rows -/

/-- Rows the reader accepts, with a value for every column and distinct ids, and with distinct values
of `student_no` that are not empty, if there is such a column. -/
structure ValidTable (columns : StringList) (rows : List StringList) : Prop where
  readable : ∀ row ∈ rows, Readable row
  width : ∀ row ∈ rows, row.length = columns.length
  ids : ∀ row ∈ rows, ∃ id, idOf columns row = some id
  ids_distinct : rows.Pairwise fun r r' => idOf columns r ≠ idOf columns r'
  student_nos : HasStudentNo columns →
    ∀ row ∈ rows, ∃ v, studentNoOf columns row = some v ∧ v.bytes ≠ []
  student_nos_distinct : HasStudentNo columns →
    rows.Pairwise fun r r' => studentNoOf columns r ≠ studentNoOf columns r'

section Rows

variable {columns : StringList} {rows more : List StringList} {row : StringList} {b : IndexBuild}

theorem idsOf_rowsAt (columns : StringList) (rows : List StringList) :
    idsOf columns (rowsAt rows) = rows.filterMap (idOf columns) := by
  have hmap := List.filterMap_map (f := Prod.snd) (g := idOf columns) (l := rowsAt rows)
  rw [rowsAt, located_map_snd] at hmap
  rw [idsOf, bindingsOf, List.map_filterMap, hmap]
  congr 1
  funext e
  show ((idOf columns e.2).map fun id => (id, e.1)).map Prod.fst = idOf columns e.2
  cases idOf columns e.2 <;> rfl

theorem studentNosOf_rowsAt (columns : StringList) (rows : List StringList) :
    studentNosOf columns (rowsAt rows) = rows.filterMap (studentNoOf columns) := by
  have hmap := List.filterMap_map (f := Prod.snd) (g := studentNoOf columns) (l := rowsAt rows)
  rw [rowsAt, located_map_snd] at hmap
  exact hmap.symm

theorem ValidTable.nil (columns : StringList) : ValidTable columns [] :=
  ⟨by simp, by simp, by simp, by simp, by simp, by simp⟩

theorem ValidTable.of_append_left (h : ValidTable columns (rows ++ more)) :
    ValidTable columns rows where
  readable := fun r hr => h.readable r (List.mem_append_left more hr)
  width := fun r hr => h.width r (List.mem_append_left more hr)
  ids := fun r hr => h.ids r (List.mem_append_left more hr)
  ids_distinct := (List.pairwise_append.mp h.ids_distinct).1
  student_nos := fun hs r hr => h.student_nos hs r (List.mem_append_left more hr)
  student_nos_distinct := fun hs => (List.pairwise_append.mp (h.student_nos_distinct hs)).1

/-- The last row may join the caches of the rows before it. -/
theorem ValidTable.newRow (h : ValidTable columns (rows ++ [row])) :
    ∃ id, NewRow columns (rowsAt rows) row id := by
  have hlast : row ∈ rows ++ [row] := by simp
  obtain ⟨id, hid⟩ := h.ids row hlast
  refine ⟨id, hid, ?_, fun hs => ?_⟩
  · rw [idsOf_rowsAt, List.mem_filterMap]
    rintro ⟨r, hr, hsame⟩
    have hne := (List.pairwise_append.mp h.ids_distinct).2.2 r hr row List.mem_cons_self
    exact hne (hsame.trans hid.symm)
  · obtain ⟨v, hv, hfilled⟩ := h.student_nos hs row hlast
    refine ⟨v, hv, hfilled, ?_⟩
    rw [studentNosOf_rowsAt, List.mem_filterMap]
    rintro ⟨r, hr, hsame⟩
    have hne := (List.pairwise_append.mp (h.student_nos_distinct hs)).2.2 r hr row List.mem_cons_self
    exact hne (hsame.trans hv.symm)

theorem ValidTable.snoc (h : ValidTable columns rows) {id : UInt64}
    (hnew : NewRow columns (rowsAt rows) row id) (hreadable : Readable row)
    (hwidth : row.length = columns.length) : ValidTable columns (rows ++ [row]) where
  readable := List.forall_mem_append.mpr ⟨h.readable, List.forall_mem_singleton.mpr hreadable⟩
  width := List.forall_mem_append.mpr ⟨h.width, List.forall_mem_singleton.mpr hwidth⟩
  ids := List.forall_mem_append.mpr ⟨h.ids, List.forall_mem_singleton.mpr ⟨id, hnew.id_eq⟩⟩
  ids_distinct := by
    refine List.pairwise_append.mpr ⟨h.ids_distinct, List.pairwise_singleton _ _, ?_⟩
    intro r hr r' hr' hsame
    rw [List.mem_singleton.mp hr', hnew.id_eq] at hsame
    apply hnew.id_new
    rw [idsOf_rowsAt]
    exact List.mem_filterMap.mpr ⟨r, hr, hsame⟩
  student_nos := fun hs => by
    obtain ⟨v, hv, hfilled, -⟩ := hnew.studentNo hs
    exact List.forall_mem_append.mpr
      ⟨h.student_nos hs, List.forall_mem_singleton.mpr ⟨v, hv, hfilled⟩⟩
  student_nos_distinct := fun hs => by
    obtain ⟨v, hv, -, hfresh⟩ := hnew.studentNo hs
    refine List.pairwise_append.mpr ⟨h.student_nos_distinct hs, List.pairwise_singleton _ _, ?_⟩
    intro r hr r' hr' hsame
    rw [List.mem_singleton.mp hr', hv] at hsame
    apply hfresh
    rw [studentNosOf_rowsAt]
    exact List.mem_filterMap.mpr ⟨r, hr, hsame⟩

/-- The scan of a valid table runs through. -/
theorem ValidTable.built (h : ValidTable columns rows) : ∃ b, Built columns (rowsAt rows) b := by
  induction rows using List.reverseRecOn with
  | nil => exact ⟨startBuild columns, built_nil columns⟩
  | append_singleton rows row ih =>
    obtain ⟨b, hb⟩ := ih h.of_append_left
    obtain ⟨id, hnew⟩ := h.newRow
    obtain ⟨index, -, hbuilt⟩ := hb.snoc hnew (stream encodeRow rows).length
    rw [← rowsAt_snoc] at hbuilt
    exact ⟨_, hbuilt⟩

/-- Rows that a scan accepts, if they are readable and of full width. -/
theorem ValidTable.of_built (hb : Built columns (rowsAt rows) b)
    (hreadable : ∀ row ∈ rows, Readable row) (hwidth : ∀ row ∈ rows, row.length = columns.length) :
    ValidTable columns rows := by
  induction rows using List.reverseRecOn generalizing b with
  | nil => exact ValidTable.nil columns
  | append_singleton rows row ih =>
    obtain ⟨hreadable, hlast⟩ := List.forall_mem_append.mp hreadable
    obtain ⟨hwidth, hwide⟩ := List.forall_mem_append.mp hwidth
    rw [rowsAt_snoc] at hb
    obtain ⟨b₁, id, hb₁, hnew⟩ := hb.newRow
    exact (ih hb₁ hreadable hwidth).snoc hnew (hlast row List.mem_cons_self)
      (hwide row List.mem_cons_self)

/-- The greatest id of the rows, or 0. -/
def lastId (columns : StringList) (rows : List StringList) : ℕ :=
  (rows.filterMap (idOf columns)).foldr (fun id n => max id.toNat n) 0

theorem lastId_append (columns : StringList) (rows more : List StringList) :
    lastId columns (rows ++ more) = max (lastId columns rows) (lastId columns more) := by
  rw [lastId, List.filterMap_append, lastId, lastId]
  induction rows.filterMap (idOf columns) with
  | nil => simp
  | cons id ids ih =>
    rw [List.cons_append, List.foldr_cons, List.foldr_cons, ih]
    omega

theorem le_lastId (hrow : row ∈ rows) {id : UInt64} (hid : idOf columns row = some id) :
    id.toNat ≤ lastId columns rows := by
  obtain ⟨before, after, rfl⟩ := List.append_of_mem hrow
  have hone : lastId columns (row :: after) = max id.toNat (lastId columns after) := by
    rw [lastId, List.filterMap_cons, hid]
    rfl
  rw [lastId_append, hone]
  omega

/-- The counter behind a scan is at the greatest id. -/
theorem Built.lastId (hb : Built columns (rowsAt rows) b) : b.maxId.toNat = lastId columns rows := by
  obtain ⟨-, ⟨hle, hmem⟩, -⟩ := hb.spec
  rw [idsOf_rowsAt] at hle hmem
  apply le_antisymm
  · rcases hmem with hzero | hmem
    · rw [hzero]
      exact Nat.zero_le _
    · obtain ⟨row, hrow, hid⟩ := List.mem_filterMap.mp hmem
      exact le_lastId hrow hid
  · rw [MiniSql.lastId]
    generalize rows.filterMap (idOf columns) = ids at hle
    clear hmem
    induction ids with
    | nil => exact Nat.zero_le _
    | cons id ids ih =>
      obtain ⟨hid, hids⟩ := List.forall_mem_cons.mp hle
      exact max_le (UInt64.le_iff_toNat_le.mp hid) (ih hids)

end Rows

/-! ### Files -/

/-- A text file that the migration makes these rows of. -/
def IsTextOf (content : Bytes) (rows : List StringList) : Prop :=
  (∀ uninit, fileLooksBinary uninit (some content) = false) ∧ textRows content = rows

/-- The migration of a text whose rows the reader accepts. -/
theorem IsTextOf.migrated {content : Bytes} {rows : List StringList} (h : IsTextOf content rows)
    (hrows : ∀ row ∈ rows, Readable row) :
    migrateFrom (content.length + 1) content = (stream encodeRow rows, 0) := by
  obtain ⟨-, rfl⟩ := h
  exact (migrateFrom_iff content).mpr ⟨fun row hr => (hrows row hr).writable, rfl⟩

/-- The migration step reports a failed migration only if the migration has failed. -/
theorem migrateFrom_of_failed {uninit : ℕ → UInt32} {files : FileSystem} {path : CString}
    {content : Bytes} (hfile : files path = some content)
    (h : (migrateIfText uninit files path).1 = some .migration) :
    (migrateFrom (content.length + 1) content).2 ≠ 0 := by
  intro hrc
  rw [migrateIfText, migrateTextDataToBinary_eq (tmpPathOf_ne path) hfile] at h
  split at h
  · cases h
  · dsimp only at h
    rw [if_neg (not_not.mpr hrc)] at h
    split at h
    · cases h
    · split at h <;> cases h

/-- **The activation of a valid table**, from a data file of either kind.  It succeeds, and then the data
file is in binary form. -/
theorem activate_valid (uninit : ℕ → UInt32) {table : TableDefinition} {rows : List StringList}
    {s : State} (hf : NoFail s) (hearly : alreadyActive table s.globals = false)
    (hid : findColumnIndex table.columns idName ≠ none) (hvalid : ValidTable table.columns rows)
    (hfile : (s.files table.dataPath).getD [] = stream encodeRow rows ∨
      IsTextOf ((s.files table.dataPath).getD []) rows) :
    ∃ b files, activateStorageForTable uninit table s = (none, ⟨loadedGlobals table b, files⟩) ∧
      Built table.columns (rowsAt rows) b ∧
      files table.dataPath = some (stream encodeRow rows) ∧
      ∀ p, ¬TouchedBy table.dataPath p → files p = s.files p := by
  obtain ⟨b, hbuilt⟩ := hvalid.built
  have hother : ∀ p, ¬TouchedBy table.dataPath p →
      ensureDataFile s.files table.dataPath p = s.files p := fun p hp =>
    ensureDataFile_of_ne s.files fun heq => hp (Or.inl heq)
  have hdata := ensureDataFile_self s.files table.dataPath
  rcases hfile with hbinary | htext
  · rcases activate_stream uninit hf hearly hbinary hvalid.readable with
      ⟨b', -, hbuilt', heq⟩ | ⟨hno, -⟩
    · rw [hbinary] at hdata
      exact ⟨b', _, heq, hbuilt', hdata, hother⟩
    · exact absurd ⟨b, hid, hbuilt⟩ hno
  · have hmigrated := htext.migrated hvalid.readable
    rw [activateStorageForTable, if_neg (by rw [hearly]; decide), switchStorageToTable_eq]
    rcases migrateIfText_cases uninit hdata with
      ⟨hlooks, -⟩ | ⟨-, out, files, hout, heq, hfile, -, hframe⟩ | ⟨-, files, heq, -, -⟩
    · rw [htext.1 uninit] at hlooks
      cases hlooks
    · rw [hmigrated] at hout
      obtain ⟨rfl, -⟩ := Prod.mk.inj hout
      rw [heq]
      dsimp only
      have hloads : Loads uninit table files b :=
        (loads_stream_iff hfile hvalid.readable b).mpr ⟨hid, hbuilt⟩
      rcases buildIndexForTable_cases uninit table s.globals files hf with
        ⟨b', hb', hbuild⟩ | ⟨hno, -⟩
      · obtain ⟨-, hbuilt'⟩ := (loads_stream_iff hfile hvalid.readable b').mp hb'
        exact ⟨b', files, hbuild, hbuilt', hfile, fun p hp => (hframe p hp).trans (hother p hp)⟩
      · exact absurd ⟨b, hloads⟩ hno
    · have hfailed := migrateFrom_of_failed hdata (congrArg Prod.fst heq)
      rw [hmigrated] at hfailed
      exact absurd rfl hfailed

end MiniSql
