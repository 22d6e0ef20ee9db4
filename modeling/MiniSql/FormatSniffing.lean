import MiniSql.TextMigration

/-!
# Telling the formats apart

`file_looks_binary` decides on the first row of a file: its field count has to lie between 1 and 4096 and no
field may be longer than 16 MiB.  The row writer checks neither limit, and a file of fewer than four bytes has
no field count at all, so the answer is wrong for some files of both formats.

* `Sniffable` are the rows whose encoding is taken for the first row of a binary file.
* `fileLooksBinary_row`: what decides about a file of encoded rows is its first row.
* `fileLooksBinary_text`: four bytes that are not NUL are no field count, so a text of four bytes is a text.
* `fileLooksBinary_exact`: a file written by appends looks binary exactly if its first row is `Sniffable`, and
  a file without NUL looks like text exactly if it has four bytes.
* `fileLooksBinary_short_text`: a text file of one digit is taken for a binary one.
-/

namespace MiniSql

open LittleEndian Framing

/-! ### Rows in front of a file -/

theorem readU32_encodeU32_mod (n : ℕ) (rest : Bytes) :
    readU32 (encodeU32 n ++ rest) = some (n % 2 ^ 32, rest) := by
  have hmod : encodeU32 n = encodeU32 (n % 2 ^ 32) := (leBytes_mod 4 n).symm
  rw [hmod, readU32_encodeU32 (Nat.mod_lt _ (by norm_num))]

/-- The rows whose encoding is taken for the first row of a binary file.  The field count is written in
32 bits. -/
structure Sniffable (row : StringList) : Prop where
  count_pos : 1 ≤ row.length % 2 ^ 32
  count_le : row.length % 2 ^ 32 ≤ maxBinaryFields
  field_le : ∀ value ∈ row.take (row.length % 2 ^ 32), value.length ≤ maxBinaryFieldBytes

theorem Readable.sniffable {row : StringList} (h : Readable row) : Sniffable row := by
  have hmod : row.length % 2 ^ 32 = row.length := by
    have hle := h.count_le
    rw [maxBinaryFields] at hle
    exact Nat.mod_eq_of_lt (by omega)
  constructor
  · rw [hmod]
    exact h.count_pos
  · rw [hmod]
    exact h.count_le
  · rw [hmod, List.take_length]
    exact h.field_le

theorem looksBinaryFields_iff (uninit : ℕ → UInt32) {values : StringList} (hw : Writable values)
    {n : ℕ} (hn : n ≤ values.length) (i : ℕ) (rest : Bytes) :
    looksBinaryFields uninit n i (values.flatMap encodeField ++ rest) = true ↔
      ∀ value ∈ values.take n, value.length ≤ maxBinaryFieldBytes := by
  induction values generalizing n i with
  | nil =>
    obtain rfl : n = 0 := Nat.le_zero.mp hn
    simp [looksBinaryFields]
  | cons value values ih =>
    cases n with
    | zero => simp [looksBinaryFields]
    | succ n =>
      have hlt : value.length < 2 ^ 32 := by
        have hle := hw value List.mem_cons_self
        rw [uint32Max] at hle
        omega
      have ih' := ih (fun v hv => hw v (List.mem_cons_of_mem value hv))
        (Nat.le_of_succ_le_succ hn) (i + 1)
      rw [List.flatMap_cons, encodeField, List.append_assoc, List.append_assoc, looksBinaryFields,
        readU32_encodeU32 hlt, List.take_succ_cons, List.forall_mem_cons, ← ih']
      dsimp only [Option.getD_some]
      by_cases hlarge : maxBinaryFieldBytes < value.length
      · rw [if_pos hlarge]
        refine ⟨fun h => Bool.noConfusion h, fun h => ?_⟩
        exact absurd h.1 (not_le.mpr hlarge)
      · have hdrop : (value.bytes ++ (values.flatMap encodeField ++ rest)).drop value.length =
            values.flatMap encodeField ++ rest := List.drop_left
        rw [if_neg hlarge, hdrop]
        exact ⟨fun h => ⟨not_lt.mp hlarge, h⟩, fun h => h.2⟩

/-- What decides about a file is its first row. -/
theorem fileLooksBinary_row (uninit : ℕ → UInt32) {row : StringList} (hw : Writable row)
    (rest : Bytes) : fileLooksBinary uninit (some (encodeRow row ++ rest)) = true ↔ Sniffable row := by
  rw [encodeRow, List.append_assoc, fileLooksBinary, readU32_encodeU32_mod]
  dsimp only
  by_cases hcount : row.length % 2 ^ 32 = 0 ∨ maxBinaryFields < row.length % 2 ^ 32
  · rw [if_pos hcount]
    refine ⟨fun h => Bool.noConfusion h, fun h => ?_⟩
    rcases hcount with hzero | hmany
    · exact absurd h.count_pos (by omega)
    · exact absurd h.count_le (not_le.mpr hmany)
  · rw [if_neg hcount, looksBinaryFields_iff uninit hw (Nat.mod_le _ _)]
    obtain ⟨hzero, hmany⟩ := not_or.mp hcount
    exact ⟨fun h => ⟨Nat.pos_of_ne_zero hzero, not_lt.mp hmany, h⟩, fun h => h.field_le⟩

/-! ### Text files -/

/-- Four bytes that are not NUL are no field count. -/
theorem fileLooksBinary_text (uninit : ℕ → UInt32) {content : Bytes} (hne : content ≠ [])
    (hnul : (0 : UInt8) ∉ content) :
    fileLooksBinary uninit (some content) = false ↔ 4 ≤ content.length := by
  rw [fileLooksBinary, readU32]
  by_cases hlen : 4 ≤ content.length
  · obtain ⟨a, b, c, d, rest, rfl⟩ : ∃ a b c d rest, content = a :: b :: c :: d :: rest := by
      rcases content with _ | ⟨a, _ | ⟨b, _ | ⟨c, _ | ⟨d, rest⟩⟩⟩⟩
      iterate 4 exact absurd hlen (by simp)
      exact ⟨a, b, c, d, rest, rfl⟩
    have hd : d.toNat ≠ 0 := by
      intro hzero
      exact hnul (by simp [UInt8.toNat_inj.mp (show d.toNat = (0 : UInt8).toNat from hzero)])
    have hvalue : maxBinaryFields < leValue [a, b, c, d] := by
      simp only [leValue, maxBinaryFields]
      omega
    rw [if_pos hlen]
    dsimp only
    rw [show (a :: b :: c :: d :: rest).take 4 = [a, b, c, d] from rfl, if_pos (Or.inr hvalue)]
    exact ⟨fun _ => hlen, fun _ => rfl⟩
  · rw [if_neg hlen]
    exact ⟨fun h => Bool.noConfusion h, fun h => absurd h hlen⟩

/-! ### Files written by appends -/

theorem appendRun_rc (path : CString) (files : FileSystem) (rows : List StringList) :
    (∀ r ∈ (appendRun (some path) files rows).2, r.1 = 0) ↔ ∀ row ∈ rows, Writable row := by
  induction rows generalizing files with
  | nil => simp [appendRun]
  | cons row rows ih =>
    rw [appendRun]
    dsimp only
    rw [List.forall_mem_cons, List.forall_mem_cons, ih, binaryWriterAppendRow_rc]

/-- The file after appends that all succeeded, the first of which may have made it. -/
theorem appendRun_created {files : FileSystem} {path : CString} (hempty : (files path).getD [] = [])
    {row : StringList} {rows : List StringList} (hw : ∀ r ∈ row :: rows, Writable r) :
    (appendRun (some path) files (row :: rows)).1 path = some (stream encodeRow (row :: rows)) := by
  obtain ⟨hrow, hrows⟩ := List.forall_mem_cons.mp hw
  have hfirst : (binaryWriterAppendRow (some path) files row).1 =
      files.write path (encodeRow row) := by
    rw [binaryWriterAppendRow]
    dsimp only
    rw [hempty, writeFields_ok hrow]
    rfl
  rw [appendRun]
  dsimp only
  rw [hfirst, appendRun_ok (FileSystem.write_self files path (encodeRow row)) hrows]
  exact FileSystem.write_self _ _ _

/-- **Format sniffing.**  A file written by appends that all returned 0 looks binary exactly if its
first row is within the limits of the reader, and a file without NUL looks like text exactly if it has
four bytes. -/
theorem fileLooksBinary_exact (uninit : ℕ → UInt32) :
    (∀ (files : FileSystem) (path : CString) (row : StringList) (rows : List StringList),
      (files path).getD [] = [] →
      (∀ r ∈ (appendRun (some path) files (row :: rows)).2, r.1 = 0) →
      (fileLooksBinary uninit ((appendRun (some path) files (row :: rows)).1 path) = true ↔
        Sniffable row)) ∧
    ∀ content : Bytes, content ≠ [] → (0 : UInt8) ∉ content →
      (fileLooksBinary uninit (some content) = false ↔ 4 ≤ content.length) := by
  refine ⟨?_, fun content hne hnul => fileLooksBinary_text uninit hne hnul⟩
  intro files path row rows hempty hrc
  have hw := (appendRun_rc path files (row :: rows)).mp hrc
  rw [appendRun_created hempty hw, stream_cons]
  exact fileLooksBinary_row uninit (hw row List.mem_cons_self) _

theorem fileLooksBinary_exact_row :
    fileLooksBinary (fun _ => 0)
      ((appendRun (some (lit "t.data")) (fun _ => none) [[lit "1", lit "a"]]).1 (lit "t.data")) = true ∧
    fileLooksBinary (fun _ => 0) (some [49, 124, 97, 10]) = false :=
  ⟨((fileLooksBinary_exact fun _ => 0).1 (fun _ => none) (lit "t.data") [lit "1", lit "a"] [] rfl
      (by decide)).mpr ⟨by decide, by decide, by decide⟩,
    ((fileLooksBinary_exact fun _ => 0).2 [49, 124, 97, 10] (by decide) (by decide)).mpr (by decide)⟩

/-- A line of one digit is taken for a binary file. -/
theorem fileLooksBinary_short_text :
    ([49, 10] : Bytes) ≠ [] ∧ (0 : UInt8) ∉ ([49, 10] : Bytes) ∧
      fileLooksBinary (fun _ => 0) (some [49, 10]) ≠ false :=
  ⟨by decide, by decide, by decide⟩

end MiniSql
