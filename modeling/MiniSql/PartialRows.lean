import MiniSql.ReaderLimits

/-!
# Truncated files

A file can end inside a row.  The row reader takes the end of the file for a field count as the end of the
table, and does not look for it at a field length, so it notices that a row is cut off only in some cases.

* `fieldOffset` is where a field starts; `EndsInPayload` and `EndsInLength` are the two places where the
  fields can end.
* `CutNoticed` is the condition under which the field loop notices it: the end is inside the bytes of a field,
  or the length variable of some field from there on holds something else than 0.
* `ScansAs`: a scan hands these rows to its callback and returns this code.

Main results:

* `readFields_nil`, `binaryReadRow_cut`: the field loop and the row reader at the end of the file.
* `binaryReaderScanAll_truncated`: a prefix of a file of encoded rows that ends inside a row scans as the
  complete rows with the return code -1 exactly if the field count is there and the cut is noticed.
* `binaryReaderScanAll_truncated_length`: a row that is cut off in front of its second length is reported with
  an empty second field.
-/

namespace MiniSql

open LittleEndian Framing

/-! ### What a scan reports -/

/-- A scan hands these rows to its callback, in order, and returns `rc`. -/
def ScansAs (uninit : ℕ → UInt32) (path : CString) (files : FileSystem) (rows : List StringList)
    (rc : ℤ) : Prop :=
  ∀ (S : Type) (f : StringList → S → S) (s : S),
    binaryReaderScanAll uninit (some path) files (fun _ row s => some (0, f row s)) s =
      some (rc, rows.foldl (fun s row => f row s) s)

theorem scansAs_iff {uninit : ℕ → UInt32} {path : CString} {files : FileSystem} {content : Bytes}
    (hfile : files path = some content) (rows : List StringList) (rc : ℤ) :
    ScansAs uninit path files rows rc ↔ (scannedRows uninit content).1.map Prod.snd = rows ∧
      rc = if (scannedRows uninit content).2 then 0 else -1 := by
  have hscan : ∀ (S : Type) (f : StringList → S → S) (s : S),
      binaryReaderScanAll uninit (some path) files (fun _ row s => some (0, f row s)) s =
        some (if (scannedRows uninit content).2 then 0 else -1,
          ((scannedRows uninit content).1.map Prod.snd).foldl (fun s row => f row s) s) := by
    intro S f s
    rw [binaryReaderScanAll_eq uninit hfile, foldRows_continue (fun _ row s => f row s),
      List.foldl_map]
    rfl
  have hcollect : ∀ rows init : List StringList,
      rows.foldl (fun s row => s ++ [row]) init = init ++ rows := by
    intro rows
    induction rows with
    | nil => simp
    | cons row rows ih =>
      intro init
      rw [List.foldl_cons, ih, List.append_assoc]
      rfl
  constructor
  · intro h
    -- the callback that collects the rows tells them apart
    have hlist := h (List StringList) (fun row s => s ++ [row]) []
    rw [hscan] at hlist
    obtain ⟨hrc, hrows⟩ := Prod.mk.inj (Option.some.inj hlist)
    rw [hcollect, hcollect, List.nil_append, List.nil_append] at hrows
    exact ⟨hrows, hrc.symm⟩
  · rintro ⟨hrows, hrc⟩ S f s
    rw [hscan, hrows, hrc]

/-- Behind complete rows, a scan goes on with what is left. -/
theorem scannedRows_tail (uninit : ℕ → UInt32) {rows : List StringList}
    (hrows : ∀ row ∈ rows, Readable row) (tail : Bytes) :
    ∃ more clean, scannedRows uninit (stream encodeRow rows ++ tail) = (rowsAt rows ++ more, clean) ∧
      match binaryReadRowFromFile uninit tail with
      | .eof => more = [] ∧ clean = true
      | .failed _ => more = [] ∧ clean = false
      | .row _ _ => more ≠ [] := by
  obtain ⟨fuel, hfuel, hscan⟩ := scannedRows_append uninit hrows tail
  obtain ⟨fuel, rfl⟩ : ∃ f, fuel = f + 1 := ⟨fuel - 1, by omega⟩
  refine ⟨_, _, hscan, ?_⟩
  rw [readRows]
  cases binaryReadRowFromFile uninit tail with
  | eof => exact ⟨rfl, rfl⟩
  | failed e => exact ⟨rfl, rfl⟩
  | row values rest => exact List.cons_ne_nil _ _

/-- What a scan of complete rows with something behind them returns, if it reports just these rows. -/
theorem scansAs_tail {uninit : ℕ → UInt32} {path : CString} {files : FileSystem}
    {rows : List StringList} (hrows : ∀ row ∈ rows, Readable row) {tail : Bytes}
    (hfile : files path = some (stream encodeRow rows ++ tail)) (rc : ℤ) :
    ScansAs uninit path files rows rc ↔
      match binaryReadRowFromFile uninit tail with
      | .eof => rc = 0
      | .failed _ => rc = -1
      | .row _ _ => False := by
  obtain ⟨more, clean, hscan, hmore⟩ := scannedRows_tail uninit hrows tail
  rw [scansAs_iff hfile, hscan, List.map_append, located_map_snd, List.append_right_eq_self,
    List.map_eq_nil_iff]
  cases hread : binaryReadRowFromFile uninit tail with
  | eof =>
    rw [hread] at hmore
    obtain ⟨rfl, rfl⟩ := hmore
    exact ⟨fun h => h.2, fun h => ⟨rfl, h⟩⟩
  | failed e =>
    rw [hread] at hmore
    obtain ⟨rfl, rfl⟩ := hmore
    exact ⟨fun h => h.2, fun h => ⟨rfl, h⟩⟩
  | row values rest =>
    rw [hread] at hmore
    exact ⟨fun h => hmore h.1, fun h => h.elim⟩

theorem binaryReadRow_eof {uninit : ℕ → UInt32} {rest : Bytes} :
    binaryReadRowFromFile uninit rest = .eof ↔ rest.length < 4 := by
  rw [binaryReadRowFromFile, readU32]
  by_cases hlen : 4 ≤ rest.length
  · rw [if_pos hlen]
    dsimp only
    refine ⟨fun h => ?_, fun h => absurd hlen (not_le.mpr h)⟩
    split at h
    · cases h
    · split at h <;> cases h
  · rw [if_neg hlen]
    exact ⟨fun _ => not_le.mp hlen, fun _ => rfl⟩

/-! ### Truncated files -/

/-- Where field `i` of a row starts behind the field count. -/
def fieldOffset (row : StringList) (i : ℕ) : ℕ := ((row.take i).flatMap encodeField).length

/-- The first `m` bytes of the fields end inside the bytes of a field. -/
def EndsInPayload (row : StringList) (m : ℕ) : Prop :=
  ∃ i value, row[i]? = some value ∧ fieldOffset row i + 4 ≤ m ∧
    m < fieldOffset row i + 4 + value.length

/-- The first `m` bytes of the fields end in front of or inside the length of field `i`. -/
def EndsInLength (row : StringList) (m i : ℕ) : Prop :=
  i < row.length ∧ fieldOffset row i ≤ m ∧ m < fieldOffset row i + 4

theorem encodeField_length (value : CString) : (encodeField value).length = 4 + value.length := by
  rw [encodeField, List.length_append, encodeU32_length]
  rfl

@[simp] theorem fieldOffset_zero (row : StringList) : fieldOffset row 0 = 0 := rfl

@[simp] theorem fieldOffset_succ (value : CString) (row : StringList) (i : ℕ) :
    fieldOffset (value :: row) (i + 1) = 4 + value.length + fieldOffset row i := by
  rw [fieldOffset, List.take_succ_cons, List.flatMap_cons, List.length_append, encodeField_length]
  rfl

theorem endsInPayload_cons (value : CString) (row : StringList) (m : ℕ) :
    EndsInPayload (value :: row) m ↔ (4 ≤ m ∧ m < 4 + value.length) ∨
      (4 + value.length ≤ m ∧ EndsInPayload row (m - (4 + value.length))) := by
  constructor
  · rintro ⟨i, v, hv, hlow, hhigh⟩
    cases i with
    | zero =>
      obtain rfl := Option.some.inj hv
      rw [fieldOffset_zero] at hlow hhigh
      exact Or.inl ⟨by omega, by omega⟩
    | succ i =>
      rw [fieldOffset_succ] at hlow hhigh
      exact Or.inr ⟨by omega, i, v, hv, by omega, by omega⟩
  · rintro (⟨hlow, hhigh⟩ | ⟨hlow, i, v, hv, hm, hm'⟩)
    · exact ⟨0, value, rfl, by rw [fieldOffset_zero]; omega, by rw [fieldOffset_zero]; omega⟩
    · exact ⟨i + 1, v, hv, by rw [fieldOffset_succ]; omega, by rw [fieldOffset_succ]; omega⟩

theorem endsInLength_zero (value : CString) (row : StringList) (m : ℕ) :
    EndsInLength (value :: row) m 0 ↔ m < 4 := by
  rw [EndsInLength, fieldOffset_zero, List.length_cons]
  omega

theorem endsInLength_succ (value : CString) (row : StringList) (m i : ℕ) :
    EndsInLength (value :: row) m (i + 1) ↔
      4 + value.length ≤ m ∧ EndsInLength row (m - (4 + value.length)) i := by
  rw [EndsInLength, EndsInLength, fieldOffset_succ, List.length_cons]
  omega

theorem readU32_short {rest : Bytes} (h : rest.length < 4) : readU32 rest = none :=
  if_neg (not_le.mpr h)

/-- At the end of the file the field loop goes on as long as the length variable holds 0. -/
theorem readFields_nil (uninit : ℕ → UInt32) (n i : ℕ) :
    (∃ e, readFields uninit n i [] = .error e) ↔ ∃ j, i ≤ j ∧ j < i + n ∧ uninit j ≠ 0 := by
  induction n generalizing i with
  | zero =>
    constructor
    · rintro ⟨e, he⟩
      cases he
    · rintro ⟨j, hij, hj, -⟩
      omega
  | succ n ih =>
    have hlength : (readU32 []).getD ((uninit i).toNat, []) = ((uninit i).toNat, []) := by
      rw [readU32_short (by decide)]
      rfl
    have hpos : 0 < (uninit i).toNat ↔ uninit i ≠ 0 := by
      rw [Nat.pos_iff_ne_zero]
      exact not_congr (show (uninit i).toNat = (0 : UInt32).toNat ↔ uninit i = 0 from UInt32.toNat_inj)
    rw [readFields_succ_error hlength, List.drop_nil, ih]
    constructor
    · rintro (hlarge | hshort | ⟨j, hij, hj, hne⟩)
      · exact ⟨i, le_refl i, by omega, hpos.mp (by omega)⟩
      · exact ⟨i, le_refl i, by omega, hpos.mp hshort⟩
      · exact ⟨j, by omega, by omega, hne⟩
    · rintro ⟨j, hij, hj, hne⟩
      by_cases hji : j = i
      · rw [hji] at hne
        exact Or.inr (Or.inl (hpos.mpr hne))
      · exact Or.inr (Or.inr ⟨j, by omega, by omega, hne⟩)

/-- The condition under which the field loop notices that the fields end after `m` bytes. -/
def CutNoticed (uninit : ℕ → UInt32) (row : StringList) (m i : ℕ) : Prop :=
  EndsInPayload row m ∨
    ∃ a, EndsInLength row m a ∧ ∃ j, i + a ≤ j ∧ j < i + row.length ∧ uninit j ≠ 0

/-- The first field decides, or it is read and the other ones do. -/
theorem cutNoticed_cons (uninit : ℕ → UInt32) (value : CString) (row : StringList) (m i : ℕ) :
    CutNoticed uninit (value :: row) m i ↔
      (m < 4 ∧ ∃ j, i ≤ j ∧ j < i + (row.length + 1) ∧ uninit j ≠ 0) ∨
      (4 ≤ m ∧ m < 4 + value.length) ∨
      (4 + value.length ≤ m ∧ CutNoticed uninit row (m - (4 + value.length)) (i + 1)) := by
  rw [CutNoticed, CutNoticed, endsInPayload_cons, List.length_cons]
  constructor
  · rintro ((hfirst | ⟨hm, hrest⟩) | ⟨a, ha, j, hij, hj, hne⟩)
    · exact Or.inr (Or.inl hfirst)
    · exact Or.inr (Or.inr ⟨hm, Or.inl hrest⟩)
    · cases a with
      | zero =>
        exact Or.inl ⟨(endsInLength_zero value row m).mp ha, j, hij, hj, hne⟩
      | succ a =>
        obtain ⟨hm, ha⟩ := (endsInLength_succ value row m a).mp ha
        exact Or.inr (Or.inr ⟨hm, Or.inr ⟨a, ha, j, by omega, by omega, hne⟩⟩)
  · rintro (⟨hm, j, hij, hj, hne⟩ | hfirst | ⟨hm, hrest | ⟨a, ha, j, hij, hj, hne⟩⟩)
    · exact Or.inr ⟨0, (endsInLength_zero value row m).mpr hm, j, hij, hj, hne⟩
    · exact Or.inl (Or.inl hfirst)
    · exact Or.inl (Or.inr ⟨hm, hrest⟩)
    · exact Or.inr ⟨a + 1, (endsInLength_succ value row m a).mpr ⟨hm, ha⟩, j, by omega, by omega,
        hne⟩

theorem readFields_cut (uninit : ℕ → UInt32) {values : StringList}
    (hvalues : ∀ value ∈ values, value.length ≤ maxBinaryFieldBytes) {m : ℕ}
    (hm : m < (values.flatMap encodeField).length) (i : ℕ) :
    (∃ e, readFields uninit values.length i ((values.flatMap encodeField).take m) = .error e) ↔
      CutNoticed uninit values m i := by
  induction values generalizing m i with
  | nil => cases hm
  | cons value values ih =>
    obtain ⟨hvalue, hrest⟩ := List.forall_mem_cons.mp hvalues
    rw [cutNoticed_cons, List.length_cons]
    rw [List.flatMap_cons, List.length_append, encodeField_length] at hm
    have hbytes : value.bytes.length = value.length := rfl
    have hlt : value.length < 2 ^ 32 := by
      rw [maxBinaryFieldBytes] at hvalue
      omega
    by_cases hshort : m < 4
    · have hlength : (((value :: values).flatMap encodeField).take m).length < 4 := by
        rw [List.length_take]
        omega
      have hnil : readFields uninit (values.length + 1) i
          (((value :: values).flatMap encodeField).take m) =
            readFields uninit (values.length + 1) i [] := by
        rw [readFields, readFields, readU32_short hlength, readU32_short (by decide)]
      rw [hnil, readFields_nil]
      constructor
      · exact fun h => Or.inl ⟨hshort, h⟩
      · rintro (⟨-, h⟩ | ⟨h, -⟩ | ⟨h, -⟩)
        · exact h
        · omega
        · omega
    · -- the length of the field is there
      have htake : ((value :: values).flatMap encodeField).take m =
          encodeU32 value.length ++ (value.bytes ++ values.flatMap encodeField).take (m - 4) := by
        rw [List.flatMap_cons, encodeField, List.append_assoc, List.take_append, encodeU32_length,
          List.take_of_length_le (by rw [encodeU32_length]; omega)]
      have hlength : (readU32 (((value :: values).flatMap encodeField).take m)).getD
          ((uninit i).toNat, []) =
            (value.length, (value.bytes ++ values.flatMap encodeField).take (m - 4)) := by
        rw [htake, readU32_encodeU32 hlt]
        rfl
      rw [readFields_succ_error hlength]
      by_cases hpayload : m < 4 + value.length
      · have hless : ((value.bytes ++ values.flatMap encodeField).take (m - 4)).length <
            value.length := by
          rw [List.length_take, List.length_append]
          omega
        exact iff_of_true (Or.inr (Or.inl hless)) (Or.inr (Or.inl ⟨not_lt.mp hshort, hpayload⟩))
      · have henough : ¬((value.bytes ++ values.flatMap encodeField).take (m - 4)).length <
            value.length := by
          rw [List.length_take, List.length_append]
          omega
        have hdrop : ((value.bytes ++ values.flatMap encodeField).take (m - 4)).drop value.length =
            (values.flatMap encodeField).take (m - (4 + value.length)) := by
          rw [List.drop_take, ← hbytes, List.drop_left]
          congr 1
          omega
        have hrec := ih hrest (show m - (4 + value.length) < _ by omega) (i + 1)
        rw [hdrop, hrec]
        constructor
        · rintro (h | h | h)
          · exact absurd hvalue (not_le.mpr h)
          · exact absurd h henough
          · exact Or.inr (Or.inr ⟨not_lt.mp hpayload, h⟩)
        · rintro (⟨h, -⟩ | ⟨-, h⟩ | ⟨-, h⟩)
          · exact absurd h hshort
          · exact absurd h hpayload
          · exact Or.inr (Or.inr h)

/-- The row reader on a row that is cut off after `k` bytes. -/
theorem binaryReadRow_cut (uninit : ℕ → UInt32) {row : StringList} (h : Readable row) {k : ℕ}
    (hk : k < (encodeRow row).length) :
    (∃ e, binaryReadRowFromFile uninit ((encodeRow row).take k) = .failed e) ↔
      4 ≤ k ∧ CutNoticed uninit row (k - 4) 0 := by
  by_cases hshort : k < 4
  · have heof : binaryReadRowFromFile uninit ((encodeRow row).take k) = .eof := by
      rw [binaryReadRow_eof, List.length_take]
      omega
    rw [heof]
    constructor
    · rintro ⟨e, he⟩
      cases he
    · rintro ⟨h, -⟩
      omega
  · have hcount : 1 ≤ row.length ∧ row.length ≤ maxBinaryFields := ⟨h.count_pos, h.count_le⟩
    have hlt : row.length < 2 ^ 32 := by
      obtain ⟨-, hle⟩ := hcount
      rw [maxBinaryFields] at hle
      omega
    have htake : (encodeRow row).take k =
        encodeU32 row.length ++ (row.flatMap encodeField).take (k - 4) := by
      rw [encodeRow, List.take_append, encodeU32_length,
        List.take_of_length_le (by rw [encodeU32_length]; omega)]
    rw [encodeRow, List.length_append, encodeU32_length] at hk
    have hread : readU32 ((encodeRow row).take k) =
        some (row.length, (row.flatMap encodeField).take (k - 4)) := by
      rw [htake, readU32_encodeU32 hlt]
    rw [binaryReadRow_failed hread, readFields_cut uninit h.field_le
      (show k - 4 < (row.flatMap encodeField).length by omega) 0]
    constructor
    · rintro (hbad | hnoticed)
      · omega
      · exact ⟨not_lt.mp hshort, hnoticed⟩
    · exact fun h => Or.inr h.2

/-- **Truncation.**  A prefix of a file of encoded rows that does not end between two rows ends inside a
row.  A scan of it reports the complete rows and returns -1 exactly if the field count of that row is
there, and the cut is inside the bytes of a field or one of the length variables that are not filled any
more happens not to hold 0. -/
theorem binaryReaderScanAll_truncated (rows : List StringList) (hrows : ∀ row ∈ rows, Readable row)
    (part : Bytes) (hpart : part <+: stream encodeRow rows)
    (hcut : ∀ front, front <+: rows → part ≠ stream encodeRow front) :
    ∃ complete row rest k, rows = complete ++ row :: rest ∧ 0 < k ∧ k < (encodeRow row).length ∧
      part = stream encodeRow complete ++ (encodeRow row).take k ∧
      ∀ (uninit : ℕ → UInt32) (files : FileSystem) (path : CString), files path = some part →
        (ScansAs uninit path files complete (-1) ↔ 4 ≤ k ∧ CutNoticed uninit row (k - 4) 0) := by
  obtain ⟨complete, row, rest, k, rfl, hpos, hk, rfl⟩ := exists_cut hpart hcut
  refine ⟨complete, row, rest, k, rfl, hpos, hk, rfl, fun uninit files path hfile => ?_⟩
  have hcomplete : ∀ r ∈ complete, Readable r := fun r hr => hrows r (List.mem_append_left _ hr)
  have hrow : Readable row := hrows row (List.mem_append_right _ List.mem_cons_self)
  rw [← binaryReadRow_cut uninit hrow hk, scansAs_tail hcomplete hfile]
  cases binaryReadRowFromFile uninit ((encodeRow row).take k) with
  | eof =>
    constructor
    · intro h
      exact absurd h (by decide)
    · rintro ⟨e, he⟩
      cases he
  | failed e => exact ⟨fun _ => ⟨e, rfl⟩, fun _ => rfl⟩
  | row values rest =>
    constructor
    · exact fun h => h.elim
    · rintro ⟨e, he⟩
      cases he

/-- A cut inside the only row of a file is not between two rows. -/
theorem take_ne_stream {row : StringList} {k : ℕ} (hpos : 0 < k) (hk : k < (encodeRow row).length)
    (front : List StringList) (hfront : front <+: [row]) :
    (encodeRow row).take k ≠ stream encodeRow front := by
  intro heq
  have hlen := congrArg List.length heq
  rw [List.length_take] at hlen
  rcases List.prefix_cons_iff.mp hfront with rfl | ⟨tail, rfl, htail⟩
  · rw [stream_nil, List.length_nil] at hlen
    omega
  · obtain rfl := List.prefix_nil.mp htail
    rw [stream_cons, stream_nil, List.append_nil] at hlen
    omega

theorem binaryReaderScanAll_truncated_payload :
    ∃ complete row rest k, [[lit "1", lit "a"]] = complete ++ row :: rest ∧ 0 < k ∧
      k < (encodeRow row).length ∧
      (encodeRow [lit "1", lit "a"]).take 13 = stream encodeRow complete ++ (encodeRow row).take k ∧
      ∀ (uninit : ℕ → UInt32) (files : FileSystem) (path : CString),
        files path = some ((encodeRow [lit "1", lit "a"]).take 13) →
        (ScansAs uninit path files complete (-1) ↔ 4 ≤ k ∧ CutNoticed uninit row (k - 4) 0) :=
  binaryReaderScanAll_truncated [[lit "1", lit "a"]]
    (List.forall_mem_singleton.mpr ⟨by decide, by decide, by decide⟩)
    ((encodeRow [lit "1", lit "a"]).take 13)
    (by rw [stream_cons, stream_nil, List.append_nil]; exact List.take_prefix _ _)
    (take_ne_stream (by decide) (by decide))

/-- A row that is cut off in front of its second length is reported with an empty second field, and the
scan returns 0. -/
theorem binaryReaderScanAll_truncated_length :
    (encodeRow [lit "1", lit "a"]).take 9 <+: stream encodeRow [[lit "1", lit "a"]] ∧
    (∀ front, front <+: [[lit "1", lit "a"]] →
      (encodeRow [lit "1", lit "a"]).take 9 ≠ stream encodeRow front) ∧
    binaryReaderScanAll (fun _ => 0) (some (lit "t.data"))
      (fun _ => some ((encodeRow [lit "1", lit "a"]).take 9))
      (fun _ row s => some (0, s ++ [row])) [] = some (0, [[lit "1", CString.empty]]) :=
  ⟨by rw [stream_cons, stream_nil, List.append_nil]; exact List.take_prefix _ _,
    take_ne_stream (by decide) (by decide), by decide⟩

end MiniSql
