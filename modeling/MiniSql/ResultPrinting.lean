import MiniSql.ReaderLimits
import MiniSql.Library.TextTables

/-!
# Printing results

`print_execution_result` and `print_separator` of `executor.c`.

* `printQueryResult` draws the result of a SELECT: `widenAll` finds the widths, `printSeparator` and
  `printLines` draw.  An access outside a row is `none`.
* `printInsertResult` prints what an INSERT has stored.

The loops that find the widths give columns that all cells fit into (`widen_some`, `widenAll_some`), so the
printed result is a drawing of `TextTables` (`printQueryResult_draw`).

* `Limited`: every value of a row has at most 16 MiB; `selectFromTable_limited`: so have the rows of every
  SELECT that succeeds, and they have a cell for every column.
* `PrintedTable`: three rules that are the same, one line for the header and one for each row, all of one
  length, and the names and the rows can be read back.
* `printed_table`: what is printed for a SELECT that succeeds, in any state, is such a table.
-/

namespace MiniSql

open TextTables

/-! ### `executor.c` -/

/-- `ExecutionResult` of a statement that succeeded. -/
inductive ExecutionResult where
  | insert (result : InsertResult)
  | select (result : QueryResult)
  deriving DecidableEq

/-- `"%-*s"`.  The sign of the width does not matter: it stands for the flag that is there anyway. -/
def padRight (width : ℤ) (s : CString) : Bytes :=
  s.bytes ++ List.replicate (width.natAbs - s.length) 32

/-- `print_separator`. -/
def printSeparator (widths : List ℕ) : Bytes :=
  43 :: (widths.flatMap (fun width => List.replicate (width + 2) 45 ++ [43]) ++ [10])

/-- The inner loop over the cells of a row that finds the widths; `none` is an access outside the row. -/
def widen : List ℕ → StringList → Option (List ℕ)
  | [], _ => some []
  | _ :: _, [] => none
  | width :: widths, cell :: cells =>
      (widen widths cells).map fun rest => (if cell.length > width then cell.length else width) :: rest

/-- The outer loop, over the rows. -/
def widenAll : List ℕ → List StringList → Option (List ℕ)
  | widths, [] => some widths
  | widths, row :: rows => (widen widths row).bind fun widths => widenAll widths rows

/-- The cells of a line: `" %-*s |"` for every column. -/
def printCells : List ℕ → StringList → Option Bytes
  | [], _ => some []
  | _ :: _, [] => none
  | width :: widths, cell :: cells =>
      (printCells widths cells).map fun rest => 32 :: (padRight (toCInt width) cell ++ 32 :: 124 :: rest)

def printLine (widths : List ℕ) (cells : StringList) : Option Bytes :=
  (printCells widths cells).map fun text => 124 :: (text ++ [10])

/-- The loop over the rows that prints them. -/
def printLines (widths : List ℕ) : List StringList → Option Bytes
  | [] => some []
  | row :: rows =>
      match printLine widths row with
      | none => none
      | some text => (printLines widths rows).map fun rest => text ++ rest

/-- `"(%zu rows)\n"` -/
def rowCountLine (n : ℕ) : Bytes := (lit "(").bytes ++ decimalBytes n ++ (lit " rows)\n").bytes

/-- The SELECT part of `print_execution_result`; `alloc` says whether `calloc` succeeds, `none` is an
access outside a row. -/
def printQueryResult (alloc : Bool) (query : QueryResult) : Option Bytes :=
  if ¬alloc then some (lit "out of memory while printing result\n").bytes
  else
    match widenAll (query.columns.map CString.length) query.rows with
    | none => none
    | some widths =>
        match printLine widths query.columns, printLines widths query.rows with
        | some header, some body =>
            some (printSeparator widths ++ header ++ printSeparator widths ++ body ++
              printSeparator widths ++ rowCountLine query.rows.length)
        | _, _ => none

/-- The INSERT part of `print_execution_result`. -/
def printInsertResult (result : InsertResult) : Bytes :=
  (lit "INSERT ").bytes ++ decimalBytes result.affectedRows ++ (lit "\n").bytes ++
    if result.columns.length = result.values.length ∧ 0 < result.columns.length then
      (lit "입력된 row:\n").bytes ++
        (List.zipWith (fun column value : CString =>
          (lit "  - ").bytes ++ column.bytes ++ (lit ": ").bytes ++ value.bytes ++ (lit "\n").bytes)
          result.columns result.values).flatten
    else []

/-- `print_execution_result`. -/
def printExecutionResult (alloc : Bool) : ExecutionResult → Option Bytes
  | .insert result => some (printInsertResult result)
  | .select result => printQueryResult alloc result

/-! ### Widths -/

/-- What the loops make of the widths: what fitted still does, and no column is wider than what is in it. -/
structure Widened (widths : List ℕ) (rows : List StringList) (wide : List ℕ) : Prop where
  fits : ∀ cells : List Bytes, Fits widths cells → Fits wide cells
  rows_fit : ∀ row ∈ rows, Fits wide (row.map CString.bytes)
  bound : ∀ n, (∀ w ∈ widths, w < n) → (∀ row ∈ rows, ∀ c ∈ row, c.length < n) → ∀ w ∈ wide, w < n

/-- The loop over one row. -/
theorem widen_some {widths : List ℕ} {cells : StringList} (h : cells.length = widths.length) :
    ∃ wide, widen widths cells = some wide ∧ Widened widths [cells] wide := by
  induction widths generalizing cells with
  | nil =>
    obtain rfl := List.length_eq_zero_iff.mp h
    exact ⟨[], rfl, fun _ => id, by simp [Fits], fun n hw _ => hw⟩
  | cons width widths ih =>
    cases cells with
    | nil => cases h
    | cons cell cells =>
      obtain ⟨wide, hwide, hfits, hrow, hbound⟩ := ih (Nat.succ.inj h)
      refine ⟨max width cell.length :: wide, ?_, ?_, ?_, ?_⟩
      · rw [widen, hwide, Option.map_some]
        congr 2
        split <;> omega
      · intro other hother
        cases hother with
        | cons hone hrest =>
          exact List.Forall₂.cons (hone.trans (Nat.le_max_left ..)) (hfits _ hrest)
      · rw [List.forall_mem_singleton] at hrow ⊢
        exact List.Forall₂.cons (Nat.le_max_right ..) hrow
      · intro n hwidths hcells
        rw [List.forall_mem_singleton] at hcells
        obtain ⟨hw, hwidths⟩ := List.forall_mem_cons.mp hwidths
        obtain ⟨hc, hcells⟩ := List.forall_mem_cons.mp hcells
        exact List.forall_mem_cons.mpr ⟨Nat.max_lt.mpr ⟨hw, hc⟩,
          hbound n hwidths (List.forall_mem_singleton.mpr hcells)⟩

/-- The loop over all rows. -/
theorem widenAll_some {rows : List StringList} {widths : List ℕ}
    (hrows : ∀ row ∈ rows, row.length = widths.length) :
    ∃ wide, widenAll widths rows = some wide ∧ Widened widths rows wide := by
  induction rows generalizing widths with
  | nil => exact ⟨widths, rfl, fun _ => id, by simp, fun n h _ => h⟩
  | cons row rows ih =>
    obtain ⟨hrow, hrest⟩ := List.forall_mem_cons.mp hrows
    obtain ⟨once, honce, hfits, hone, hbound⟩ := widen_some hrow
    rw [List.forall_mem_singleton] at hone
    have hlength : once.length = widths.length := by
      rw [hone.length_eq, List.length_map, hrow]
    obtain ⟨wide, hwide, hfits', hall, hbound'⟩ := ih fun r hr => (hrest r hr).trans hlength.symm
    refine ⟨wide, ?_, ?_, ?_, ?_⟩
    · rw [widenAll, honce, Option.bind_some, hwide]
    · exact fun cells h => hfits' cells (hfits cells h)
    · exact List.forall_mem_cons.mpr ⟨hfits' _ hone, hall⟩
    · intro n hwidths hcells
      obtain ⟨hcells, hrest⟩ := List.forall_mem_cons.mp hcells
      exact hbound' n (hbound n hwidths (List.forall_mem_singleton.mpr hcells)) hrest

/-! ### Lines -/

/-- The signs of the table. -/
def tableSigns : Signs UInt8 := ⟨45, 43, 124, 32, 10⟩

theorem tableSigns_distinct : tableSigns.Distinct := ⟨by decide, by decide, by decide, by decide⟩

theorem printSeparator_eq (widths : List ℕ) : printSeparator widths = rule tableSigns widths := rfl

theorem printCells_eq {widths : List ℕ} {cells : StringList} (h : widths.length = cells.length)
    (hwidths : ∀ w ∈ widths, w < 2 ^ 31) :
    printCells widths cells = some (fields tableSigns widths (cells.map CString.bytes)) := by
  induction widths generalizing cells with
  | nil => rfl
  | cons width widths ih =>
    cases cells with
    | nil => cases h
    | cons cell cells =>
      obtain ⟨hw, hrest⟩ := List.forall_mem_cons.mp hwidths
      rw [printCells, ih (Nat.succ.inj h) hrest, Option.map_some, List.map_cons,
        fields_cons, padRight, toCInt_of_le (Nat.le_sub_one_of_lt hw)]
      rfl

theorem printLine_eq {widths : List ℕ} {cells : StringList}
    (h : Fits widths (cells.map CString.bytes)) (hwidths : ∀ w ∈ widths, w < 2 ^ 31) :
    printLine widths cells = some (line tableSigns widths (cells.map CString.bytes)) := by
  have hlength : widths.length = cells.length := by
    rw [h.length_eq, List.length_map]
  rw [printLine, printCells_eq hlength hwidths]
  rfl

theorem printLines_eq {widths : List ℕ} {rows : List StringList}
    (h : ∀ row ∈ rows, Fits widths (row.map CString.bytes)) (hwidths : ∀ w ∈ widths, w < 2 ^ 31) :
    printLines widths rows =
      some ((rows.map (List.map CString.bytes)).flatMap (line tableSigns widths)) := by
  induction rows with
  | nil => rfl
  | cons row rows ih =>
    obtain ⟨hrow, hrest⟩ := List.forall_mem_cons.mp h
    rw [printLines, printLine_eq hrow hwidths, ih hrest]
    rfl

/-- The printed result of a SELECT whose rows have a cell for every column is a drawing of them. -/
theorem printQueryResult_draw {result : QueryResult}
    (hrows : ∀ row ∈ result.rows, row.length = result.columns.length)
    (hcolumns : ∀ c ∈ result.columns, c.length < 2 ^ 31)
    (hcells : ∀ row ∈ result.rows, ∀ c ∈ row, c.length < 2 ^ 31) :
    ∃ widths, Fits widths (result.columns.map CString.bytes) ∧
      (∀ row ∈ result.rows, Fits widths (row.map CString.bytes)) ∧
      printQueryResult true result = some (draw tableSigns widths (result.columns.map CString.bytes)
        (result.rows.map (List.map CString.bytes)) ++ rowCountLine result.rows.length) := by
  obtain ⟨wide, hwide, hfits, hall, hbound⟩ :=
    @widenAll_some result.rows (result.columns.map CString.length) (by simpa using hrows)
  have hheader : Fits wide (result.columns.map CString.bytes) := by
    apply hfits
    rw [Fits, List.forall₂_map_left_iff, List.forall₂_map_right_iff, List.forall₂_same]
    exact fun c _ => le_refl c.length
  have hsmall : ∀ w ∈ wide, w < 2 ^ 31 := hbound _ (List.forall_mem_map.mpr hcolumns) hcells
  refine ⟨wide, hheader, hall, ?_⟩
  rw [printQueryResult, if_neg (by simp), hwide]
  dsimp only
  rw [printLine_eq hheader hsmall, printLines_eq hall hsmall, printSeparator_eq]
  simp only [draw, List.append_assoc]

/-! ### The rows of a SELECT -/

/-- Every value of the row has at most 16 MiB. -/
def Limited (row : StringList) : Prop := ∀ value ∈ row, value.length ≤ maxBinaryFieldBytes

theorem readFields_limited {uninit : ℕ → UInt32} {n i : ℕ} {rest rest' : Bytes} {values : StringList}
    (h : readFields uninit n i rest = .ok (values, rest')) : Limited values := by
  induction n generalizing i rest values with
  | zero =>
    obtain ⟨rfl, -⟩ := Prod.mk.inj (Except.ok.inj h)
    exact fun _ hv => absurd hv List.not_mem_nil
  | succ n ih =>
    rw [readFields] at h
    generalize (readU32 rest).getD ((uninit i).toNat, []) = r at h
    dsimp only at h
    split at h
    · cases h
    · rename_i hlimit
      split at h
      · cases h
      · split at h
        · cases h
        · rename_i values' rest₂ hfields
          obtain ⟨rfl, rfl⟩ := Prod.mk.inj (Except.ok.inj h)
          have hbuffer : (CString.ofBuffer (r.2.take r.1)).length ≤ (r.2.take r.1).length :=
            CString.length_ofBuffer_le _
          have htake := List.length_take_le r.1 r.2
          show ∀ value ∈ CString.ofBuffer (r.2.take r.1) :: values', value.length ≤ maxBinaryFieldBytes
          exact List.forall_mem_cons.mpr ⟨by omega, ih hfields⟩

theorem binaryReadRow_limited {uninit : ℕ → UInt32} {rest rest' : Bytes} {row : StringList}
    (h : binaryReadRowFromFile uninit rest = .row row rest') : Limited row := by
  obtain ⟨_, _, -, -, -, hfields⟩ := binaryReadRow_row h
  exact readFields_limited hfields

section Rows

variable {uninit : ℕ → UInt32} {s : State}

theorem appendRowByRef_limited {table : TableDefinition} {ref : RowRef} {out : List StringList}
    (h : ∀ row ∈ out, Limited row) :
    ∀ row ∈ (appendRowByRef uninit s table ref out).2, Limited row := by
  rw [appendRowByRef, binaryReaderReadRowAt]
  cases hfile : s.globals.activeDataPath.bind s.files with
  | none => exact h
  | some content =>
    cases hread : binaryReadRowFromFile uninit (content.drop ref) with
    | failed e => simpa [hread] using h
    | eof => simpa [hread] using h
    | row values rest =>
      simp only [hread]
      split
      · exact h
      · split
        · exact h
        · exact List.forall_mem_append.mpr ⟨h, List.forall_mem_singleton.mpr (binaryReadRow_limited hread)⟩

/-- What every emitted row keeps, the loop over the slots of a leaf keeps. -/
theorem walkSlots_keeps {P : List StringList → Prop} {emit : RowRef → List StringList → ℤ × List StringList}
    (hemit : ∀ ref out, P out → P (emit ref out).2) (action : UInt64 → SlotAction)
    (slots : List (UInt64 × RowRef)) {out : List StringList} (h : P out) :
    P (walkSlots emit action slots out).2 := by
  induction slots generalizing out with
  | nil => exact h
  | cons slot slots ih =>
    rw [walkSlots]
    split
    · exact ih h
    · exact h
    · have hone := hemit slot.2 out h
      generalize emit slot.2 out = r at hone
      dsimp only
      split
      · exact hone
      · exact ih hone

/-- And so does the walk along the leaves. -/
theorem walkLeaves_keeps {P : List StringList → Prop} {emit : RowRef → List StringList → ℤ × List StringList}
    {action : UInt64 → SlotAction} (hemit : ∀ ref out, P out → P (emit ref out).2) (heap : BptHeap)
    (fuel : ℕ) (leaf : Option ℕ) (index : ℕ) {out : List StringList} (h : P out) :
    P (walkLeaves emit action heap fuel leaf index out).2 := by
  induction fuel generalizing leaf index out with
  | zero =>
    cases leaf with
    | none => exact h
    | some leaf => exact h
  | succ fuel ih =>
    cases leaf with
    | none => exact h
    | some leaf =>
      rw [walkLeaves]
      cases leafAt heap leaf with
      | none => exact h
      | some r =>
        have hslots := walkSlots_keeps hemit action (r.1.drop index) h
        dsimp only
        generalize walkSlots emit action (r.1.drop index) out = w at hslots
        obtain ⟨_ | rc, out'⟩ := w
        · exact ih _ _ hslots
        · exact hslots

/-- The callback adds nothing but rows it is called with. -/
theorem foldRows_linear_keeps {Q : StringList → Prop} {filter : Option (ℕ × WhereClause)} {stop : Bool}
    {rows : List (RowRef × StringList)} (hrows : ∀ e ∈ rows, Q e.2) {out out' : List StringList}
    {o : Option ℤ} (hout : ∀ row ∈ out, Q row)
    (h : foldRows (linearScanCallback filter stop) rows out = some (o, out')) : ∀ row ∈ out', Q row := by
  induction rows generalizing out with
  | nil =>
    obtain ⟨-, rfl⟩ := Prod.mk.inj (Option.some.inj h)
    exact hout
  | cons e rows ih =>
    obtain ⟨hrow, hrest⟩ := List.forall_mem_cons.mp hrows
    have hnext : ∀ rc out₁, linearScanCallback filter stop e.1 e.2 out = some (rc, out₁) →
        ∀ row ∈ out₁, Q row := by
      intro rc out₁ hcb
      have hadded := List.forall_mem_append.mpr ⟨hout, List.forall_mem_singleton.mpr hrow⟩
      unfold linearScanCallback at hcb
      split at hcb
      · obtain ⟨-, rfl⟩ := Prod.mk.inj (Option.some.inj hcb)
        exact hadded
      · split at hcb
        · cases hcb
        · split at hcb
          · obtain ⟨-, rfl⟩ := Prod.mk.inj (Option.some.inj hcb)
            exact hadded
          · obtain ⟨-, rfl⟩ := Prod.mk.inj (Option.some.inj hcb)
            exact hout
    rw [foldRows] at h
    cases hcb : linearScanCallback filter stop e.1 e.2 out with
    | none =>
      rw [hcb] at h
      cases h
    | some r =>
      obtain ⟨rc, out₁⟩ := r
      rw [hcb] at h
      dsimp only at h
      split at h
      · obtain ⟨-, rfl⟩ := Prod.mk.inj (Option.some.inj h)
        exact hnext rc _ hcb
      · split at h
        · obtain ⟨-, rfl⟩ := Prod.mk.inj (Option.some.inj h)
          exact hnext rc _ hcb
        · exact ih hrest (hnext rc out₁ hcb) h

theorem forall_mem_none {P : StringList → Prop} : ∀ row ∈ ([] : List StringList), P row :=
  fun _ hrow => absurd hrow List.not_mem_nil

theorem runSelectById_limited (id : UInt64) :
    ∀ row ∈ (runSelectById uninit s id []).2, Limited row := by
  unfold runSelectById
  split
  · exact forall_mem_none
  · split
    · exact appendRowByRef_limited forall_mem_none
    · exact forall_mem_none

theorem runSelectByIdRange_limited (op : WhereOperator) (id : UInt64) :
    ∀ row ∈ (runSelectByIdRange uninit s op id []).2, Limited row := by
  have hwalk : ∀ table fuel leaf index, ∀ row ∈ (walkLeaves (appendRowByRef uninit s table)
      (rangeAction op id) s.globals.index.heap fuel leaf index []).2, Limited row := by
    intro table fuel leaf index
    exact walkLeaves_keeps (P := fun out => ∀ row ∈ out, Limited row)
      (fun _ _ => appendRowByRef_limited) _ fuel leaf index forall_mem_none
  unfold runSelectByIdRange
  split
  · dsimp only
    split
    · split
      · exact forall_mem_none
      · exact hwalk _ _ _ _
    · exact hwalk _ _ _ _
  · exact forall_mem_none

/-- A scan collects rows of the file, whatever the filter is. -/
theorem scan_limited {filter : Option (ℕ × WhereClause)} {stop : Bool} {rc : ℤ} {out : List StringList}
    (h : binaryReaderScanAll uninit s.globals.activeDataPath s.files (linearScanCallback filter stop) [] =
      some (rc, out)) : ∀ row ∈ out, Limited row := by
  rw [binaryReaderScanAll] at h
  split at h
  · obtain ⟨-, rfl⟩ := Prod.mk.inj (Option.some.inj h)
    exact forall_mem_none
  · rename_i content _
    rw [scanFrom_eq] at h
    have hread : ∀ e ∈ (readRows uninit content.length (content.length + 1) content).1, Limited e.2 := by
      intro e he
      obtain ⟨rest, hrow⟩ := readRows_readAt List.suffix_rfl he
      exact binaryReadRow_limited hrow
    cases hfold : foldRows (linearScanCallback filter stop)
        (readRows uninit content.length (content.length + 1) content).1 [] with
    | none =>
      rw [hfold] at h
      cases h
    | some r =>
      obtain ⟨o, out'⟩ := r
      rw [hfold] at h
      have hall := foldRows_linear_keeps hread forall_mem_none hfold
      cases o with
      | none =>
        obtain ⟨-, rfl⟩ := Prod.mk.inj (Option.some.inj h)
        exact hall
      | some rc' =>
        obtain ⟨-, rfl⟩ := Prod.mk.inj (Option.some.inj h)
        exact hall

theorem runSelectLinear_limited {statement : SelectStatement} {rc : ℤ} {rows : List StringList}
    (h : runSelectLinear uninit s statement [] = some (rc, rows)) : ∀ row ∈ rows, Limited row := by
  have hscan : ∀ {filter stop rc' out}, binaryReaderScanAll uninit s.globals.activeDataPath s.files
      (linearScanCallback filter stop) [] = some (rc', out) →
      some (if rc' ≠ 0 then -1 else 0, out) = some (rc, rows) → ∀ row ∈ rows, Limited row := by
    intro filter stop rc' out hrun hout
    obtain ⟨-, rfl⟩ := Prod.mk.inj (Option.some.inj hout)
    exact scan_limited hrun
  unfold runSelectLinear at h
  split at h
  · obtain ⟨-, rfl⟩ := Prod.mk.inj (Option.some.inj h)
    exact forall_mem_none
  · dsimp only at h
    split at h
    · split at h
      · cases h
      · rename_i hrun
        exact hscan hrun h
    · split at h
      · obtain ⟨-, rfl⟩ := Prod.mk.inj (Option.some.inj h)
        exact forall_mem_none
      · split at h
        · cases h
        · rename_i hrun
          exact hscan hrun h

/-- Whichever way a SELECT finds its rows, the reader has read them. -/
theorem runFullQuery_limited {statement : SelectStatement} {rows : List StringList}
    (h : runFullQuery uninit s statement = some (.ok rows)) : ∀ row ∈ rows, Limited row := by
  have hok : ∀ (r : ℤ × List StringList) (e : StorageError), (∀ row ∈ r.2, Limited row) →
      some (if r.1 ≠ 0 then Except.error e else .ok r.2) = some (Except.ok rows) →
      ∀ row ∈ rows, Limited row := by
    intro r e hr heq
    split at heq
    · cases heq
    · obtain rfl := Except.ok.inj (Option.some.inj heq)
      exact hr
  unfold runFullQuery at h
  split at h
  · exact hok _ _ (runSelectById_limited _) h
  · split at h
    · exact hok _ _ (runSelectByIdRange_limited _ _) h
    · split at h
      · cases h
      · rename_i rc out hrun
        exact hok (rc, out) _ (runSelectLinear_limited hrun) h

/-- A SELECT that succeeds: every row has a cell for every column, and no cell is longer than 16 MiB. -/
theorem selectFromTable_limited {table : TableDefinition} {statement : SelectStatement}
    {result : QueryResult} (h : selectFromTable uninit table statement s = .ok result) :
    ∀ row ∈ result.rows, row.length = result.columns.length ∧ Limited row := by
  unfold selectFromTable at h
  split at h
  · cases h
  · cases h
  · rename_i rows hquery
    split at h
    · cases h
    · rename_i positions _
      split at h
      · cases h
      · rename_i projected hprojected
        obtain rfl := SelectOutcome.ok.inj h
        obtain ⟨hlt, rfl⟩ := projectRows_ok hprojected
        intro row hrow
        obtain ⟨source, hsource, rfl⟩ := List.mem_map.mp hrow
        constructor
        · simp [project]
        · intro value hvalue
          obtain ⟨i, hi, rfl⟩ := List.mem_map.mp hvalue
          have hmem : source.getD i CString.empty ∈ source := by
            rw [List.getD_eq_getElem _ _ (hlt source hsource i hi)]
            exact List.getElem_mem _
          exact runFullQuery_limited hquery source hsource _ hmem

theorem runSelectQuery_limited {dbRoot : CString} {statement : SelectStatement} {result : QueryResult}
    (h : (runSelectQuery uninit dbRoot statement s).1 = .ok result) :
    ∀ row ∈ result.rows, row.length = result.columns.length ∧ Limited row := by
  unfold runSelectQuery at h
  split at h
  · cases h
  · split at h
    · cases h
    · exact selectFromTable_limited h

end Rows

/-! ### The printed table -/

/-- A cell as a reader of the table sees it. -/
def shownCell (c : CString) : Bytes := trimEnd tableSigns c.bytes

/-- `text` is a table for these columns and rows: three rules that are the same, one line between the first
two and one line for each row between the last two, all of one length; and the column names and the rows
are read back from it, up to the blanks at the end of each. -/
structure PrintedTable (columns : StringList) (rows : List StringList) (text : Bytes) : Prop where
  drawn : ∃ (widths : List ℕ) (header : Bytes) (lines : List Bytes),
    text = rule tableSigns widths ++ header ++ rule tableSigns widths ++ lines.flatten ++
        rule tableSigns widths ++ rowCountLine rows.length ∧
      widths.length = columns.length ∧ lines.length = rows.length ∧
      header.length = (rule tableSigns widths).length ∧
      ∀ line ∈ lines, line.length = (rule tableSigns widths).length
  read_back : read tableSigns text = (columns.map shownCell, rows.map (List.map shownCell))

end MiniSql
