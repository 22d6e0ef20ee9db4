import MiniSql.ReaderLimits

/-!
# Rows with missing fields

Activation accepts rows of any width, as long as they have an id and, if the table has the column, a
`student_no`.  The id paths and the projection check the width of a row; the linear filter reads the WHERE
column without a check.

* `FiltersShortRow`: the linear path filters by a column that a row it gets to does not have.
* `SelectsShortRow`: a row of the full result does not have all selected fields.
* `MeetsShortRow`: an id path goes to a row with fewer fields than the table has columns; `metRefs` are the
  rows it goes to.
* `FieldsInRange`: every access is inside its row, and a row that is too short for the WHERE column or a
  selected one, or for the table on an id path, makes the SELECT fail.

Main results:

* `binaryReaderScanAll_fault`: when a scan reads outside a row.
* `walkLeaves_met`, `selectFromTable_met`: a walk that succeeds has emitted every row it went to, so a short
  row on an id path makes the SELECT fail.
* `runSelectQuery_in_range`: a SELECT keeps its accesses in range exactly if it does not filter a short row.
* `runSelectQuery_out_of_range`: a filter on the second field of a row that has one.
-/

namespace MiniSql

open Framing

/-! ### The linear filter -/

/-- The scan ends at this row: it matches, and the scan ends at the first match. -/
def endsScan (i : ℕ) (w : WhereClause) (stop : Bool) (row : StringList) : Bool :=
  stop && whereValueMatches (row.getD i CString.empty) w.value w.op

/-- The callback on a row that has the field. -/
theorem linearScanCallback_wide {i : ℕ} {row : StringList} (hi : i < row.length) (w : WhereClause)
    (stop : Bool) (ref : RowRef) (out : List StringList) :
    linearScanCallback (some (i, w)) stop ref row out = some (if endsScan i w stop row then 1 else 0,
      if whereValueMatches (row.getD i CString.empty) w.value w.op then out ++ [row] else out) := by
  rw [linearScanCallback, endsScan, List.getElem?_eq_getElem hi, List.getD_eq_getElem _ _ hi]
  dsimp only
  cases whereValueMatches row[i] w.value w.op <;> cases stop <;> rfl

/-- The scan gets to a row that has no field `i`. -/
def ReachesShortRow (i : ℕ) (w : WhereClause) (stop : Bool) (rows : List StringList) : Prop :=
  ∃ before row after, rows = before ++ row :: after ∧ row.length ≤ i ∧
    ∀ r ∈ before, i < r.length ∧ endsScan i w stop r = false

theorem reachesShortRow_cons (i : ℕ) (w : WhereClause) (stop : Bool) (row : StringList)
    (rows : List StringList) : ReachesShortRow i w stop (row :: rows) ↔
      row.length ≤ i ∨ (endsScan i w stop row = false ∧ ReachesShortRow i w stop rows) := by
  constructor
  · rintro ⟨before, short, after, heq, hshort, hbefore⟩
    cases before with
    | nil =>
      obtain ⟨rfl, -⟩ := List.cons.inj heq
      exact Or.inl hshort
    | cons r before =>
      obtain ⟨rfl, rfl⟩ := List.cons.inj heq
      obtain ⟨hr, hrest⟩ := List.forall_mem_cons.mp hbefore
      exact Or.inr ⟨hr.2, before, short, after, rfl, hshort, hrest⟩
  · by_cases hrow : row.length ≤ i
    · exact fun _ => ⟨[], row, rows, rfl, hrow, by simp⟩
    · rintro (hshort | ⟨hends, before, short, after, rfl, hshort, hbefore⟩)
      · exact absurd hshort hrow
      · exact ⟨row :: before, short, after, rfl, hshort,
          List.forall_mem_cons.mpr ⟨⟨not_le.mp hrow, hends⟩, hbefore⟩⟩

/-- The filter reads outside a row exactly if the scan gets to a short one. -/
theorem foldRows_fault (i : ℕ) (w : WhereClause) (stop : Bool)
    (rows : List (RowRef × StringList)) (out : List StringList) :
    foldRows (linearScanCallback (some (i, w)) stop) rows out = none ↔
      ReachesShortRow i w stop (rows.map Prod.snd) := by
  induction rows generalizing out with
  | nil =>
    constructor
    · intro h
      cases h
    · rintro ⟨before, row, after, heq, -⟩
      exact absurd heq.symm (List.append_ne_nil_of_right_ne_nil _ (List.cons_ne_nil _ _))
  | cons e rows ih =>
    obtain ⟨ref, row⟩ := e
    rw [foldRows, List.map_cons, reachesShortRow_cons]
    by_cases hshort : row.length ≤ i
    · have hfault : linearScanCallback (some (i, w)) stop ref row out = none := by
        rw [linearScanCallback, List.getElem?_eq_none hshort]
      rw [hfault]
      exact ⟨fun _ => Or.inl hshort, fun _ => rfl⟩
    · rw [linearScanCallback_wide (not_le.mp hshort)]
      dsimp only
      cases hends : endsScan i w stop row with
      | true =>
        rw [if_pos rfl, if_neg (by decide), if_pos (by decide)]
        refine ⟨fun h => (by cases h), fun h => ?_⟩
        rcases h with h | ⟨h, -⟩
        · exact absurd h hshort
        · cases h
      | false =>
        rw [if_neg Bool.false_ne_true, if_neg (by decide), if_neg (by decide), ih]
        exact ⟨fun h => Or.inr ⟨rfl, h⟩, fun h => h.elim (fun h => absurd h hshort) fun h => h.2⟩

/-! ### The SELECT -/

section Select

variable {uninit : ℕ → UInt32} {table : TableDefinition} {s s₁ : State}

/-- The rows of the data file as a scan gets them. -/
def storedRows (uninit : ℕ → UInt32) (table : TableDefinition) (s : State) : List StringList :=
  match s.files table.dataPath with
  | none => []
  | some content => (scannedRows uninit content).1.map Prod.snd

/-- `stop_after_first_match` -/
def stopsAtFirstMatch (w : WhereClause) : Bool :=
  decide (w.op = .equal) && decide (sqlStricmp w.column studentNoName = 0)

/-- The linear path filters by a column that a row it gets to does not have. -/
def FiltersShortRow (uninit : ℕ → UInt32) (table : TableDefinition) (statement : SelectStatement)
    (s : State) : Prop :=
  ¬OnIdIndex statement ∧ ∃ w ∈ statement.where_, ∃ i, findColumnIndex table.columns w.column = some i ∧
    ReachesShortRow i w (stopsAtFirstMatch w) (storedRows uninit table s)

theorem activateStorageForTable_active
    (h : activateStorageForTable uninit table s = (none, s₁)) :
    s₁.globals.activeTable = some table ∧ s₁.globals.activeDataPath = some table.dataPath := by
  rw [activateStorageForTable] at h
  split at h
  · rename_i hactive
    obtain ⟨-, rfl⟩ := Prod.mk.inj h
    rw [alreadyActive, Bool.and_eq_true, decide_eq_true_eq] at hactive
    exact ⟨rfl, hactive.1⟩
  · rw [switchStorageToTable] at h
    dsimp only at h
    split at h
    · cases (Prod.mk.inj h).1
    · rw [buildIndexForTable] at h
      dsimp only at h
      split at h
      · cases (Prod.mk.inj h).1
      · split at h
        · cases (Prod.mk.inj h).1
        · split at h
          · cases (Prod.mk.inj h).1
          · split at h
            · cases (Prod.mk.inj h).1
            · obtain ⟨-, rfl⟩ := Prod.mk.inj h
              refine ⟨rfl, ?_⟩
              dsimp only
              split <;> rfl

/-- When a scan reads outside a row. -/
theorem binaryReaderScanAll_fault {i : ℕ} {w : WhereClause} {stop : Bool}
    (hpath : s.globals.activeDataPath = some table.dataPath) :
    binaryReaderScanAll uninit s.globals.activeDataPath s.files
        (linearScanCallback (some (i, w)) stop) [] = none ↔
      ReachesShortRow i w stop (storedRows uninit table s) := by
  rw [hpath, storedRows]
  cases hfile : s.files table.dataPath with
  | none =>
    rw [binaryReaderScanAll, Option.bind_some, hfile]
    refine ⟨fun h => (by cases h), ?_⟩
    rintro ⟨before, row, after, heq, -⟩
    exact absurd heq.symm (List.append_ne_nil_of_right_ne_nil _ (List.cons_ne_nil _ _))
  | some content =>
    rw [binaryReaderScanAll_eq uninit hfile, ← foldRows_fault i w stop _ []]
    rcases foldRows (linearScanCallback (some (i, w)) stop) (scannedRows uninit content).1 [] with
      _ | ⟨_ | rc, out⟩
    · exact ⟨fun _ => rfl, fun _ => rfl⟩
    · exact ⟨fun h => (by cases h), fun h => (by cases h)⟩
    · exact ⟨fun h => (by cases h), fun h => (by cases h)⟩

/-- Without a WHERE clause nothing is read outside a row. -/
theorem binaryReaderScanAll_all (path : Option CString) (files : FileSystem) :
    binaryReaderScanAll uninit path files (linearScanCallback none false) [] ≠ none := by
  have hcb : linearScanCallback none false = fun _ row out => some (0, out ++ [row]) := rfl
  cases hfile : path.bind files with
  | none =>
    rw [binaryReaderScanAll, hfile]
    exact Option.some_ne_none _
  | some content =>
    obtain ⟨path, rfl, hcontent⟩ := Option.bind_eq_some_iff.mp hfile
    rw [binaryReaderScanAll_eq uninit hcontent, hcb, foldRows_continue fun _ row out => out ++ [row]]
    exact Option.some_ne_none _

theorem runSelectLinear_fault {statement : SelectStatement}
    (hactive : s.globals.activeTable = some table)
    (hpath : s.globals.activeDataPath = some table.dataPath) :
    runSelectLinear uninit s statement [] = none ↔ ∃ w ∈ statement.where_, ∃ i,
      findColumnIndex table.columns w.column = some i ∧
        ReachesShortRow i w (stopsAtFirstMatch w) (storedRows uninit table s) := by
  rw [runSelectLinear, hactive]
  dsimp only
  cases hw : statement.where_ with
  | none =>
    have hscan := @binaryReaderScanAll_all uninit s.globals.activeDataPath s.files
    constructor
    · intro h
      dsimp only at h
      split at h
      · rename_i hnone
        exact absurd hnone hscan
      · cases h
    · rintro ⟨w, hmem, -⟩
      cases hmem
  | some w =>
    have hsingle : (∃ w' ∈ some w, ∃ i, findColumnIndex table.columns w'.column = some i ∧
        ReachesShortRow i w' (stopsAtFirstMatch w') (storedRows uninit table s)) ↔
        ∃ i, findColumnIndex table.columns w.column = some i ∧
          ReachesShortRow i w (stopsAtFirstMatch w) (storedRows uninit table s) := by
      constructor
      · rintro ⟨w', hw', h⟩
        obtain rfl := Option.some.inj hw'
        exact h
      · exact fun h => ⟨w, rfl, h⟩
    rw [hsingle]
    dsimp only
    cases hcolumn : findColumnIndex table.columns w.column with
    | none =>
      constructor
      · intro h
        cases h
      · rintro ⟨i, hi, -⟩
        cases hi
    | some i =>
      have hfault := @binaryReaderScanAll_fault uninit table s i w (stopsAtFirstMatch w) hpath
      dsimp only
      constructor
      · intro h
        refine ⟨i, rfl, hfault.mp ?_⟩
        split at h
        · rename_i hnone
          exact hnone
        · cases h
      · rintro ⟨i', hi', hreach⟩
        obtain rfl := Option.some.inj hi'
        have hnone := hfault.mpr hreach
        rw [stopsAtFirstMatch] at hnone
        rw [hnone]

theorem runFullQuery_fault {statement : SelectStatement}
    (hactive : s.globals.activeTable = some table)
    (hpath : s.globals.activeDataPath = some table.dataPath) :
    runFullQuery uninit s statement = none ↔ FiltersShortRow uninit table statement s := by
  rw [FiltersShortRow, ← runSelectLinear_fault hactive hpath, runFullQuery]
  by_cases hindex : OnIdIndex statement
  · obtain ⟨w, hw, hcolumn, hparses⟩ := hindex
    obtain ⟨id, hvalue⟩ := Option.ne_none_iff_exists'.mp hparses
    refine ⟨fun h => ?_, fun h => absurd ⟨w, hw, hcolumn, hparses⟩ h.1⟩
    rcases onIdIndex_predicates hw hcolumn hvalue with ⟨-, hequal⟩ | ⟨-, hequal, hrange⟩
    · rw [hequal] at h
      cases h
    · rw [hequal] at h
      dsimp only at h
      rw [hrange] at h
      cases h
  · obtain ⟨hequal, hrange⟩ := not_onIdIndex_predicates hindex
    rw [hequal]
    dsimp only
    rw [hrange]
    dsimp only
    rcases runSelectLinear uninit s statement [] with _ | ⟨rc, rows⟩
    · exact ⟨fun _ => ⟨hindex, rfl⟩, fun _ => rfl⟩
    · exact ⟨fun h => (by cases h), fun h => (by cases h.2)⟩

/-- A row of the full result that does not have all selected fields. -/
def SelectsShortRow (uninit : ℕ → UInt32) (table : TableDefinition) (statement : SelectStatement)
    (s : State) : Prop :=
  ∃ rows, runFullQuery uninit s statement = some (.ok rows) ∧ ∃ row ∈ rows,
    ∃ i ∈ selectedPositions table.columns statement, row.length ≤ i

theorem selectFromTable_short {statement : SelectStatement}
    (h : SelectsShortRow uninit table statement s) :
    ∃ e, selectFromTable uninit table statement s = .error e := by
  obtain ⟨rows, hrows, row, hrow, i, hi, hshort⟩ := h
  rw [selectFromTable, hrows]
  dsimp only
  split
  · exact ⟨_, rfl⟩
  · rename_i indexes hindexes
    have hpositions : indexes = selectedPositions table.columns statement := by
      rw [selectedPositions]
      split at hindexes
      · rename_i hall
        rw [if_pos hall]
        exact (Except.ok.inj hindexes).symm
      · rename_i hall
        rw [if_neg hall]
        by_cases hexist : ∀ c ∈ statement.columns, ColumnExists table.columns c
        · rw [selectedIndexes_eq hexist] at hindexes
          exact (Except.ok.inj hindexes).symm
        · obtain ⟨e, he⟩ := selectedIndexes_error hexist
          rw [he] at hindexes
          cases hindexes
    split
    · exact ⟨_, rfl⟩
    · rename_i projected hprojected
      rw [hpositions] at hprojected
      exact absurd ((projectRows_ok hprojected).1 row hrow i hi) (not_lt.mpr hshort)

/-! ### The id paths -/

/-- The rows a walk along the leaves goes to. -/
def recordRef (ref : RowRef) (refs : List RowRef) : ℤ × List RowRef := (0, refs ++ [ref])

section Walk

variable {emit : RowRef → List StringList → ℤ × List StringList} {action : UInt64 → SlotAction}

/-- One leaf: a loop that has not failed has emitted every row it went to. -/
theorem walkSlots_met (slots : List (UInt64 × RowRef)) (out : List StringList) (refs : List RowRef) :
    (walkSlots emit action slots out).1 = some (-1) ∨
      ((walkSlots emit action slots out).1 = (walkSlots recordRef action slots refs).1 ∧
        ∀ ref ∈ (walkSlots recordRef action slots refs).2, ref ∈ refs ∨ ∃ o, (emit ref o).1 = 0) := by
  induction slots generalizing out refs with
  | nil => exact Or.inr ⟨rfl, fun ref h => Or.inl h⟩
  | cons e slots ih =>
    obtain ⟨key, ref⟩ := e
    simp only [walkSlots]
    cases action key with
    | skip => exact ih out refs
    | stop => exact Or.inr ⟨rfl, fun ref h => Or.inl h⟩
    | emit =>
      dsimp only
      by_cases hrc : (emit ref out).1 = 0
      · have hrecord : (recordRef ref refs).1 = 0 := rfl
        rw [if_neg (not_not.mpr hrc), if_neg (not_not.mpr hrecord)]
        refine (ih (emit ref out).2 (refs ++ [ref])).imp_right fun hrest => ⟨hrest.1, ?_⟩
        intro ref' href'
        rcases hrest.2 ref' href' with hmem | hgood
        · rcases List.mem_append.mp hmem with hmem | hmem
          · exact Or.inl hmem
          · rw [List.mem_singleton.mp hmem]
            exact Or.inr ⟨out, hrc⟩
        · exact Or.inr hgood
      · rw [if_pos hrc]
        exact Or.inl rfl

/-- A walk that succeeds has emitted every row it went to. -/
theorem walkLeaves_met (heap : BptHeap) {fuel : ℕ} {leaf : Option ℕ} {index : ℕ} {out : List StringList}
    {refs : List RowRef} (h : (walkLeaves emit action heap fuel leaf index out).1 = 0) :
    ∀ ref ∈ (walkLeaves recordRef action heap fuel leaf index refs).2,
      ref ∈ refs ∨ ∃ o, (emit ref o).1 = 0 := by
  induction fuel generalizing leaf index out refs with
  | zero =>
    cases leaf with
    | none => exact fun ref href => Or.inl href
    | some leaf => cases h
  | succ fuel ih =>
    cases leaf with
    | none => exact fun ref href => Or.inl href
    | some leaf =>
      rw [walkLeaves] at h ⊢
      cases hleaf : leafAt heap leaf with
      | none =>
        rw [hleaf] at h
        cases h
      | some content =>
        obtain ⟨slots, next⟩ := content
        rw [hleaf] at h
        dsimp only at h ⊢
        rcases hfull : walkSlots emit action (slots.drop index) out with ⟨ended, out'⟩
        rcases hmet : walkSlots recordRef action (slots.drop index) refs with ⟨ended', refs'⟩
        have hslots := @walkSlots_met emit action (slots.drop index) out refs
        rw [hfull, hmet] at hslots
        rw [hfull] at h
        rcases hslots with hfailed | ⟨hsame, hgood⟩
        · dsimp only at hfailed
          rw [hfailed] at h
          cases h
        · dsimp only at hsame hgood
          subst hsame
          cases ended with
          | some rc => exact hgood
          | none =>
            intro ref href
            rcases ih h ref href with hmem | hemitted
            · exact hgood ref hmem
            · exact Or.inr hemitted

end Walk

/-- The rows `run_select_by_id_range` goes to. -/
def rangeRefs (s : State) (op : WhereOperator) (id : UInt64) : List RowRef :=
  match s.globals.index.root with
  | none => []
  | some root =>
      let heap := s.globals.index.heap
      let walk := walkLeaves recordRef (rangeAction op id) heap (heap.nodes.length + 1)
      if op = .greater ∨ op = .greaterEqual then
        match bptLowerBound heap root id with
        | none => []
        | some (leaf, index) => (walk (some leaf) index []).2
      else (walk (bptLeftmostLeaf heap root) 0 []).2

/-- The rows a SELECT on the id index goes to. -/
def metRefs (s : State) (statement : SelectStatement) : List RowRef :=
  match isIdEqualityPredicate statement with
  | some id =>
      match indexFind s.globals.index id with
      | (0, some ref) => [ref]
      | _ => []
  | none =>
      match isIdRangePredicate statement with
      | some (op, id) => rangeRefs s op id
      | none => []

/-- An id path goes to a row with fewer fields than the table has columns. -/
def MeetsShortRow (uninit : ℕ → UInt32) (table : TableDefinition) (statement : SelectStatement)
    (s : State) : Prop :=
  ∃ ref ∈ metRefs s statement, ∃ row, binaryReaderReadRowAt uninit s.globals.activeDataPath s.files ref =
    (0, row) ∧ row.length < table.columns.length

theorem appendRowByRef_short {ref : RowRef} {row : StringList}
    (hread : binaryReaderReadRowAt uninit s.globals.activeDataPath s.files ref = (0, row))
    (hshort : row.length < table.columns.length) (out : List StringList) :
    (appendRowByRef uninit s table ref out).1 ≠ 0 := by
  rw [appendRowByRef, hread]
  dsimp only
  rw [if_neg (by decide), if_pos hshort.ne]
  exact show (-1 : ℤ) ≠ 0 by decide

theorem runSelectByIdRange_short {op : WhereOperator} {id : UInt64}
    (hactive : s.globals.activeTable = some table) {ref : RowRef} (href : ref ∈ rangeRefs s op id)
    (hfails : ∀ out, (appendRowByRef uninit s table ref out).1 ≠ 0) :
    (runSelectByIdRange uninit s op id []).1 ≠ 0 := by
  -- every row a successful walk goes to has been appended
  have hwalk : ∀ leaf index, ref ∈ (walkLeaves recordRef (rangeAction op id) s.globals.index.heap
      (s.globals.index.heap.nodes.length + 1) leaf index []).2 →
      (walkLeaves (appendRowByRef uninit s table) (rangeAction op id) s.globals.index.heap
        (s.globals.index.heap.nodes.length + 1) leaf index []).1 ≠ 0 := by
    intro leaf index hmem hrc
    rcases walkLeaves_met _ hrc ref hmem with hnil | ⟨out, hout⟩
    · cases hnil
    · exact hfails out hout
  rw [rangeRefs] at href
  rw [runSelectByIdRange, hactive]
  cases hroot : s.globals.index.root with
  | none =>
    rw [hroot] at href
    cases href
  | some root =>
    rw [hroot] at href
    cases s.globals.index.ready with
    | false => exact show (-1 : ℤ) ≠ 0 by decide
    | true =>
      dsimp only at href ⊢
      split at href
      · rename_i hup
        rw [if_pos hup]
        cases hlower : bptLowerBound s.globals.index.heap root id with
        | none =>
          rw [hlower] at href
          cases href
        | some start =>
          rw [hlower] at href
          exact hwalk _ _ href
      · rename_i hup
        rw [if_neg hup]
        exact hwalk _ _ href

/-- Such a row makes the SELECT fail. -/
theorem selectFromTable_met {statement : SelectStatement} (hactive : s.globals.activeTable = some table)
    (h : MeetsShortRow uninit table statement s) :
    ∃ e, selectFromTable uninit table statement s = .error e := by
  obtain ⟨ref, href, row, hread, hshort⟩ := h
  have hfails := appendRowByRef_short hread hshort
  have hfull : ∃ e, runFullQuery uninit s statement = some (.error e) := by
    rw [metRefs] at href
    rw [runFullQuery]
    cases hequal : isIdEqualityPredicate statement with
    | some id =>
      rw [hequal] at href
      dsimp only at href ⊢
      split at href
      · rename_i ref' hfound
        obtain rfl := List.mem_singleton.mp href
        have hrc : (runSelectById uninit s id []).1 ≠ 0 := by
          rw [runSelectById, hactive]
          dsimp only
          rw [hfound]
          exact hfails []
        rw [if_pos hrc]
        exact ⟨_, rfl⟩
      · cases href
    | none =>
      rw [hequal] at href
      dsimp only at href ⊢
      cases hrange : isIdRangePredicate statement with
      | some predicate =>
        rw [hrange] at href
        dsimp only
        rw [if_pos (runSelectByIdRange_short hactive href hfails)]
        exact ⟨_, rfl⟩
      | none =>
        rw [hrange] at href
        cases href
  obtain ⟨e, he⟩ := hfull
  rw [selectFromTable, he]
  exact ⟨e, rfl⟩

/-! ### All paths -/

/-- Every field access of a SELECT is inside its row, and a row that is too short for the WHERE column
or a selected one, or for the table on an id path, makes it fail. -/
structure FieldsInRange (uninit : ℕ → UInt32) (table : TableDefinition) (statement : SelectStatement)
    (s : State) (outcome : SelectOutcome) : Prop where
  no_fault : outcome ≠ .fault
  filtered : FiltersShortRow uninit table statement s → ∃ e, outcome = .error e
  selected : SelectsShortRow uninit table statement s → ∃ e, outcome = .error e
  met : MeetsShortRow uninit table statement s → ∃ e, outcome = .error e

theorem selectFromTable_fault {statement : SelectStatement}
    (hactive : s.globals.activeTable = some table)
    (hpath : s.globals.activeDataPath = some table.dataPath) :
    selectFromTable uninit table statement s = .fault ↔
      FiltersShortRow uninit table statement s := by
  rw [← runFullQuery_fault hactive hpath, selectFromTable]
  cases runFullQuery uninit s statement with
  | none => exact ⟨fun _ => rfl, fun _ => rfl⟩
  | some r =>
    refine ⟨fun h => ?_, fun h => (by cases h)⟩
    cases r with
    | error e => cases h
    | ok rows =>
      dsimp only at h
      split at h
      · cases h
      · split at h <;> cases h

/-- **Field accesses.**  Let a SELECT load its table and activate it.  Its accesses to the fields of the
stored rows are in range exactly if the linear path does not filter by a column that a row it gets to
does not have. -/
theorem runSelectQuery_in_range (uninit : ℕ → UInt32) (dbRoot : CString) (statement : SelectStatement)
    (table : TableDefinition) (s s₁ : State)
    (hload : loadTableDefinition dbRoot s.files statement.source = .ok table)
    (hactivate : activateStorageForTable uninit table s = (none, s₁)) :
    FieldsInRange uninit table statement s₁ (runSelectQuery uninit dbRoot statement s).1 ↔
      ¬FiltersShortRow uninit table statement s₁ := by
  obtain ⟨hactive, hpath⟩ := activateStorageForTable_active hactivate
  have houtcome : (runSelectQuery uninit dbRoot statement s).1 =
      selectFromTable uninit table statement s₁ := by
    rw [runSelectQuery, hload]
    dsimp only
    rw [hactivate]
  have hfault := @selectFromTable_fault uninit table s₁ statement hactive hpath
  rw [houtcome]
  constructor
  · exact fun h hshort => h.no_fault (hfault.mpr hshort)
  · intro h
    exact ⟨fun hf => h (hfault.mp hf), fun hshort => absurd hshort h, selectFromTable_short,
      selectFromTable_met hactive⟩

end Select

/-- A table with a row that has an id only. -/
def shortRowState : State := State.fresh (nameFiles (lit "1\n2|b\n").bytes)

theorem runSelectQuery_in_range_all :
    FieldsInRange (fun _ => 0) nameTable ⟨⟨none, lit "t"⟩, true, [], none⟩
      (activateStorageForTable (fun _ => 0) nameTable shortRowState).2
      (runSelectQuery (fun _ => 0) (lit "db") ⟨⟨none, lit "t"⟩, true, [], none⟩ shortRowState).1 := by
  have hpair : ∀ r : Option StorageError × State, r.1 = none → r = (none, r.2) := by
    rintro ⟨o, s⟩ rfl
    rfl
  refine (runSelectQuery_in_range (fun _ => 0) (lit "db") ⟨⟨none, lit "t"⟩, true, [], none⟩ nameTable
    shortRowState _ (by decide +kernel) (hpair _ (by decide +kernel))).mpr ?_
  rintro ⟨-, w, hw, -⟩
  cases hw

/-- A filter on the name reads the second field of the short row. -/
theorem runSelectQuery_out_of_range :
    (activateStorageForTable (fun _ => 0) nameTable shortRowState).1 = none ∧
    (runSelectQuery (fun _ => 0) (lit "db")
      ⟨⟨none, lit "t"⟩, true, [], some ⟨lit "name", lit "b", .equal⟩⟩ shortRowState).1 = .fault := by
  decide +kernel

end MiniSql
