import MiniSql.Coherence

/-!
# When an INSERT is accepted

The checks of `append_insert_row`, and the row it stores, without its loops.

* `Acceptable`: the counts are equal, every column exists and is named once, and the `student_no` is given and
  new where the table has the column.
* `InsertedRow`: the id at the first `id` column, the given values at the columns their names find, `""`
  everywhere else.  The order of the pairs does not occur in it.
* `Coherent`: the table is active, and the index, the counter and the `student_no` set match its data file.

Main results:

* `assignColumns_ok_iff` and `ColumnsFilled`: when the column loop runs through, and what it leaves;
  `checkStudentNo_ok_iff`: what the checks behind it ask for.  Together `prepareInsert_ok_iff`.
* `appendInsertRow_accepted`: in a coherent state with ids left an INSERT is accepted exactly if it is
  `Acceptable` and its values fit into a field, and it stores the `InsertedRow`.
* `assignColumns_perm`, `appendInsertRow_perm`: permuting the pairs changes nothing.
* `activateStorageForTable_coherent`, `Serving.coherent`: where coherent states come from.
* `insert_too_long`: a value of more than `UINT32_MAX` bytes is refused.
-/

namespace MiniSql

/-! ### Finding a column -/

/-- Two names that find the same column are equal up to case. -/
theorem findColumnIndex_inj {columns : StringList} {a b : CString}
    (ha : findColumnIndex columns a ≠ none) :
    findColumnIndex columns a = findColumnIndex columns b ↔ sqlStricmp a b = 0 := by
  refine ⟨fun h => ?_, fun h => findColumnIndex_congr h columns⟩
  obtain ⟨i, hi⟩ := Option.ne_none_iff_exists'.mp ha
  have hi' : findColumnIndex columns b = some i := by rw [← h, hi]
  rw [sqlStricmp_eq_zero, ← findColumnIndex_match hi, ← findColumnIndex_match hi']

/-! ### The column loop -/

section Loop

variable {columns : StringList} {pairs : List (CString × CString)} {assigned assigned' : List Bool}
  {ordered ordered' : StringList}

theorem getD_set_true {i j : ℕ} (hi : i < assigned.length) :
    (assigned.set i true).getD j false = true ↔ j = i ∨ assigned.getD j false = true := by
  rw [List.getD_eq_getElem?_getD, List.getD_eq_getElem?_getD]
  by_cases hij : i = j
  · subst hij
    rw [List.getElem?_set_self hi]
    simp
  · rw [List.getElem?_set_ne hij]
    simp [Ne.symm hij]

/-- A round of the loop. -/
theorem assignColumns_cons {name value : CString} {target : ℕ}
    (htarget : findColumnIndex columns name = some target)
    (hfree : assigned.getD target false = false) :
    assignColumns columns ((name, value) :: pairs) assigned ordered =
      assignColumns columns pairs (assigned.set target true)
        (if sqlStricmp name idName = 0 then ordered else ordered.set target value) := by
  have hid := isIdName_column htarget
  rw [assignColumns, htarget]
  dsimp only
  rw [if_neg (by rw [hfree]; decide)]
  by_cases hname : sqlStricmp name idName = 0
  · rw [if_pos (hid.mpr hname), if_pos hname]
  · rw [if_neg fun h => hname (hid.mp h), if_neg hname]

/-- A loop that runs through has found a free column for its first pair. -/
theorem assignColumns_cons_ok {name value : CString} {r : List Bool × StringList}
    (h : assignColumns columns ((name, value) :: pairs) assigned ordered = .ok r) :
    ∃ target, findColumnIndex columns name = some target ∧ assigned.getD target false = false := by
  rw [assignColumns] at h
  cases htarget : findColumnIndex columns name with
  | none =>
    rw [htarget] at h
    cases h
  | some target =>
    rw [htarget] at h
    dsimp only at h
    split at h
    · cases h
    · rename_i hfree
      exact ⟨target, rfl, Bool.eq_false_iff.mpr hfree⟩

/-- The loop runs through exactly if every name finds a column that is still free and no two names find
the same one. -/
theorem assignColumns_ok_iff (hlen : assigned.length = columns.length) :
    (∃ r, assignColumns columns pairs assigned ordered = .ok r) ↔
      (∀ p ∈ pairs, ∃ i, findColumnIndex columns p.1 = some i ∧ assigned.getD i false = false) ∧
        pairs.Pairwise fun p q => findColumnIndex columns p.1 ≠ findColumnIndex columns q.1 := by
  induction pairs generalizing assigned ordered with
  | nil => simp [assignColumns]
  | cons p pairs ih =>
    obtain ⟨name, value⟩ := p
    rw [List.forall_mem_cons, List.pairwise_cons]
    dsimp only
    by_cases hfirst : ∃ i, findColumnIndex columns name = some i ∧ assigned.getD i false = false
    · obtain ⟨target, htarget, hfree⟩ := hfirst
      have hlt : target < assigned.length := by
        rw [hlen]
        exact findColumnIndex_lt htarget
      rw [assignColumns_cons htarget hfree, ih (by rw [List.length_set, hlen])]
      have hfirst : ∃ i, findColumnIndex columns name = some i ∧ assigned.getD i false = false :=
        ⟨target, htarget, hfree⟩
      -- free after the round means free before it and not the column of the round
      have hrest : (∀ p ∈ pairs, ∃ i, findColumnIndex columns p.1 = some i ∧
            (assigned.set target true).getD i false = false) ↔
          (∀ p ∈ pairs, ∃ i, findColumnIndex columns p.1 = some i ∧ assigned.getD i false = false) ∧
            ∀ p ∈ pairs, findColumnIndex columns name ≠ findColumnIndex columns p.1 := by
        rw [← forall₂_and]
        refine forall₂_congr fun p _ => ?_
        rw [htarget]
        constructor
        · rintro ⟨i, hi, hnot⟩
          rw [← Bool.not_eq_true, getD_set_true hlt, not_or, Bool.not_eq_true] at hnot
          refine ⟨⟨i, hi, hnot.2⟩, fun heq => hnot.1 ?_⟩
          exact Option.some.inj (hi.symm.trans heq.symm)
        · rintro ⟨⟨i, hi, hnot⟩, hne⟩
          refine ⟨i, hi, ?_⟩
          rw [← Bool.not_eq_true, getD_set_true hlt, not_or, Bool.not_eq_true]
          exact ⟨fun heq => hne (by rw [hi, heq]), hnot⟩
      rw [hrest]
      tauto
    · constructor
      · rintro ⟨r, hr⟩
        exact absurd (assignColumns_cons_ok hr) hfirst
      · intro h
        exact absurd h.1.1 hfirst

/-- What the loop leaves: the columns of the pairs are assigned, the pairs with other names than `id`
have put their values there, and nothing else has changed. -/
structure ColumnsFilled (columns : StringList) (pairs : List (CString × CString)) (assigned : List Bool)
    (ordered : StringList) (assigned' : List Bool) (ordered' : StringList) : Prop where
  assigned : ∀ i, assigned'.getD i false = true ↔
    (∃ p ∈ pairs, findColumnIndex columns p.1 = some i) ∨ assigned.getD i false = true
  named : ∀ p ∈ pairs, ¬IsIdName p.1 → ∀ i, findColumnIndex columns p.1 = some i →
    ordered'[i]? = some p.2
  other : ∀ i, (∀ p ∈ pairs, ¬IsIdName p.1 → findColumnIndex columns p.1 ≠ some i) →
    ordered'[i]? = ordered[i]?

theorem assignColumns_filled (hlen : assigned.length = columns.length)
    (hlen' : ordered.length = columns.length)
    (h : assignColumns columns pairs assigned ordered = .ok (assigned', ordered')) :
    ColumnsFilled columns pairs assigned ordered assigned' ordered' := by
  induction pairs generalizing assigned ordered with
  | nil =>
    obtain ⟨rfl, rfl⟩ := Prod.mk.inj (Except.ok.inj h)
    exact ⟨by simp, by simp, fun _ _ => rfl⟩
  | cons p pairs ih =>
    obtain ⟨name, value⟩ := p
    obtain ⟨target, htarget, hfree⟩ := assignColumns_cons_ok h
    have hlt := findColumnIndex_lt htarget
    rw [assignColumns_cons htarget hfree] at h
    have hlen₁ : (assigned.set target true).length = columns.length := by
      rw [List.length_set, hlen]
    have hlen₂ : (if sqlStricmp name idName = 0 then ordered else ordered.set target value).length =
        columns.length := by
      split
      · exact hlen'
      · rw [List.length_set, hlen']
    have hrest := ih hlen₁ hlen₂ h
    -- the later pairs keep away from the column of this one
    have hapart : ∀ p ∈ pairs, findColumnIndex columns p.1 ≠ some target := by
      intro p hp heq
      obtain ⟨i, hi, hnot⟩ := ((assignColumns_ok_iff hlen₁).mp ⟨_, h⟩).1 p hp
      obtain rfl := Option.some.inj (heq.symm.trans hi)
      rw [← Bool.not_eq_true, getD_set_true (by rw [hlen]; exact hlt)] at hnot
      exact hnot (Or.inl rfl)
    refine ⟨fun i => ?_, ?_, ?_⟩
    · rw [hrest.assigned, getD_set_true (by rw [hlen]; exact hlt), List.exists_mem_cons_iff, htarget,
        Option.some_inj, eq_comm (a := target)]
      exact or_left_comm.trans or_assoc.symm
    · intro p hp hid i hi
      rcases List.mem_cons.mp hp with rfl | hp
      · obtain rfl := Option.some.inj (htarget.symm.trans hi)
        have hname : sqlStricmp name idName ≠ 0 := hid
        rw [hrest.other target fun q hq _ => hapart q hq, if_neg hname,
          List.getElem?_set_self (by rw [hlen']; exact hlt)]
      · exact hrest.named p hp hid i hi
    · intro i hi
      rw [hrest.other i fun q hq => hi q (List.mem_cons_of_mem _ hq)]
      split
      · rfl
      · rename_i hid
        have hne := hi (name, value) List.mem_cons_self hid
        rw [List.getElem?_set_ne]
        rintro rfl
        exact hne htarget

theorem assignColumns_assigned_length
    (h : assignColumns columns pairs assigned ordered = .ok (assigned', ordered')) :
    assigned'.length = assigned.length := by
  induction pairs generalizing assigned ordered with
  | nil =>
    obtain ⟨rfl, -⟩ := Prod.mk.inj (Except.ok.inj h)
    rfl
  | cons p pairs ih =>
    obtain ⟨name, value⟩ := p
    obtain ⟨target, htarget, hfree⟩ := assignColumns_cons_ok h
    rw [assignColumns_cons htarget hfree] at h
    rw [ih h, List.length_set]

/-- `ColumnsFilled` does not depend on the order of the pairs. -/
theorem ColumnsFilled.perm {pairs' : List (CString × CString)} (hp : pairs.Perm pairs')
    (h : ColumnsFilled columns pairs assigned ordered assigned' ordered') :
    ColumnsFilled columns pairs' assigned ordered assigned' ordered' where
  assigned := by
    intro i
    rw [h.assigned]
    simp only [hp.mem_iff]
  named := fun p hmem => h.named p (hp.mem_iff.mpr hmem)
  other := fun i hi => h.other i fun p hmem => hi p (hp.mem_iff.mp hmem)

/-- `ColumnsFilled` determines what the loop leaves. -/
theorem ColumnsFilled.unique {assigned'' : List Bool} {ordered'' : StringList}
    (h : ColumnsFilled columns pairs assigned ordered assigned' ordered')
    (h' : ColumnsFilled columns pairs assigned ordered assigned'' ordered'')
    (hlen : assigned'.length = assigned''.length) : assigned' = assigned'' ∧ ordered' = ordered'' := by
  constructor
  · refine List.ext_getElem hlen fun i hi hi' => ?_
    rw [← List.getD_eq_getElem _ false hi, ← List.getD_eq_getElem _ false hi', Bool.eq_iff_iff,
      h.assigned, h'.assigned]
  · refine List.ext_getElem? fun i => ?_
    by_cases hnamed : ∃ p ∈ pairs, ¬IsIdName p.1 ∧ findColumnIndex columns p.1 = some i
    · obtain ⟨p, hp, hid, hi⟩ := hnamed
      rw [h.named p hp hid i hi, h'.named p hp hid i hi]
    · have hfree : ∀ p ∈ pairs, ¬IsIdName p.1 → findColumnIndex columns p.1 ≠ some i :=
        fun p hp hid hi => hnamed ⟨p, hp, hid, hi⟩
      rw [h.other i hfree, h'.other i hfree]

/-- The order of the pairs does not matter to a loop that runs through. -/
theorem assignColumns_perm {pairs' : List (CString × CString)} (hp : pairs.Perm pairs')
    (hlen : assigned.length = columns.length) (hlen' : ordered.length = columns.length)
    (h : assignColumns columns pairs assigned ordered = .ok (assigned', ordered')) :
    assignColumns columns pairs' assigned ordered = .ok (assigned', ordered') := by
  obtain ⟨hfree, hdistinct⟩ := (assignColumns_ok_iff hlen).mp ⟨_, h⟩
  have hok : ∃ r, assignColumns columns pairs' assigned ordered = .ok r := by
    rw [assignColumns_ok_iff hlen]
    refine ⟨fun p hmem => hfree p (hp.mem_iff.mpr hmem), ?_⟩
    exact (hp.pairwise_iff fun hne => Ne.symm hne).mp hdistinct
  obtain ⟨⟨assigned'', ordered''⟩, h'⟩ := hok
  have hlengths : assigned'.length = assigned''.length := by
    rw [assignColumns_assigned_length h, assignColumns_assigned_length h']
  obtain ⟨rfl, rfl⟩ := ((assignColumns_filled hlen hlen' h).perm hp).unique
    (assignColumns_filled hlen hlen' h') hlengths
  exact h'

end Loop

/-! ### The checks -/

/-- The (column, value) pairs of an INSERT. -/
def InsertStatement.pairs (statement : InsertStatement) : List (CString × CString) :=
  statement.columns.zip statement.values

/-- The columns and values of an INSERT into a table with these columns and these stored `student_no`
values are in order. -/
structure Acceptable (columns : StringList) (studentNos : List CString) (statement : InsertStatement) :
    Prop where
  counts : statement.columns.length = statement.values.length
  exist : ∀ name ∈ statement.columns, ColumnExists columns name
  distinct : statement.columns.Pairwise fun a b => sqlStricmp a b ≠ 0
  student_no : HasStudentNo columns →
    ∃ p ∈ statement.pairs, sqlStricmp p.1 studentNoName = 0 ∧ p.2.bytes ≠ [] ∧ p.2 ∉ studentNos

section Checks

variable {columns : StringList} {statement : InsertStatement} {g : Globals} {studentNos : List CString}

theorem pairs_names (hcounts : statement.columns.length = statement.values.length) :
    statement.pairs.map Prod.fst = statement.columns := List.map_fst_zip hcounts.le

/-- The column loop on a new row. -/
theorem assignColumns_start_iff (hcounts : statement.columns.length = statement.values.length) :
    (∃ r, assignColumns columns statement.pairs (columns.map fun _ => false)
        (columns.map fun _ => CString.empty) = .ok r) ↔
      (∀ name ∈ statement.columns, ColumnExists columns name) ∧
        statement.columns.Pairwise fun a b => sqlStricmp a b ≠ 0 := by
  have hfree : ∀ i, (columns.map fun _ => false).getD i false = false := by
    intro i
    rw [List.getD_eq_getElem?_getD, List.getElem?_map]
    cases columns[i]? <;> rfl
  rw [assignColumns_ok_iff (by rw [List.length_map]), ← pairs_names hcounts, List.forall_mem_map,
    List.pairwise_map]
  simp only [hfree, and_true, ← findColumnIndex_ne_none, Option.ne_none_iff_exists']
  refine and_congr_right fun hexist => List.Pairwise.iff_of_mem fun hp hq => ?_
  exact not_congr (findColumnIndex_inj (Option.ne_none_iff_exists'.mpr (hexist _ hp)))

/-- The `student_no` checks behind the column loop. -/
theorem checkStudentNo_ok_iff {assigned : List Bool} {ordered : StringList}
    (hcolumn : g.activeStudentNoColumn = findColumnIndex columns studentNoName)
    (hset : HasStudentNo columns → SetModel g.studentNoSet studentNos)
    (hfilled : ColumnsFilled columns statement.pairs (columns.map fun _ => false)
      (columns.map fun _ => CString.empty) assigned ordered) :
    (∃ v, checkStudentNo g (findColumnIndex columns studentNoName) assigned ordered = .ok v) ↔
      (HasStudentNo columns → ∃ p ∈ statement.pairs, sqlStricmp p.1 studentNoName = 0 ∧
        p.2.bytes ≠ [] ∧ p.2 ∉ studentNos) := by
  unfold checkStudentNo
  cases hcol : findColumnIndex columns studentNoName with
  | none => exact ⟨fun _ hs => absurd hcol hs, fun _ => ⟨none, rfl⟩⟩
  | some column =>
    have hs : HasStudentNo columns := by
      rw [HasStudentNo, hcol]
      simp
    have hcontains := fun v => (hset hs).contains v
    have hnames : ∀ name, findColumnIndex columns name = some column ↔
        sqlStricmp name studentNoName = 0 := by
      intro name
      rw [← hcol, eq_comm, findColumnIndex_inj (by rw [hcol]; simp), sqlStricmp_eq_zero,
        sqlStricmp_eq_zero, eq_comm]
    have hassigned : assigned.getD column false = true ↔
        ∃ p ∈ statement.pairs, sqlStricmp p.1 studentNoName = 0 := by
      rw [hfilled.assigned]
      simp only [hnames, List.getD_eq_getElem?_getD, List.getElem?_map]
      cases columns[column]? <;> simp
    have hcell : ∀ p ∈ statement.pairs, sqlStricmp p.1 studentNoName = 0 →
        ordered.getD column CString.empty = p.2 := by
      intro p hp hname
      have hid : ¬IsIdName p.1 := by
        rw [IsIdName, sqlStricmp_eq_zero, sqlStricmp_eq_zero.mp hname]
        decide
      rw [List.getD_eq_getElem?_getD, hfilled.named p hp hid column ((hnames p.1).mpr hname)]
      rfl
    dsimp only
    constructor
    · rintro ⟨v, hv⟩ -
      split at hv
      · cases hv
      · rename_i hnamed
        obtain ⟨p, hp, hname⟩ := hassigned.mp (not_not.mp hnamed)
        rw [hcell p hp hname] at hv
        split at hv
        · cases hv
        · rename_i hne
          split at hv
          · cases hv
          · rename_i hdup
            refine ⟨p, hp, hname, hne, fun hmem => hdup ⟨hcolumn.trans hcol, ?_⟩⟩
            rw [hcontains]
            exact decide_eq_true hmem
    · intro h
      obtain ⟨p, hp, hname, hne, hnew⟩ := h hs
      rw [hcell p hp hname, if_neg (not_not.mpr (hassigned.mpr ⟨p, hp, hname⟩)), if_neg hne,
        if_neg]
      · exact ⟨_, rfl⟩
      · rintro ⟨-, hdup⟩
        rw [hcontains] at hdup
        exact hnew (of_decide_eq_true hdup)

/-- The two parts of `prepareInsert` for a table with an `id` column. -/
theorem prepareInsert_ok_parts (hid : findColumnIndex columns idName ≠ none) :
    (∃ plan, prepareInsert columns statement g = .ok plan) ↔
      ∃ assigned ordered v,
        assignColumns columns statement.pairs (columns.map fun _ => false)
          (columns.map fun _ => CString.empty) = .ok (assigned, ordered) ∧
        checkStudentNo g (findColumnIndex columns studentNoName) assigned ordered = .ok v := by
  obtain ⟨idColumn, hidColumn⟩ := Option.ne_none_iff_exists'.mp hid
  rw [InsertStatement.pairs]
  constructor
  · rintro ⟨plan, h⟩
    rw [prepareInsert, hidColumn] at h
    split at h
    · cases h
    · rename_i assigned ordered hassign
      dsimp only at h
      split at h
      · cases h
      · rename_i v hcheck
        exact ⟨assigned, ordered, v, hassign, hcheck⟩
  · rintro ⟨assigned, ordered, v, hassign, hcheck⟩
    refine ⟨⟨ordered, idColumn, v⟩, ?_⟩
    rw [prepareInsert, hassign, hidColumn]
    dsimp only
    rw [hcheck]

/-- `append_insert_row` gets as far as `next_id` exactly if the columns and values are in order. -/
theorem prepareInsert_ok_iff (hid : findColumnIndex columns idName ≠ none)
    (hcolumn : g.activeStudentNoColumn = findColumnIndex columns studentNoName)
    (hset : HasStudentNo columns → SetModel g.studentNoSet studentNos) :
    (statement.columns.length = statement.values.length ∧
        ∃ plan, prepareInsert columns statement g = .ok plan) ↔
      Acceptable columns studentNos statement := by
  have hlen : (columns.map fun _ => false).length = columns.length := List.length_map _
  have hlen' : (columns.map fun _ => CString.empty).length = columns.length := List.length_map _
  rw [prepareInsert_ok_parts hid]
  constructor
  · rintro ⟨hcounts, assigned, ordered, v, hassign, hcheck⟩
    obtain ⟨hexist, hdistinct⟩ := (assignColumns_start_iff hcounts).mp ⟨_, hassign⟩
    have hfilled := assignColumns_filled hlen hlen' hassign
    exact ⟨hcounts, hexist, hdistinct, (checkStudentNo_ok_iff hcolumn hset hfilled).mp ⟨v, hcheck⟩⟩
  · intro h
    obtain ⟨⟨assigned, ordered⟩, hassign⟩ :=
      (assignColumns_start_iff h.counts).mpr ⟨h.exist, h.distinct⟩
    have hfilled := assignColumns_filled hlen hlen' hassign
    obtain ⟨v, hcheck⟩ := (checkStudentNo_ok_iff hcolumn hset hfilled).mpr h.student_no
    exact ⟨h.counts, assigned, ordered, v, hassign, hcheck⟩

/-- The row an INSERT stores: the id at the first `id` column, the given values at the columns their
names find, `""` everywhere else. -/
structure InsertedRow (columns : StringList) (pairs : List (CString × CString)) (id : UInt64)
    (row : StringList) : Prop where
  length : row.length = columns.length
  id_cell : ∀ i, findColumnIndex columns idName = some i → row[i]? = some (decimalText id)
  named : ∀ p ∈ pairs, ¬IsIdName p.1 → ∀ i, findColumnIndex columns p.1 = some i →
    row[i]? = some p.2
  other : ∀ i < columns.length, findColumnIndex columns idName ≠ some i →
    (∀ p ∈ pairs, findColumnIndex columns p.1 ≠ some i) → row[i]? = some CString.empty

theorem prepareInsert_row {plan : InsertPlan} (h : prepareInsert columns statement g = .ok plan)
    (id : UInt64) : InsertedRow columns statement.pairs id (plan.row id) := by
  have hplan := prepareInsert_ok h
  have hlen : (columns.map fun _ => false).length = columns.length := List.length_map _
  have hlen' : (columns.map fun _ => CString.empty).length = columns.length := List.length_map _
  have hfilled : ∃ assigned, ColumnsFilled columns statement.pairs (columns.map fun _ => false)
      (columns.map fun _ => CString.empty) assigned plan.ordered := by
    rw [prepareInsert] at h
    split at h
    · cases h
    · rename_i assigned ordered hassign
      rw [hplan.id_column] at h
      dsimp only at h
      split at h
      · cases h
      · have hordered : ordered = plan.ordered := congrArg InsertPlan.ordered (Except.ok.inj h)
        rw [← hordered]
        exact ⟨assigned, assignColumns_filled hlen hlen' hassign⟩
  obtain ⟨assigned, hfilled⟩ := hfilled
  refine ⟨?_, ?_, ?_, ?_⟩
  · rw [plan.row_length, hplan.length]
  · intro i hi
    obtain rfl := Option.some.inj (hplan.id_column.symm.trans hi)
    rw [InsertPlan.row, List.getElem?_set_self hplan.id_lt]
  · intro p hp hid i hi
    have hne : plan.idColumn ≠ i := by
      rintro rfl
      have hname := (findColumnIndex_inj (by rw [hi]; simp)).mp (hi.trans hplan.id_column.symm)
      exact hid hname
    rw [InsertPlan.row, List.getElem?_set_ne hne, hfilled.named p hp hid i hi]
  · intro i hi hid hfree
    have hne : plan.idColumn ≠ i := by
      rintro rfl
      exact hid hplan.id_column
    rw [InsertPlan.row, List.getElem?_set_ne hne, hfilled.other i fun p hp _ => hfree p hp,
      List.getElem?_map, List.getElem?_eq_getElem hi]
    rfl

end Checks

/-! ### The order of the pairs -/

/-- The two INSERTs name the same table and the same (column, value) pairs, in any order. -/
def SamePairs (a b : InsertStatement) : Prop :=
  a.target = b.target ∧ a.columns.length = a.values.length ∧ b.columns.length = b.values.length ∧
    a.pairs.Perm b.pairs

section Permuted

variable {columns : StringList} {a b : InsertStatement}

theorem prepareInsert_perm {g : Globals} {plan : InsertPlan} (hp : a.pairs.Perm b.pairs)
    (h : prepareInsert columns a g = .ok plan) : prepareInsert columns b g = .ok plan := by
  have hlen : (columns.map fun _ => false).length = columns.length := List.length_map _
  have hlen' : (columns.map fun _ => CString.empty).length = columns.length := List.length_map _
  rw [prepareInsert] at h ⊢
  split at h
  · cases h
  · rename_i assigned ordered hassign
    have hassign' := assignColumns_perm hp hlen hlen' hassign
    rw [InsertStatement.pairs] at hassign'
    rw [hassign']
    exact h

/-- An accepted INSERT does the same with its pairs in another order. -/
theorem appendInsertRow_perm (uninit : ℕ → UInt32) (dbRoot : CString) (s : State)
    (hab : SamePairs a b) {r : InsertResult} (h : (appendInsertRow uninit dbRoot a s).1 = .ok r) :
    appendInsertRow uninit dbRoot b s = appendInsertRow uninit dbRoot a s := by
  obtain ⟨htarget, ha, hb, hp⟩ := hab
  rw [appendInsertRow, if_neg (not_not.mpr ha)] at h
  rw [appendInsertRow, appendInsertRow, if_neg (not_not.mpr hb), if_neg (not_not.mpr ha), ← htarget]
  cases hload : loadTableDefinition dbRoot s.files a.target with
  | error e => rfl
  | ok table =>
    rw [hload] at h
    dsimp only at h ⊢
    rcases hact : activateStorageForTable uninit table s with ⟨e, s'⟩
    rw [hact] at h
    cases e with
    | some e => rfl
    | none =>
      dsimp only at h ⊢
      rw [insertIntoTable] at h
      rw [insertIntoTable, insertIntoTable]
      cases hplan : prepareInsert table.columns a s'.globals with
      | error e =>
        rw [hplan] at h
        cases h
      | ok plan =>
        rw [prepareInsert_perm hp hplan]

theorem appendInsertRow_perm_iff (uninit : ℕ → UInt32) (dbRoot : CString) (s : State)
    (hab : SamePairs a b) :
    (∃ r, (appendInsertRow uninit dbRoot a s).1 = .ok r) ↔
      ∃ r, (appendInsertRow uninit dbRoot b s).1 = .ok r := by
  obtain ⟨htarget, ha, hb, hp⟩ := hab
  constructor
  · rintro ⟨r, hr⟩
    exact ⟨r, by rw [appendInsertRow_perm uninit dbRoot s ⟨htarget, ha, hb, hp⟩ hr, hr]⟩
  · rintro ⟨r, hr⟩
    exact ⟨r, by rw [appendInsertRow_perm uninit dbRoot s ⟨htarget.symm, hb, ha, hp.symm⟩ hr, hr]⟩

end Permuted

/-! ### Coherent states -/

/-- The table is active; the index, the counter and the `student_no` set match its data file, in which
the scan finds `rows`. -/
structure Coherent (uninit : ℕ → UInt32) (dbRoot : CString) (table : TableDefinition)
    (content : Bytes) (rows : List (RowRef × StringList)) (s : State) : Prop where
  load : loadTableDefinition dbRoot s.files table.name = .ok table
  path : s.globals.activeDataPath = some table.dataPath
  file : s.files table.dataPath = some content
  scanned : scannedRows uninit content = (rows, true)
  id_column : findColumnIndex table.columns idName ≠ none
  student_column : s.globals.activeStudentNoColumn = findColumnIndex table.columns studentNoName
  caches : CacheModel table.columns rows s.globals.index s.globals.studentNoSet
  set : UsableSet s.globals.studentNoSet
  counter : ∀ id ∈ idsOf table.columns rows, id ≤ s.globals.nextIdCounter

section Coherent

variable {uninit : ℕ → UInt32} {dbRoot : CString} {table : TableDefinition} {content : Bytes}
  {rows : List (RowRef × StringList)} {s : State}

theorem Coherent.onTable (h : Coherent uninit dbRoot table content rows s) :
    OnTable dbRoot table s := by
  obtain ⟨es, hm, -⟩ := h.caches.index
  exact ⟨h.load, h.path, ⟨es, hm⟩, h.set⟩

/-- An activation that scans the data file and succeeds leaves a coherent state. -/
theorem activateStorageForTable_coherent (hs : UsableCaches s) {name : QualifiedName}
    (hload : loadTableDefinition dbRoot s.files name = .ok table)
    (hscan : alreadyActive table s.globals = false)
    (hactivate : (activateStorageForTable uninit table s).1 = none) :
    ∃ content rows, Coherent uninit dbRoot table content rows
      (activateStorageForTable uninit table s).2 := by
  have hon := activateStorageForTable_onTable hs hload hactivate
  rcases activateStorageForTable_ok hs.no_fail hactivate with ⟨hearly, -⟩ | ⟨-, b, files', hb, heq⟩
  · rw [hscan] at hearly
    cases hearly
  · obtain ⟨content, hcontent, hall, hbuilt⟩ := hb.built
    obtain ⟨hcaches, hmax, -⟩ := hbuilt.spec
    rw [heq] at hon ⊢
    refine ⟨content, (scannedRows uninit content).1, ?_⟩
    exact ⟨hon.load, rfl, hcontent, by rw [← hall], hb.id_column, rfl, hcaches, hon.set, hmax.1⟩

/-- A table that is served with the greatest id in the counter is coherent, so a run of statements
within the limits of the reader keeps a table coherent. -/
theorem Serving.coherent {rows : List StringList} {b : IndexBuild}
    (h : Serving dbRoot table rows b s) (hmax : s.globals.nextIdCounter = b.maxId) :
    Coherent uninit dbRoot table (Framing.stream encodeRow rows) (rowsAt rows) s := by
  refine ⟨h.load, h.path, h.file, scannedRows_encoded uninit h.readable, h.id_column,
    h.student_column, h.caches, h.onTable.set, ?_⟩
  rw [hmax]
  exact h.built.spec.2.1.1

/-- The id of the next INSERT is new. -/
theorem Coherent.fresh (h : Coherent uninit dbRoot table content rows s)
    (hleft : s.globals.nextIdCounter ≠ uint64Max) :
    nextId s.globals.nextIdCounter ∉ idsOf table.columns rows := by
  intro hmem
  exact absurd (h.counter _ hmem) (not_le.mpr (lt_nextId hleft))

/-- The row of a plan can be written exactly if its values fit into a field. -/
theorem planned_writable_iff {columns : StringList} {statement : InsertStatement} {g : Globals}
    {plan : InsertPlan} (h : prepareInsert columns statement g = .ok plan) (id : UInt64) :
    Writable (plan.row id) ↔ ∀ p ∈ storedPairs statement, p.2.length ≤ uint32Max := by
  have htext : (decimalText id).length ≤ uint32Max := (decimalText_length id).trans (by decide)
  rw [Writable, (prepareInsert_ok h).row_forall_length id htext]
  exact prepareInsert_forall h (P := fun v => v.length ≤ uint32Max) (Nat.zero_le _)

theorem storeRow_unwritable (columns : StringList) {plan : InsertPlan} {path : CString}
    (hpath : s.globals.activeDataPath = some path)
    (hw : ¬Writable (plan.row (nextId s.globals.nextIdCounter))) :
    (storeRow columns plan s).1 = .error .writeRow := by
  have hrc := (binaryWriterAppendRow_rc path s.files
    (plan.row (nextId s.globals.nextIdCounter))).not.mpr hw
  rw [storeRow]
  dsimp only
  rw [hpath]
  rcases hr : binaryWriterAppendRow (some path) s.files
    (plan.row (nextId s.globals.nextIdCounter)) with ⟨files, rc, ref⟩
  rw [hr] at hrc
  dsimp only
  rw [if_pos hrc]

/-- An INSERT whose checks pass and whose row can be written. -/
theorem Coherent.store (h : Coherent uninit dbRoot table content rows s)
    (hleft : s.globals.nextIdCounter ≠ uint64Max) {statement : InsertStatement} {plan : InsertPlan}
    (hplan : prepareInsert table.columns statement s.globals = .ok plan)
    (hw : Writable (plan.row (nextId s.globals.nextIdCounter))) :
    (storeRow table.columns plan (withActive table s)).1 =
        .ok ⟨1, table.columns, plan.row (nextId s.globals.nextIdCounter)⟩ ∧
      (storeRow table.columns plan (withActive table s)).2.files table.dataPath =
        some (content ++ encodeRow (plan.row (nextId s.globals.nextIdCounter))) := by
  have hfor := prepareInsert_ok hplan
  have hrow := hfor.newRow h.caches h.student_column (h.fresh hleft)
  obtain ⟨index', hins, hset, -⟩ := h.caches.add hrow content.length
  rw [hfor.studentNoOf_row] at hset
  rw [storeRow_accepted (s := withActive table s) h.path h.file hw hins hset]
  exact ⟨rfl, FileSystem.write_self _ _ _⟩

/-- What an INSERT comes to in a coherent state: the checks, then the length of the values. -/
theorem Coherent.insert_cases (h : Coherent uninit dbRoot table content rows s)
    {statement : InsertStatement} (hname : statement.target = table.name) :
    (¬Acceptable table.columns (studentNosOf table.columns rows) statement ∧
      ∃ e, (appendInsertRow uninit dbRoot statement s).1 = .error e) ∨
    (Acceptable table.columns (studentNosOf table.columns rows) statement ∧
      ∃ plan, prepareInsert table.columns statement s.globals = .ok plan ∧
        appendInsertRow uninit dbRoot statement s =
          storeRow table.columns plan (withActive table s)) := by
  have hiff := @prepareInsert_ok_iff _ statement _ _ h.id_column h.student_column
    fun hs => (h.caches.studentNos hs).2
  rcases h.onTable.insert_cases uninit hname with ⟨e, active, hrow, heq⟩ | ⟨plan, hcounts, hplan, heq⟩
  · refine Or.inl ⟨fun hacc => ?_, e, by rw [heq]⟩
    obtain ⟨hcounts, plan, hplan⟩ := hiff.mpr hacc
    rw [plannedRow_of_plan hcounts hplan] at hrow
    cases hrow
  · exact Or.inr ⟨hiff.mp ⟨hcounts, plan, hplan⟩, plan, hplan, heq⟩

end Coherent

/-- **Acceptance.**  In a coherent state with ids left, an INSERT is accepted exactly if its counts are
equal, its columns exist and are named once, its `student_no` is given and new where the table has the
column, and no value to store is longer than a field can be.  The row it stores is the one it reports,
with a fresh id; the order of its pairs changes nothing. -/
theorem appendInsertRow_accepted (uninit : ℕ → UInt32) (dbRoot : CString) (table : TableDefinition)
    (content : Bytes) (rows : List (RowRef × StringList)) (s : State)
    (h : Coherent uninit dbRoot table content rows s) (hleft : s.globals.nextIdCounter ≠ uint64Max)
    (statement : InsertStatement) (hname : statement.target = table.name) :
    ((∃ r, (appendInsertRow uninit dbRoot statement s).1 = .ok r) ↔
      Acceptable table.columns (studentNosOf table.columns rows) statement ∧
        ∀ p ∈ storedPairs statement, p.2.length ≤ uint32Max) ∧
    (∀ r, (appendInsertRow uninit dbRoot statement s).1 = .ok r →
      r.affectedRows = 1 ∧ r.columns = table.columns ∧
        InsertedRow table.columns statement.pairs (nextId s.globals.nextIdCounter) r.values ∧
        nextId s.globals.nextIdCounter ∉ idsOf table.columns rows ∧
        (appendInsertRow uninit dbRoot statement s).2.files table.dataPath =
          some (content ++ encodeRow r.values)) ∧
    ∀ statement', SamePairs statement statement' →
      ((∃ r, (appendInsertRow uninit dbRoot statement s).1 = .ok r) ↔
        ∃ r, (appendInsertRow uninit dbRoot statement' s).1 = .ok r) ∧
      ∀ r, (appendInsertRow uninit dbRoot statement s).1 = .ok r →
        appendInsertRow uninit dbRoot statement' s = appendInsertRow uninit dbRoot statement s := by
  refine ⟨?_, ?_, fun statement' hsame => ⟨appendInsertRow_perm_iff uninit dbRoot s hsame,
    fun r hr => appendInsertRow_perm uninit dbRoot s hsame hr⟩⟩
  · rcases h.insert_cases hname with ⟨hnot, e, he⟩ | ⟨hacc, plan, hplan, heq⟩
    · rw [he]
      simp [hnot]
    · rw [heq, ← planned_writable_iff hplan (nextId s.globals.nextIdCounter)]
      constructor
      · rintro ⟨r, hr⟩
        refine ⟨hacc, ?_⟩
        by_contra hw
        rw [storeRow_unwritable (s := withActive table s) table.columns h.path hw] at hr
        cases hr
      · rintro ⟨-, hw⟩
        exact ⟨_, (h.store hleft hplan hw).1⟩
  · intro r hr
    rcases h.insert_cases hname with ⟨-, e, he⟩ | ⟨-, plan, hplan, heq⟩
    · rw [he] at hr
      cases hr
    · rw [heq] at hr ⊢
      have hw : Writable (plan.row (nextId s.globals.nextIdCounter)) := by
        by_contra hw
        rw [storeRow_unwritable (s := withActive table s) table.columns h.path hw] at hr
        cases hr
      obtain ⟨hok, hfile⟩ := h.store hleft hplan hw
      obtain rfl := Except.ok.inj (hok.symm.trans hr)
      exact ⟨rfl, rfl, prepareInsert_row hplan _, h.fresh hleft, hfile⟩

/-- The table with one stored row. -/
theorem nameState_coherent : Coherent (fun _ => 0) (lit "db") nameTable (encodeRow [lit "1", lit "a"])
    (rowsAt [[lit "1", lit "a"]]) (nameState (encodeRow [lit "1", lit "a"])) := by
  have hrows : ∀ row ∈ [[lit "1", lit "a"]], Readable row := by
    intro row hr
    rw [List.mem_singleton.mp hr]
    exact ⟨by decide, by decide, by decide⟩
  obtain ⟨b, hserving, hmax⟩ := @activate_serving (fun _ => 0) (lit "db") nameTable
    [[lit "1", lit "a"]] (State.fresh (nameFiles (encodeRow [lit "1", lit "a"]))) ⟨none, lit "t"⟩
    (UsableCaches.fresh _) (by decide +kernel) (by decide +kernel) (by decide +kernel) hrows
    (by decide +kernel)
  exact hserving.coherent hmax

theorem appendInsertRow_accepted_name :
    Coherent (fun _ => 0) (lit "db") nameTable (encodeRow [lit "1", lit "a"])
        (rowsAt [[lit "1", lit "a"]]) (nameState (encodeRow [lit "1", lit "a"])) ∧
      (nameState (encodeRow [lit "1", lit "a"])).globals.nextIdCounter ≠ uint64Max ∧
      ((∃ r, (appendInsertRow (fun _ => 0) (lit "db") (insertName (lit "b"))
          (nameState (encodeRow [lit "1", lit "a"]))).1 = .ok r) ↔
        Acceptable nameTable.columns (studentNosOf nameTable.columns (rowsAt [[lit "1", lit "a"]]))
            (insertName (lit "b")) ∧
          ∀ p ∈ storedPairs (insertName (lit "b")), p.2.length ≤ uint32Max) ∧
      ∀ r, (appendInsertRow (fun _ => 0) (lit "db") (insertName (lit "b"))
          (nameState (encodeRow [lit "1", lit "a"]))).1 = .ok r →
        r.affectedRows = 1 ∧ r.columns = nameTable.columns ∧
          InsertedRow nameTable.columns (insertName (lit "b")).pairs
            (nextId (nameState (encodeRow [lit "1", lit "a"])).globals.nextIdCounter) r.values ∧
          nextId (nameState (encodeRow [lit "1", lit "a"])).globals.nextIdCounter ∉
            idsOf nameTable.columns (rowsAt [[lit "1", lit "a"]]) ∧
          (appendInsertRow (fun _ => 0) (lit "db") (insertName (lit "b"))
              (nameState (encodeRow [lit "1", lit "a"]))).2.files nameTable.dataPath =
            some (encodeRow [lit "1", lit "a"] ++ encodeRow r.values) :=
  have haccepted := appendInsertRow_accepted (fun _ => 0) (lit "db") nameTable
    (encodeRow [lit "1", lit "a"]) (rowsAt [[lit "1", lit "a"]])
    (nameState (encodeRow [lit "1", lit "a"])) nameState_coherent (by decide +kernel)
    (insertName (lit "b")) rfl
  ⟨nameState_coherent, by decide +kernel, haccepted.1, haccepted.2.1⟩

/-- A text of `n` letters. -/
def longText (n : ℕ) : CString :=
  ⟨List.replicate n 97, fun h => by simpa using List.eq_of_mem_replicate h⟩

theorem longText_length (n : ℕ) : (longText n).length = n := List.length_replicate

/-- A value that no field can hold is rejected, whatever else is in order. -/
theorem Coherent.too_long {uninit : ℕ → UInt32} {dbRoot : CString} {table : TableDefinition}
    {content : Bytes} {rows : List (RowRef × StringList)} {s : State}
    (h : Coherent uninit dbRoot table content rows s) {statement : InsertStatement}
    (hname : statement.target = table.name) {p : CString × CString}
    (hp : p ∈ storedPairs statement) (hlong : uint32Max < p.2.length) :
    ¬∃ r, (appendInsertRow uninit dbRoot statement s).1 = .ok r := by
  rintro ⟨r, hr⟩
  rcases h.insert_cases hname with ⟨-, e, he⟩ | ⟨-, plan, hplan, heq⟩
  · rw [he] at hr
    cases hr
  · rw [heq, storeRow_unwritable (s := withActive table s) table.columns h.path] at hr
    · cases hr
    · show ¬Writable (plan.row (nextId s.globals.nextIdCounter))
      rw [planned_writable_iff hplan]
      exact fun hall => absurd (hall p hp) (not_le.mpr hlong)

/-- An INSERT in order that is not accepted: its value has `UINT32_MAX + 1` bytes. -/
theorem insert_too_long :
    Coherent (fun _ => 0) (lit "db") nameTable (encodeRow [lit "1", lit "a"])
        (rowsAt [[lit "1", lit "a"]]) (nameState (encodeRow [lit "1", lit "a"])) ∧
      (nameState (encodeRow [lit "1", lit "a"])).globals.nextIdCounter ≠ uint64Max ∧
      Acceptable nameTable.columns (studentNosOf nameTable.columns (rowsAt [[lit "1", lit "a"]]))
        (insertName (longText (2 ^ 32))) ∧
      ¬∃ r, (appendInsertRow (fun _ => 0) (lit "db") (insertName (longText (2 ^ 32)))
        (nameState (encodeRow [lit "1", lit "a"]))).1 = .ok r := by
  have hpair : (lit "name", longText (2 ^ 32)) ∈ storedPairs (insertName (longText (2 ^ 32))) :=
    List.mem_filter.mpr ⟨List.mem_singleton_self _, by decide⟩
  have hlong : uint32Max < (longText (2 ^ 32)).length := by
    rw [longText_length]
    decide
  refine ⟨nameState_coherent, by decide +kernel, ⟨rfl, ?_, List.pairwise_singleton _ _, ?_⟩,
    nameState_coherent.too_long rfl hpair hlong⟩
  · intro name hmem
    rw [List.mem_singleton.mp hmem]
    exact ⟨lit "name", by decide, by decide⟩
  · intro hs
    exact absurd (show findColumnIndex nameTable.columns studentNoName = none by decide) hs

end MiniSql
