import MiniSql.Activation

/-!
# The row an INSERT assembles

What is known of `ordered_values` when the checks of `append_insert_row` have passed, and of the row it
becomes when an id is drawn.

* `storedPairs` are the (column, value) pairs of a statement whose value is stored: those that do not name the
  `id` column (`IsIdName`).
* `PlanFor` is what the checks ensure: the plan has a value for every column, its `id` column is that of the
  table, and its `student_no` is what the row will hold there.

Main results:

* `assignColumns_forall`, `prepareInsert_forall`: what holds of the empty text and of every value stored holds
  of all values of the plan, since no value is overwritten.
* `assignColumns_id`: the loop never writes to an `id` column.
* `PlanFor.row_forall_length`: a bound on the lengths of the values is a bound for the stored row, if the text
  of the id meets it.
* `studentNoColumn_ne`: the `id` and the `student_no` column are different ones.
-/

namespace MiniSql

/-- The name is one of the spellings of `id`. -/
def IsIdName (name : CString) : Prop := sqlStricmp name idName = 0

/-- The (column, value) pairs of a statement whose value is stored. -/
def storedPairs (statement : InsertStatement) : List (CString × CString) :=
  (statement.columns.zip statement.values).filter fun p => decide (sqlStricmp p.1 idName ≠ 0)

theorem findColumnIndex_match {columns : StringList} {name : CString} {i : ℕ}
    (h : findColumnIndex columns name = some i) :
    (columns.getD i CString.empty).bytes.map tolower = name.bytes.map tolower := by
  obtain ⟨hi, hp, -⟩ := List.findIdx?_eq_some_iff_getElem.mp h
  rw [List.getD_eq_getElem _ _ hi]
  exact sqlStricmp_eq_zero.mp (by simpa using hp)

/-- A column found by name is an `id` column when the name is. -/
theorem isIdName_column {columns : StringList} {name : CString} {i : ℕ}
    (h : findColumnIndex columns name = some i) :
    sqlStricmp (columns.getD i CString.empty) idName = 0 ↔ IsIdName name := by
  rw [IsIdName, sqlStricmp_eq_zero, sqlStricmp_eq_zero, findColumnIndex_match h]

/-- The `id` column and the `student_no` column are different. -/
theorem studentNoColumn_ne {columns : StringList} {i j : ℕ}
    (hi : findColumnIndex columns idName = some i)
    (hj : findColumnIndex columns studentNoName = some j) : i ≠ j := by
  rintro rfl
  have h := (findColumnIndex_match hi).symm.trans (findColumnIndex_match hj)
  exact absurd h (by decide)

/-! ### The column loop -/

theorem assignColumns_length {columns : StringList} {pairs : List (CString × CString)}
    {assigned assigned' : List Bool} {ordered ordered' : StringList}
    (h : assignColumns columns pairs assigned ordered = .ok (assigned', ordered')) :
    ordered'.length = ordered.length := by
  induction pairs generalizing assigned ordered with
  | nil =>
    obtain ⟨-, rfl⟩ := Prod.mk.inj (Except.ok.inj h)
    rfl
  | cons p pairs ih =>
    rw [assignColumns] at h
    split at h
    · cases h
    · split at h
      · cases h
      · dsimp only at h
        split at h
        · exact ih h
        · rw [ih h, List.length_set]

/-- What holds of the empty text holds of all values in the end exactly if it holds of all values at
the start and of every value stored on the way: no value is overwritten. -/
theorem assignColumns_forall {columns : StringList} {P : CString → Prop} (hP : P CString.empty)
    {pairs : List (CString × CString)} {assigned assigned' : List Bool}
    {ordered ordered' : StringList}
    (hfree : ∀ i, assigned.getD i false = false → ordered.getD i CString.empty = CString.empty)
    (hlen : ordered.length = columns.length) (hlen' : assigned.length = columns.length)
    (h : assignColumns columns pairs assigned ordered = .ok (assigned', ordered')) :
    (∀ v ∈ ordered', P v) ↔
      (∀ v ∈ ordered, P v) ∧ ∀ p ∈ pairs, ¬IsIdName p.1 → P p.2 := by
  induction pairs generalizing assigned ordered with
  | nil =>
    obtain ⟨-, rfl⟩ := Prod.mk.inj (Except.ok.inj h)
    simp
  | cons p pairs ih =>
    obtain ⟨name, value⟩ := p
    rw [assignColumns] at h
    cases htarget : findColumnIndex columns name with
    | none => rw [htarget] at h; cases h
    | some target =>
      rw [htarget] at h
      dsimp only at h
      have hlt := findColumnIndex_lt htarget
      by_cases hassigned : assigned.getD target false = true
      · rw [if_pos hassigned] at h
        cases h
      · rw [if_neg hassigned] at h
        have hempty := hfree target (by simpa using hassigned)
        -- assigning keeps the free positions empty
        have hfree' : ∀ ordered₁ : StringList, (∀ i, i ≠ target →
            ordered₁.getD i CString.empty = ordered.getD i CString.empty) →
            ∀ i, (assigned.set target true).getD i false = false →
              ordered₁.getD i CString.empty = CString.empty := by
          intro ordered₁ hsame i hi
          by_cases hit : i = target
          · subst hit
            rw [List.getD_eq_getElem?_getD, List.getElem?_set_self (by omega)] at hi
            cases hi
          · rw [List.getD_eq_getElem?_getD, List.getElem?_set_ne (Ne.symm hit),
              ← List.getD_eq_getElem?_getD] at hi
            rw [hsame i hit]
            exact hfree i hi
        have hlen₁ : (assigned.set target true).length = columns.length := by
          rw [List.length_set, hlen']
        by_cases hid : sqlStricmp (columns.getD target CString.empty) idName = 0
        · rw [if_pos hid] at h
          rw [ih (hfree' ordered fun _ _ => rfl) hlen hlen₁ h]
          have hname := (isIdName_column htarget).mp hid
          simp [hname]
        · rw [if_neg hid] at h
          have hset : ∀ i, i ≠ target → (ordered.set target value).getD i CString.empty =
              ordered.getD i CString.empty := by
            intro i hi
            rw [List.getD_eq_getElem?_getD, List.getElem?_set_ne (Ne.symm hi),
              ← List.getD_eq_getElem?_getD]
          rw [ih (hfree' _ hset) (by rw [List.length_set, hlen]) hlen₁ h]
          have hname : ¬IsIdName name := fun hn => hid ((isIdName_column htarget).mpr hn)
          have hall : (∀ v ∈ ordered.set target value, P v) ↔ (∀ v ∈ ordered, P v) ∧ P value := by
            have hltt : target < ordered.length := by omega
            have hslot : ordered[target] = CString.empty := by
              rw [← List.getD_eq_getElem ordered CString.empty]
              exact hempty
            constructor
            · intro hv
              refine ⟨fun v hmem => ?_, hv value (List.mem_set hltt value)⟩
              obtain ⟨i, hi, rfl⟩ := List.getElem_of_mem hmem
              by_cases hit : i = target
              · subst hit
                rw [hslot]
                exact hP
              · refine hv _ (List.mem_iff_getElem?.mpr ⟨i, ?_⟩)
                rw [List.getElem?_set_ne (Ne.symm hit), List.getElem?_eq_getElem hi]
            · rintro ⟨hv, hvalue⟩ v hmem
              rcases List.mem_or_eq_of_mem_set hmem with hmem | rfl
              · exact hv v hmem
              · exact hvalue
          rw [hall]
          simp only [List.mem_cons, forall_eq_or_imp, hname, not_false_eq_true, forall_const]
          tauto

/-- The loop never writes to an `id` column. -/
theorem assignColumns_id {columns : StringList} {pairs : List (CString × CString)}
    {assigned assigned' : List Bool} {ordered ordered' : StringList} {i : ℕ}
    (hi : sqlStricmp (columns.getD i CString.empty) idName = 0)
    (h : assignColumns columns pairs assigned ordered = .ok (assigned', ordered')) :
    ordered'[i]? = ordered[i]? := by
  induction pairs generalizing assigned ordered with
  | nil =>
    obtain ⟨-, rfl⟩ := Prod.mk.inj (Except.ok.inj h)
    rfl
  | cons p pairs ih =>
    rw [assignColumns] at h
    split at h
    · cases h
    · rename_i target htarget
      split at h
      · cases h
      · dsimp only at h
        split at h
        · exact ih h
        · rename_i hid
          rw [ih h, List.getElem?_set_ne]
          rintro rfl
          exact hid hi

/-! ### Plans -/

/-- What the checks of `append_insert_row` ensure. -/
structure PlanFor (columns : StringList) (g : Globals) (plan : InsertPlan) : Prop where
  length : plan.ordered.length = columns.length
  id_column : findColumnIndex columns idName = some plan.idColumn
  id_empty : plan.ordered[plan.idColumn]? = some CString.empty
  no_student_no : ¬HasStudentNo columns → plan.studentNo = none
  student_no : ∀ column, findColumnIndex columns studentNoName = some column →
    ∃ v, plan.studentNo = some v ∧ plan.ordered[column]? = some v ∧ v.bytes ≠ [] ∧
      (g.activeStudentNoColumn = some column → studentNoSetContains g.studentNoSet v = false)

theorem prepareInsert_ok {columns : StringList} {statement : InsertStatement} {g : Globals}
    {plan : InsertPlan} (h : prepareInsert columns statement g = .ok plan) :
    PlanFor columns g plan := by
  rw [prepareInsert] at h
  split at h
  · cases h
  · rename_i assigned ordered hassign
    have hlen := assignColumns_length hassign
    rw [List.length_map] at hlen
    split at h
    · cases h
    · rename_i idColumn hid
      split at h
      · cases h
      · rename_i studentNo hcheck
        obtain rfl := Except.ok.inj h
        refine ⟨hlen, hid, ?_, ?_, ?_⟩
        · have hlt := findColumnIndex_lt hid
          rw [assignColumns_id ((isIdName_column hid).mpr (show sqlStricmp idName idName = 0 by decide))
            hassign, List.getElem?_map,
            List.getElem?_eq_getElem hlt]
          rfl
        · intro hs
          rw [HasStudentNo, not_not] at hs
          unfold checkStudentNo at hcheck
          rw [hs] at hcheck
          exact (Except.ok.inj hcheck).symm
        · intro column hcol
          unfold checkStudentNo at hcheck
          rw [hcol] at hcheck
          dsimp only at hcheck
          split at hcheck
          · cases hcheck
          · split at hcheck
            · cases hcheck
            · rename_i hne
              split at hcheck
              · cases hcheck
              · rename_i hdup
                have hlt : column < ordered.length := by
                  rw [hlen]
                  exact findColumnIndex_lt hcol
                refine ⟨_, (Except.ok.inj hcheck).symm, ?_, hne, fun hact => ?_⟩
                · rw [List.getD_eq_getElem _ _ hlt, List.getElem?_eq_getElem hlt]
                · rw [not_and] at hdup
                  exact Bool.eq_false_iff.mpr (hdup hact)

/-- The values an INSERT stores, apart from the id: `""` and the values given for the other columns. -/
theorem prepareInsert_forall {columns : StringList} {statement : InsertStatement} {g : Globals}
    {plan : InsertPlan} (h : prepareInsert columns statement g = .ok plan) {P : CString → Prop}
    (hP : P CString.empty) : (∀ v ∈ plan.ordered, P v) ↔ ∀ p ∈ storedPairs statement, P p.2 := by
  rw [prepareInsert] at h
  split at h
  · cases h
  · rename_i assigned ordered hassign
    split at h
    · cases h
    · split at h
      · cases h
      · obtain rfl := Except.ok.inj h
        have hfree : ∀ i, (columns.map fun _ => false).getD i false = false →
            (columns.map fun _ => CString.empty).getD i CString.empty = CString.empty := by
          intro i _
          rw [List.getD_eq_getElem?_getD, List.getElem?_map]
          cases columns[i]? <;> rfl
        have hall := assignColumns_forall hP hfree (by simp) (by simp) hassign
        have hstart : ∀ v ∈ columns.map fun _ => CString.empty, P v := by
          intro v hv
          obtain ⟨c, -, rfl⟩ := List.mem_map.mp hv
          exact hP
        rw [hall]
        simp only [storedPairs, List.mem_filter, decide_eq_true_eq, and_imp]
        exact ⟨fun hp p hmem hne => hp.2 p hmem hne, fun hp => ⟨hstart, hp⟩⟩

section Row

variable {columns : StringList} {g : Globals} {plan : InsertPlan}

theorem PlanFor.id_lt (hp : PlanFor columns g plan) : plan.idColumn < plan.ordered.length := by
  rw [hp.length]
  exact findColumnIndex_lt hp.id_column

theorem InsertPlan.row_length (plan : InsertPlan) (id : UInt64) :
    (plan.row id).length = plan.ordered.length := List.length_set ..

theorem PlanFor.idOf_row (hp : PlanFor columns g plan) (id : UInt64) :
    idOf columns (plan.row id) = some id := by
  rw [idOf, hp.id_column, Option.bind_some, InsertPlan.row, List.getElem?_set_self hp.id_lt,
    Option.bind_some, parseU64Strict_decimalText]

theorem PlanFor.studentNoOf_row (hp : PlanFor columns g plan) (id : UInt64) :
    studentNoOf columns (plan.row id) = plan.studentNo := by
  cases hcol : findColumnIndex columns studentNoName with
  | none =>
    have hs : ¬HasStudentNo columns := not_not.mpr hcol
    rw [studentNoOf_none hs, hp.no_student_no hs]
  | some column =>
    obtain ⟨v, hv, hcell, -⟩ := hp.student_no column hcol
    rw [studentNoOf, hcol, Option.bind_some, InsertPlan.row,
      List.getElem?_set_ne (studentNoColumn_ne hp.id_column hcol), hcell, hv]

/-- A bound on the values of the stored row is a bound on the values before the id is put in, if the
text of the id meets it. -/
theorem PlanFor.row_forall_length (hp : PlanFor columns g plan) (id : UInt64) {n : ℕ}
    (hn : (decimalText id).length ≤ n) :
    (∀ v ∈ plan.row id, v.length ≤ n) ↔ ∀ v ∈ plan.ordered, v.length ≤ n := by
  have hempty := hp.id_empty
  rw [InsertPlan.row]
  constructor
  · intro h v hv
    obtain ⟨i, hi, rfl⟩ := List.getElem_of_mem hv
    by_cases hid : i = plan.idColumn
    · subst hid
      rw [List.getElem?_eq_getElem hi] at hempty
      rw [Option.some.inj hempty]
      exact Nat.zero_le n
    · refine h _ (List.mem_iff_getElem?.mpr ⟨i, ?_⟩)
      rw [List.getElem?_set_ne (Ne.symm hid), List.getElem?_eq_getElem hi]
  · intro h v hv
    rcases List.mem_or_eq_of_mem_set hv with hv | rfl
    · exact h v hv
    · exact hn

end Row

end MiniSql
