import MiniSql.ActiveTable

/-!
# Rejected INSERTs

Most checks of `append_insert_row` come before anything is written.

* `RejectsLate` describes the three failures that come after the row has been appended: the value that is too
  long to be written, the id that is in the index already, and the `student_no` that cannot join the set.  It
  looks at the state before the call only.
* `Unchanged`: data file, id-to-offset mapping and known `student_no` values are the same.

Main results:

* `OnTable.rejectsLate_iff`: an INSERT into the active table is rejected late exactly when it is rejected with
  the data file changed, and `OnTable.unchanged_of_data`: else nothing has changed.
* `rejected_insert_unchanged`: behind any successful activation, an INSERT leaves things as they are, if it is
  rejected, exactly if it is not rejected late.
* `rejectedInsert_appends`: the counter wraps to an id that is taken, and the row stays in the file.
-/

namespace MiniSql

/-- Data file, id-to-offset mapping and known `student_no` values are the same. -/
structure Unchanged (table : TableDefinition) (s s' : State) : Prop where
  data : s'.files table.dataPath = s.files table.dataPath
  index : ∀ id, indexFind s'.globals.index id = indexFind s.globals.index id
  student_no : ∀ v, studentNoSetContains s'.globals.studentNoSet v =
    studentNoSetContains s.globals.studentNoSet v

theorem Unchanged.refl (table : TableDefinition) (s : State) : Unchanged table s s :=
  ⟨rfl, fun _ => rfl, fun _ => rfl⟩

/-- The statement passes all checks, but a value is too long to be written, or the next id is in the
index already, or the `student_no` cannot join the set. -/
def RejectsLate (table : TableDefinition) (statement : InsertStatement) (s : State) : Prop :=
  statement.columns.length = statement.values.length ∧
  ∃ plan, prepareInsert table.columns statement s.globals = .ok plan ∧
    (¬Writable (plan.row (nextId s.globals.nextIdCounter)) ∨
      (indexFind s.globals.index (nextId s.globals.nextIdCounter)).1 = 0 ∨
      ∃ v ∈ plan.studentNo, s.globals.studentNoSet.capacity = 0 ∨
        studentNoSetContains s.globals.studentNoSet v = true)

section Rejected

variable {uninit : ℕ → UInt32} {dbRoot : CString} {table : TableDefinition} {s : State}

/-- The data file has grown once a row has been handed to the writer. -/
theorem storeRow_data_ne (columns : StringList) (plan : InsertPlan) {path : CString}
    (hpath : s.globals.activeDataPath = some path) :
    (storeRow columns plan s).2.files path ≠ s.files path := by
  obtain ⟨bytes, hlen, -, hfiles⟩ := binaryWriterAppendRow_files path s.files
    (plan.row (nextId s.globals.nextIdCounter))
  rw [storeRow_files, hpath, hfiles, FileSystem.write_self]
  intro heq
  rw [← heq, Option.getD_some] at hfiles
  have hgrown := congrArg (fun o : Option Bytes => (o.getD []).length) heq
  simp only [Option.getD_some, List.length_append] at hgrown
  omega

/-- An INSERT into the active table is rejected late exactly when it is rejected with the data file
changed. -/
theorem OnTable.rejectsLate_iff (uninit : ℕ → UInt32) (h : OnTable dbRoot table s)
    {statement : InsertStatement} (hname : statement.target = table.name) :
    RejectsLate table statement s ↔
      (∃ e, (appendInsertRow uninit dbRoot statement s).1 = .error e) ∧
        (appendInsertRow uninit dbRoot statement s).2.files table.dataPath ≠
          s.files table.dataPath := by
  rcases h.insert_cases uninit hname with ⟨e, active, hrow, heq⟩ | ⟨plan, hcount, hplan, heq⟩
  · rw [heq]
    refine ⟨fun hlate => ?_, fun hr => absurd rfl hr.2⟩
    obtain ⟨hcount, plan, hplan, -⟩ := hlate
    rw [plannedRow_of_plan hcount hplan] at hrow
    cases hrow
  · have hrej := storeRow_rejected table.columns plan h.reactivate.path h.index h.set
    have hdata := storeRow_data_ne table.columns plan h.reactivate.path
    rw [heq, hrej]
    constructor
    · rintro ⟨-, plan', hplan', hlate⟩
      obtain rfl := Except.ok.inj (hplan.symm.trans hplan')
      exact ⟨hlate, hdata⟩
    · rintro ⟨hlate, -⟩
      exact ⟨hcount, plan, hplan, hlate⟩

/-- An INSERT into the active table that leaves the data file as it is changes nothing. -/
theorem OnTable.unchanged_of_data (h : OnTable dbRoot table s) {statement : InsertStatement}
    (hname : statement.target = table.name)
    (hdata : (appendInsertRow uninit dbRoot statement s).2.files table.dataPath =
      s.files table.dataPath) :
    Unchanged table s (appendInsertRow uninit dbRoot statement s).2 := by
  rcases h.insert_cases uninit hname with ⟨e, active, -, heq⟩ | ⟨plan, -, -, heq⟩
  · rw [heq]
    exact ⟨rfl, fun _ => rfl, fun _ => rfl⟩
  · -- the statement passed the checks, so a row has been handed to the writer
    rw [heq] at hdata
    exact absurd hdata (storeRow_data_ne table.columns plan h.reactivate.path)

end Rejected

/-- **Rejected INSERTs.**  In a process that started on any files and ran any statements, let the
activation of a table succeed.  An INSERT into it then leaves the data file, the index and the set of
`student_no` values as they are whenever it is rejected, exactly if it is not one that
`RejectsLate` describes. -/
theorem rejected_insert_unchanged (uninit : ℕ → UInt32) (dbRoot : CString) (files : FileSystem)
    (before : List Statement) (statement : InsertStatement) (table : TableDefinition)
    (s₀ s₁ : State) (h₀ : s₀ = runStatements uninit dbRoot before (State.fresh files))
    (hload : loadTableDefinition dbRoot s₀.files statement.target = .ok table)
    (hactivate : (activateStorageForTable uninit table s₀).1 = none)
    (h₁ : s₁ = (activateStorageForTable uninit table s₀).2) :
    ((∃ e, (appendInsertRow uninit dbRoot statement s₁).1 = .error e) →
        Unchanged table s₁ (appendInsertRow uninit dbRoot statement s₁).2) ↔
      ¬RejectsLate table statement s₁ := by
  have husable : UsableCaches s₀ := by
    rw [h₀]
    exact runStatements_usable uninit dbRoot files before
  have hon : OnTable dbRoot table s₁ := by
    rw [h₁]
    exact activateStorageForTable_onTable husable hload hactivate
  have hname : statement.target = table.name := (loadTableDefinition_name hload).symm
  rw [hon.rejectsLate_iff uninit hname]
  constructor
  · rintro hclaim ⟨hrej, hdata⟩
    exact hdata (hclaim hrej).data
  · intro hlate hrej
    by_cases hdata : (appendInsertRow uninit dbRoot statement s₁).2.files table.dataPath =
        s₁.files table.dataPath
    · exact hon.unchanged_of_data hname hdata
    · exact absurd ⟨hrej, hdata⟩ hlate

/-- A text data file with the greatest id and the id the counter wraps to. -/
def wrapData : Bytes := (lit "18446744073709551615|a\n0|b\n").bytes

/-- The counter wraps to 0, which is taken: the INSERT is rejected with its row in the file. -/
theorem rejectedInsert_appends :
    (activateStorageForTable (fun _ => 0) nameTable (State.fresh (nameFiles wrapData))).1 = none ∧
      (appendInsertRow (fun _ => 0) (lit "db") (insertName (lit "c")) (nameState wrapData)).1 =
        .error .duplicateKey ∧
      (appendInsertRow (fun _ => 0) (lit "db") (insertName (lit "c")) (nameState wrapData)).2.files
        nameTable.dataPath ≠ (nameState wrapData).files nameTable.dataPath := by
  decide +kernel

/-- `INSERT INTO t (x) VALUES ('c')`, into a table without a column `x`. -/
def insertUnknown : InsertStatement := ⟨⟨none, lit "t"⟩, [lit "x"], [lit "c"]⟩

theorem rejected_insert_unchanged_unknown :
    (appendInsertRow (fun _ => 0) (lit "db") insertUnknown (nameState (lit "1|a\n").bytes)).1 =
        .error (.insertUnknownColumn (lit "x")) ∧
      Unchanged nameTable (nameState (lit "1|a\n").bytes)
        (appendInsertRow (fun _ => 0) (lit "db") insertUnknown (nameState (lit "1|a\n").bytes)).2 := by
  have hrejected : (appendInsertRow (fun _ => 0) (lit "db") insertUnknown
      (nameState (lit "1|a\n").bytes)).1 = .error (.insertUnknownColumn (lit "x")) := by decide +kernel
  refine ⟨hrejected, (rejected_insert_unchanged (fun _ => 0) (lit "db") (nameFiles (lit "1|a\n").bytes) []
    insertUnknown nameTable (State.fresh (nameFiles (lit "1|a\n").bytes))
    (nameState (lit "1|a\n").bytes) rfl (by decide +kernel) (by decide +kernel) rfl).mpr ?_
    ⟨_, hrejected⟩⟩
  rintro ⟨-, plan, hplan, -⟩
  have hfails : (prepareInsert nameTable.columns insertUnknown
      (nameState (lit "1|a\n").bytes).globals).toBool = false := by decide +kernel
  rw [hplan] at hfails
  cases hfails

end MiniSql
