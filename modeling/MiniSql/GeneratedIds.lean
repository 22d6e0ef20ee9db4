import MiniSql.ActiveTable

/-!
# Generated ids

`next_id` increments a counter that an activation sets to the greatest stored id.

* `drawnId` is the id a statement draws, `storedId` the id of the row it adds.
* `AlongRun P stored statements s`: `P` holds at every step of a run, with the ids stored so far.
* `DrawsFresh`: the drawn id is greater than every stored one; `CounterLeft`: the counter is below its maximum
  at the draw, or nothing is stored.  `NeverWraps` is the condition that later modules use.

Main results:

* `drawsFresh_iff`: with all stored ids up to the counter, a draw is fresh exactly if the counter does not
  wrap; `OnTable.bound_step` and `OnTable.counter_step` keep the ids up to the counter.
* `nextId_fresh`: along any run of statements on the table behind a scan of its data file, the drawn ids are
  greater than all stored ones exactly when the counter is below its maximum at every draw, or nothing is
  stored.
* `nextId_wraps`: with the id text `-1` in the file, the first INSERT draws 0.
-/

namespace MiniSql

/-- `UINT64_MAX`. -/
def uint64Max : UInt64 := 18446744073709551615

theorem nextId_toNat {counter : UInt64} (h : counter ≠ uint64Max) :
    (nextId counter).toNat = counter.toNat + 1 := by
  have hne : counter.toNat ≠ uint64Max.toNat := fun heq => h (UInt64.toNat_inj.mp heq)
  have hlt := counter.toNat_lt
  have hmax : uint64Max.toNat = 2 ^ 64 - 1 := rfl
  have hone : (1 : UInt64).toNat = 1 := rfl
  rw [nextId, UInt64.toNat_add]
  omega

theorem lt_nextId {counter : UInt64} (h : counter ≠ uint64Max) : counter < nextId counter := by
  rw [UInt64.lt_iff_toNat_lt, nextId_toNat h]
  exact Nat.lt_succ_self _

theorem nextId_max : nextId uint64Max = 0 := rfl

/-- The id `next_id` assigns, if the statement gets to it. -/
def drawnId (table : TableDefinition) (statement : Statement) (s : State) : Option UInt64 :=
  (plannedRow table statement s).map fun _ => nextId s.globals.nextIdCounter

/-- The id of the row a statement adds to the data file, if it adds one. -/
def storedId (table : TableDefinition) (statement : Statement) (s : State) : Option UInt64 :=
  (plannedRow table statement s).bind fun row =>
    if Writable row then idOf table.columns row else none

/-- `P` holds at every step of a run of statements on the table; `stored` are the ids stored before. -/
def AlongRun (uninit : ℕ → UInt32) (dbRoot : CString) (table : TableDefinition)
    (P : List UInt64 → Statement → State → Prop) : List UInt64 → List Statement → State → Prop
  | _, [], _ => True
  | stored, statement :: statements, s =>
      P stored statement s ∧
        AlongRun uninit dbRoot table P (stored ++ (storedId table statement s).toList) statements
          (executeStatement uninit dbRoot statement s).2

/-- The id a statement draws is greater than every stored id. -/
def DrawsFresh (table : TableDefinition) (stored : List UInt64) (statement : Statement) (s : State) :
    Prop := ∀ id ∈ drawnId table statement s, ∀ x ∈ stored, x < id

/-- The counter is below its maximum when a statement draws an id, or nothing is stored. -/
def CounterLeft (table : TableDefinition) (stored : List UInt64) (statement : Statement) (s : State) :
    Prop := drawnId table statement s ≠ none → s.globals.nextIdCounter ≠ uint64Max ∨ stored = []

/-- The counter is below its maximum whenever a statement of the run draws an id. -/
def NeverWraps (uninit : ℕ → UInt32) (dbRoot : CString) (table : TableDefinition)
    (statements : List Statement) (s : State) : Prop :=
  ∀ earlier statement later, statements = earlier ++ statement :: later →
    drawnId table statement (runStatements uninit dbRoot earlier s) ≠ none →
      (runStatements uninit dbRoot earlier s).globals.nextIdCounter ≠ uint64Max

section Step

variable {uninit : ℕ → UInt32} {dbRoot : CString} {table : TableDefinition} {s : State}

theorem plannedRow_idOf {statement : Statement} {row : StringList}
    (h : plannedRow table statement s = some row) :
    idOf table.columns row = some (nextId s.globals.nextIdCounter) := by
  obtain ⟨insert, plan, -, -, hplan, rfl⟩ := plannedRow_some h
  exact (prepareInsert_ok hplan).idOf_row _

/-- A stored id is the drawn one. -/
theorem storedId_drawn {statement : Statement} {id : UInt64}
    (h : storedId table statement s = some id) : drawnId table statement s = some id := by
  rw [storedId] at h
  obtain ⟨row, hrow, hid⟩ := Option.bind_eq_some_iff.mp h
  split at hid
  · rw [plannedRow_idOf hrow] at hid
    rw [drawnId, hrow]
    exact hid
  · cases hid

/-- The counter after a statement is the drawn id, if there is one. -/
theorem OnTable.counter_step (h : OnTable dbRoot table s) {statement : Statement}
    (hname : statement.name = table.name) :
    (executeStatement uninit dbRoot statement s).2.globals.nextIdCounter =
      (drawnId table statement s).getD s.globals.nextIdCounter := by
  cases statement with
  | insert statement =>
    show (appendInsertRow uninit dbRoot statement s).2.globals.nextIdCounter = _
    rcases h.insert_cases uninit hname with ⟨e, active, hrow, heq⟩ | ⟨plan, hcount, hplan, heq⟩
    · rw [heq, drawnId, hrow]
      rfl
    · rw [heq, drawnId, plannedRow_of_plan hcount hplan]
      exact (storeRow_globals table.columns plan (withActive table s)).1
  | select statement =>
    show (runSelectQuery uninit dbRoot statement s).2.globals.nextIdCounter = _
    obtain ⟨active, heq⟩ := h.select_state uninit hname
    rw [heq]
    rfl

theorem NeverWraps.head {statement : Statement} {statements : List Statement}
    (h : NeverWraps uninit dbRoot table (statement :: statements) s)
    (hdraw : drawnId table statement s ≠ none) : s.globals.nextIdCounter ≠ uint64Max :=
  h [] statement statements rfl hdraw

theorem NeverWraps.tail {statement : Statement} {statements : List Statement}
    (h : NeverWraps uninit dbRoot table (statement :: statements) s) :
    NeverWraps uninit dbRoot table statements (executeStatement uninit dbRoot statement s).2 := by
  intro earlier st later heq
  exact h (statement :: earlier) st later (by rw [heq, List.cons_append])

/-- With all stored ids up to the counter, a draw is fresh exactly if the counter does not wrap. -/
theorem drawsFresh_iff {stored : List UInt64} {statement : Statement}
    (hbound : ∀ x ∈ stored, x ≤ s.globals.nextIdCounter) :
    DrawsFresh table stored statement s ↔ CounterLeft table stored statement s := by
  cases hdraw : drawnId table statement s with
  | none => simp [DrawsFresh, CounterLeft, hdraw]
  | some id =>
    have hid : id = nextId s.globals.nextIdCounter := by
      rw [drawnId] at hdraw
      obtain ⟨row, -, rfl⟩ := Option.map_eq_some_iff.mp hdraw
      rfl
    rw [DrawsFresh, CounterLeft, hdraw]
    constructor
    · intro hfresh _
      by_contra hwrap
      obtain ⟨hmax, hne⟩ := not_or.mp hwrap
      obtain ⟨x, hx⟩ := List.exists_mem_of_ne_nil stored hne
      have hlt := hfresh id rfl x hx
      rw [hid, not_not.mp hmax, nextId_max] at hlt
      exact absurd hlt (not_lt.mpr (UInt64.le_iff_toNat_le.mpr (Nat.zero_le _)))
    · rintro hleft id' hid' x hx
      obtain rfl := Option.some.inj hid'
      rw [hid]
      rcases hleft (by simp) with hmax | hnil
      · exact (hbound x hx).trans_lt (lt_nextId hmax)
      · rw [hnil] at hx
        cases hx

/-- A fresh draw keeps all stored ids up to the counter. -/
theorem OnTable.bound_step (h : OnTable dbRoot table s) {stored : List UInt64} {statement : Statement}
    (hname : statement.name = table.name) (hbound : ∀ x ∈ stored, x ≤ s.globals.nextIdCounter)
    (hfresh : DrawsFresh table stored statement s) :
    ∀ x ∈ stored ++ (storedId table statement s).toList,
      x ≤ (executeStatement uninit dbRoot statement s).2.globals.nextIdCounter := by
  rw [h.counter_step hname]
  intro x hx
  rcases List.mem_append.mp hx with hx | hx
  · cases hdraw : drawnId table statement s with
    | none => exact hbound x hx
    | some id => exact (hfresh id hdraw x hx).le
  · rw [Option.mem_toList] at hx
    rw [storedId_drawn hx]
    exact le_refl x

/-- The run: each step keeps the invariant under which the two conditions are the same. -/
theorem alongRun_iff (statements : List Statement) {stored : List UInt64}
    (h : OnTable dbRoot table s) (hname : ∀ statement ∈ statements, statement.name = table.name)
    (hbound : ∀ x ∈ stored, x ≤ s.globals.nextIdCounter) :
    AlongRun uninit dbRoot table (DrawsFresh table) stored statements s ↔
      AlongRun uninit dbRoot table (CounterLeft table) stored statements s := by
  induction statements generalizing stored s with
  | nil => exact Iff.rfl
  | cons statement statements ih =>
    have hthis := hname statement List.mem_cons_self
    have hrest := fun st hst => hname st (List.mem_cons_of_mem statement hst)
    rw [AlongRun, AlongRun, ← drawsFresh_iff hbound]
    refine and_congr_right fun hfresh => ?_
    exact ih (h.step uninit hthis) hrest (h.bound_step hthis hbound hfresh)

end Step

/-- **Generated ids.**  In a process that started on any files and ran any statements, let the
activation of a table scan its data file and succeed.  For every following sequence of statements on
the table: each id that `next_id` assigns is greater than every id stored at that time, if and only if
at each draw the counter is below `UINT64_MAX` or no id is stored. -/
theorem nextId_fresh (uninit : ℕ → UInt32) (dbRoot : CString) (files : FileSystem)
    (before statements : List Statement) (name : QualifiedName) (table : TableDefinition)
    (s₀ s₁ : State) (content : Bytes)
    (h₀ : s₀ = runStatements uninit dbRoot before (State.fresh files))
    (hload : loadTableDefinition dbRoot s₀.files name = .ok table)
    (hscan : alreadyActive table s₀.globals = false)
    (hactivate : (activateStorageForTable uninit table s₀).1 = none)
    (h₁ : s₁ = (activateStorageForTable uninit table s₀).2)
    (hcontent : s₁.files table.dataPath = some content)
    (hname : ∀ statement ∈ statements, statement.name = name) :
    AlongRun uninit dbRoot table (DrawsFresh table)
        (idsOf table.columns (scannedRows uninit content).1) statements s₁ ↔
      AlongRun uninit dbRoot table (CounterLeft table)
        (idsOf table.columns (scannedRows uninit content).1) statements s₁ := by
  have husable : UsableCaches s₀ := by
    rw [h₀]
    exact runStatements_usable uninit dbRoot files before
  have hon : OnTable dbRoot table s₁ := by
    rw [h₁]
    exact activateStorageForTable_onTable husable hload hactivate
  have hname' : ∀ statement ∈ statements, statement.name = table.name := fun statement hst => by
    rw [hname statement hst, loadTableDefinition_name hload]
  refine alongRun_iff statements hon hname' ?_
  -- the counter starts at the greatest id the scan has seen
  rcases activateStorageForTable_ok husable.no_fail hactivate with ⟨hearly, -⟩ |
    ⟨-, b, files', hb, heq⟩
  · rw [hscan] at hearly
    cases hearly
  · rw [← h₁] at heq
    obtain ⟨content', hfile, -, hbuilt⟩ := hb.built
    rw [heq] at hcontent ⊢
    obtain rfl := Option.some.inj (hfile.symm.trans hcontent)
    exact hbuilt.spec.2.1.1

/-- A data file with one row, whose id text `-1` stands for the greatest id. -/
def signedIdData : Bytes := encodeRow [lit "-1", lit "a"]

/-- The first INSERT draws 0, below the stored id. -/
theorem nextId_wraps :
    (activateStorageForTable (fun _ => 0) nameTable (State.fresh (nameFiles signedIdData))).1 = none ∧
      uint64Max ∈ idsOf nameTable.columns (scannedRows (fun _ => 0) signedIdData).1 ∧
      drawnId nameTable (.insert (insertName (lit "b"))) (nameState signedIdData) = some 0 ∧
      ¬uint64Max < 0 := by
  decide +kernel

/-- Behind a row with the id 1 the next INSERT draws a fresh id. -/
theorem nextId_fresh_insert :
    AlongRun (fun _ => 0) (lit "db") nameTable (DrawsFresh nameTable)
      (idsOf nameTable.columns (scannedRows (fun _ => 0) (encodeRow [lit "1", lit "a"])).1)
      [.insert (insertName (lit "b"))] (nameState (encodeRow [lit "1", lit "a"])) := by
  refine (nextId_fresh (fun _ => 0) (lit "db") (nameFiles (encodeRow [lit "1", lit "a"])) [] _
    ⟨none, lit "t"⟩ nameTable (State.fresh (nameFiles (encodeRow [lit "1", lit "a"])))
    (nameState (encodeRow [lit "1", lit "a"])) (encodeRow [lit "1", lit "a"]) rfl
    (by decide +kernel) (by decide +kernel) (by decide +kernel) rfl (by decide +kernel) ?_).mpr ?_
  · intro statement hst
    rw [List.mem_singleton.mp hst]
    rfl
  · exact ⟨fun _ => Or.inl (by decide +kernel), trivial⟩

end MiniSql
