import MiniSql.IdIndex
import MiniSql.Storage

/-!
# What the caches hold

The index and the `student_no` set against the rows of the data file they were filled from.

* `CacheModel columns rows index set`: the index and the set hold exactly what the stored rows `rows` (each
  with its offset) put into them.
* `NewRow`: the condition under which one more row may join them: it has a numeric id that is new and, where
  the table has the column, a `student_no` that is not empty and new.
* `Built rows b`: the scan of `rows` by the callback of the index build runs through and leaves `b`.

Both ways a row gets into the caches, the callback of the activation scan and the INSERT path, rest on one
lemma, `CacheModel.add`: a new row joins, and both inserts succeed.

* `buildCallback_cases` says all that one call of the callback can do, `buildCallback_outcome` bounds it for
  any row.
* `Built.spec`: what a scan that ran through has built is a `CacheModel` of its rows.
* `Built.snoc`, `Built.newRow`: such a scan accepts its rows one by one, and can be extended by a new row.
-/

namespace MiniSql

open SearchTree

/-- The id of a stored row. -/
def idOf (columns : StringList) (row : StringList) : Option UInt64 :=
  (findColumnIndex columns idName).bind fun column => (row[column]?).bind parseU64Strict

/-- The `student_no` of a stored row. -/
def studentNoOf (columns : StringList) (row : StringList) : Option CString :=
  (findColumnIndex columns studentNoName).bind fun column => row[column]?

def bindingsOf (columns : StringList) (rows : List (RowRef × StringList)) :
    List (UInt64 × RowRef) :=
  rows.filterMap fun e => (idOf columns e.2).map fun id => (id, e.1)

def idsOf (columns : StringList) (rows : List (RowRef × StringList)) : List UInt64 :=
  (bindingsOf columns rows).map Prod.fst

def studentNosOf (columns : StringList) (rows : List (RowRef × StringList)) : List CString :=
  rows.filterMap fun e => studentNoOf columns e.2

/-- Whether the table has a `student_no` column. -/
def HasStudentNo (columns : StringList) : Prop := findColumnIndex columns studentNoName ≠ none

structure CacheModel (columns : StringList) (rows : List (RowRef × StringList)) (index : IdIndex)
    (set : StudentNoSet) : Prop where
  ids : ∀ e ∈ rows, ∃ id, idOf columns e.2 = some id
  index : ∃ es, IndexModel index es ∧ es.Perm (bindingsOf columns rows)
  studentNos : HasStudentNo columns →
    (∀ e ∈ rows, ∃ v, studentNoOf columns e.2 = some v ∧ v.bytes ≠ []) ∧
      SetModel set (studentNosOf columns rows)

/-- `row` may be added to `rows` under the id `id`. -/
structure NewRow (columns : StringList) (rows : List (RowRef × StringList)) (row : StringList)
    (id : UInt64) : Prop where
  id_eq : idOf columns row = some id
  id_new : id ∉ idsOf columns rows
  studentNo : HasStudentNo columns →
    ∃ v, studentNoOf columns row = some v ∧ v.bytes ≠ [] ∧ v ∉ studentNosOf columns rows

/-- The `student_no` set after a row has joined. -/
def setAfter (columns row : StringList) (set : StudentNoSet) : StudentNoSet :=
  match studentNoOf columns row with
  | none => set
  | some v => (studentNoSetInsert set v).2

section Lists

variable {columns : StringList}

theorem bindingsOf_append (rows₁ rows₂ : List (RowRef × StringList)) :
    bindingsOf columns (rows₁ ++ rows₂) = bindingsOf columns rows₁ ++ bindingsOf columns rows₂ :=
  List.filterMap_append

theorem bindingsOf_singleton {row : StringList} {id : UInt64} (h : idOf columns row = some id)
    (ref : RowRef) : bindingsOf columns [(ref, row)] = [(id, ref)] := by
  simp [bindingsOf, h]

theorem mem_bindingsOf {rows : List (RowRef × StringList)} {e : UInt64 × RowRef} :
    e ∈ bindingsOf columns rows ↔ ∃ row, (e.2, row) ∈ rows ∧ idOf columns row = some e.1 := by
  rw [bindingsOf, List.mem_filterMap]
  constructor
  · rintro ⟨⟨ref, row⟩, hmem, hsome⟩
    obtain ⟨id, hid, rfl⟩ := Option.map_eq_some_iff.mp hsome
    exact ⟨row, hmem, hid⟩
  · rintro ⟨row, hmem, hid⟩
    exact ⟨(e.2, row), hmem, by rw [hid]; rfl⟩

theorem idsOf_snoc {row : StringList} {id : UInt64} (h : idOf columns row = some id)
    (rows : List (RowRef × StringList)) (ref : RowRef) :
    idsOf columns (rows ++ [(ref, row)]) = idsOf columns rows ++ [id] := by
  rw [idsOf, bindingsOf_append, bindingsOf_singleton h, List.map_append]
  rfl

theorem studentNosOf_append (rows₁ rows₂ : List (RowRef × StringList)) :
    studentNosOf columns (rows₁ ++ rows₂) =
      studentNosOf columns rows₁ ++ studentNosOf columns rows₂ := List.filterMap_append

theorem studentNosOf_singleton {row : StringList} {v : CString}
    (h : studentNoOf columns row = some v) (ref : RowRef) :
    studentNosOf columns [(ref, row)] = [v] := by
  simp [studentNosOf, h]

theorem studentNoOf_none (h : ¬HasStudentNo columns) (row : StringList) :
    studentNoOf columns row = none := by
  rw [HasStudentNo, not_not] at h
  rw [studentNoOf, h]
  rfl

end Lists

section Model

variable {columns : StringList} {rows : List (RowRef × StringList)} {index : IdIndex}
  {set : StudentNoSet}

/-- The index holds the ids of the stored rows. -/
theorem CacheModel.mem_ids (hc : CacheModel columns rows index set) :
    ∃ es, IndexModel index es ∧ ∀ id, id ∈ es.map Prod.fst ↔ id ∈ idsOf columns rows := by
  obtain ⟨es, hm, hperm⟩ := hc.index
  exact ⟨es, hm, fun id => (hperm.map Prod.fst).mem_iff⟩

theorem CacheModel.no_fail (hc : CacheModel columns rows index set) :
    index.heap.callocFails = [] := by
  obtain ⟨es, hm, -⟩ := hc.index
  exact hm.no_fail

theorem CacheModel.ready (hc : CacheModel columns rows index set) : index.ready = true := by
  obtain ⟨es, hm, -⟩ := hc.index
  exact hm.ready

/-- A new row joins the caches: both inserts succeed, and the caches hold it. -/
theorem CacheModel.add (hc : CacheModel columns rows index set) {row : StringList} {id : UInt64}
    (hn : NewRow columns rows row id) (ref : RowRef) :
    ∃ index', indexInsert index id ref = (0, index') ∧
      (∀ v ∈ studentNoOf columns row, (studentNoSetInsert set v).1 = .ok) ∧
      CacheModel columns (rows ++ [(ref, row)]) index' (setAfter columns row set) := by
  obtain ⟨es, hm, hperm⟩ := hc.index
  have hfresh : id ∉ es.map Prod.fst := by
    intro hmem
    exact hn.id_new ((hperm.map Prod.fst).mem_iff.mp hmem)
  obtain ⟨index', es', hins, hm', A, B, rfl, rfl, -, -⟩ := hm.insert hfresh ref
  have hindex : (A ++ (id, ref) :: B).Perm (bindingsOf columns (rows ++ [(ref, row)])) := by
    rw [bindingsOf_append, bindingsOf_singleton hn.id_eq]
    refine List.perm_middle.trans ?_
    exact (hperm.cons _).trans (List.perm_append_singleton _ _).symm
  have hids : ∀ e ∈ rows ++ [(ref, row)], ∃ id, idOf columns e.2 = some id := by
    intro e he
    rcases List.mem_append.mp he with he | he
    · exact hc.ids e he
    · obtain rfl := List.mem_singleton.mp he
      exact ⟨id, hn.id_eq⟩
  refine ⟨index', hins, ?_, hids, ⟨_, hm', hindex⟩, ?_⟩
  · intro v hv
    have hs : HasStudentNo columns := by
      intro hnone
      rw [Option.mem_def, studentNoOf, hnone] at hv
      exact absurd hv (by simp)
    obtain ⟨w, hw, -, hnew⟩ := hn.studentNo hs
    obtain rfl : w = v := Option.some.inj (hw.symm.trans hv)
    exact ((hc.studentNos hs).2.insert hnew).1
  · intro hs
    obtain ⟨v, hv, hne, hnew⟩ := hn.studentNo hs
    obtain ⟨hall, hset⟩ := hc.studentNos hs
    refine ⟨?_, ?_⟩
    · intro e he
      rcases List.mem_append.mp he with he | he
      · exact hall e he
      · obtain rfl := List.mem_singleton.mp he
        exact ⟨v, hv, hne⟩
    · rw [setAfter, hv, studentNosOf_append, studentNosOf_singleton hv]
      exact (hset.insert hnew).2

end Model

/-! ### The scan callback -/

/-- The callback of the index build for a table with these columns. -/
def buildCallback (columns : StringList) : RowCallback IndexBuild :=
  buildIndexCallback (findColumnIndex columns idName) (findColumnIndex columns studentNoName)

/-- The build after a row has joined. -/
def IndexBuild.after (columns : StringList) (b : IndexBuild) (id : UInt64) (row : StringList)
    (index : IdIndex) : IndexBuild :=
  ⟨index, setAfter columns row b.studentNoSet, if b.maxId < id then id else b.maxId, b.error⟩

section Callback

variable {columns : StringList} {rows : List (RowRef × StringList)} {b : IndexBuild}

theorem buildStudentNo_ok {row : StringList} {set : StudentNoSet}
    (hs : HasStudentNo columns → ∃ v, studentNoOf columns row = some v ∧ v.bytes ≠ [])
    (hok : ∀ v ∈ studentNoOf columns row, (studentNoSetInsert set v).1 = .ok) :
    buildStudentNo (findColumnIndex columns studentNoName) row set =
      (none, setAfter columns row set) := by
  unfold buildStudentNo setAfter
  cases hcol : findColumnIndex columns studentNoName with
  | none => rw [studentNoOf_none (not_not.mpr hcol)]
  | some column =>
    obtain ⟨v, hv, hne⟩ := hs (by rw [HasStudentNo, hcol]; simp)
    have hins := hok v hv
    have hcell : row[column]? = some v := by
      rw [studentNoOf, hcol] at hv
      exact hv
    dsimp only
    rw [hcell, hv]
    dsimp only
    rw [if_neg hne]
    rcases hr : studentNoSetInsert set v with ⟨rc, set'⟩
    rw [hr] at hins
    obtain rfl : rc = .ok := hins
    rfl

/-- The callback accepts a new row. -/
theorem buildCallback_accept (hc : CacheModel columns rows b.index b.studentNoSet)
    {row : StringList} {id : UInt64} (hn : NewRow columns rows row id) (ref : RowRef) :
    ∃ index', indexInsert b.index id ref = (0, index') ∧
      buildCallback columns ref row b = some (0, b.after columns id row index') ∧
      CacheModel columns (rows ++ [(ref, row)]) index'
        (setAfter columns row b.studentNoSet) := by
  obtain ⟨index', hins, hok, hc'⟩ := hc.add hn ref
  have hid := hn.id_eq
  rw [idOf] at hid
  obtain ⟨column, hcol, hid⟩ := Option.bind_eq_some_iff.mp hid
  obtain ⟨idText, hcell, hparse⟩ := Option.bind_eq_some_iff.mp hid
  refine ⟨index', hins, ?_, hc'⟩
  rw [buildCallback, buildIndexCallback, hcol]
  simp only [Option.bind_some]
  rw [hcell]
  dsimp only
  rw [hparse]
  dsimp only
  rw [buildStudentNo_ok (fun hs => by
    obtain ⟨v, hv, hne, -⟩ := hn.studentNo hs
    exact ⟨v, hv, hne⟩) hok]
  dsimp only
  rw [hins]
  rfl

/-- Everything the callback can do: accept a new row, or fail with an error. -/
theorem buildCallback_cases (hc : CacheModel columns rows b.index b.studentNoSet) (ref : RowRef)
    (row : StringList) :
    (∃ id index', NewRow columns rows row id ∧ indexInsert b.index id ref = (0, index') ∧
      buildCallback columns ref row b = some (0, b.after columns id row index') ∧
      CacheModel columns (rows ++ [(ref, row)]) index' (setAfter columns row b.studentNoSet)) ∨
    ∃ b', buildCallback columns ref row b = some (-1, b') := by
  by_cases hex : ∃ id, NewRow columns rows row id
  · obtain ⟨id, hn⟩ := hex
    obtain ⟨index', h1, h2, h3⟩ := buildCallback_accept hc hn ref
    exact Or.inl ⟨id, index', hn, h1, h2, h3⟩
  · right
    rw [buildCallback, buildIndexCallback]
    cases hcell : (findColumnIndex columns idName).bind fun column => row[column]? with
    | none => exact ⟨_, rfl⟩
    | some idText =>
      dsimp only
      cases hparse : parseU64Strict idText with
      | none => exact ⟨_, rfl⟩
      | some id =>
        dsimp only
        have hid : idOf columns row = some id := by
          rw [idOf, ← Option.bind_assoc, hcell]
          exact hparse
        rcases hbs : buildStudentNo (findColumnIndex columns studentNoName) row
          b.studentNoSet with ⟨err, set'⟩
        cases err with
        | some e => exact ⟨_, rfl⟩
        | none =>
          dsimp only
          -- the student_no part passed, so the id must be the one that is not new
          have hstudent : HasStudentNo columns →
              ∃ v, studentNoOf columns row = some v ∧ v.bytes ≠ [] ∧
                v ∉ studentNosOf columns rows := by
            intro hs
            obtain ⟨column, hcol⟩ := Option.ne_none_iff_exists'.mp hs
            unfold buildStudentNo at hbs
            rw [hcol] at hbs
            dsimp only at hbs
            cases hv : row[column]? with
            | none => rw [hv] at hbs; simp at hbs
            | some v =>
              rw [hv] at hbs
              dsimp only at hbs
              by_cases hempty : v.bytes = []
              · rw [if_pos hempty] at hbs; simp at hbs
              · rw [if_neg hempty] at hbs
                refine ⟨v, by rw [studentNoOf, hcol]; exact hv, hempty, fun hmem => ?_⟩
                have hdup := ((hc.studentNos hs).2.insert_of_mem hmem).1
                rcases hr : studentNoSetInsert b.studentNoSet v with ⟨rc, set''⟩
                rw [hr] at hdup hbs
                obtain rfl : rc = .duplicate := hdup
                simp at hbs
          have hmem : id ∈ idsOf columns rows := by
            by_contra hnew
            exact hex ⟨id, hid, hnew, hstudent⟩
          obtain ⟨es, hm, hids⟩ := hc.mem_ids
          rw [hm.insert_of_mem ((hids id).mpr hmem) ref]
          exact ⟨_, rfl⟩

theorem buildStudentNo_set (studentNoColumn : Option ℕ) (values : StringList) (set : StudentNoSet) :
    (buildStudentNo studentNoColumn values set).2 = set ∨
      ∃ v, (buildStudentNo studentNoColumn values set).2 = (studentNoSetInsert set v).2 := by
  unfold buildStudentNo
  split
  · exact Or.inl rfl
  · split
    · exact Or.inl rfl
    · rename_i studentNo hcell
      split
      · exact Or.inl rfl
      · right
        refine ⟨studentNo, ?_⟩
        split <;> rename_i heq <;> rw [heq]

/-- Every outcome of the callback: it never asks the scan to stop, never reads outside a row, and makes
at most one insert into the index and one into the set. -/
theorem buildCallback_outcome (columns : StringList) (ref : RowRef) (row : StringList)
    (b : IndexBuild) :
    ∃ rc b', buildCallback columns ref row b = some (rc, b') ∧ (rc = 0 ∨ rc = -1) ∧
      (b'.index = b.index ∨ ∃ id, b'.index = (indexInsert b.index id ref).2) ∧
      (b'.studentNoSet = b.studentNoSet ∨
        ∃ v, b'.studentNoSet = (studentNoSetInsert b.studentNoSet v).2) := by
  have hset := buildStudentNo_set (findColumnIndex columns studentNoName) row b.studentNoSet
  rw [buildCallback, buildIndexCallback]
  cases (findColumnIndex columns idName).bind fun column => row[column]? with
  | none => exact ⟨_, _, rfl, Or.inr rfl, Or.inl rfl, Or.inl rfl⟩
  | some idText =>
    dsimp only
    cases parseU64Strict idText with
    | none => exact ⟨_, _, rfl, Or.inr rfl, Or.inl rfl, Or.inl rfl⟩
    | some id =>
      dsimp only
      rcases hstudent : buildStudentNo (findColumnIndex columns studentNoName) row b.studentNoSet
        with ⟨err, set'⟩
      rw [hstudent] at hset
      cases err with
      | some e => exact ⟨_, _, rfl, Or.inr rfl, Or.inl rfl, hset⟩
      | none =>
        dsimp only
        rcases hinsert : indexInsert b.index id ref with ⟨rc, index'⟩
        have hindex : index' = (indexInsert b.index id ref).2 := by rw [hinsert]
        dsimp only
        by_cases h1 : rc = 1
        · rw [if_pos h1]
          exact ⟨_, _, rfl, Or.inr rfl, Or.inr ⟨id, hindex⟩, hset⟩
        · rw [if_neg h1]
          by_cases h0 : rc ≠ 0
          · rw [if_pos h0]
            exact ⟨_, _, rfl, Or.inr rfl, Or.inr ⟨id, hindex⟩, hset⟩
          · rw [if_neg h0]
            exact ⟨_, _, rfl, Or.inl rfl, Or.inr ⟨id, hindex⟩, hset⟩

/-- A property of the index and one of the set that inserts keep. -/
structure KeptByInserts (P : IdIndex → Prop) (Q : StudentNoSet → Prop) : Prop where
  index : ∀ index id ref, P index → P (indexInsert index id ref).2
  set : ∀ set v, Q set → Q (studentNoSetInsert set v).2

theorem buildCallback_keeps {P : IdIndex → Prop} {Q : StudentNoSet → Prop} (hk : KeptByInserts P Q)
    {ref : RowRef} {row : StringList} {b b' : IndexBuild} {rc : ℤ}
    (hb : P b.index ∧ Q b.studentNoSet)
    (h : buildCallback columns ref row b = some (rc, b')) : P b'.index ∧ Q b'.studentNoSet := by
  obtain ⟨rc₁, b₁, h₁, -, hi, hs⟩ := buildCallback_outcome columns ref row b
  obtain ⟨-, rfl⟩ := Prod.mk.inj (Option.some.inj (h₁.symm.trans h))
  constructor
  · rcases hi with heq | ⟨id, heq⟩ <;> rw [heq]
    · exact hb.1
    · exact hk.index b.index id ref hb.1
  · rcases hs with heq | ⟨v, heq⟩ <;> rw [heq]
    · exact hb.2
    · exact hk.set b.studentNoSet v hb.2

end Callback

/-! ### The whole scan -/

/-- What the scan of an index build starts from. -/
def startBuild (columns : StringList) : IndexBuild :=
  ⟨⟨⟨[.leaf [] none], []⟩, some 0, true⟩,
    if findColumnIndex columns studentNoName = none then studentNoSetFree else studentNoSetInit,
    0, none⟩

theorem indexInit_start {idx : IdIndex} (hf : idx.heap.callocFails = []) (columns : StringList) :
    indexInit idx = (0, (startBuild columns).index) := by
  rw [indexInit, bptCreateNode, hf]
  rfl

/-- `m` is the greatest of `ids`, or 0 if there are none. -/
def MaxId (ids : List UInt64) (m : UInt64) : Prop := (∀ id ∈ ids, id ≤ m) ∧ (m = 0 ∨ m ∈ ids)

theorem MaxId.snoc {ids : List UInt64} {m : UInt64} (h : MaxId ids m) (id : UInt64) :
    MaxId (ids ++ [id]) (if m < id then id else m) := by
  obtain ⟨hle, hmem⟩ := h
  by_cases hlt : m < id
  · rw [if_pos hlt]
    refine ⟨fun x hx => ?_, Or.inr (by simp)⟩
    rcases List.mem_append.mp hx with hx | hx
    · exact (hle x hx).trans hlt.le
    · rw [List.mem_singleton.mp hx]
  · rw [if_neg hlt]
    refine ⟨fun x hx => ?_, ?_⟩
    · rcases List.mem_append.mp hx with hx | hx
      · exact hle x hx
      · rw [List.mem_singleton.mp hx]
        exact not_lt.mp hlt
    · rcases hmem with h0 | hm
      · exact Or.inl h0
      · exact Or.inr (by simp [hm])

/-- The scan of `rows` runs through and leaves `b`. -/
def Built (columns : StringList) (rows : List (RowRef × StringList)) (b : IndexBuild) : Prop :=
  foldRows (buildCallback columns) rows (startBuild columns) = some (none, b)

theorem startBuild_model (columns : StringList) :
    CacheModel columns [] (startBuild columns).index (startBuild columns).studentNoSet where
  ids := fun e he => absurd he (by simp)
  index := by
    obtain ⟨-, hm⟩ := indexInit_spec (show IdIndex.initial.heap.callocFails = [] from rfl)
    exact ⟨[], hm, List.Perm.refl _⟩
  studentNos := by
    intro hs
    refine ⟨fun e he => absurd he (by simp), ?_⟩
    rw [startBuild]
    simp only [if_neg hs]
    exact studentNoSetInit_model

section Built

variable {columns : StringList} {rows : List (RowRef × StringList)} {b : IndexBuild}

theorem built_nil (columns : StringList) : Built columns [] (startBuild columns) := rfl

/-- The last step of a scan. -/
theorem foldRows_snoc {S : Type} (cb : RowCallback S) {rows : List (RowRef × StringList)} {s s' : S}
    (h : foldRows cb rows s = some (none, s')) (ref : RowRef) (row : StringList) :
    foldRows cb (rows ++ [(ref, row)]) s = foldRows cb [(ref, row)] s' := by
  rw [foldRows_append, h]

theorem buildCallback_foldRows (columns : StringList) (rows : List (RowRef × StringList))
    (b : IndexBuild) :
    (∃ b', foldRows (buildCallback columns) rows b = some (none, b')) ∨
      ∃ b', foldRows (buildCallback columns) rows b = some (some (-1), b') := by
  induction rows generalizing b with
  | nil => exact Or.inl ⟨b, rfl⟩
  | cons e rows ih =>
    obtain ⟨ref, row⟩ := e
    obtain ⟨rc, b', hcb, hrc, -, -⟩ := buildCallback_outcome columns ref row b
    rw [foldRows, hcb]
    dsimp only
    rcases hrc with rfl | rfl
    · rw [if_neg (by omega), if_neg (by omega)]
      exact ih b'
    · rw [if_pos (by omega)]
      exact Or.inr ⟨b', rfl⟩

/-- What a scan that ran through has built. -/
theorem Built.spec (h : Built columns rows b) :
    CacheModel columns rows b.index b.studentNoSet ∧ MaxId (idsOf columns rows) b.maxId ∧
      b.error = none := by
  induction rows using List.reverseRecOn generalizing b with
  | nil =>
    obtain rfl : startBuild columns = b := by
      have h' := Option.some.inj h
      exact (Prod.mk.inj h').2
    exact ⟨startBuild_model columns, ⟨by simp [idsOf, bindingsOf], Or.inl rfl⟩, rfl⟩
  | append_singleton rows e ih =>
    obtain ⟨ref, row⟩ := e
    rcases buildCallback_foldRows columns rows (startBuild columns) with
      ⟨b₁, h₁⟩ | ⟨b₁, h₁⟩
    · obtain ⟨hc, hmax, herr⟩ := ih h₁
      rw [Built, foldRows_snoc _ h₁] at h
      rcases buildCallback_cases hc ref row with ⟨id, index', hn, -, hcb, hc'⟩ | ⟨b', hcb⟩
      · rw [foldRows, hcb] at h
        simp only [lt_irrefl, if_false, foldRows] at h
        obtain rfl := (Prod.mk.inj (Option.some.inj h)).2
        refine ⟨hc', ?_, herr⟩
        rw [idsOf_snoc hn.id_eq]
        exact hmax.snoc id
      · rw [foldRows, hcb] at h
        simp at h
    · rw [Built, foldRows_append, h₁] at h
      simp at h

/-- A new row extends what has been built, and the extension is what the scan of all rows builds. -/
theorem Built.snoc (h : Built columns rows b) {row : StringList} {id : UInt64}
    (hn : NewRow columns rows row id) (ref : RowRef) :
    ∃ index', indexInsert b.index id ref = (0, index') ∧
      Built columns (rows ++ [(ref, row)]) (b.after columns id row index') := by
  obtain ⟨index', hins, hcb, -⟩ := buildCallback_accept h.spec.1 hn ref
  refine ⟨index', hins, ?_⟩
  rw [Built, foldRows_snoc _ h, foldRows, hcb]
  rfl

/-- The rows a scan accepts, one by one. -/
theorem Built.newRow {ref : RowRef} {row : StringList}
    (h : Built columns (rows ++ [(ref, row)]) b) :
    ∃ b₁ id, Built columns rows b₁ ∧ NewRow columns rows row id := by
  rcases buildCallback_foldRows columns rows (startBuild columns) with
    ⟨b₁, h₁⟩ | ⟨b₁, h₁⟩
  · rw [Built, foldRows_snoc _ h₁] at h
    have hc := Built.spec h₁
    rcases buildCallback_cases hc.1 ref row with ⟨id, -, hn, -, -, -⟩ | ⟨b', hcb⟩
    · exact ⟨b₁, id, h₁, hn⟩
    · rw [foldRows, hcb] at h
      simp at h
  · rw [Built, foldRows_append, h₁] at h
    simp at h

end Built

end MiniSql
