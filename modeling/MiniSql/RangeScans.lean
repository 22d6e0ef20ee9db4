import MiniSql.SplitFaults

/-!
# Range scans

`bpt_lower_bound` and `run_select_by_id_range` over the trees that runs of `index_insert` reach, with node
allocations that may fail.

* `LowerBoundExact`: the lower bound of a key is the position of the least inserted key that is not below it.
* `RangeScanExact`: the scan emits the inserted pairs in range, each once and in ascending order of the ids,
  whatever rows the references lead to.

Main results:

* `rangeScan_exact`: after every run of calls none of which fails after a first split, the lower bound of
  every key and the scan of every range are exact.
* `rangeScan_torn`: in the tree that `indexInsert_not_atomic` leaves, the lower bound of 20 is the position of
  16, and a scan of the ids from 20 on collects 16 rows where 11 are inserted.
-/

namespace MiniSql

open Separators SearchTree

/-! ### What exact means -/

/-- `bpt_lower_bound` is `false` if every inserted key is below `key`, and else the position of the least
inserted key that is not. -/
def LowerBoundExact (idx : IdIndex) (inserted : List (UInt64 × RowRef)) (key : UInt64) : Prop :=
  ∃ root, idx.root = some root ∧
    match bptLowerBound idx.heap root key with
    | none => ∀ e ∈ inserted, e.1 < key
    | some (leaf, i) => ∃ slots next e, leafAt idx.heap leaf = some (slots, next) ∧
        slots[i]? = some e ∧ e ∈ inserted ∧ key ≤ e.1 ∧
          ∀ e' ∈ inserted, key ≤ e'.1 → e.1 ≤ e'.1

/-- The scan emits the inserted pairs in range, each once and in ascending order of the ids: whatever rows the
references lead to, these are the rows it collects. -/
def RangeScanExact (idx : IdIndex) (inserted : List (UInt64 × RowRef)) (op : WhereOperator)
    (id : UInt64) : Prop :=
  ∃ emitted : List (UInt64 × RowRef),
    emitted.Perm (inserted.filter fun e => idMatches op e.1 id) ∧
    (emitted.map Prod.fst).Pairwise (· < ·) ∧
    ∀ (uninit : ℕ → UInt32) (s : State) (table : TableDefinition) (read : RowRef → StringList),
      s.globals.activeTable = some table → s.globals.index = idx →
      (∀ e ∈ inserted, ∀ out, appendRowByRef uninit s table e.2 out = (0, out ++ [read e.2])) →
      ∀ out, runSelectByIdRange uninit s op id out = (0, out ++ emitted.map fun e => read e.2)

section Model

variable {idx : IdIndex} {es inserted : List (UInt64 × RowRef)}

theorem IndexModel.lowerBoundExact (hm : IndexModel idx es) (hperm : es.Perm inserted)
    (key : UInt64) : LowerBoundExact idx inserted key := by
  have hsorted := hm.sorted
  obtain ⟨root, hroot, ⟨hnone, hless⟩ |
    ⟨p, i, lower, upper, hsome, rfl, -, hlower, hupper, slots, next, e, rest, hleaf, hslot, rfl⟩⟩ :=
      hm.lowerBound key
  · refine ⟨root, hroot, ?_⟩
    rw [hnone]
    exact fun e he => hless e (hperm.mem_iff.mpr he)
  · refine ⟨root, hroot, ?_⟩
    rw [hsome]
    refine ⟨slots, next, e, hleaf, hslot, hperm.mem_iff.mp (by simp), hupper e List.mem_cons_self, ?_⟩
    intro e' he' hle
    rw [List.map_append, List.map_cons, List.pairwise_append, List.pairwise_cons] at hsorted
    rcases List.mem_append.mp (hperm.mem_iff.mpr he') with hlow | hup
    · exact absurd hle (not_le.mpr (hlower e' hlow))
    · rcases List.mem_cons.mp hup with rfl | hrest
      · exact le_rfl
      · exact (hsorted.2.1.1 e'.1 (List.mem_map_of_mem hrest)).le

theorem IndexModel.rangeScanExact (hm : IndexModel idx es) (hperm : es.Perm inserted)
    {op : WhereOperator} (hop : op ≠ .equal) (id : UInt64) : RangeScanExact idx inserted op id := by
  refine ⟨es.filter fun e => idMatches op e.1 id, hperm.filter _, ?_, ?_⟩
  · exact hm.sorted.sublist (List.filter_sublist.map Prod.fst)
  · rintro uninit s table read htable rfl hread out
    exact runSelectByIdRange_eq htable hm (fun e he => hread e (hperm.mem_iff.mp he)) hop id out

end Model

/-- After every run of calls none of which fails after a first split, the lower bound of every key and the
scan of every range are exact. -/
theorem rangeScan_exact (calls : List InsertCall)
    (hmeet : CallsAllOrNothing calls (indexInit IdIndex.initial).2) (id : UInt64) :
    LowerBoundExact (runCalls calls (indexInit IdIndex.initial).2)
        (insertedPairs calls (indexInit IdIndex.initial).2) id ∧
      ∀ op : WhereOperator, op ≠ .equal →
        RangeScanExact (runCalls calls (indexInit IdIndex.initial).2)
          (insertedPairs calls (indexInit IdIndex.initial).2) op id := by
  obtain ⟨es, hm, hperm⟩ := runCalls_init calls hmeet
  exact ⟨hm.lowerBoundExact hperm id, fun op hop => hm.rangeScanExact hperm hop id⟩

theorem rangeScan_exact_two :
    CallsAllOrNothing [⟨[], 7, 0⟩, ⟨[], 3, 40⟩] (indexInit IdIndex.initial).2 ∧
    (LowerBoundExact (runCalls [⟨[], 7, 0⟩, ⟨[], 3, 40⟩] (indexInit IdIndex.initial).2)
        (insertedPairs [⟨[], 7, 0⟩, ⟨[], 3, 40⟩] (indexInit IdIndex.initial).2) 5 ∧
      ∀ op : WhereOperator, op ≠ .equal →
        RangeScanExact (runCalls [⟨[], 7, 0⟩, ⟨[], 3, 40⟩] (indexInit IdIndex.initial).2)
          (insertedPairs [⟨[], 7, 0⟩, ⟨[], 3, 40⟩] (indexInit IdIndex.initial).2) op 5) :=
  ⟨callsAllOrNothing_of_nil _ (by simp),
    rangeScan_exact [⟨[], 7, 0⟩, ⟨[], 3, 40⟩] (callsAllOrNothing_of_nil _ (by simp)) 5⟩

/-- The calls that fill the root leaf, and one that fails after splitting it. -/
def tornCalls : List InsertCall := fullLeafCalls ++ [⟨[false, true], 31, 279⟩]

/-- The table after `tornCalls`: 32 rows with the one field `x`. -/
def tornState : State where
  globals := { Globals.initial with
    index := runCalls tornCalls (indexInit IdIndex.initial).2
    activeDataPath := some (lit "t.data")
    activeTable := some ⟨⟨none, lit "t"⟩, [lit "id"], lit "t.schema", lit "t.data"⟩ }
  files := fun path => if path = lit "t.data"
    then some (List.replicate 32 [1, 0, 0, 0, 1, 0, 0, 0, 120]).flatten else none

/-- In the torn tree the lower bound of 20 is the position of 16, and a scan of the ids from 20 on collects 16
rows where 11 are inserted. -/
theorem rangeScan_torn :
    ¬ LowerBoundExact (runCalls tornCalls (indexInit IdIndex.initial).2)
      (insertedPairs tornCalls (indexInit IdIndex.initial).2) 20 ∧
    ¬ RangeScanExact (runCalls tornCalls (indexInit IdIndex.initial).2)
      (insertedPairs tornCalls (indexInit IdIndex.initial).2) .greaterEqual 20 := by
  constructor
  · rintro ⟨root, hroot, h⟩
    have hzero : (runCalls tornCalls (indexInit IdIndex.initial).2).root = some 0 := by decide +kernel
    obtain rfl : root = 0 := Option.some.inj (hroot.symm.trans hzero)
    have hbound : bptLowerBound (runCalls tornCalls (indexInit IdIndex.initial).2).heap 0 20 =
        some (1, 0) := by decide +kernel
    rw [hbound] at h
    obtain ⟨slots, next, e, hleaf, hslot, -, hle, -⟩ := h
    have hfirst : (leafAt (runCalls tornCalls (indexInit IdIndex.initial).2).heap 1).bind
        (fun leaf => leaf.1[0]?) = some (16, 144) := by decide +kernel
    rw [hleaf, Option.bind_some, hslot] at hfirst
    obtain rfl := Option.some.inj hfirst
    exact absurd hle (by decide)
  · rintro ⟨emitted, hperm, -, hscan⟩
    have hrows : ∀ e ∈ insertedPairs tornCalls (indexInit IdIndex.initial).2,
        binaryReaderReadRowAt (fun _ => 0) tornState.globals.activeDataPath tornState.files e.2 =
          (0, [lit "x"]) := by decide +kernel
    have hread := hscan (fun _ => 0) tornState _ (fun _ => [lit "x"]) rfl rfl
      (fun e he out => by rw [appendRowByRef, hrows e he]; rfl) []
    have hcount := hperm.length_eq
    have hinserted : ((insertedPairs tornCalls (indexInit IdIndex.initial).2).filter fun e =>
        idMatches .greaterEqual e.1 20).length = 11 := by decide +kernel
    have hcollected :
        (runSelectByIdRange (fun _ => 0) tornState .greaterEqual 20 []).2.length = 16 := by
      decide +kernel
    rw [hread, List.nil_append, List.length_map, hcount, hinserted] at hcollected
    exact absurd hcollected (by decide)

end MiniSql
