import MiniSql.Common
import MiniSql.Library.ProbeTable

/-!
# The `student_no` set of `storage.c`

The open-addressing hash set behind the uniqueness check: FNV-1a, linear probing with `& (capacity - 1)`,
doubling at load factor 0.7.  Allocations succeed here.

* `StudentNoSet`, `studentNoSetInit`, `studentNoSetContains`, `studentNoSetInsert` and `studentNoSetRehash`
  are those of the source.  The probe loops carry the capacity as fuel.
* `SetModel set members` is the view the storage code has of it: the set holds exactly `members`, in a table
  whose capacity is a power of two and which is a `ProbeTable.Table`.

Main results:

* `SetModel.probe_ends`: every probe ends within its fuel.
* `SetModel.grown`: the table that an insertion probes, old or doubled, holds the same members; the induction
  over the old slots is `rehash_fold`.
* `studentNoSet_run`: after any sequence of insertions the table is the set of the inserted texts, in all its
  answers, and every probe loop ends.
-/

namespace MiniSql

open ProbeTable

/-- `StudentNoSet`; `slots = []` is the set without a table (`slots == NULL`, `capacity == 0`). -/
structure StudentNoSet where
  slots : List (Option CString)
  count : ℕ
  deriving DecidableEq

def StudentNoSet.capacity (set : StudentNoSet) : ℕ := set.slots.length

inductive StudentNoSetResult where
  | ok
  | duplicate
  | error
  deriving DecidableEq, Repr

/-- `hash_student_no`: FNV-1a. -/
def hashStudentNo (text : CString) : UInt64 :=
  text.bytes.foldl (fun hash c => (hash ^^^ c.toUInt64) * 1099511628211) 1469598103934665603

/-- The probe loop of `contains`, `insert` and `rehash`, with the stop test of each. -/
def studentNoProbe (slots : List (Option CString)) (stop : CString → Bool) (text : CString) :
    Option (ℕ × Option CString) :=
  let mask := slots.length - 1
  probe slots (fun i => (i + 1) &&& mask) stop slots.length ((hashStudentNo text).toNat &&& mask)

def studentNoSetFree : StudentNoSet := ⟨[], 0⟩

def studentNoSetInit : StudentNoSet := ⟨List.replicate 1024 none, 0⟩

/-- Move one slot of the old table into the new one. -/
def studentNoRehashSlot (newSlots : List (Option CString)) : Option CString → List (Option CString)
  | none => newSlots
  | some entry =>
      match studentNoProbe newSlots (fun _ => false) entry with
      | some (i, _) => newSlots.set i (some entry)
      | none => newSlots

def studentNoSetRehash (set : StudentNoSet) (newCapacity : ℕ) : StudentNoSet :=
  { set with slots := set.slots.foldl studentNoRehashSlot (List.replicate newCapacity none) }

def studentNoSetContains (set : StudentNoSet) (studentNo : CString) : Bool :=
  if set.capacity = 0 then false
  else
    match studentNoProbe set.slots (fun c => decide (strcmp c studentNo = 0)) studentNo with
    | some (_, some _) => true
    | _ => false

def studentNoSetInsert (set : StudentNoSet) (studentNo : CString) :
    StudentNoSetResult × StudentNoSet :=
  if set.capacity = 0 then (.error, set)
  else
    let set := if set.capacity * 7 ≤ (set.count + 1) * 10
      then studentNoSetRehash set (set.capacity * 2) else set
    match studentNoProbe set.slots (fun c => decide (strcmp c studentNo = 0)) studentNo with
    | some (_, some _) => (.duplicate, set)
    | some (i, none) => (.ok, ⟨set.slots.set i (some studentNo), set.count + 1⟩)
    | none => (.error, set)

/-! ### Invariant -/

/-- The hash as a natural number: the home slot is its remainder modulo the capacity. -/
def home (text : CString) : ℕ := (hashStudentNo text).toNat

/-- The set holds exactly `members`, in a table whose capacity is a power of two. -/
structure SetModel (set : StudentNoSet) (members : List CString) : Prop where
  pow : ∃ k, set.slots.length = 2 ^ k
  table : Table home set.slots
  perm : (stored set.slots).Perm members
  nodup : members.Nodup
  count : set.count = members.length

theorem studentNoProbe_eq {slots : List (Option CString)} (hpow : ∃ k, slots.length = 2 ^ k)
    (stop : CString → Bool) (text : CString) :
    studentNoProbe slots stop text =
      probe slots (fun i => (i + 1) % slots.length) stop slots.length
        (home text % slots.length) := by
  obtain ⟨k, hk⟩ := hpow
  have hand : ∀ n : ℕ, n &&& (slots.length - 1) = n % slots.length := by
    intro n
    rw [hk]
    exact Nat.and_two_pow_sub_one_eq_mod n k
  rw [studentNoProbe]
  simp only [hand, home]

section Model

variable {set : StudentNoSet} {members : List CString}

theorem SetModel.capacity_pos (hm : SetModel set members) : 0 < set.slots.length := by
  obtain ⟨k, hk⟩ := hm.pow
  rw [hk]
  exact Nat.two_pow_pos k

theorem SetModel.mem_stored (hm : SetModel set members) {s : CString} :
    s ∈ stored set.slots ↔ s ∈ members := hm.perm.mem_iff

theorem SetModel.probe_member (hm : SetModel set members) {s : CString} (hs : s ∈ members) :
    ∃ i, studentNoProbe set.slots (fun c => decide (strcmp c s = 0)) s = some (i, some s) := by
  rw [studentNoProbe_eq hm.pow]
  exact hm.table.probe_present (fun _ _ => rfl) (hm.mem_stored.mpr hs) (fun c => by simp)

theorem SetModel.probe_absent (hm : SetModel set members) {s : CString} {stop : CString → Bool}
    (hstop : ∀ c ∈ members, stop c = false) :
    ∃ k, k < set.slots.length ∧ slotAt set.slots ((home s + k) % set.slots.length) = none ∧
      (∀ j < k, ∃ c, slotAt set.slots ((home s + j) % set.slots.length) = some c) ∧
      studentNoProbe set.slots stop s = some ((home s + k) % set.slots.length, none) := by
  rw [studentNoProbe_eq hm.pow]
  exact probe_free (fun _ _ => rfl) hm.table.free (home s)
    (fun c hc => hstop c (hm.mem_stored.mp hc))

theorem strcmp_stop {members : List CString} {s : CString} (hs : s ∉ members) :
    ∀ c ∈ members, decide (strcmp c s = 0) = false := by
  intro c hc
  refine decide_eq_false fun h => ?_
  rw [strcmp_eq_zero] at h
  exact hs (h ▸ hc)

/-- Every probe for a text ends. -/
theorem SetModel.probe_ends (hm : SetModel set members) (s : CString) :
    studentNoProbe set.slots (fun c => decide (strcmp c s = 0)) s ≠ none := by
  by_cases hs : s ∈ members
  · obtain ⟨i, hi⟩ := hm.probe_member hs
    rw [hi]
    simp
  · obtain ⟨k, -, -, -, hk⟩ := hm.probe_absent (s := s) (strcmp_stop hs)
    rw [hk]
    simp

/-! ### Operations -/

theorem studentNoSetInit_model : SetModel studentNoSetInit [] where
  pow := ⟨10, by rw [studentNoSetInit, List.length_replicate]; rfl⟩
  table := Table.replicate home (by decide)
  perm := by
    rw [studentNoSetInit, stored, List.filterMap_replicate_of_none rfl]
  nodup := List.nodup_nil
  count := rfl

theorem SetModel.contains (hm : SetModel set members) (s : CString) :
    studentNoSetContains set s = decide (s ∈ members) := by
  rw [studentNoSetContains, StudentNoSet.capacity, if_neg hm.capacity_pos.ne']
  by_cases hs : s ∈ members
  · obtain ⟨i, hi⟩ := hm.probe_member hs
    rw [hi, decide_eq_true hs]
  · obtain ⟨k, -, -, -, hk⟩ := hm.probe_absent (s := s) (strcmp_stop hs)
    rw [hk, decide_eq_false hs]

/-- Filling the slot the probe of an absent text ends at. -/
theorem SetModel.place (hm : SetModel set members) {s : CString} (hs : s ∉ members)
    (hroom : members.length + 1 < set.slots.length) {stop : CString → Bool}
    (hstop : ∀ c ∈ members, stop c = false) :
    ∃ i, studentNoProbe set.slots stop s = some (i, none) ∧
      SetModel ⟨set.slots.set i (some s), set.count + 1⟩ (members ++ [s]) := by
  obtain ⟨k, hk, hnone, hpass, hprobe⟩ := hm.probe_absent (s := s) hstop
  have hstored : s ∉ stored set.slots := fun h => hs (hm.mem_stored.mp h)
  have hlen := hm.perm.length_eq
  refine ⟨_, hprobe, ?_, ?_, ?_, ?_, ?_⟩
  · rw [List.length_set]
    exact hm.pow
  · exact hm.table.set (by omega) hstored hk hnone hpass
  · refine (stored_set (Nat.mod_lt _ hm.capacity_pos) hnone s).trans ?_
    exact (hm.perm.cons s).trans (List.perm_append_singleton s members).symm
  · exact List.nodup_append.mpr ⟨hm.nodup, List.nodup_singleton s, fun a ha b hb hab => by
      obtain rfl := List.mem_singleton.mp hb
      exact hs (hab ▸ ha)⟩
  · rw [hm.count, List.length_append]
    rfl

/-- Rehashing moves every entry; the induction is over the old slots. -/
theorem rehash_fold {old : List (Option CString)} {new : List (Option CString)}
    {done : List CString} (hm : SetModel ⟨new, done.length⟩ done)
    (hroom : done.length + (stored old).length < new.length)
    (hnd : (done ++ stored old).Nodup) :
    SetModel ⟨old.foldl studentNoRehashSlot new, (done ++ stored old).length⟩
        (done ++ stored old) ∧
      (old.foldl studentNoRehashSlot new).length = new.length := by
  induction old generalizing new done with
  | nil => simpa [stored] using hm
  | cons slot old ih =>
    cases slot with
    | none => exact ih hm hroom hnd
    | some entry =>
      have hst : stored (some entry :: old) = entry :: stored old := rfl
      rw [hst] at hroom hnd ⊢
      have hentry : entry ∉ done := by
        intro h
        exact (List.nodup_append.mp hnd).2.2 entry h entry List.mem_cons_self rfl
      rw [List.length_cons] at hroom
      obtain ⟨i, hprobe, hm'⟩ := hm.place hentry (show done.length + 1 < new.length by omega)
        (show ∀ c ∈ done, (fun _ : CString => false) c = false from fun _ _ => rfl)
      have hslot : studentNoRehashSlot new (some entry) = new.set i (some entry) := by
        rw [studentNoRehashSlot, hprobe]
      have happ : done ++ entry :: stored old = (done ++ [entry]) ++ stored old := by simp
      have hlen : (done ++ [entry]).length = done.length + 1 := by simp
      rw [happ] at hnd ⊢
      have hplaced : SetModel ⟨new.set i (some entry), (done ++ [entry]).length⟩
          (done ++ [entry]) := by
        rw [hlen]
        exact hm'
      have hih := ih hplaced (by rw [List.length_set, hlen]; omega) hnd
      rw [List.foldl_cons, hslot]
      rw [List.length_set] at hih
      exact hih

/-- The doubled table before the entries move. -/
theorem SetModel.fresh (hm : SetModel set members) :
    SetModel ⟨List.replicate (set.slots.length * 2) none, ([] : List CString).length⟩ [] := by
  have hpos := hm.capacity_pos
  refine ⟨?_, Table.replicate home (by omega), ?_, List.nodup_nil, rfl⟩
  · obtain ⟨k, hk⟩ := hm.pow
    exact ⟨k + 1, by rw [List.length_replicate, hk, pow_succ]⟩
  · rw [stored, List.filterMap_replicate_of_none rfl]

theorem SetModel.rehash (hm : SetModel set members) :
    SetModel (studentNoSetRehash set (set.capacity * 2)) members ∧
      (studentNoSetRehash set (set.capacity * 2)).slots.length = set.slots.length * 2 := by
  have hpos := hm.capacity_pos
  have hlt := hm.table.free
  have hfold := rehash_fold hm.fresh
    (show [].length + (stored set.slots).length < _ by
      rw [List.length_replicate, List.length_nil]; omega)
    (by rw [List.nil_append]; exact hm.perm.nodup_iff.mpr hm.nodup)
  rw [List.nil_append, List.length_replicate] at hfold
  obtain ⟨hnew, hlen⟩ := hfold
  refine ⟨⟨hnew.pow, hnew.table, hnew.perm.trans hm.perm, hm.nodup, hm.count⟩, hlen⟩

/-- The table `student_no_set_insert` probes: the old one, or a doubled one. -/
theorem SetModel.grown (hm : SetModel set members) :
    ∃ set', (if set.capacity * 7 ≤ (set.count + 1) * 10
        then studentNoSetRehash set (set.capacity * 2) else set) = set' ∧
      SetModel set' members ∧ members.length + 1 < set'.slots.length := by
  have hfree := hm.table.free
  have hlen := hm.perm.length_eq
  have hcount := hm.count
  by_cases hload : set.capacity * 7 ≤ (set.count + 1) * 10
  · obtain ⟨hm', hcap⟩ := hm.rehash
    refine ⟨_, if_pos hload, hm', ?_⟩
    have hpos := hm.capacity_pos
    omega
  · refine ⟨set, if_neg hload, hm, ?_⟩
    rw [StudentNoSet.capacity] at hload
    omega

theorem SetModel.insert_of_mem (hm : SetModel set members) {s : CString} (hs : s ∈ members) :
    (studentNoSetInsert set s).1 = .duplicate ∧ SetModel (studentNoSetInsert set s).2 members := by
  obtain ⟨set', hgrown, hm', -⟩ := hm.grown
  obtain ⟨i, hi⟩ := hm'.probe_member hs
  rw [studentNoSetInsert, StudentNoSet.capacity, if_neg hm.capacity_pos.ne']
  dsimp only
  rw [StudentNoSet.capacity] at hgrown
  rw [hgrown, hi]
  exact ⟨rfl, hm'⟩

theorem SetModel.insert (hm : SetModel set members) {s : CString} (hs : s ∉ members) :
    (studentNoSetInsert set s).1 = .ok ∧
      SetModel (studentNoSetInsert set s).2 (members ++ [s]) := by
  obtain ⟨set', hgrown, hm', hroom⟩ := hm.grown
  obtain ⟨i, hi, hplaced⟩ := hm'.place hs hroom (strcmp_stop hs)
  rw [studentNoSetInsert, StudentNoSet.capacity, if_neg hm.capacity_pos.ne']
  dsimp only
  rw [StudentNoSet.capacity] at hgrown
  rw [hgrown, hi]
  exact ⟨rfl, hplaced⟩

/-! ### Runs -/

/-- The set after `student_no_set_insert` of each text in turn. -/
def studentNoInsertAll (texts : List CString) (set : StudentNoSet) : StudentNoSet :=
  texts.foldl (fun set s => (studentNoSetInsert set s).2) set

theorem SetModel.insertAll (hm : SetModel set members) (texts : List CString) :
    ∃ members', SetModel (studentNoInsertAll texts set) members' ∧
      ∀ s, s ∈ members' ↔ s ∈ members ∨ s ∈ texts := by
  induction texts generalizing set members with
  | nil => exact ⟨members, hm, by simp⟩
  | cons t texts ih =>
    by_cases ht : t ∈ members
    · obtain ⟨members', hm', hmem⟩ := ih (hm.insert_of_mem ht).2
      refine ⟨members', hm', fun s => ?_⟩
      rw [hmem, List.mem_cons]
      have hknown : s = t → s ∈ members := fun h => h ▸ ht
      tauto
    · obtain ⟨members', hm', hmem⟩ := ih (hm.insert ht).2
      refine ⟨members', hm', fun s => ?_⟩
      rw [hmem, List.mem_append, List.mem_singleton, List.mem_cons]
      tauto

theorem SetModel.result (hm : SetModel set members) (s : CString) :
    (studentNoSetInsert set s).1 = if s ∈ members then .duplicate else .ok := by
  by_cases hs : s ∈ members
  · rw [if_pos hs]
    exact (hm.insert_of_mem hs).1
  · rw [if_neg hs]
    exact (hm.insert hs).1

/-- The probe loops of `student_no_set_rehash` end: each entry finds a slot in the table that holds the
entries of the slots before it. -/
def RehashProbesEnd (set : StudentNoSet) (newCapacity : ℕ) : Prop :=
  ∀ before entry after, set.slots = before ++ some entry :: after →
    studentNoProbe (before.foldl studentNoRehashSlot (List.replicate newCapacity none))
      (fun _ => false) entry ≠ none

theorem SetModel.rehash_ends (hm : SetModel set members) :
    RehashProbesEnd set (set.capacity * 2) := by
  intro before entry after hslots
  have hpos := hm.capacity_pos
  have hlt := hm.table.free
  have hbefore : (stored before).length ≤ (stored set.slots).length := by
    rw [hslots]
    simp [stored]
  have hnodup : (stored before).Nodup := by
    have hall := hm.perm.nodup_iff.mpr hm.nodup
    rw [hslots, stored, List.filterMap_append] at hall
    exact (List.nodup_append.mp hall).1
  obtain ⟨hmodel, -⟩ := @rehash_fold before _ [] hm.fresh
    (by rw [List.length_replicate, List.length_nil]; omega) hnodup
  obtain ⟨i, -, -, -, hprobe⟩ :=
    @SetModel.probe_absent _ _ hmodel entry (fun _ => false) fun _ _ => rfl
  show studentNoProbe (before.foldl studentNoRehashSlot (List.replicate (set.slots.length * 2) none))
    (fun _ => false) entry ≠ none
  rw [hprobe]
  simp

end Model

/-- After `student_no_set_init` and any sequence of insertions, the table is the set of the inserted texts:
the next insertion reports a duplicate exactly for one of them, `contains` finds exactly them, `count` counts
them, and every probe loop ends. -/
theorem studentNoSet_run (texts : List CString) (s : CString) :
    let set := studentNoInsertAll texts studentNoSetInit
    (studentNoSetInsert set s).1 = (if s ∈ texts then .duplicate else .ok) ∧
      studentNoSetContains set s = decide (s ∈ texts) ∧
      set.count = texts.toFinset.card ∧
      (∃ k, set.capacity = 2 ^ k) ∧ (∃ i < set.capacity, set.slots[i]? = some none) ∧
      studentNoProbe set.slots (fun c => decide (strcmp c s = 0)) s ≠ none ∧
      RehashProbesEnd set (set.capacity * 2) := by
  obtain ⟨members, hm, hmem⟩ := studentNoSetInit_model.insertAll texts
  have hmembers : ∀ t, t ∈ members ↔ t ∈ texts := fun t => by simp [hmem]
  have hcard : members.length = texts.toFinset.card := by
    rw [← List.toFinset_card_of_nodup hm.nodup]
    congr 1
    ext t
    simp [hmembers]
  obtain ⟨i, hi, hfree⟩ := exists_free hm.table.free
  refine ⟨?_, ?_, hm.count.trans hcard, hm.pow, ⟨i, hi, ?_⟩, hm.probe_ends s, hm.rehash_ends⟩
  · simp [hm.result s, hmembers]
  · simp [hm.contains s, hmembers]
  · rw [slotAt, List.getElem?_eq_getElem hi] at hfree
    rw [List.getElem?_eq_getElem hi]
    exact congrArg some hfree

end MiniSql
