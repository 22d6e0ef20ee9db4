import Mathlib.Data.List.Destutter
import Mathlib.Data.List.DropRight

/-!
# Bounded logs without consecutive repeats

A log keeps the last `capacity` of the entries pushed into it and ignores an entry equal to the one at its
end.

* `push capacity log x` is one entry.
* `foldl_push`: a run of pushes keeps the end of `List.destutter (· ≠ ·)` of the pushed list.  The comparison
  with the last entry is not disturbed by the eviction of the first (`push_rtake`).
* `isChain_rtake_destutter`, `mem_of_mem_rtake_destutter`: so no two neighbours in the log are equal, and
  every entry was pushed.

The ends of lists are those of `List.rtake`; `rtake_rtake_concat` and `getLast?_rtake` are what it lacks.
-/

namespace MiniSql.RecentEntries

variable {α : Type*} {capacity : ℕ} {l : List α} {a : α}

/-! ### The end of a list -/

theorem rtake_suffix (n : ℕ) (l : List α) : l.rtake n <:+ l := List.drop_suffix _ _

/-- A nonempty end has the last entry of the whole list. -/
theorem getLast?_rtake (hcap : 0 < capacity) (l : List α) :
    (l.rtake capacity).getLast? = l.getLast? := by
  obtain ⟨n, rfl⟩ := Nat.exists_eq_succ_of_ne_zero hcap.ne'
  induction l using List.reverseRecOn with
  | nil => simp
  | append_singleton l a _ => simp [List.rtake_concat_succ]

theorem rtake_rtake_concat (hcap : 0 < capacity) (l : List α) (a : α) :
    (l.rtake capacity ++ [a]).rtake capacity = (l ++ [a]).rtake capacity := by
  obtain ⟨n, rfl⟩ := Nat.exists_eq_succ_of_ne_zero hcap.ne'
  rw [List.rtake_concat_succ, List.rtake_concat_succ]
  simp only [List.rtake, List.length_drop, List.drop_drop]
  congr 2
  omega

/-! ### Logs -/

variable [DecidableEq α]

/-- One push: nothing for a repeat of the last entry, else the last `capacity` entries after it. -/
def push (capacity : ℕ) (items : List α) (a : α) : List α :=
  if items.getLast? = some a then items else (items ++ [a]).rtake capacity

theorem destutter'_ne_concat (l : List α) (a b : α) :
    (l ++ [a]).destutter' (· ≠ ·) b =
      if (l.destutter' (· ≠ ·) b).getLast? = some a then l.destutter' (· ≠ ·) b
      else l.destutter' (· ≠ ·) b ++ [a] := by
  induction l generalizing b with
  | nil => by_cases h : b = a <;> simp [h]
  | cons c l ih =>
    by_cases h : b = c
    · subst h
      simpa [List.destutter'_cons] using ih b
    · have hne : l.destutter' (· ≠ ·) c ≠ [] := List.destutter'_ne_nil _ _
      have hlast : (b :: l.destutter' (· ≠ ·) c).getLast? = (l.destutter' (· ≠ ·) c).getLast? := by
        rw [List.getLast?_cons_of_ne_nil hne]
      rw [List.cons_append, List.destutter'_cons_pos _ h, List.destutter'_cons_pos _ h, ih c, hlast]
      split <;> rfl

/-- The entry put at the end is kept unless it repeats the last one kept. -/
theorem destutter_ne_concat (l : List α) (a : α) :
    (l ++ [a]).destutter (· ≠ ·) =
      if (l.destutter (· ≠ ·)).getLast? = some a then l.destutter (· ≠ ·)
      else l.destutter (· ≠ ·) ++ [a] := by
  cases l with
  | nil => simp
  | cons b l =>
    rw [List.cons_append, List.destutter_cons', List.destutter_cons']
    exact destutter'_ne_concat l a b

/-! ### Runs -/

theorem push_rtake (hcap : 0 < capacity) (l : List α) (a : α) :
    push capacity (l.rtake capacity) a =
      (if l.getLast? = some a then l else l ++ [a]).rtake capacity := by
  rw [push, getLast?_rtake hcap, rtake_rtake_concat hcap]
  split <;> rfl

/-- A run of pushes holds the end of the pushed list without its consecutive repeats. -/
theorem foldl_push (hcap : 0 < capacity) (l : List α) :
    l.foldl (push capacity) [] = (l.destutter (· ≠ ·)).rtake capacity := by
  induction l using List.reverseRecOn with
  | nil => simp
  | append_singleton l a ih =>
    rw [List.foldl_append, List.foldl_cons, List.foldl_nil, ih, push_rtake hcap,
      destutter_ne_concat]

/-- No two neighbours of a log are equal. -/
theorem isChain_rtake_destutter (capacity : ℕ) (l : List α) :
    ((l.destutter (· ≠ ·)).rtake capacity).IsChain (· ≠ ·) :=
  (List.isChain_destutter (R := (· ≠ ·)) l).suffix (rtake_suffix _ _)

theorem mem_of_mem_rtake_destutter (h : a ∈ (l.destutter (· ≠ ·)).rtake capacity) : a ∈ l :=
  (List.destutter_sublist (R := (· ≠ ·)) l).subset ((rtake_suffix _ _).subset h)

end MiniSql.RecentEntries
