import Mathlib

/-!
# Items with quotas

Every item of a list has a kind, and some kinds have a limit.

* `number kind k xs` counts the items of a kind, `Within` says that no kind has more of them than its limit
  allows, `Room` that one more would be allowed.

A scan that refuses an item when its kind has reached its limit goes through a list exactly if the list is
within the limits: `foldlM_within` and `foldlM_not_within`.  The order of the items plays no part in that
(`Within.perm`), and none in what is collected of a kind with one item at most (`filterMap_eq_of_perm`).  So a
scan of this kind does not depend on the order of its items at all.
-/

namespace Quotas

variable {α β κ σ ε : Type*} [DecidableEq κ] (kind : α → κ) (limit : κ → Option ℕ)

/-- The items of a kind. -/
def number (k : κ) (items : List α) : ℕ := items.countP fun a => decide (kind a = k)

/-- No kind has more items than its limit. -/
def Within (items : List α) : Prop := ∀ k, ∀ n ∈ limit k, number kind k items ≤ n

/-- One more item like `a` may come behind these. -/
def Room (before : List α) (a : α) : Prop := ∀ n ∈ limit (kind a), number kind (kind a) before < n

section Counting

variable {kind limit}

theorem within_nil : Within kind limit ([] : List α) := fun _ _ _ => Nat.zero_le _

theorem number_append (k : κ) (before items : List α) :
    number kind k (before ++ items) = number kind k before + number kind k items :=
  List.countP_append

theorem number_singleton (k : κ) (a : α) : number kind k [a] = if kind a = k then 1 else 0 := by
  rw [number, List.countP_singleton]
  simp

/-- The items of a kind are those that give something to collect. -/
theorem number_eq_length {k : κ} {f : α → Option β} (hf : ∀ a, (f a).isSome = decide (kind a = k))
    (items : List α) : number kind k items = (items.filterMap f).length := by
  rw [List.length_filterMap_eq_countP, number]
  simp only [hf]

theorem Within.of_append {before items : List α} (h : Within kind limit (before ++ items)) :
    Within kind limit before := by
  intro k n hn
  have hk := h k n hn
  rw [number_append] at hk
  omega

theorem within_snoc {before : List α} {a : α} :
    Within kind limit (before ++ [a]) ↔ Within kind limit before ∧ Room kind limit before a := by
  constructor
  · intro h
    refine ⟨h.of_append, fun n hn => ?_⟩
    have hk := h (kind a) n hn
    rw [number_append, number_singleton, if_pos rfl] at hk
    exact hk
  · rintro ⟨hbefore, hroom⟩ k n hn
    rw [number_append, number_singleton]
    by_cases hk : kind a = k
    · subst hk
      rw [if_pos rfl]
      exact hroom n hn
    · rw [if_neg hk]
      exact hbefore k n hn

theorem Within.perm {items items' : List α} (h : Within kind limit items) (hperm : items.Perm items') :
    Within kind limit items' := by
  intro k n hn
  have hcount : number kind k items' = number kind k items := (hperm.countP_eq _).symm
  rw [hcount]
  exact h k n hn

/-- At most one item of a kind gives anything to collect, whatever order the items are in. -/
theorem filterMap_eq_of_perm {k : κ} {f : α → Option β} (hf : ∀ a, (f a).isSome = decide (kind a = k))
    (hlimit : limit k = some 1) {items items' : List α} (h : Within kind limit items)
    (hperm : items.Perm items') : items.filterMap f = items'.filterMap f := by
  have hle : (items.filterMap f).length ≤ 1 := by
    rw [← number_eq_length hf]
    exact h k 1 hlimit
  have hpermValues := hperm.filterMap f
  rcases Nat.le_one_iff_eq_zero_or_eq_one.mp hle with hzero | hone
  · rw [List.length_eq_zero_iff] at hzero
    rw [hzero] at hpermValues ⊢
    exact hpermValues.nil_eq
  · obtain ⟨b, hb⟩ := List.length_eq_one_iff.mp hone
    rw [hb] at hpermValues ⊢
    exact List.singleton_perm.mp hpermValues

end Counting

/-! ### Scans -/

section Scans

variable {kind limit} {step : σ → α → Except ε σ} {after : List α → σ}

/-- A list within the limits is scanned to its end. -/
theorem foldlM_within
    (hroom : ∀ before a, Room kind limit before a → step (after before) a = .ok (after (before ++ [a])))
    {before items : List α} (h : Within kind limit (before ++ items)) :
    items.foldlM step (after before) = .ok (after (before ++ items)) := by
  induction items generalizing before with
  | nil =>
    rw [List.append_nil]
    rfl
  | cons a items ih =>
    have hsplit : before ++ a :: items = before ++ [a] ++ items := by simp
    rw [hsplit] at h ⊢
    rw [List.foldlM_cons, hroom before a (within_snoc.mp h.of_append).2]
    exact ih h

/-- A list beyond the limits is left with an error. -/
theorem foldlM_not_within {P : ε → Prop}
    (hroom : ∀ before a, Room kind limit before a → step (after before) a = .ok (after (before ++ [a])))
    (hfull : ∀ before a, ¬Room kind limit before a → ∃ e, step (after before) a = .error e ∧ P e)
    {before items : List α} (hbefore : Within kind limit before)
    (h : ¬Within kind limit (before ++ items)) :
    ∃ e, items.foldlM step (after before) = .error e ∧ P e := by
  induction items generalizing before with
  | nil =>
    rw [List.append_nil] at h
    exact absurd hbefore h
  | cons a items ih =>
    have hsplit : before ++ a :: items = before ++ [a] ++ items := by simp
    rw [hsplit] at h
    rw [List.foldlM_cons]
    by_cases ha : Room kind limit before a
    · rw [hroom before a ha]
      exact ih (within_snoc.mpr ⟨hbefore, ha⟩) h
    · obtain ⟨e, he, hP⟩ := hfull before a ha
      rw [he]
      exact ⟨e, rfl, hP⟩

end Scans

end Quotas
