import Mathlib

/-!
# Open addressing with linear probing

A table is a list of slots; the entry `b` is looked for from slot `home b` on, one slot at a time and
cyclically, up to the first slot that is empty or holds what is looked for.

* `probe` is that loop, with the way to the next slot and the stop test as parameters.
* `Table home slots` is its invariant: there is a free slot, and every stored entry is reached from
  its home slot through slots that hold other entries.
* `Table.probe_present`, `Table.probe_absent`, `Table.set` are the three rules a hash set is built
  from.  In particular every probe ends within one round.
-/

namespace ProbeTable

variable {B : Type}

/-- The content of a slot; a slot outside the table counts as empty. -/
def slotAt (slots : List (Option B)) (i : ℕ) : Option B := slots[i]?.join

/-- The entries of the table. -/
def stored (slots : List (Option B)) : List B := slots.filterMap id

/-- The probe loop: the slot it stops at and its content; `none` if it does not stop within `fuel`
steps. -/
def probe (slots : List (Option B)) (next : ℕ → ℕ) (stop : B → Bool) : ℕ → ℕ → Option (ℕ × Option B)
  | 0, _ => none
  | fuel + 1, i =>
      match slotAt slots i with
      | none => some (i, none)
      | some b => if stop b then some (i, some b) else probe slots next stop fuel (next i)

theorem mem_stored {slots : List (Option B)} {b : B} :
    b ∈ stored slots ↔ ∃ i, slotAt slots i = some b := by
  rw [stored, List.mem_filterMap]
  constructor
  · rintro ⟨x, hx, rfl⟩
    obtain ⟨i, hi⟩ := List.mem_iff_getElem?.mp hx
    exact ⟨i, by rw [slotAt, hi]; rfl⟩
  · rintro ⟨i, hi⟩
    exact ⟨some b, List.mem_of_getElem? (Option.join_eq_some_iff.mp hi), rfl⟩

/-- Fewer entries than slots means a free slot. -/
theorem exists_free {slots : List (Option B)} (h : (stored slots).length < slots.length) :
    ∃ i, i < slots.length ∧ slotAt slots i = none := by
  by_contra hcon
  have hall : ∀ x ∈ slots, x.isSome = true := by
    intro x hx
    obtain ⟨i, hi, rfl⟩ := List.getElem_of_mem hx
    cases hslot : slots[i] with
    | some b => rfl
    | none =>
      refine absurd ⟨i, hi, ?_⟩ hcon
      rw [slotAt, List.getElem?_eq_getElem hi, hslot]
      rfl
  have hlen : (stored slots).length = slots.length := by
    rw [stored, List.length_filterMap_eq_countP]
    exact List.countP_eq_length.mpr hall
  omega

/-! ### Where a probe stops -/

section Probe

variable {slots : List (Option B)} {next : ℕ → ℕ} {stop : B → Bool}

theorem probe_eq (hnext : ∀ i < slots.length, next i = (i + 1) % slots.length)
    (hpos : 0 < slots.length) {fuel s k : ℕ} (hk : k < fuel)
    (hpass : ∀ j < k, ∃ c, slotAt slots ((s + j) % slots.length) = some c ∧ stop c = false)
    (hstop : ∀ c, slotAt slots ((s + k) % slots.length) = some c → stop c = true) :
    probe slots next stop fuel (s % slots.length) =
      some ((s + k) % slots.length, slotAt slots ((s + k) % slots.length)) := by
  induction k generalizing s fuel with
  | zero =>
    obtain ⟨fuel, rfl⟩ : ∃ f, fuel = f + 1 := ⟨fuel - 1, by omega⟩
    rw [Nat.add_zero] at hstop ⊢
    rw [probe]
    cases hslot : slotAt slots (s % slots.length) with
    | none => rfl
    | some c => exact if_pos (hstop c hslot)
  | succ k ih =>
    obtain ⟨fuel, rfl⟩ : ∃ f, fuel = f + 1 := ⟨fuel - 1, by omega⟩
    obtain ⟨c, hc, hcs⟩ := hpass 0 (by omega)
    rw [Nat.add_zero] at hc
    have hshift : ∀ j, s + 1 + j = s + (j + 1) := fun j => by omega
    have hrest := ih (s := s + 1) (show k < fuel by omega)
      (fun j hj => by rw [hshift]; exact hpass (j + 1) (by omega))
      (by rw [hshift]; exact hstop)
    rw [probe, hc]
    dsimp only
    rw [if_neg (by rw [hcs]; decide), hnext _ (Nat.mod_lt _ hpos), Nat.mod_add_mod, hrest, hshift]

/-- Every slot lies at some offset below the table size. -/
theorem exists_offset {n : ℕ} (s : ℕ) {i : ℕ} (hi : i < n) : ∃ k, k < n ∧ (s + k) % n = i := by
  have hn : 0 < n := by omega
  have hs := Nat.mod_lt s hn
  by_cases hle : s % n ≤ i
  · refine ⟨i - s % n, by omega, ?_⟩
    rw [← Nat.mod_add_mod]
    have heq : s % n + (i - s % n) = i := by omega
    rw [heq]
    exact Nat.mod_eq_of_lt hi
  · refine ⟨n - (s % n - i), by omega, ?_⟩
    rw [← Nat.mod_add_mod]
    have heq : s % n + (n - (s % n - i)) = i + n := by omega
    rw [heq, Nat.add_mod_right]
    exact Nat.mod_eq_of_lt hi

/-- A probe for something that is not stored ends at the first free slot. -/
theorem probe_free (hnext : ∀ i < slots.length, next i = (i + 1) % slots.length)
    (hfree : (stored slots).length < slots.length) (s : ℕ)
    (hstop : ∀ c ∈ stored slots, stop c = false) :
    ∃ k, k < slots.length ∧ slotAt slots ((s + k) % slots.length) = none ∧
      (∀ j < k, ∃ c, slotAt slots ((s + j) % slots.length) = some c) ∧
      probe slots next stop slots.length (s % slots.length) =
        some ((s + k) % slots.length, none) := by
  obtain ⟨i, hi, hnone⟩ := exists_free hfree
  obtain ⟨k₀, hk₀, hoff⟩ := exists_offset s hi
  have hex : ∃ k, slotAt slots ((s + k) % slots.length) = none := ⟨k₀, by rw [hoff]; exact hnone⟩
  classical
  have hk := Nat.find_spec hex
  have hmin : ∀ j < Nat.find hex, ∃ c, slotAt slots ((s + j) % slots.length) = some c :=
    fun j hj => Option.ne_none_iff_exists'.mp (Nat.find_min hex hj)
  have hlt : Nat.find hex < slots.length :=
    lt_of_le_of_lt (Nat.find_min' hex (by rw [hoff]; exact hnone)) hk₀
  refine ⟨Nat.find hex, hlt, hk, hmin, ?_⟩
  have hpass : ∀ j < Nat.find hex,
      ∃ c, slotAt slots ((s + j) % slots.length) = some c ∧ stop c = false := by
    intro j hj
    obtain ⟨c, hc⟩ := hmin j hj
    exact ⟨c, hc, hstop c (mem_stored.mpr ⟨_, hc⟩)⟩
  rw [probe_eq hnext (by omega) hlt hpass (fun c hc => by rw [hk] at hc; exact absurd hc (by simp)),
    hk]

end Probe

/-! ### The invariant -/

/-- A table with a free slot in which every entry is found from its home slot. -/
structure Table (home : B → ℕ) (slots : List (Option B)) : Prop where
  free : (stored slots).length < slots.length
  reach : ∀ i b, slotAt slots i = some b → ∃ k, k < slots.length ∧
    i = (home b + k) % slots.length ∧
    ∀ j < k, ∃ c, slotAt slots ((home b + j) % slots.length) = some c ∧ c ≠ b

theorem Table.replicate (home : B → ℕ) {n : ℕ} (hn : 0 < n) :
    Table home (List.replicate n (none : Option B)) where
  free := by
    simp only [stored, List.filterMap_replicate_of_none (f := id) rfl, List.length_nil,
      List.length_replicate]
    exact hn
  reach := by
    intro i b h
    rw [slotAt, List.getElem?_replicate] at h
    split at h <;> simp at h

theorem Table.probe_present {home : B → ℕ} {slots : List (Option B)} (ht : Table home slots)
    {next : ℕ → ℕ} (hnext : ∀ i < slots.length, next i = (i + 1) % slots.length)
    {stop : B → Bool} {b : B} (hb : b ∈ stored slots) (hstop : ∀ c, stop c = true ↔ c = b) :
    ∃ i, probe slots next stop slots.length (home b % slots.length) = some (i, some b) := by
  obtain ⟨i, hi⟩ := mem_stored.mp hb
  obtain ⟨k, hk, rfl, hpass⟩ := ht.reach i b hi
  have hpass' : ∀ j < k, ∃ c, slotAt slots ((home b + j) % slots.length) = some c ∧
      stop c = false := by
    intro j hj
    obtain ⟨c, hc, hne⟩ := hpass j hj
    exact ⟨c, hc, Bool.eq_false_iff.mpr fun h => hne ((hstop c).mp h)⟩
  have hlast : ∀ c, slotAt slots ((home b + k) % slots.length) = some c → stop c = true := by
    intro c hc
    rw [hi] at hc
    exact (hstop c).mpr (Option.some.inj hc).symm
  exact ⟨_, by rw [probe_eq hnext (by omega) hk hpass' hlast, hi]⟩

/-- Filling a slot: the other slots keep their content. -/
theorem slotAt_set {slots : List (Option B)} {i j : ℕ} {b : B} (hi : i < slots.length) :
    slotAt (slots.set i (some b)) j = if i = j then some b else slotAt slots j := by
  rw [slotAt, List.getElem?_set]
  by_cases hij : i = j
  · subst hij
    simp [hi]
  · rw [if_neg hij, if_neg hij, slotAt]

theorem stored_set {slots : List (Option B)} {i : ℕ} (hi : i < slots.length)
    (hnone : slotAt slots i = none) (b : B) :
    (stored (slots.set i (some b))).Perm (b :: stored slots) := by
  have hslot : slots[i] = none := by
    rw [slotAt, List.getElem?_eq_getElem hi] at hnone
    exact hnone
  have hsplit : slots = slots.take i ++ none :: slots.drop (i + 1) := by
    rw [← hslot, List.getElem_cons_drop, List.take_append_drop]
  have hset : slots.set i (some b) = slots.take i ++ some b :: slots.drop (i + 1) :=
    List.set_eq_take_append_cons_drop.trans (if_pos hi)
  rw [hset]
  conv_rhs => rw [hsplit]
  simp only [stored, List.filterMap_append, List.filterMap_cons, id]
  exact List.perm_middle

/-- Putting an absent entry into the free slot its probe ends at keeps the invariant. -/
theorem Table.set {home : B → ℕ} {slots : List (Option B)} (ht : Table home slots) {b : B} {k : ℕ}
    (hroom : (stored slots).length + 1 < slots.length) (hb : b ∉ stored slots)
    (hk : k < slots.length) (hnone : slotAt slots ((home b + k) % slots.length) = none)
    (hpass : ∀ j < k, ∃ c, slotAt slots ((home b + j) % slots.length) = some c) :
    Table home (slots.set ((home b + k) % slots.length) (some b)) := by
  have hpos : 0 < slots.length := by omega
  have hlt := Nat.mod_lt (home b + k) hpos
  -- an occupied slot is not the one filled now
  have hkeep : ∀ {j c}, slotAt slots j = some c →
      slotAt (slots.set ((home b + k) % slots.length) (some b)) j = some c := by
    intro j c hj
    have hne : (home b + k) % slots.length ≠ j := by
      rintro rfl
      rw [hnone] at hj
      exact absurd hj (by simp)
    rw [slotAt_set hlt, if_neg hne, hj]
  constructor
  · rw [(stored_set hlt hnone b).length_eq, List.length_set, List.length_cons]
    exact hroom
  · intro i x hx
    rw [List.length_set]
    rw [slotAt_set hlt] at hx
    by_cases hi : (home b + k) % slots.length = i
    · rw [if_pos hi] at hx
      obtain rfl := Option.some.inj hx
      refine ⟨k, hk, hi.symm, fun j hj => ?_⟩
      obtain ⟨c, hc⟩ := hpass j hj
      refine ⟨c, hkeep hc, ?_⟩
      rintro rfl
      exact hb (mem_stored.mpr ⟨_, hc⟩)
    · rw [if_neg hi] at hx
      obtain ⟨m, hm, heq, hmpass⟩ := ht.reach i x hx
      refine ⟨m, hm, heq, fun j hj => ?_⟩
      obtain ⟨c, hc, hne⟩ := hmpass j hj
      exact ⟨c, hkeep hc, hne⟩

end ProbeTable
