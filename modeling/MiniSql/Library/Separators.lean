import Mathlib

/-!
# Ordered slots and separated children

The one-level vocabulary of a search tree over a linear order `K`.

* `lowerSlot ks k` and `upperSlot ks k` count the keys before the first key `≥ k`, respectively the
  first key `> k`: the two positions a linear search through a sorted node stops at.
* `InRange lo hi k` is `k ∈ [lo, hi)` with `none` for an absent bound, `Inside lo hi k` the open
  interval that a separator of such a range lies in.
* `Separated P lo hi ks cs` says that the separators `ks` cut `[lo, hi)` into one sub-range for each
  child of `cs`, and that every child satisfies `P` on its own sub-range.

The two rules everything else uses are `separated_append_cons` (a separator cuts a node into two) and
`separated_focus` (one child may be exchanged for any separated run over the same sub-range).
-/

namespace Separators

variable {K C : Type*} [LinearOrder K]

/-! ### Slots -/

/-- The number of leading keys below `k`. -/
def lowerSlot (ks : List K) (k : K) : ℕ := (ks.takeWhile (fun x => decide (x < k))).length

/-- The number of leading keys at or below `k`. -/
def upperSlot (ks : List K) (k : K) : ℕ := (ks.takeWhile (fun x => decide (x ≤ k))).length

theorem lowerSlot_le (ks : List K) (k : K) : lowerSlot ks k ≤ ks.length :=
  (List.takeWhile_prefix _).length_le

theorem upperSlot_le (ks : List K) (k : K) : upperSlot ks k ≤ ks.length :=
  (List.takeWhile_prefix _).length_le

omit [LinearOrder K] in
theorem take_slot (p : K → Bool) (ks : List K) :
    ks.take (ks.takeWhile p).length = ks.takeWhile p :=
  (List.prefix_iff_eq_take.mp (List.takeWhile_prefix p)).symm

omit [LinearOrder K] in
theorem drop_slot (p : K → Bool) (ks : List K) :
    ks.drop (ks.takeWhile p).length = ks.dropWhile p := by
  have h := List.take_append_drop (ks.takeWhile p).length ks
  rw [take_slot] at h
  exact List.append_cancel_left (h.trans List.takeWhile_append_dropWhile.symm)

theorem lt_of_mem_take_lowerSlot {ks : List K} {k x : K} (h : x ∈ ks.take (lowerSlot ks k)) :
    x < k := by
  rw [lowerSlot, take_slot] at h
  simpa using List.mem_takeWhile_imp h

theorem le_of_mem_take_upperSlot {ks : List K} {k x : K} (h : x ∈ ks.take (upperSlot ks k)) :
    x ≤ k := by
  rw [upperSlot, take_slot] at h
  simpa using List.mem_takeWhile_imp h

/-- In a sorted list the test that failed once fails on everything after it. -/
theorem not_of_mem_dropWhile {p : K → Bool} (hp : ∀ x y, x < y → p y = true → p x = true)
    {ks : List K} (hs : ks.Pairwise (· < ·)) {x : K} (h : x ∈ ks.dropWhile p) : p x = false := by
  induction ks with
  | nil => simp at h
  | cons a as ih =>
    rw [List.pairwise_cons] at hs
    by_cases ha : p a = true
    · rw [List.dropWhile_cons_of_pos ha] at h
      exact ih hs.2 h
    · rw [List.dropWhile_cons_of_neg ha] at h
      rcases List.mem_cons.mp h with rfl | hx
      · simpa using ha
      · by_contra hcon
        exact ha (hp a x (hs.1 x hx) (by simpa using hcon))

theorem le_of_mem_drop_lowerSlot {ks : List K} {k x : K} (hs : ks.Pairwise (· < ·))
    (h : x ∈ ks.drop (lowerSlot ks k)) : k ≤ x := by
  rw [lowerSlot, drop_slot] at h
  have := not_of_mem_dropWhile
    (fun x y hxy hy => by simpa using lt_trans hxy (by simpa using hy)) hs h
  simpa using this

theorem lt_of_mem_drop_upperSlot {ks : List K} {k x : K} (hs : ks.Pairwise (· < ·))
    (h : x ∈ ks.drop (upperSlot ks k)) : k < x := by
  rw [upperSlot, drop_slot] at h
  have := not_of_mem_dropWhile
    (fun x y hxy hy => by simpa using le_trans hxy.le (by simpa using hy)) hs h
  simpa using this

/-- A linear search for a key that is there stops at it. -/
theorem getElem?_lowerSlot_of_mem {ks : List K} {k : K} (hs : ks.Pairwise (· < ·)) (h : k ∈ ks) :
    ks[lowerSlot ks k]? = some k := by
  induction ks with
  | nil => simp at h
  | cons x xs ih =>
    rw [List.pairwise_cons] at hs
    rcases List.mem_cons.mp h with rfl | hk
    · simp [lowerSlot]
    · have hx : x < k := hs.1 k hk
      have hslot : lowerSlot (x :: xs) k = lowerSlot xs k + 1 := by
        simp [lowerSlot, hx]
      rw [hslot, List.getElem?_cons_succ]
      exact ih hs.2 hk

/-! ### Ranges -/

/-- `k` lies in `[lo, hi)`, where `none` is an absent bound. -/
def InRange (lo hi : Option K) (k : K) : Prop := (∀ a ∈ lo, a ≤ k) ∧ (∀ b ∈ hi, k < b)

/-- `k` lies strictly between the bounds. -/
def Inside (lo hi : Option K) (k : K) : Prop := (∀ a ∈ lo, a < k) ∧ (∀ b ∈ hi, k < b)

@[simp] theorem inRange_none (k : K) : InRange none none k := by simp [InRange]

theorem Inside.inRange {lo hi : Option K} {k : K} (h : Inside lo hi k) : InRange lo hi k :=
  ⟨fun a ha => (h.1 a ha).le, h.2⟩

theorem inRange_of_left {lo hi : Option K} {s k : K} (hs : Inside lo hi s)
    (hk : InRange lo (some s) k) : InRange lo hi k :=
  ⟨hk.1, fun b hb => (hk.2 s rfl).trans (hs.2 b hb)⟩

theorem inRange_of_right {lo hi : Option K} {s k : K} (hs : Inside lo hi s)
    (hk : InRange (some s) hi k) : InRange lo hi k :=
  ⟨fun a ha => (hs.1 a ha).le.trans (hk.1 s rfl), hk.2⟩

/-! ### Separated children -/

/-- The separators `ks` cut `[lo, hi)` into consecutive sub-ranges, one for each child of `cs`. -/
def Separated (P : Option K → Option K → C → Prop) :
    Option K → Option K → List K → List C → Prop
  | lo, hi, [], [c] => P lo hi c
  | lo, hi, k :: ks, c :: cs =>
      Inside lo hi k ∧ P lo (some k) c ∧ Separated P (some k) hi ks cs
  | _, _, _, _ => False

variable {P : Option K → Option K → C → Prop}

@[simp] theorem separated_nil_singleton {lo hi : Option K} {c : C} :
    Separated P lo hi [] [c] ↔ P lo hi c := Iff.rfl

@[simp] theorem separated_cons_cons {lo hi : Option K} {k : K} {ks : List K} {c : C}
    {cs : List C} : Separated P lo hi (k :: ks) (c :: cs) ↔
      Inside lo hi k ∧ P lo (some k) c ∧ Separated P (some k) hi ks cs := by
  cases ks <;> cases cs <;> simp [Separated]

@[simp] theorem not_separated_nil {lo hi : Option K} {ks : List K} :
    ¬ Separated P lo hi ks ([] : List C) := by
  cases ks <;> simp [Separated]

theorem Separated.length_eq {lo hi : Option K} {ks : List K} {cs : List C}
    (h : Separated P lo hi ks cs) : cs.length = ks.length + 1 := by
  induction ks generalizing lo cs with
  | nil =>
    match cs, h with
    | [c], _ => rfl
  | cons k ks ih =>
    cases cs with
    | nil => simp at h
    | cons c cs =>
      rw [separated_cons_cons] at h
      simp [ih h.2.2]

theorem Separated.inside {lo hi : Option K} {ks : List K} {cs : List C}
    (h : Separated P lo hi ks cs) : ∀ k ∈ ks, Inside lo hi k := by
  induction ks generalizing lo cs with
  | nil => simp
  | cons s ks ih =>
    cases cs with
    | nil => simp at h
    | cons c cs =>
      rw [separated_cons_cons] at h
      intro k hk
      rcases List.mem_cons.mp hk with rfl | hk
      · exact h.1
      · have hin := ih h.2.2 k hk
        exact ⟨fun a ha => (h.1.1 a ha).trans (hin.1 s rfl), hin.2⟩

/-- Separators are strictly increasing. -/
theorem Separated.sorted {lo hi : Option K} {ks : List K} {cs : List C}
    (h : Separated P lo hi ks cs) : ks.Pairwise (· < ·) := by
  induction ks generalizing lo cs with
  | nil => exact List.Pairwise.nil
  | cons s ks ih =>
    cases cs with
    | nil => simp at h
    | cons c cs =>
      rw [separated_cons_cons] at h
      exact List.pairwise_cons.mpr ⟨fun k hk => (h.2.2.inside k hk).1 s rfl, ih h.2.2⟩

/-- **Cutting at a separator.**  A separated run splits at any of its separators, and two runs that
meet at a separator join. -/
theorem separated_append_cons {lo hi : Option K} {ks₁ ks₂ : List K} {k : K} {cs₁ cs₂ : List C}
    (hlen : cs₁.length = ks₁.length + 1) :
    Separated P lo hi (ks₁ ++ k :: ks₂) (cs₁ ++ cs₂) ↔
      Inside lo hi k ∧ Separated P lo (some k) ks₁ cs₁ ∧ Separated P (some k) hi ks₂ cs₂ := by
  induction ks₁ generalizing lo cs₁ with
  | nil =>
    obtain ⟨c, rfl⟩ := List.length_eq_one_iff.mp hlen
    simp
  | cons s ss ih =>
    cases cs₁ with
    | nil => simp at hlen
    | cons c cs =>
      have hlen' : cs.length = ss.length + 1 := by simpa using hlen
      simp only [List.cons_append, separated_cons_cons, ih hlen']
      constructor
      · rintro ⟨hs, hc, hk, hl, hr⟩
        have hsk : s < k := hk.1 s rfl
        exact ⟨⟨fun a ha => (hs.1 a ha).trans hsk, hk.2⟩,
          ⟨⟨hs.1, by simpa using hsk⟩, hc, hl⟩, hr⟩
      · rintro ⟨hk, ⟨hs, hc, hl⟩, hr⟩
        have hsk : s < k := hs.2 k rfl
        exact ⟨⟨hs.1, fun b hb => hsk.trans (hk.2 b hb)⟩, hc, ⟨by simpa using hsk, hk.2⟩, hl, hr⟩

/-- Exchanging the first child for a separated run over its sub-range. -/
theorem separated_replace_head {lo hi : Option K} {ks seps : List K} {c : C} {cs ts : List C}
    (h : Separated P lo hi ks (c :: cs))
    (ht : Separated P lo (ks.head?.or hi) seps ts) :
    Separated P lo hi (seps ++ ks) (ts ++ cs) := by
  cases ks with
  | nil =>
    cases cs with
    | nil => simpa using ht
    | cons c' cs => simpa using h.length_eq
  | cons k ks =>
    rw [separated_cons_cons] at h
    have ht' : Separated P lo (some k) seps ts := by simpa using ht
    exact (separated_append_cons ht'.length_eq).mpr ⟨h.1, ht', h.2.2⟩

theorem separated_head {lo hi : Option K} {ks : List K} {c : C} {cs : List C}
    (h : Separated P lo hi ks (c :: cs)) : P lo (ks.head?.or hi) c := by
  cases ks with
  | nil =>
    cases cs with
    | nil => simpa using h
    | cons c' cs => simpa using h.length_eq
  | cons k ks =>
    rw [separated_cons_cons] at h
    simpa using h.2.1

/-- **Focusing on one child.**  The child after `ks₁` satisfies `P` between the separators next to
it, and may be exchanged for any separated run over that sub-range. -/
theorem separated_focus {lo hi : Option K} {ks₁ ks₂ : List K} {cs₁ cs₂ : List C} {c : C}
    (hlen : cs₁.length = ks₁.length)
    (h : Separated P lo hi (ks₁ ++ ks₂) (cs₁ ++ c :: cs₂)) :
    P (ks₁.getLast?.or lo) (ks₂.head?.or hi) c ∧
      ∀ seps ts, Separated P (ks₁.getLast?.or lo) (ks₂.head?.or hi) seps ts →
        Separated P lo hi (ks₁ ++ (seps ++ ks₂)) (cs₁ ++ (ts ++ cs₂)) := by
  rcases List.eq_nil_or_concat' ks₁ with rfl | ⟨ks, k, rfl⟩
  · obtain rfl : cs₁ = [] := by simpa using hlen
    simp only [List.nil_append] at h ⊢
    exact ⟨by simpa using separated_head h,
      fun seps ts ht => separated_replace_head h (by simpa using ht)⟩
  · have hlen' : cs₁.length = ks.length + 1 := by simpa using hlen
    have h' : Separated P lo hi (ks ++ k :: ks₂) (cs₁ ++ c :: cs₂) := by simpa using h
    obtain ⟨hk, hl, hr⟩ := (separated_append_cons hlen').mp h'
    have hlast : (ks ++ [k]).getLast?.or lo = some k := by simp
    rw [hlast]
    refine ⟨separated_head hr, fun seps ts ht => ?_⟩
    have hjoin := (separated_append_cons (P := P) hlen').mpr
      ⟨hk, hl, separated_replace_head hr ht⟩
    simpa using hjoin

theorem Separated.child {lo hi : Option K} {ks : List K} {cs : List C} {c : C}
    (h : Separated P lo hi ks cs) (hc : c ∈ cs) : ∃ lo' hi', P lo' hi' c := by
  obtain ⟨A, B, rfl⟩ := List.append_of_mem hc
  have hlen := h.length_eq
  rw [List.length_append, List.length_cons] at hlen
  have htake : A.length = (ks.take A.length).length := by
    rw [List.length_take]
    omega
  rw [← List.take_append_drop A.length ks] at h
  exact ⟨_, _, (separated_focus htake h).1⟩

/-- A separated run stays separated when the upper bound moves up. -/
theorem Separated.widen {lo hi hi' : Option K} {ks : List K} {cs : List C}
    (h : Separated P lo hi ks cs) (hP : ∀ lo c, P lo hi c → P lo hi' c)
    (hle : ∀ b ∈ hi', ∃ a ∈ hi, a ≤ b) : Separated P lo hi' ks cs := by
  induction ks generalizing lo cs with
  | nil =>
    match cs, h with
    | [c], h => exact hP lo c h
  | cons k ks ih =>
    cases cs with
    | nil => simp at h
    | cons c cs =>
      rw [separated_cons_cons] at h ⊢
      refine ⟨⟨h.1.1, fun b hb => ?_⟩, h.2.1, ih h.2.2⟩
      obtain ⟨a, ha, hab⟩ := hle b hb
      exact (h.1.2 a ha).trans_le hab

/-- The child a search for `k` goes to, between the children before it and those after it. -/
theorem Separated.exists_child {lo hi : Option K} {ks : List K} {cs : List C}
    (h : Separated P lo hi ks cs) (k : K) :
    ∃ c, cs[upperSlot ks k]? = some c ∧
      cs = cs.take (upperSlot ks k) ++ c :: cs.drop (upperSlot ks k + 1) ∧
      (cs.take (upperSlot ks k)).length = (ks.take (upperSlot ks k)).length ∧
      Separated P lo hi (ks.take (upperSlot ks k) ++ ks.drop (upperSlot ks k))
        (cs.take (upperSlot ks k) ++ c :: cs.drop (upperSlot ks k + 1)) := by
  have hi := upperSlot_le ks k
  have hlen := h.length_eq
  have hlt : upperSlot ks k < cs.length := by omega
  have hcs : cs = cs.take (upperSlot ks k) ++
      cs[upperSlot ks k] :: cs.drop (upperSlot ks k + 1) := by
    rw [List.getElem_cons_drop, List.take_append_drop]
  refine ⟨cs[upperSlot ks k], List.getElem?_eq_getElem hlt, hcs, ?_, ?_⟩
  · rw [List.length_take, List.length_take]
    omega
  · rw [List.take_append_drop, ← hcs]
    exact h

/-- The sub-range next to the slot of `k` contains `k`. -/
theorem inRange_focus {lo hi : Option K} {ks₁ ks₂ : List K} {k : K} (hk : InRange lo hi k)
    (h₁ : ∀ s ∈ ks₁, s ≤ k) (h₂ : ∀ s ∈ ks₂, k < s) :
    InRange (ks₁.getLast?.or lo) (ks₂.head?.or hi) k := by
  constructor
  · intro a ha
    cases hl : ks₁.getLast? with
    | none =>
      rw [hl, Option.none_or] at ha
      exact hk.1 a ha
    | some s =>
      rw [hl, Option.some_or] at ha
      obtain rfl : s = a := Option.some.inj ha
      exact h₁ s (List.mem_of_getLast? hl)
  · intro b hb
    cases hh : ks₂.head? with
    | none =>
      rw [hh, Option.none_or] at hb
      exact hk.2 b hb
    | some s =>
      rw [hh, Option.some_or] at hb
      obtain rfl : s = b := Option.some.inj hb
      exact h₂ s (List.mem_of_mem_head? hh)

/-! ### What the children hold -/

section Contents

variable {f : C → List K} (hf : ∀ lo hi c, P lo hi c → ∀ x ∈ f c, InRange lo hi x)
include hf

/-- Everything the children hold lies in the range they share. -/
theorem Separated.inRange {lo hi : Option K} {ks : List K} {cs : List C}
    (h : Separated P lo hi ks cs) : ∀ x ∈ cs.flatMap f, InRange lo hi x := by
  induction ks generalizing lo cs with
  | nil =>
    match cs, h with
    | [c], h => simpa using hf lo hi c h
  | cons s ks ih =>
    cases cs with
    | nil => simp at h
    | cons c cs =>
      rw [separated_cons_cons] at h
      intro x hx
      rw [List.flatMap_cons, List.mem_append] at hx
      rcases hx with hx | hx
      · exact inRange_of_left h.1 (hf _ _ _ h.2.1 x hx)
      · exact inRange_of_right h.1 (ih h.2.2 x hx)

/-- If every child holds an increasing list, so do the children together. -/
theorem Separated.flatMap_sorted {lo hi : Option K} {ks : List K} {cs : List C}
    (h : Separated P lo hi ks cs) (hs : ∀ lo hi c, c ∈ cs → P lo hi c → (f c).Pairwise (· < ·)) :
    (cs.flatMap f).Pairwise (· < ·) := by
  induction ks generalizing lo cs with
  | nil =>
    match cs, h with
    | [c], h => simpa using hs lo hi c (by simp) h
  | cons s ks ih =>
    cases cs with
    | nil => simp at h
    | cons c cs =>
      rw [separated_cons_cons] at h
      rw [List.flatMap_cons, List.pairwise_append]
      refine ⟨hs _ _ c (by simp) h.2.1,
        ih h.2.2 (fun lo hi c' hc' => hs lo hi c' (by simp [hc'])), fun x hx y hy => ?_⟩
      exact ((hf _ _ _ h.2.1 x hx).2 s rfl).trans_le ((h.2.2.inRange hf y hy).1 s rfl)

/-- Children before the slot of `k` hold only keys below `k`. -/
theorem Separated.lt_of_before {lo hi : Option K} {ks₁ ks₂ : List K} {cs₁ cs₂ : List C} {k : K}
    (hlen : cs₁.length = ks₁.length) (h : Separated P lo hi (ks₁ ++ ks₂) (cs₁ ++ cs₂))
    (h₁ : ∀ s ∈ ks₁, s ≤ k) : ∀ x ∈ cs₁.flatMap f, x < k := by
  rcases List.eq_nil_or_concat' ks₁ with rfl | ⟨ks, s, rfl⟩
  · obtain rfl : cs₁ = [] := by simpa using hlen
    simp
  · have h' : Separated P lo hi (ks ++ s :: ks₂) (cs₁ ++ cs₂) := by simpa using h
    obtain ⟨-, hl, -⟩ := (separated_append_cons (by simpa using hlen)).mp h'
    intro x hx
    exact ((hl.inRange hf x hx).2 s rfl).trans_le (h₁ s (by simp))

/-- Children after the slot of `k` hold only keys above `k`. -/
theorem Separated.gt_of_after {lo hi : Option K} {ks₁ ks₂ : List K} {cs₁ cs₂ : List C} {c : C}
    {k : K} (hlen : cs₁.length = ks₁.length)
    (h : Separated P lo hi (ks₁ ++ ks₂) (cs₁ ++ c :: cs₂))
    (h₂ : ∀ s ∈ ks₂, k < s) : ∀ x ∈ cs₂.flatMap f, k < x := by
  cases ks₂ with
  | nil =>
    have hl := h.length_eq
    obtain rfl : cs₂ = [] := by
      simp only [List.length_append, List.length_cons, hlen, List.append_nil] at hl
      exact List.length_eq_zero_iff.mp (by omega)
    simp
  | cons s ks₂ =>
    have h' : Separated P lo hi (ks₁ ++ s :: ks₂) ((cs₁ ++ [c]) ++ cs₂) := by simpa using h
    obtain ⟨-, -, hr⟩ := (separated_append_cons (by simpa using hlen)).mp h'
    intro x hx
    exact (h₂ s (by simp)).trans_le ((hr.inRange hf x hx).1 s rfl)

/-- A key the children hold is held by the child a search for it goes to. -/
theorem Separated.mem_child {lo hi : Option K} {ks₁ ks₂ : List K} {cs₁ cs₂ : List C} {c : C}
    {k : K} (h : Separated P lo hi (ks₁ ++ ks₂) (cs₁ ++ c :: cs₂))
    (hlen : cs₁.length = ks₁.length) (h₁ : ∀ s ∈ ks₁, s ≤ k) (h₂ : ∀ s ∈ ks₂, k < s)
    (hk : k ∈ (cs₁ ++ c :: cs₂).flatMap f) : k ∈ f c := by
  rw [List.flatMap_append, List.flatMap_cons, List.mem_append, List.mem_append] at hk
  rcases hk with hk | hk | hk
  · exact absurd (h.lt_of_before hf hlen h₁ k hk) (lt_irrefl k)
  · exact hk
  · exact absurd (h.gt_of_after hf hlen h₂ k hk) (lt_irrefl k)

end Contents

end Separators
