import Mathlib

/-!
# The order of digit strings

Digits to a base, most significant first.

* `value base digits` is the number they stand for, `fractionOrder` the order of the fractions behind the
  point.
* `compareLex_eq_fractionOrder`: comparing two strings digit by digit, as texts, compares them as fractions,
  and a string with a string it begins by their lengths.

So texts of numbers stand in the order of the numbers only where the order of the fractions is the same.
`compareLex_map` carries the comparison over to the characters that show the digits, if these have the order
of the digits.
-/

namespace DigitOrder

/-- The number a digit string denotes. -/
def value (b : ℕ) (digits : List ℕ) : ℕ := digits.foldl (fun n d => n * b + d) 0

/-- The order of `0.d` and `0.e`; of two that are the same number the shorter string comes first. -/
def fractionOrder (b : ℕ) (d e : List ℕ) : Ordering :=
  (compare (value b d * b ^ e.length) (value b e * b ^ d.length)).then (compare d.length e.length)

variable {b : ℕ}

theorem foldl_value (digits : List ℕ) (n : ℕ) :
    digits.foldl (fun n d => n * b + d) n = n * b ^ digits.length + value b digits := by
  induction digits generalizing n with
  | nil => simp [value]
  | cons d ds ih =>
    rw [value, List.foldl_cons, List.foldl_cons, ih, ih (0 * b + d), List.length_cons, pow_succ']
    ring

@[simp] theorem value_nil : value b [] = 0 := rfl

theorem value_cons (d : ℕ) (ds : List ℕ) :
    value b (d :: ds) = d * b ^ ds.length + value b ds := by
  rw [value, List.foldl_cons, foldl_value, Nat.zero_mul, Nat.zero_add]

theorem value_lt {digits : List ℕ} (h : ∀ d ∈ digits, d < b) : value b digits < b ^ digits.length := by
  induction digits with
  | nil => simp
  | cons d ds ih =>
    obtain ⟨hd, hds⟩ := List.forall_mem_cons.mp h
    have hrest := ih hds
    have hle : (d + 1) * b ^ ds.length ≤ b * b ^ ds.length := Nat.mul_le_mul_right _ hd
    rw [value_cons, List.length_cons, pow_succ']
    rw [Nat.add_mul, Nat.one_mul] at hle
    omega

theorem compare_strictMono {A B : Type*} [LinearOrder A] [LinearOrder B] {f : A → B}
    (hf : StrictMono f) (x y : A) : compare (f x) (f y) = compare x y := by
  rw [← cmp_eq_compare, ← cmp_eq_compare, hf.cmp_map_eq]

/-- The lexicographic order does not change under a strictly increasing change of the letters. -/
theorem compareLex_map {A B : Type*} [LinearOrder A] [LinearOrder B] {f : A → B} (hf : StrictMono f)
    (l l' : List A) :
    List.compareLex compare (l.map f) (l'.map f) = List.compareLex compare l l' := by
  induction l generalizing l' with
  | nil => cases l' <;> rfl
  | cons x l ih =>
    cases l' with
    | nil => rfl
    | cons y l' =>
      rw [List.map_cons, List.map_cons, List.compareLex_cons_cons, List.compareLex_cons_cons,
        compare_strictMono hf, ih]

/-- The leading parts decide if they differ. -/
theorem compare_leading {P m n : ℕ} (hm : m < P) (hn : n < P) (x y : ℕ) :
    compare (x * P + m) (y * P + n) = (compare x y).then (compare m n) := by
  have hstep : ∀ {u v k l : ℕ}, u < v → k < P → u * P + k < v * P + l := by
    intro u v k l huv hk
    have hle : (u + 1) * P ≤ v * P := Nat.mul_le_mul_right P huv
    rw [Nat.add_mul, Nat.one_mul] at hle
    omega
  rcases lt_trichotomy x y with h | rfl | h
  · rw [compare_lt_iff_lt.mpr h, compare_lt_iff_lt.mpr (hstep h hm)]
    rfl
  · rw [compare_eq_iff_eq.mpr (rfl : x = x)]
    exact compare_strictMono (fun _ _ h => Nat.add_lt_add_left h (x * P)) m n
  · rw [compare_gt_iff_gt.mpr h, compare_gt_iff_gt.mpr (hstep h hn)]
    rfl

/-- First digits decide if they differ. -/
theorem fractionOrder_cons {x y : ℕ} {d e : List ℕ} (hd : ∀ a ∈ d, a < b) (he : ∀ a ∈ e, a < b)
    (hb : 0 < b) :
    fractionOrder b (x :: d) (y :: e) = (compare x y).then (fractionOrder b d e) := by
  have hm := Nat.mul_lt_mul_of_pos_right (value_lt hd) (Nat.pow_pos (n := e.length) hb)
  have hn := Nat.mul_lt_mul_of_pos_right (value_lt he) (Nat.pow_pos (n := d.length) hb)
  rw [Nat.mul_comm (b ^ e.length)] at hn
  have hleft : value b (x :: d) * b ^ (y :: e).length =
      b * (x * (b ^ d.length * b ^ e.length) + value b d * b ^ e.length) := by
    rw [value_cons, List.length_cons, pow_succ']
    ring
  have hright : value b (y :: e) * b ^ (x :: d).length =
      b * (y * (b ^ d.length * b ^ e.length) + value b e * b ^ d.length) := by
    rw [value_cons, List.length_cons, pow_succ']
    ring
  have hscale : StrictMono fun n => b * n := fun _ _ h => Nat.mul_lt_mul_of_pos_left h hb
  rw [fractionOrder, fractionOrder, hleft, hright, compare_strictMono hscale, compare_leading hm hn,
    List.length_cons, List.length_cons, compare_strictMono (fun _ _ h => Nat.succ_lt_succ h),
    Ordering.then_assoc]

/-- **Texts of digits.**  The lexicographic order of digit strings is the order of the fractions. -/
theorem compareLex_eq_fractionOrder (hb : 0 < b) {d e : List ℕ} (hd : ∀ a ∈ d, a < b)
    (he : ∀ a ∈ e, a < b) : List.compareLex compare d e = fractionOrder b d e := by
  induction d generalizing e with
  | nil =>
    cases e with
    | nil => rfl
    | cons y e =>
      rw [List.compareLex_nil_cons, fractionOrder, value_nil, Nat.zero_mul, List.length_nil,
        pow_zero, Nat.mul_one, List.length_cons, compare_lt_iff_lt.mpr e.length.succ_pos]
      rcases Nat.eq_zero_or_pos (value b (y :: e)) with hzero | hpos
      · rw [hzero]
        rfl
      · rw [compare_lt_iff_lt.mpr hpos]
        rfl
  | cons x d ih =>
    cases e with
    | nil =>
      rw [List.compareLex_cons_nil, fractionOrder, value_nil, Nat.zero_mul, List.length_nil,
        pow_zero, Nat.mul_one, List.length_cons, compare_gt_iff_gt.mpr d.length.succ_pos]
      rcases Nat.eq_zero_or_pos (value b (x :: d)) with hzero | hpos
      · rw [hzero]
        rfl
      · rw [compare_gt_iff_gt.mpr hpos]
        rfl
    | cons y e =>
      obtain ⟨-, hd'⟩ := List.forall_mem_cons.mp hd
      obtain ⟨-, he'⟩ := List.forall_mem_cons.mp he
      rw [List.compareLex_cons_cons, fractionOrder_cons hd' he' hb, ih hd' he']

end DigitOrder
