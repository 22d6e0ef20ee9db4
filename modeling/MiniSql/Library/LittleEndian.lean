import Mathlib

/-!
# Fixed-width little-endian words

The bytes of a number in a file, the least significant one first.

* `leBytes w n` is the `w`-byte image of `n`, truncated the way a narrowing store truncates.
* `leValue bytes` is the number that such an image stands for.

Reading back:

* `leValue_leBytes_of_lt`: a number below `256 ^ w` is read back from its image.
* `leValue_leBytes`: of any other number its remainder modulo `256 ^ w` is read back.
* `leBytes_mod`: and only this remainder counts for the image.
-/

namespace LittleEndian

/-- The `w` low bytes of `n`, least significant first. -/
def leBytes : ℕ → ℕ → List UInt8
  | 0, _ => []
  | w + 1, n => UInt8.ofNat (n % 256) :: leBytes w (n / 256)

/-- The number a little-endian byte list denotes. -/
def leValue : List UInt8 → ℕ
  | [] => 0
  | b :: bs => b.toNat + 256 * leValue bs

@[simp] theorem leBytes_length (w n : ℕ) : (leBytes w n).length = w := by
  induction w generalizing n with
  | zero => rfl
  | succ w ih => simp only [leBytes, List.length_cons, ih]

theorem leValue_leBytes (w n : ℕ) : leValue (leBytes w n) = n % 256 ^ w := by
  induction w generalizing n with
  | zero => simp [leBytes, leValue, Nat.mod_one]
  | succ w ih =>
    have hb : (UInt8.ofNat (n % 256)).toNat = n % 256 := by
      rw [UInt8.toNat_ofNat']
      exact Nat.mod_eq_of_lt (Nat.mod_lt _ (by norm_num))
    rw [leBytes, leValue, ih, hb, pow_succ', Nat.mod_mul]

/-- Reading back a word that fits its width gives the word. -/
theorem leValue_leBytes_of_lt {w n : ℕ} (h : n < 256 ^ w) : leValue (leBytes w n) = n := by
  rw [leValue_leBytes, Nat.mod_eq_of_lt h]

/-- The bytes see a number modulo their width. -/
theorem leBytes_mod (w n : ℕ) : leBytes w (n % 256 ^ w) = leBytes w n := by
  induction w generalizing n with
  | zero => rfl
  | succ w ih =>
    have hhead : n % 256 ^ (w + 1) % 256 = n % 256 := by
      rw [pow_succ', Nat.mod_mul_right_mod]
    have htail : n % 256 ^ (w + 1) / 256 = n / 256 % 256 ^ w := by
      rw [pow_succ', Nat.mod_mul_right_div_self]
    rw [leBytes, leBytes, hhead, htail, ih]

end LittleEndian
