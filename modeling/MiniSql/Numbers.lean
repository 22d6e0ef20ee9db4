import MiniSql.Common

/-!
# Numbers in texts

Texts as numbers, and the comparisons of a WHERE clause.

* `strtoull` with base 10 in the C locale skips leading blanks and accepts a sign; a value above `2^64 - 1` is
  reported through `errno`, and a minus sign negates modulo `2^64`.
* `parseU64Strict` is `parse_u64_strict` on top of it: the whole text has to be a number.  So `"-1"` is a text
  of `2^64 - 1`.
* `decimalText` is the `%llu` conversion, `intBytes` the `%d` conversion of the positions in error texts.
* `whereValueMatches` compares as numbers if both sides are texts of numbers, else as byte strings;
  `idMatches` is the comparison of numbers alone.

Main results:

* `parseU64Strict_decimalText`: `parse_u64_strict` reads back what `%llu` printed, so a generated id is found
  again in the file.
* `strtoull_digits`: a text of digits is read as the number it shows.
-/

namespace MiniSql

/-- The value of a run of decimal digits. -/
def decimalValue (digits : Bytes) : ℕ := digits.foldl (fun n c => n * 10 + (c.toNat - 48)) 0

/-- What `strtoull` leaves behind: the value, `*end`, whether `end` moved, and `errno = ERANGE`. -/
structure StrtoullResult where
  value : UInt64
  rest : Bytes
  converted : Bool
  erange : Bool
  deriving DecidableEq

/-- An optional sign: whether it is a minus, and what follows it. -/
def splitSign : Bytes → Bool × Bytes
  | 45 :: rest => (true, rest)
  | 43 :: rest => (false, rest)
  | s => (false, s)

def strtoull (text : Bytes) : StrtoullResult :=
  let (minus, body) := splitSign (text.dropWhile isspace)
  let digits := body.takeWhile isdigit
  let n := decimalValue digits
  { value := if 2 ^ 64 ≤ n then UInt64.ofNat (2 ^ 64 - 1)
      else if minus then -UInt64.ofNat n else UInt64.ofNat n
    rest := body.dropWhile isdigit
    converted := !digits.isEmpty
    erange := decide (2 ^ 64 ≤ n) }

def parseU64Strict (text : CString) : Option UInt64 :=
  if text.bytes = [] then none
  else
    let parsed := strtoull text.bytes
    if parsed.erange ∨ ¬parsed.converted ∨ parsed.rest ≠ [] then none else some parsed.value

/-- `snprintf("%llu")`. -/
def decimalBytes (n : ℕ) : Bytes :=
  if n = 0 then [48] else (Nat.digits 10 n).reverse.map fun d => UInt8.ofNat (48 + d)

/-! ### Printing and parsing back -/

theorem isdigit_digit {d : ℕ} (hd : d < 10) : isdigit (UInt8.ofNat (48 + d)) = true := by
  interval_cases d <;> decide

theorem decimalBytes_digits (n : ℕ) : ∀ c ∈ decimalBytes n, isdigit c = true := by
  intro c hc
  rw [decimalBytes] at hc
  split at hc
  · obtain rfl := List.mem_singleton.mp hc
    decide
  · obtain ⟨d, hd, rfl⟩ := List.mem_map.mp hc
    exact isdigit_digit (Nat.digits_lt_base (by omega) (List.mem_reverse.mp hd))

theorem decimalBytes_ne_nil (n : ℕ) : decimalBytes n ≠ [] := by
  rw [decimalBytes]
  split
  · simp
  · rename_i hn
    simpa [Nat.digits_eq_nil_iff_eq_zero] using hn

/-- The minus sign of the `%d` conversion. -/
def signBytes (n : ℤ) : Bytes := if n < 0 then [45] else []

/-- The `%d` conversion. -/
def intBytes (n : ℤ) : Bytes := signBytes n ++ decimalBytes n.natAbs

theorem signBytes_cases (n : ℤ) : signBytes n = [] ∨ signBytes n = [45] := by
  rw [signBytes]
  split
  · exact Or.inr rfl
  · exact Or.inl rfl

theorem intBytes_digits (n : ℤ) : ∀ c ∈ intBytes n, c = 45 ∨ isdigit c = true := by
  intro c hc
  rcases List.mem_append.mp hc with hsign | hdigit
  · rcases signBytes_cases n with hnil | hminus
    · rw [hnil] at hsign
      cases hsign
    · rw [hminus] at hsign
      exact Or.inl (List.mem_singleton.mp hsign)
  · exact Or.inr (decimalBytes_digits _ c hdigit)

theorem ne_zero_of_isdigit {c : UInt8} (hc : isdigit c = true) : c ≠ 0 := by
  rintro rfl
  exact absurd hc (by decide)

/-- The decimal text of an id. -/
def decimalText (id : UInt64) : CString where
  bytes := decimalBytes id.toNat
  nul_free := fun h => ne_zero_of_isdigit (decimalBytes_digits _ 0 h) rfl

/-- A text of digits has no blank or sign in front. -/
theorem strtoull_digits {digits : Bytes} (hd : ∀ c ∈ digits, isdigit c = true) :
    (splitSign (digits.dropWhile isspace)) = (false, digits) := by
  cases digits with
  | nil => rfl
  | cons c cs =>
    have hc := hd c List.mem_cons_self
    have hspace : isspace c = false := by
      simp only [isdigit, isspace, Bool.and_eq_true, decide_eq_true_eq, Bool.or_eq_false_iff,
        decide_eq_false_iff_not, Bool.and_eq_false_iff, UInt8.le_iff_toNat_le,
        ← UInt8.toNat_inj] at hc ⊢
      have h48 : (48 : UInt8).toNat = 48 := rfl
      have h32 : (32 : UInt8).toNat = 32 := rfl
      have h13 : (13 : UInt8).toNat = 13 := rfl
      omega
    rw [List.dropWhile_cons_of_neg (by rw [hspace]; decide)]
    rw [splitSign]
    · intro rest heq
      obtain rfl := (List.cons.inj heq).1
      exact absurd hc (by decide)
    · intro rest heq
      obtain rfl := (List.cons.inj heq).1
      exact absurd hc (by decide)

theorem decimalValue_digits {ds : List ℕ} (hds : ∀ d ∈ ds, d < 10) :
    decimalValue (ds.reverse.map fun d => UInt8.ofNat (48 + d)) = Nat.ofDigits 10 ds := by
  induction ds with
  | nil => rfl
  | cons d ds ih =>
    have hd := hds d List.mem_cons_self
    have hbyte : (UInt8.ofNat (48 + d)).toNat = 48 + d := by
      interval_cases d <;> rfl
    have ih' := ih fun x hx => hds x (List.mem_cons_of_mem d hx)
    rw [decimalValue] at ih' ⊢
    rw [List.reverse_cons, List.map_append, List.foldl_append, ih']
    simp only [List.map_cons, List.map_nil, List.foldl_cons, List.foldl_nil, hbyte]
    rw [Nat.ofDigits_cons]
    omega

theorem decimalValue_decimalBytes (n : ℕ) : decimalValue (decimalBytes n) = n := by
  rw [decimalBytes]
  split
  · rename_i hn
    rw [hn]
    decide
  · rw [decimalValue_digits fun d hd => Nat.digits_lt_base (by omega) hd]
    exact Nat.ofDigits_digits 10 n

/-- `parse_u64_strict` reads back what `%llu` printed. -/
@[simp] theorem parseU64Strict_decimalText (id : UInt64) :
    parseU64Strict (decimalText id) = some id := by
  have hdigits := decimalBytes_digits id.toNat
  have hne := decimalBytes_ne_nil id.toNat
  have hlt := UInt64.toNat_lt id
  have htake : (decimalBytes id.toNat).takeWhile isdigit = decimalBytes id.toNat :=
    List.takeWhile_eq_self_iff.mpr hdigits
  have hdrop : (decimalBytes id.toNat).dropWhile isdigit = [] :=
    List.dropWhile_eq_nil_iff.mpr hdigits
  have hparsed : strtoull (decimalBytes id.toNat) = ⟨id, [], true, false⟩ := by
    rw [strtoull, strtoull_digits hdigits]
    dsimp only
    rw [htake, hdrop, decimalValue_decimalBytes, if_neg (by omega)]
    simp [hne]
    omega
  rw [parseU64Strict, decimalText, if_neg hne]
  dsimp only
  rw [hparsed]
  simp

/-! ### WHERE comparisons -/

/-- `WhereOperator`. -/
inductive WhereOperator where
  | equal
  | greater
  | greaterEqual
  | less
  | lessEqual
  deriving DecidableEq, Repr

def compareWithOperatorInt (cmp : ℤ) : WhereOperator → Bool
  | .equal => cmp = 0
  | .greater => 0 < cmp
  | .greaterEqual => 0 ≤ cmp
  | .less => cmp < 0
  | .lessEqual => cmp ≤ 0

/-- `where_value_matches`: as numbers if both sides are texts of numbers, else as byte strings. -/
def whereValueMatches (lhs rhs : CString) (op : WhereOperator) : Bool :=
  match parseU64Strict lhs, parseU64Strict rhs with
  | some left, some right =>
      compareWithOperatorInt (if left < right then -1 else if right < left then 1 else 0) op
  | _, _ => compareWithOperatorInt (strcmp lhs rhs) op

/-- The comparison of two ids that a WHERE clause on numbers stands for. -/
def idMatches (op : WhereOperator) (left right : UInt64) : Bool :=
  match op with
  | .equal => left = right
  | .greater => right < left
  | .greaterEqual => right ≤ left
  | .less => left < right
  | .lessEqual => left ≤ right

theorem whereValueMatches_of_numbers {lhs rhs : CString} {left right : UInt64}
    (hl : parseU64Strict lhs = some left) (hr : parseU64Strict rhs = some right)
    (op : WhereOperator) : whereValueMatches lhs rhs op = idMatches op left right := by
  rw [whereValueMatches, hl, hr]
  dsimp only
  rcases lt_trichotomy left right with h | h | h
  · have h1 := h.le
    have h2 := h.not_ge
    have h3 := h.ne
    cases op <;> simp [compareWithOperatorInt, idMatches, h, h1, h2, h3, h.not_gt]
  · subst h
    cases op <;> simp [compareWithOperatorInt, idMatches]
  · have h1 := h.le
    have h2 := h.not_ge
    have h3 := h.ne'
    cases op <;> simp [compareWithOperatorInt, idMatches, h, h1, h2, h3, h.not_gt]

end MiniSql
