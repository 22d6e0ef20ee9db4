import MiniSql.Library.DigitOrder
import MiniSql.LexicalGrammar
import MiniSql.ShortRows

/-!
# Comparing integers

`where_value_matches` compares the words `strtoull` makes of two texts, where a minus sign wraps modulo
`2^64`, and falls back to `strcmp` if one of the numbers does not fit into 64 bits.

* `NumberText` is what `strtoull` reads to the end, `NumberLiteral` what the parser takes for a number;
  `textInt` is the integer either of them stands for.
* `codeOrder` is the order the code goes by, and `SameOrder` says when it is the order of the integers.
* `ReturnsExactly`: a SELECT returns the stored rows that satisfy a predicate, and no others.

Main results:

* `parseU64Strict_eq_some`, `toNat_of_parse`: a number text of at most 64 bits is read as its integer modulo
  `2^64`.
* `compare_words`, `strcmp_textOrder`: when words, and texts, stand in the order of the integers.
* `whereValueMatches_iff`: a comparison of two texts is that of the integers for all five operators exactly if
  the orders agree.
* `integer_comparison_exact`: the same for whole tables.  A WHERE clause on the id looks at the words through
  the index, and with a value that does not fit takes the linear path, so the answer is the same.
-/

namespace MiniSql

open Framing DigitOrder

/-! ### Integers in texts -/

/-- The sign and the digits of a text, behind leading blanks. -/
def signAndDigits (text : CString) : Bool × Bytes := splitSign (text.bytes.dropWhile isspace)

/-- The integer a text stands for. -/
def textInt (text : CString) : ℤ :=
  if (signAndDigits text).1 then -(decimalValue (signAndDigits text).2 : ℤ)
  else decimalValue (signAndDigits text).2

/-- A text of blanks, an optional sign and digits, which is what `strtoull` reads to the end. -/
structure NumberText (text : CString) : Prop where
  ne_nil : (signAndDigits text).2 ≠ []
  digits : ∀ c ∈ (signAndDigits text).2, isdigit c = true

/-- A number literal: an optional minus sign and digits. -/
def NumberLiteral (text : CString) : Prop :=
  ∃ digits ≠ [], (∀ c ∈ digits, isdigit c = true) ∧
    (text.bytes = digits ∨ text.bytes = 45 :: digits)

/-- `left op right` for integers. -/
def intMatches (op : WhereOperator) (left right : ℤ) : Bool :=
  match op with
  | .equal => left = right
  | .greater => right < left
  | .greaterEqual => right ≤ left
  | .less => left < right
  | .lessEqual => left ≤ right

/-- The order in which two digit strings stand as texts. -/
def fractionOrder (d e : Bytes) : Ordering :=
  (compare (decimalValue d * 10 ^ e.length) (decimalValue e * 10 ^ d.length)).then
    (compare d.length e.length)

/-- The order of two number texts as texts: digits, or digits behind a minus sign, as fractions, and else
by the first characters. -/
def textOrder (left right : CString) : Ordering :=
  match left.bytes, right.bytes with
  | a :: d, b :: e =>
      if a = 45 ∧ b = 45 then fractionOrder d e
      else if isdigit a ∧ isdigit b then fractionOrder (a :: d) (b :: e)
      else compare a.toNat b.toNat
  | _, _ => .eq

/-- The order `where_value_matches` goes by is the order of the integers: if both fit into 64 bits, they
have one sign or together exceed `2^64`; else the texts stand in that order. -/
def SameOrder (left right : CString) : Prop :=
  if (textInt left).natAbs < 2 ^ 64 ∧ (textInt right).natAbs < 2 ^ 64 then
    (textInt left < 0 ↔ textInt right < 0) ∨
      2 ^ 64 < (textInt left).natAbs + (textInt right).natAbs
  else textOrder left right = compare (textInt left) (textInt right)

instance decidableSameOrder (left right : CString) : Decidable (SameOrder left right) :=
  inferInstanceAs (Decidable (if (textInt left).natAbs < 2 ^ 64 ∧ (textInt right).natAbs < 2 ^ 64 then
    (textInt left < 0 ↔ textInt right < 0) ∨
      2 ^ 64 < (textInt left).natAbs + (textInt right).natAbs
  else textOrder left right = compare (textInt left) (textInt right)))

/-! ### The literals of the tokenizer -/

theorem signAndDigits_digits {text : CString} {digits : Bytes}
    (hd : ∀ c ∈ digits, isdigit c = true) (h : text.bytes = digits) :
    signAndDigits text = (false, digits) := by
  rw [signAndDigits, h]
  exact strtoull_digits hd

theorem signAndDigits_minus {text : CString} {digits : Bytes} (h : text.bytes = 45 :: digits) :
    signAndDigits text = (true, digits) := by
  rw [signAndDigits, h, List.dropWhile_cons_of_neg (by decide)]
  rfl

theorem NumberLiteral.numberText {text : CString} (h : NumberLiteral text) : NumberText text := by
  obtain ⟨digits, hne, hd, htext | htext⟩ := h
  · have hsplit := signAndDigits_digits hd htext
    exact ⟨by rw [hsplit]; exact hne, by rw [hsplit]; exact hd⟩
  · have hsplit := signAndDigits_minus htext
    exact ⟨by rw [hsplit]; exact hne, by rw [hsplit]; exact hd⟩

/-- A number token of a round is a number literal. -/
theorem LexRound.numberLiteral {bytes : Bytes} {next : Option UInt8} {shape : Option Shape}
    (h : LexRound bytes next shape) {lexeme : CString} (hshape : shape = some (.number, lexeme)) :
    NumberLiteral lexeme := by
  cases h with
  | blank _ => cases hshape
  | lineComment _ _ => cases hshape
  | blockComment _ => cases hshape
  | word _ _ _ =>
    have htype := (Prod.mk.inj (Option.some.inj hshape)).1
    exact absurd htype (keywordType_ne (by decide) (by decide) _)
  | @number ch digits _ hch hdigits _ =>
    obtain rfl := (Prod.mk.inj (Option.some.inj hshape)).2
    have hnul : (0 : UInt8) ∉ ch :: digits := by
      intro hmem
      rcases List.mem_cons.mp hmem with rfl | hmem
      · rcases hch with hzero | ⟨hminus, -⟩
        · exact absurd hzero (by decide)
        · exact absurd hminus (by decide)
      · exact ne_zero_of_isdigit (hdigits 0 hmem) rfl
    have hbytes : (CString.ofBuffer (ch :: digits)).bytes = ch :: digits := CString.ofBuffer_bytes hnul
    rcases hch with hdigit | ⟨rfl, hne⟩
    · exact ⟨_, List.cons_ne_nil _ _, List.forall_mem_cons.mpr ⟨hdigit, hdigits⟩, Or.inl hbytes⟩
    · exact ⟨digits, hne, hdigits, Or.inr hbytes⟩
  | string _ => exact absurd (Prod.mk.inj (Option.some.inj hshape)).1 (by decide)
  | symbol htype =>
    have hsymbols : ∀ s ∈ symbolTypes, s.1 ≠ .number := by decide
    exact absurd (Prod.mk.inj (Option.some.inj hshape)).1 (hsymbols _ (symbolType_mem htype))

theorem tokenizeSql_number {source : CString} {tokens : List Token}
    (h : tokenizeSql source = .ok tokens) {t : Token} (ht : t ∈ tokens) (hnumber : t.type = .number) :
    NumberLiteral t.lexeme := by
  obtain ⟨pieces, hpieces, rfl⟩ := (tokenizeFrom_iff (Nat.lt_succ_self _)).mp h
  rcases mem_tokensAt ht with hend | ⟨p, hp, hshape⟩
  · rw [hnumber] at hend
    cases hend
  · obtain ⟨next, hround⟩ := hpieces.round hp
    exact hround.numberLiteral (by rw [hshape, hnumber])

theorem isdigit_other : ∀ c : UInt8, isdigit c = true →
    isspace c = false ∧ c ≠ 45 ∧ c ≠ 47 ∧ isalpha c = false ∧ c ≠ 95 ∧ c ≠ 0xEF := by
  decide +kernel

/-- A number literal is read as one token. -/
theorem NumberLiteral.lexOne {text : CString} (h : NumberLiteral text) (pos : Position) :
    ∃ ch rest, text.bytes = ch :: rest ∧ ch ≠ 0xEF ∧
      MiniSql.lexOne ch rest pos = .ok (lexed .number text.bytes [] pos) := by
  obtain ⟨digits, hne, hd, htext⟩ := h
  have hstop : StopsAt isdigit [] := fun c hc => by cases hc
  rcases htext with htext | htext
  · obtain ⟨c, cs, rfl⟩ := List.exists_cons_of_ne_nil hne
    obtain ⟨hc, hcs⟩ := List.forall_mem_cons.mp hd
    have hmark : c ≠ 0xEF := by
      rintro rfl
      exact absurd hc (by decide)
    have hlex := lexOne_number (Or.inl hc) hcs hstop pos
    rw [List.append_nil] at hlex
    exact ⟨c, cs, htext, hmark, by rw [hlex, htext]⟩
  · have hlex := lexOne_number (Or.inr ⟨rfl, hne⟩) hd hstop pos
    rw [List.append_nil] at hlex
    exact ⟨45, digits, htext, by decide, by rw [hlex, htext]⟩

/-- The number tokens are the number literals. -/
theorem numberLiteral_iff_token (text : CString) :
    NumberLiteral text ↔ ∃ source tokens, tokenizeSql source = .ok tokens ∧
      ∃ t ∈ tokens, t.type = .number ∧ t.lexeme = text := by
  constructor
  · intro h
    refine ⟨text, ?_⟩
    obtain ⟨ch, rest, hbytes, hmark, hlex⟩ := h.lexOne ⟨1, 1⟩
    have hskip : skipByteOrderMark text.bytes = (ch :: rest, ⟨1, 1⟩) := by
      rw [hbytes, skipByteOrderMark]
      rintro rest' heq
      exact hmark (List.cons.inj heq).1
    rw [tokenizeSql, hskip]
    dsimp only
    rw [tokenizeFrom, hlex, lexed]
    dsimp only
    have hend : ∀ n pos, tokenizeFrom n [] pos =
        .ok [⟨.end_, CString.empty, pos.line, pos.column⟩] := by
      intro n pos
      cases n <;> rfl
    rw [hend]
    exact ⟨_, rfl, _, List.mem_cons_self, rfl, CString.ofBuffer_of_bytes text⟩
  · rintro ⟨source, tokens, htokens, t, ht, hnumber, rfl⟩
    exact tokenizeSql_number htokens ht hnumber

/-! ### Words -/

section Words

variable {text : CString}

theorem natAbs_textInt (text : CString) :
    (textInt text).natAbs = decimalValue (signAndDigits text).2 := by
  rw [textInt]
  split
  · rw [Int.natAbs_neg, Int.natAbs_natCast]
  · rw [Int.natAbs_natCast]

/-- `parse_u64_strict` reads the number texts of at most 64 bits, and a minus sign negates the word. -/
theorem parseU64Strict_eq_some {w : UInt64} : parseU64Strict text = some w ↔
    NumberText text ∧ (textInt text).natAbs < 2 ^ 64 ∧
      w = if (signAndDigits text).1 then -UInt64.ofNat (textInt text).natAbs
        else UInt64.ofNat (textInt text).natAbs := by
  have hnumber : NumberText text ↔
      (signAndDigits text).2 ≠ [] ∧ ∀ c ∈ (signAndDigits text).2, isdigit c = true :=
    ⟨fun h => ⟨h.ne_nil, h.digits⟩, fun h => ⟨h.1, h.2⟩⟩
  have hempty : text.bytes = [] → (signAndDigits text).2 = [] := by
    intro h
    rw [signAndDigits, h]
    rfl
  rw [hnumber, natAbs_textInt, parseU64Strict]
  by_cases hbytes : text.bytes = []
  · rw [if_pos hbytes]
    exact ⟨fun h => (by cases h), fun h => absurd (hempty hbytes) h.1.1⟩
  · rw [if_neg hbytes, strtoull,
      show splitSign (text.bytes.dropWhile isspace) = signAndDigits text from rfl]
    obtain ⟨minus, body⟩ := signAndDigits text
    dsimp only
    by_cases hdigits : ∀ c ∈ body, isdigit c = true
    · rw [List.takeWhile_eq_self_iff.mpr hdigits, List.dropWhile_eq_nil_iff.mpr hdigits]
      by_cases hnil : body = []
      · subst hnil
        simp
      · by_cases hlarge : 2 ^ 64 ≤ decimalValue body
        · rw [if_pos (Or.inl (decide_eq_true hlarge))]
          exact ⟨fun h => (by cases h), fun h => absurd h.2.1 (not_lt.mpr hlarge)⟩
        · have hreads : ¬(decide (2 ^ 64 ≤ decimalValue body) = true ∨ ¬(!body.isEmpty) = true ∨
              ([] : Bytes) ≠ []) := by
            rw [decide_eq_true_eq, not_or, not_or]
            exact ⟨hlarge, by simpa using hnil, not_not.mpr rfl⟩
          rw [if_neg hreads, if_neg hlarge, Option.some.injEq]
          exact ⟨fun h => ⟨⟨hnil, hdigits⟩, not_le.mp hlarge, h.symm⟩, fun h => h.2.2.symm⟩
    · have hrest : body.dropWhile isdigit ≠ [] :=
        fun h => hdigits (List.dropWhile_eq_nil_iff.mp h)
      rw [if_pos (Or.inr (Or.inr hrest))]
      exact ⟨fun h => (by cases h), fun h => absurd h.1.2 hdigits⟩

/-- The word of a number text is the integer modulo `2^64`. -/
theorem toNat_of_parse {w : UInt64} (h : parseU64Strict text = some w) :
    (w.toNat : ℤ) = textInt text % 2 ^ 64 := by
  obtain ⟨-, hfits, rfl⟩ := parseU64Strict_eq_some.mp h
  rw [natAbs_textInt] at hfits ⊢
  rw [textInt]
  generalize decimalValue (signAndDigits text).2 = n at hfits
  have hword : (UInt64.ofNat n).toNat = n := by
    rw [UInt64.toNat_ofNat']
    exact Nat.mod_eq_of_lt hfits
  cases (signAndDigits text).1 with
  | true =>
    rw [if_pos rfl, if_pos rfl, UInt64.toNat_neg, hword, show UInt64.size = 2 ^ 64 from rfl]
    omega
  | false =>
    rw [if_neg Bool.false_ne_true, if_neg Bool.false_ne_true, hword]
    omega

theorem parse_large (hlarge : ¬(textInt text).natAbs < 2 ^ 64) : parseU64Strict text = none := by
  cases hparse : parseU64Strict text with
  | none => rfl
  | some w => exact absurd (parseU64Strict_eq_some.mp hparse).2.1 hlarge

theorem NumberText.parse_some (h : NumberText text) (hfits : (textInt text).natAbs < 2 ^ 64) :
    ∃ w, parseU64Strict text = some w := ⟨_, parseU64Strict_eq_some.mpr ⟨h, hfits, rfl⟩⟩

end Words

/-! ### Orders instead of operators -/

/-- What an operator says about two values in this order. -/
def orderMatches (order : Ordering) (op : WhereOperator) : Bool :=
  match op with
  | .equal => order = .eq
  | .greater => order = .gt
  | .greaterEqual => order ≠ .lt
  | .less => order = .lt
  | .lessEqual => order ≠ .gt

/-- The order `where_value_matches` goes by. -/
def codeOrder (left right : CString) : Ordering :=
  match parseU64Strict left, parseU64Strict right with
  | some l, some r => compare l.toNat r.toNat
  | _, _ => compare (strcmp left right) 0

/-- The five operators tell the orders apart. -/
theorem orderMatches_inj {o o' : Ordering} :
    (∀ op, orderMatches o op = orderMatches o' op) ↔ o = o' := by
  refine ⟨fun h => ?_, fun h => h ▸ fun _ => rfl⟩
  have hless := h .less
  have hequal := h .equal
  cases o <;> cases o' <;> first | rfl | exact absurd hless (by decide) | exact absurd hequal (by decide)

theorem intMatches_eq (op : WhereOperator) (x y : ℤ) :
    intMatches op x y = orderMatches (compare x y) op := by
  rcases lt_trichotomy x y with h | rfl | h
  · rw [compare_lt_iff_lt.mpr h]
    cases op <;> simp [intMatches, orderMatches, h, h.le, h.ne, h.not_gt]
  · rw [compare_eq_iff_eq.mpr rfl]
    cases op <;> simp [intMatches, orderMatches]
  · rw [compare_gt_iff_gt.mpr h]
    cases op <;> simp [intMatches, orderMatches, h, h.le, h.ne', h.not_gt]

theorem compareWithOperatorInt_eq (cmp : ℤ) (op : WhereOperator) :
    compareWithOperatorInt cmp op = orderMatches (compare cmp 0) op := by
  rw [← intMatches_eq]
  cases op <;> rfl

theorem whereValueMatches_eq (left right : CString) (op : WhereOperator) :
    whereValueMatches left right op = orderMatches (codeOrder left right) op := by
  rw [whereValueMatches, codeOrder]
  cases parseU64Strict left with
  | none => exact compareWithOperatorInt_eq _ op
  | some l =>
    cases parseU64Strict right with
    | none => exact compareWithOperatorInt_eq _ op
    | some r =>
      dsimp only
      rw [compareWithOperatorInt_eq]
      congr 1
      rcases lt_trichotomy l r with h | rfl | h
      · rw [if_pos h, compare_lt_iff_lt.mpr (UInt64.lt_iff_toNat_lt.mp h)]
        rfl
      · rw [if_neg (lt_irrefl l), if_neg (lt_irrefl l), compare_eq_iff_eq.mpr (rfl : l.toNat = l.toNat)]
        rfl
      · rw [if_neg h.not_gt, if_pos h, compare_gt_iff_gt.mpr (UInt64.lt_iff_toNat_lt.mp h)]
        rfl

/-! ### Words in order -/

/-- Integers of at most 64 bits and their words stand in the same order if they have one sign, or if the
negative one is the smaller word, too. -/
theorem compare_words {x y : ℤ} (hx : x.natAbs < 2 ^ 64) (hy : y.natAbs < 2 ^ 64) :
    compare (x % 2 ^ 64) (y % 2 ^ 64) = compare x y ↔
      (x < 0 ↔ y < 0) ∨ 2 ^ 64 < x.natAbs + y.natAbs := by
  have hword : ∀ z : ℤ, z.natAbs < 2 ^ 64 → z % 2 ^ 64 = if z < 0 then z + 2 ^ 64 else z := by
    intro z hz
    split <;> omega
  rw [hword x hx, hword y hy]
  by_cases hxneg : x < 0
  · by_cases hyneg : y < 0
    · rw [if_pos hxneg, if_pos hyneg]
      refine ⟨fun _ => Or.inl ⟨fun _ => hyneg, fun _ => hxneg⟩, fun _ => ?_⟩
      exact compare_strictMono (fun _ _ h => Int.add_lt_add_right h (2 ^ 64)) x y
    · rw [if_pos hxneg, if_neg hyneg, compare_lt_iff_lt.mpr (show x < y by omega), compare_lt_iff_lt]
      omega
  · by_cases hyneg : y < 0
    · rw [if_neg hxneg, if_pos hyneg, compare_gt_iff_gt.mpr (show y < x by omega), compare_gt_iff_gt]
      omega
    · rw [if_neg hxneg, if_neg hyneg]
      exact ⟨fun _ => Or.inl ⟨fun h => absurd h hxneg, fun h => absurd h hyneg⟩, fun _ => rfl⟩

/-! ### Texts in order -/

/-- `strcmp` compares byte by byte. -/
theorem strcmpBytes_order (s t : Bytes) :
    compare (strcmpBytes s t) 0 = List.compareLex compare (s.map UInt8.toNat) (t.map UInt8.toNat) := by
  induction s generalizing t with
  | nil => cases t <;> rfl
  | cons a s ih =>
    cases t with
    | nil => rfl
    | cons b t =>
      rw [strcmpBytes, List.map_cons, List.map_cons, List.compareLex_cons_cons]
      by_cases hlt : a < b
      · rw [if_pos hlt, compare_lt_iff_lt.mpr (UInt8.lt_iff_toNat_lt.mp hlt)]
        rfl
      · by_cases hgt : b < a
        · rw [if_neg hlt, if_pos hgt, compare_gt_iff_gt.mpr (UInt8.lt_iff_toNat_lt.mp hgt)]
          rfl
        · have heq : a = b := UInt8.le_antisymm (UInt8.not_lt.mp hgt) (UInt8.not_lt.mp hlt)
          rw [if_neg hlt, if_neg hgt, heq, compare_eq_iff_eq.mpr rfl, ih]
          rfl

theorem decimalValue_eq (digits : Bytes) :
    decimalValue digits = value 10 (digits.map fun c => c.toNat - 48) := by
  rw [decimalValue, value, List.foldl_map]

/-- Texts of digits stand in the order of the fractions. -/
theorem strcmpBytes_digits {d e : Bytes} (hd : ∀ c ∈ d, isdigit c = true)
    (he : ∀ c ∈ e, isdigit c = true) : compare (strcmpBytes d e) 0 = fractionOrder d e := by
  have hrange : ∀ c : UInt8, isdigit c = true → 48 + (c.toNat - 48) = c.toNat ∧ c.toNat - 48 < 10 := by
    decide +kernel
  have hbytes : ∀ {l : Bytes}, (∀ c ∈ l, isdigit c = true) →
      l.map UInt8.toNat = (l.map fun c => c.toNat - 48).map fun n => 48 + n := by
    intro l hl
    rw [List.map_map]
    exact List.map_congr_left fun c hc => (hrange c (hl c hc)).1.symm
  have hdigits : ∀ {l : Bytes}, (∀ c ∈ l, isdigit c = true) →
      ∀ n ∈ l.map fun c => c.toNat - 48, n < 10 := by
    intro l hl n hn
    obtain ⟨c, hc, rfl⟩ := List.mem_map.mp hn
    exact (hrange c (hl c hc)).2
  rw [strcmpBytes_order, hbytes hd, hbytes he,
    compareLex_map (fun _ _ h => Nat.add_lt_add_left h 48),
    compareLex_eq_fractionOrder (by norm_num) (hdigits hd) (hdigits he), DigitOrder.fractionOrder,
    fractionOrder, decimalValue_eq, decimalValue_eq, List.length_map, List.length_map]

/-- Texts with different first characters. -/
theorem strcmpBytes_first {a b : UInt8} (hne : a ≠ b) (d e : Bytes) :
    compare (strcmpBytes (a :: d) (b :: e)) 0 = compare a.toNat b.toNat := by
  rw [strcmpBytes_order, List.map_cons, List.map_cons, List.compareLex_cons_cons]
  cases hcmp : compare a.toNat b.toNat with
  | lt => rfl
  | gt => rfl
  | eq => exact absurd (UInt8.toNat_inj.mp (compare_eq_iff_eq.mp hcmp)) hne

/-- What follows the first character of a number text, if it is a digit or a minus sign. -/
theorem NumberText.after_first {text : CString} (h : NumberText text) {a : UInt8} {d : Bytes}
    (htext : text.bytes = a :: d) :
    (isdigit a = true → ∀ c ∈ a :: d, isdigit c = true) ∧
      (a = 45 → ∀ c ∈ d, isdigit c = true) := by
  have hdigits := h.digits
  rw [signAndDigits, htext] at hdigits
  constructor
  · intro ha
    obtain ⟨hspace, hminus, -⟩ := isdigit_other a ha
    have hplus : a ≠ 43 := by
      rintro rfl
      exact absurd ha (by decide)
    rw [List.dropWhile_cons_of_neg (by rw [hspace]; exact Bool.false_ne_true), splitSign] at hdigits
    · exact hdigits
    · exact fun rest heq => hminus (List.cons.inj heq).1
    · exact fun rest heq => hplus (List.cons.inj heq).1
  · rintro rfl
    rw [List.dropWhile_cons_of_neg (by decide)] at hdigits
    exact hdigits

/-- The order of a number text and a literal as texts. -/
theorem strcmp_textOrder {left right : CString} (hl : NumberText left) (hr : NumberLiteral right) :
    compare (strcmp left right) 0 = textOrder left right := by
  obtain ⟨a, d, hleft⟩ : ∃ a d, left.bytes = a :: d := by
    refine List.exists_cons_of_ne_nil fun hnil => hl.ne_nil ?_
    rw [signAndDigits, hnil]
    rfl
  obtain ⟨hdigit, hminus⟩ := hl.after_first hleft
  obtain ⟨e, hene, he, hright | hright⟩ := hr
  · obtain ⟨b, e, rfl⟩ := List.exists_cons_of_ne_nil hene
    obtain ⟨hb, -⟩ := List.forall_mem_cons.mp he
    obtain ⟨-, hb45, -⟩ := isdigit_other b hb
    rw [strcmp, textOrder, hleft, hright]
    dsimp only
    rw [if_neg fun h => hb45 h.2]
    by_cases ha : isdigit a = true
    · rw [if_pos ⟨ha, hb⟩, strcmpBytes_digits (hdigit ha) he]
    · rw [if_neg fun h => ha h.1]
      apply strcmpBytes_first
      rintro rfl
      exact ha hb
  · rw [strcmp, textOrder, hleft, hright]
    dsimp only
    by_cases ha : a = 45
    · subst ha
      rw [if_pos ⟨rfl, rfl⟩, strcmpBytes, if_neg (by decide), if_neg (by decide),
        strcmpBytes_digits (hminus rfl) he]
    · rw [if_neg fun h => ha h.1, if_neg fun h => absurd h.2 (by decide)]
      exact strcmpBytes_first ha d e

/-! ### One comparison -/

theorem codeOrder_iff {left right : CString} (hl : NumberText left) (hr : NumberLiteral right) :
    codeOrder left right = compare (textInt left) (textInt right) ↔ SameOrder left right := by
  have hr' := hr.numberText
  rw [codeOrder, SameOrder]
  by_cases hboth : (textInt left).natAbs < 2 ^ 64 ∧ (textInt right).natAbs < 2 ^ 64
  · obtain ⟨l, hleft⟩ := hl.parse_some hboth.1
    obtain ⟨r, hright⟩ := hr'.parse_some hboth.2
    have hcast : compare (l.toNat : ℤ) (r.toNat : ℤ) = compare l.toNat r.toNat :=
      compare_strictMono Nat.strictMono_cast l.toNat r.toNat
    rw [if_pos hboth, hleft, hright]
    dsimp only
    rw [← hcast, toNat_of_parse hleft, toNat_of_parse hright]
    exact compare_words hboth.1 hboth.2
  · have hnone : parseU64Strict left = none ∨ parseU64Strict right = none := by
      rcases not_and_or.mp hboth with h | h
      · exact Or.inl (parse_large h)
      · exact Or.inr (parse_large h)
    have hcode : (match parseU64Strict left, parseU64Strict right with
        | some l, some r => compare l.toNat r.toNat
        | _, _ => compare (strcmp left right) 0) = compare (strcmp left right) 0 := by
      rcases hnone with h | h
      · rw [h]
      · rw [h]
        cases parseU64Strict left <;> rfl
    rw [if_neg hboth, hcode, strcmp_textOrder hl hr]

/-- The comparison is that of the integers for all five operators exactly if the orders agree. -/
theorem whereValueMatches_iff {left right : CString} (hl : NumberText left)
    (hr : NumberLiteral right) :
    (∀ op, whereValueMatches left right op = intMatches op (textInt left) (textInt right)) ↔
      SameOrder left right := by
  simp only [whereValueMatches_eq, intMatches_eq]
  rw [orderMatches_inj, codeOrder_iff hl hr]

/-! ### Whole tables -/

/-- `SELECT * FROM` the table `WHERE` the id compares with the value. -/
def selectWhereId (name : QualifiedName) (column value : CString) (op : WhereOperator) :
    SelectStatement := ⟨name, true, [], some ⟨column, value, op⟩⟩

/-- The integer in the id column of a row. -/
def idInt (columns : StringList) (row : StringList) : ℤ := textInt (cell columns idName row)

/-- The SELECT succeeds and returns exactly the stored rows that satisfy `p`. -/
def ReturnsExactly (uninit : ℕ → UInt32) (dbRoot : CString) (table : TableDefinition) (s : State)
    (statement : SelectStatement) (p : StringList → Bool) : Prop :=
  ∃ result, (runSelectQuery uninit dbRoot statement s).1 = .ok result ∧
    result.rows.Perm ((storedRows uninit table s).filter p)

section Tables

variable {uninit : ℕ → UInt32} {dbRoot : CString} {table : TableDefinition} {s : State}

theorem CachesBuiltFrom.scanned (h : CachesBuiltFrom uninit table s)
    (hactive : alreadyActive table s.globals = true) :
    findColumnIndex table.columns idName ≠ none ∧
      Scanned uninit table (storedRows uninit table s) (withActive table s) := by
  obtain ⟨b, hloads, hindex, -, hset⟩ := h
  obtain ⟨content, hfile, hclean, hbuilt⟩ := hloads.built
  rw [alreadyActive, Bool.and_eq_true, decide_eq_true_eq] at hactive
  refine ⟨hloads.id_column, hactive.1, content, (scannedRows uninit content).1, hfile, ?_, ?_, ?_⟩
  · rw [← hclean]
  · rw [storedRows, hfile]
  · show CacheModel table.columns _ s.globals.index s.globals.studentNoSet
    rw [hindex, hset]
    exact hbuilt.spec.1

/-- An activation that scans the data file and succeeds loads the table. -/
theorem activateStorageForTable_loaded (hf : NoFail s)
    (hscan : alreadyActive table s.globals = false)
    (hact : (activateStorageForTable uninit table s).1 = none) :
    alreadyActive table (activateStorageForTable uninit table s).2.globals = true ∧
      CachesBuiltFrom uninit table (activateStorageForTable uninit table s).2 := by
  rcases activateStorageForTable_ok hf hact with ⟨hearly, -⟩ | ⟨-, b, files', hloads, heq⟩
  · rw [hscan] at hearly
    cases hearly
  · obtain ⟨content, -, -, hbuilt⟩ := hloads.built
    rw [heq]
    refine ⟨?_, b, hloads, rfl, rfl, rfl⟩
    rw [alreadyActive, Bool.and_eq_true, decide_eq_true_eq]
    exact ⟨rfl, hbuilt.spec.1.ready⟩

/-- A SELECT on the active table. -/
theorem runSelectQuery_active {name : QualifiedName} {statement : SelectStatement}
    (hload : loadTableDefinition dbRoot s.files name = .ok table) (hname : statement.source = name)
    (hactive : alreadyActive table s.globals = true) :
    (runSelectQuery uninit dbRoot statement s).1 =
      selectFromTable uninit table statement (withActive table s) := by
  rw [runSelectQuery, hname, hload]
  dsimp only
  rw [activateStorageForTable, if_pos hactive]
  rfl

/-- The rows of `SELECT *` have one value for every column. -/
theorem selectFromTable_length {statement : SelectStatement} (hall : statement.selectAll = true)
    {result : QueryResult} (h : selectFromTable uninit table statement s = .ok result) :
    ∀ row ∈ result.rows, row.length = table.columns.length := by
  rw [selectFromTable] at h
  split at h
  · cases h
  · cases h
  · rename_i found hfull
    rw [hall, if_pos rfl] at h
    dsimp only at h
    split at h
    · cases h
    · rename_i projected hprojected
      obtain rfl := SelectOutcome.ok.inj h
      intro row hrow
      dsimp only at hrow
      rw [(projectRows_ok hprojected).2] at hrow
      obtain ⟨r, -, rfl⟩ := List.mem_map.mp hrow
      rw [project, List.length_map, List.length_range]

theorem not_onStudentNo {name : QualifiedName} {column value : CString} {op : WhereOperator}
    (hcolumn : sqlStricmp column idName = 0) : ¬OnStudentNo (selectWhereId name column value op) := by
  rintro ⟨w, hw, -, hstudent⟩
  obtain rfl := Option.some.inj hw
  rw [sqlStricmp_eq_zero] at hcolumn hstudent
  exact absurd (hcolumn.symm.trans hstudent) (by decide)

/-- On rows of full width the SELECT returns the rows that match. -/
theorem Scanned.whereId {rows : List StringList} (h : Scanned uninit table rows s)
    (hid : findColumnIndex table.columns idName ≠ none)
    (hwidth : ∀ row ∈ rows, row.length = table.columns.length)
    (hactive : s.globals.activeTable = some table) (name : QualifiedName) {column value : CString}
    (hcolumn : sqlStricmp column idName = 0) (op : WhereOperator) :
    ∃ result, selectFromTable uninit table (selectWhereId name column value op) s = .ok result ∧
      result.rows.Perm (rows.filter fun row =>
        whereValueMatches (cell table.columns idName row) value op) := by
  have hagrees := h.agrees hid hwidth hactive
    (@not_onStudentNo name column value op hcolumn)
  have hnames : NamesExist table.columns (selectWhereId name column value op) := by
    refine ⟨fun hall => (by cases hall), fun w hw => ?_⟩
    obtain rfl := Option.some.inj hw
    apply findColumnIndex_ne_none.mp
    rw [findColumnIndex_congr hcolumn]
    exact hid
  have hmatching : matchingRows table.columns (selectWhereId name column value op) rows =
      rows.filter fun row => whereValueMatches (cell table.columns idName row) value op := by
    rw [matchingRows]
    congr 1
    funext row
    show whereValueMatches (cell table.columns column row) value op = _
    rw [cell, cell, findColumnIndex_congr hcolumn]
  have hproject : ∀ found : List StringList, (∀ row ∈ found, row ∈ rows) →
      found.map (project (selectedPositions table.columns (selectWhereId name column value op))) =
        found := by
    intro found hfound
    have hpositions : selectedPositions table.columns (selectWhereId name column value op) =
        List.range table.columns.length := rfl
    rw [hpositions, List.map_congr_left fun row hrow => project_range (hwidth row (hfound row hrow)), List.map_id']
  obtain ⟨result, hresult⟩ := hagrees.succeeds.mpr hnames
  refine ⟨result, hresult, ?_⟩
  rw [← hmatching]
  by_cases hindex : OnIdIndex (selectWhereId name column value op)
  · obtain ⟨found, hperm, -, hrows⟩ := hagrees.by_id hindex result hresult
    rw [hrows, hproject found fun row hrow => List.mem_of_mem_filter (hperm.mem_iff.mp hrow)]
    exact hperm
  · rw [hagrees.scan hindex result hresult, referenceRows, hmatching,
      hproject _ fun row hrow => List.mem_of_mem_filter hrow]

/-- All five comparisons with a literal return exactly the rows they should, if and only if the rows
have one value for every column and the orders of their ids and the literal agree. -/
theorem whereId_exact {name : QualifiedName} {column value : CString}
    (hload : loadTableDefinition dbRoot s.files name = .ok table)
    (hactive : alreadyActive table s.globals = true) (hbuilt : CachesBuiltFrom uninit table s)
    (hcolumn : sqlStricmp column idName = 0) (hvalue : NumberLiteral value) :
    (∀ op, ReturnsExactly uninit dbRoot table s (selectWhereId name column value op) fun row =>
        intMatches op (idInt table.columns row) (textInt value)) ↔
      ∀ row ∈ storedRows uninit table s, row.length = table.columns.length ∧
        SameOrder (cell table.columns idName row) value := by
  obtain ⟨hid, hscanned⟩ := hbuilt.scanned hactive
  have hnumber : ∀ row ∈ storedRows uninit table s, NumberText (cell table.columns idName row) := by
    intro row hrow
    obtain ⟨id, hrowId⟩ := hscanned.ids row hrow
    rw [idOf] at hrowId
    obtain ⟨i, hcol, hcell⟩ := Option.bind_eq_some_iff.mp hrowId
    obtain ⟨text, htext, hparse⟩ := Option.bind_eq_some_iff.mp hcell
    rw [cell, hcol, Option.getD_some, List.getD_eq_getElem?_getD, htext]
    exact (parseU64Strict_eq_some.mp hparse).1
  have houtcome : ∀ op, (runSelectQuery uninit dbRoot (selectWhereId name column value op) s).1 =
      selectFromTable uninit table (selectWhereId name column value op) (withActive table s) :=
    fun op => runSelectQuery_active hload rfl hactive
  constructor
  · intro h
    have hwidth : ∀ row ∈ storedRows uninit table s, row.length = table.columns.length := by
      intro row hrow
      -- one of the comparisons holds of the row, so it is in a result
      obtain ⟨op, hop⟩ : ∃ op, intMatches op (idInt table.columns row) (textInt value) = true := by
        rcases lt_trichotomy (idInt table.columns row) (textInt value) with hlt | heq | hgt
        · exact ⟨.less, decide_eq_true hlt⟩
        · exact ⟨.equal, decide_eq_true heq⟩
        · exact ⟨.greater, decide_eq_true hgt⟩
      obtain ⟨result, hresult, hperm⟩ := h op
      rw [houtcome] at hresult
      exact selectFromTable_length rfl hresult row
        (hperm.mem_iff.mpr (List.mem_filter.mpr ⟨hrow, hop⟩))
    intro row hrow
    refine ⟨hwidth row hrow, (whereValueMatches_iff (hnumber row hrow) hvalue).mp fun op => ?_⟩
    obtain ⟨result, hresult, hperm⟩ := h op
    obtain ⟨result', hresult', hperm'⟩ := hscanned.whereId hid hwidth rfl name hcolumn op
    rw [houtcome] at hresult
    obtain rfl := SelectOutcome.ok.inj (hresult.symm.trans hresult')
    have hmem := (hperm'.symm.trans hperm).mem_iff (a := row)
    rw [List.mem_filter, List.mem_filter] at hmem
    rw [Bool.eq_iff_iff]
    exact ⟨fun hcode => (hmem.mp ⟨hrow, hcode⟩).2, fun hint => (hmem.mpr ⟨hrow, hint⟩).2⟩
  · intro h op
    obtain ⟨result, hresult, hperm⟩ :=
      hscanned.whereId hid (fun row hrow => (h row hrow).1) rfl name hcolumn op
    refine ⟨result, (houtcome op).trans hresult, hperm.trans ?_⟩
    rw [List.filter_congr fun row hrow =>
      (whereValueMatches_iff (hnumber row hrow) hvalue).mpr (h row hrow).2 op]
    exact List.Perm.refl _

end Tables

/-- **Integer comparisons.**  For number literals the comparison of a WHERE clause is that of the integers,
for all five operators, exactly if the two orders agree; and on every loaded table a WHERE clause on
the id with a literal returns exactly the rows whose id satisfies it, for all five operators, exactly if
the orders agree for the literal and every stored id and the rows have one value for every column. -/
theorem integer_comparison_exact (literal value : CString) (hliteral : NumberLiteral literal)
    (hvalue : NumberLiteral value) :
    ((∀ op, whereValueMatches literal value op = intMatches op (textInt literal) (textInt value)) ↔
      SameOrder literal value) ∧
    ∀ (uninit : ℕ → UInt32) (dbRoot : CString) (name : QualifiedName) (table : TableDefinition)
      (s : State) (column : CString),
      loadTableDefinition dbRoot s.files name = .ok table →
      alreadyActive table s.globals = true → CachesBuiltFrom uninit table s →
      sqlStricmp column idName = 0 →
      ((∀ op, ReturnsExactly uninit dbRoot table s (selectWhereId name column value op) fun row =>
          intMatches op (idInt table.columns row) (textInt value)) ↔
        ∀ row ∈ storedRows uninit table s, row.length = table.columns.length ∧
          SameOrder (cell table.columns idName row) value) := by
  refine ⟨whereValueMatches_iff hliteral.numberText hvalue, ?_⟩
  intro uninit dbRoot name table s column hload hactive hbuilt hcolumn
  exact whereId_exact hload hactive hbuilt hcolumn hvalue

theorem numberLiteral_one : NumberLiteral (lit "1") :=
  ⟨[49], by decide +kernel, by decide +kernel, Or.inl (by decide +kernel)⟩

theorem integer_comparison_exact_two :
    (∀ op, whereValueMatches (lit "007") (lit "1") op =
      intMatches op (textInt (lit "007")) (textInt (lit "1"))) ∧
    ∀ op, ReturnsExactly (fun _ => 0) (lit "db") nameTable (nameState (stream encodeRow descendingRows))
      (selectWhereId ⟨none, lit "t"⟩ idName (lit "1") op) fun row =>
        intMatches op (idInt nameTable.columns row) (textInt (lit "1")) := by
  obtain ⟨hactive, hbuilt⟩ := @activateStorageForTable_loaded (fun _ => 0) nameTable
    (State.fresh (nameFiles (stream encodeRow descendingRows))) rfl (by decide +kernel)
    (by decide +kernel)
  have hseven : NumberLiteral (lit "007") :=
    ⟨[48, 48, 55], by decide +kernel, by decide +kernel, Or.inl (by decide +kernel)⟩
  obtain ⟨hvalues, htables⟩ := integer_comparison_exact (lit "007") (lit "1") hseven numberLiteral_one
  have htable := htables (fun _ => 0) (lit "db") ⟨none, lit "t"⟩ nameTable _ idName
    (by decide +kernel) hactive hbuilt (by decide +kernel)
  exact ⟨hvalues.mpr (by decide +kernel), htable.mpr (by decide +kernel)⟩

/-- `id > -1` holds of the id 1 as integers; the comparison says no, and the SELECT returns no row. -/
theorem negative_literal_misses :
    NumberLiteral (lit "-1") ∧
    intMatches .greater (textInt (lit "1")) (textInt (lit "-1")) = true ∧
    whereValueMatches (lit "1") (lit "-1") .greater = false ∧
    (runSelectQuery (fun _ => 0) (lit "db")
      (selectWhereId ⟨none, lit "t"⟩ idName (lit "-1") .greater)
      (nameState (stream encodeRow descendingRows))).1 = .ok ⟨[lit "id", lit "name"], []⟩ :=
  ⟨⟨[49], by decide +kernel, by decide +kernel, Or.inr (by decide +kernel)⟩, by decide +kernel, by decide +kernel,
    by decide +kernel⟩

end MiniSql
