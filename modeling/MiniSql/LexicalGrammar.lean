import MiniSql.Tokens

/-!
# The lexical grammar

What `tokenize_sql` takes a source text for.

* `LexRound` lists what one round of its loop can consume, without positions: a blank, a comment, a word, a
  number, a string or a symbol, each with what may stand behind it.
* `Lexes` says that a text is made of such pieces, and `tokensAt` are the tokens of the pieces from a position
  on.
* `Position.after` moves a position over a piece as the loop counts, which in a string literal counts neither
  the opening quote nor a newline.

Main results:

* `lexOne_iff`: the loop consumes the bytes of a round, and there is only one way to do so
  (`LexRound.unique`).
* `tokenizeFrom_iff`: a text is accepted exactly if it is made of such pieces, in one way only
  (`Lexes.unique`), and its tokens are those of the pieces.
* `LexesBefore.append`, `LexesBefore.split`: texts with a newline between them can be joined and split again.
-/

namespace MiniSql

/-! ### Bytes -/

/-- What holds of the 256 bytes one by one holds of every byte. -/
theorem forall_byte {P : UInt8 → Prop} (h : ∀ n : Fin 256, P (UInt8.ofFin n)) (c : UInt8) : P c :=
  h c.toFin

theorem isIdentifierByte_cases {c : UInt8} (h : isIdentifierByte c = true) :
    isspace c = false ∧ c ≠ 39 ∧ c ≠ 45 ∧ c ≠ 47 ∧ c ≠ 61 := by
  have hall : ∀ c : UInt8, isIdentifierByte c = true →
      isspace c = false ∧ c ≠ 39 ∧ c ≠ 45 ∧ c ≠ 47 ∧ c ≠ 61 := forall_byte (by decide +kernel)
  exact hall c h

theorem isdigit_cases {c : UInt8} (h : isdigit c = true) :
    isIdentifierByte c = true ∧ isalpha c = false ∧ c ≠ 95 := by
  have hall : ∀ c : UInt8, isdigit c = true →
      isIdentifierByte c = true ∧ isalpha c = false ∧ c ≠ 95 := forall_byte (by decide +kernel)
  exact hall c h

/-- The first byte of a word. -/
theorem wordStart_cases {c : UInt8} (h : isalpha c = true ∨ c = 95) :
    isIdentifierByte c = true ∧ c < 128 := by
  have hall : ∀ c : UInt8, (isalpha c = true ∨ c = 95) →
      isIdentifierByte c = true ∧ c < 128 := forall_byte (by decide +kernel)
  exact hall c h

/-- The rest of a text does not go on with a byte of this kind. -/
def StopsAt (p : UInt8 → Bool) (rest : Bytes) : Prop := ∀ c ∈ rest.head?, p c = false

theorem span_stopsAt {p : UInt8 → Bool} {word rest : Bytes} (hword : ∀ c ∈ word, p c = true)
    (hrest : StopsAt p rest) :
    (word ++ rest).takeWhile p = word ∧ (word ++ rest).dropWhile p = rest := by
  rw [List.takeWhile_append_of_pos hword, List.dropWhile_append_of_pos hword]
  cases rest with
  | nil => exact ⟨by rw [List.takeWhile_nil, List.append_nil], rfl⟩
  | cons c rest =>
    have hc : ¬p c = true := by
      rw [hrest c rfl]
      decide
    exact ⟨by rw [List.takeWhile_cons_of_neg hc, List.append_nil], List.dropWhile_cons_of_neg hc⟩

/-- Where a run of bytes of a kind ends. -/
theorem dropWhile_stopsAt (p : UInt8 → Bool) (source : Bytes) : StopsAt p (source.dropWhile p) := by
  intro c hc
  have hnot := List.head?_dropWhile_not p source
  rw [Option.mem_def.mp hc] at hnot
  exact hnot

/-! ### Comments and strings -/

/-- The loop over a block comment ends behind the first `*/`. -/
theorem skipBlockComment_iff {source rest : Bytes} {pos pos' : Position} :
    skipBlockComment source pos = some (rest, pos') ↔
      ∃ text, source = text ++ 42 :: 47 :: rest ∧ ¬[42, 47] <:+: text ∧
        pos' = (text.foldl Position.next pos).advance 2 := by
  induction source generalizing pos with
  | nil => simp [skipBlockComment]
  | cons ch source ih =>
    rw [skipBlockComment]
    by_cases hend : ch = 42 ∧ source.head? = some 47
    · rw [if_pos hend]
      obtain ⟨rfl, hhead⟩ := hend
      obtain ⟨tail, rfl⟩ := List.head?_eq_some_iff.mp hhead
      constructor
      · intro h
        obtain ⟨rfl, rfl⟩ := Prod.mk.inj (Option.some.inj h)
        exact ⟨[], rfl, by simp, rfl⟩
      · rintro ⟨text, heq, hclosed, rfl⟩
        cases text with
        | nil =>
          obtain rfl := (List.cons.inj (List.cons.inj heq).2).2
          rfl
        | cons c text =>
          obtain ⟨rfl, htail⟩ := List.cons.inj heq
          cases text with
          | nil => exact absurd (List.cons.inj htail).1 (by decide)
          | cons c text =>
            have hc : 47 = c := (List.cons.inj htail).1
            subst hc
            exact absurd ⟨[], text, rfl⟩ hclosed
    · rw [if_neg hend, ih]
      constructor
      · rintro ⟨text, rfl, hclosed, rfl⟩
        refine ⟨ch :: text, rfl, fun hin => ?_, rfl⟩
        rcases List.infix_cons_iff.mp hin with ⟨t, ht⟩ | hin
        · obtain ⟨rfl, rfl⟩ := List.cons.inj ht
          exact hend ⟨rfl, rfl⟩
        · exact hclosed hin
      · rintro ⟨text, heq, hclosed, rfl⟩
        cases text with
        | nil =>
          obtain ⟨rfl, rfl⟩ := List.cons.inj heq
          exact absurd ⟨rfl, rfl⟩ hend
        | cons c text =>
          obtain ⟨rfl, rfl⟩ := List.cons.inj heq
          exact ⟨text, rfl, fun hin => hclosed (hin.trans (List.suffix_cons ch text).isInfix), rfl⟩

/-- A quote in a value is written twice. -/
def quoteByte (c : UInt8) : Bytes := if c = 39 then [39, 39] else [c]

/-- A value between quotes is read up to the closing quote, which no quote may follow. -/
theorem readStringFrom_quoted (text : Bytes) {rest : Bytes} (hrest : ∀ c ∈ rest.head?, c ≠ 39)
    (column : ℕ) : readStringFrom (text.flatMap quoteByte ++ 39 :: rest) column =
      some (text, rest, column + (text.flatMap quoteByte).length) := by
  induction text generalizing column with
  | nil =>
    cases rest with
    | nil => rfl
    | cons c rest =>
      rw [List.flatMap_nil, List.nil_append, readStringFrom.eq_def]
      dsimp only
      rw [if_pos rfl, if_neg (hrest c rfl)]
      rfl
  | cons ch text ih =>
    rw [List.flatMap_cons, List.append_assoc, List.length_append, quoteByte]
    by_cases hch : ch = 39
    · rw [if_pos hch]
      show readStringFrom (39 :: 39 :: (text.flatMap quoteByte ++ 39 :: rest)) column = _
      rw [readStringFrom.eq_def]
      dsimp only
      rw [if_pos rfl, if_pos rfl, ih, hch, ← Nat.add_assoc]
      rfl
    · rw [if_neg hch]
      show readStringFrom (ch :: (text.flatMap quoteByte ++ 39 :: rest)) column = _
      rw [readStringFrom.eq_def]
      dsimp only
      rw [if_neg hch, ih, ← Nat.add_assoc]
      rfl

theorem readStringFrom_iff {source text rest : Bytes} {column column' : ℕ} :
    readStringFrom source column = some (text, rest, column') ↔
      source = text.flatMap quoteByte ++ 39 :: rest ∧ (∀ c ∈ rest.head?, c ≠ 39) ∧
        column' = column + (text.flatMap quoteByte).length := by
  constructor
  · intro h
    induction source, column using readStringFrom.induct generalizing text with
    | case1 column => cases h
    | case2 column =>
      have hread : (([], [], column) : Bytes × Bytes × ℕ) = (text, rest, column') := Option.some.inj h
      obtain ⟨rfl, hback⟩ := Prod.mk.inj hread
      obtain ⟨rfl, rfl⟩ := Prod.mk.inj hback
      exact ⟨rfl, fun c hc => (by cases hc), rfl⟩
    | case3 column tail ih =>
      obtain ⟨⟨text', rest', column''⟩, hr, heq⟩ := Option.map_eq_some_iff.mp h
      obtain ⟨rfl, hback⟩ := Prod.mk.inj heq
      obtain ⟨rfl, rfl⟩ := Prod.mk.inj hback
      obtain ⟨rfl, hrest, rfl⟩ := ih hr
      refine ⟨rfl, hrest, ?_⟩
      rw [List.flatMap_cons, List.length_append]
      show column + 2 + (text'.flatMap quoteByte).length =
        column + (2 + (text'.flatMap quoteByte).length)
      omega
    | case4 column next tail hnext =>
      rw [readStringFrom.eq_def] at h
      dsimp only at h
      rw [if_pos rfl, if_neg hnext] at h
      obtain ⟨rfl, hback⟩ := Prod.mk.inj (Option.some.inj h)
      obtain ⟨rfl, rfl⟩ := Prod.mk.inj hback
      refine ⟨rfl, fun c hc => ?_, rfl⟩
      obtain rfl := Option.some.inj hc
      exact hnext
    | case5 ch tail column hch ih =>
      rw [readStringFrom.eq_def] at h
      dsimp only at h
      rw [if_neg hch] at h
      obtain ⟨⟨text', rest', column''⟩, hr, heq⟩ := Option.map_eq_some_iff.mp h
      obtain ⟨rfl, hback⟩ := Prod.mk.inj heq
      obtain ⟨rfl, rfl⟩ := Prod.mk.inj hback
      obtain ⟨rfl, hrest, rfl⟩ := ih hr
      have hquote : quoteByte ch = [ch] := if_neg hch
      have hlength : column + 1 + (text'.flatMap quoteByte).length =
          column + ((ch :: text').flatMap quoteByte).length := by
        rw [List.flatMap_cons, hquote, List.length_append]
        show column + 1 + (text'.flatMap quoteByte).length =
          column + (1 + (text'.flatMap quoteByte).length)
        omega
      refine ⟨?_, hrest, hlength⟩
      show _ = (ch :: text').flatMap quoteByte ++ 39 :: rest'
      rw [List.flatMap_cons, hquote]
      rfl
  · rintro ⟨rfl, hrest, rfl⟩
    exact readStringFrom_quoted text hrest column

/-! ### Positions -/

theorem Position.advance_advance (pos : Position) (m n : ℕ) :
    (pos.advance m).advance n = pos.advance (m + n) := by
  rw [advance, advance, advance, Nat.add_assoc]

theorem Position.next_of_ne {c : UInt8} (h : c ≠ 10) (pos : Position) : pos.next c = pos.advance 1 :=
  if_neg h

/-- Bytes without a newline move a position along its line. -/
theorem foldl_next_of_not_mem {bytes : Bytes} (h : (10 : UInt8) ∉ bytes) (pos : Position) :
    bytes.foldl Position.next pos = pos.advance bytes.length := by
  induction bytes generalizing pos with
  | nil => rfl
  | cons c bytes ih =>
    rw [List.mem_cons, not_or] at h
    rw [List.foldl_cons, Position.next_of_ne (Ne.symm h.1), ih h.2, Position.advance_advance,
      List.length_cons, Nat.add_comm]

/-- The position behind the bytes of a round, as the loop counts: in a string literal neither the
opening quote nor a newline counts. -/
def Position.after (pos : Position) (bytes : Bytes) : Position :=
  if bytes.head? = some 39 then pos.advance (bytes.length - 1) else bytes.foldl Position.next pos

theorem after_word {ch : UInt8} {tail : Bytes} (hch : ch ≠ 39) (h : (10 : UInt8) ∉ ch :: tail)
    (pos : Position) : pos.after (ch :: tail) = pos.advance (ch :: tail).length := by
  rw [Position.after, if_neg (by simpa using hch), foldl_next_of_not_mem h]

/-! ### Rounds -/

/-- The type and the text of a token. -/
abbrev Shape := TokenType × CString

/-- The token of a shape at a position. -/
def Position.token (pos : Position) (shape : Shape) : Token :=
  ⟨shape.1, shape.2, pos.line, pos.column⟩

/-- The bytes one round of the loop consumes, the byte behind them, and the token it appends. -/
inductive LexRound : Bytes → Option UInt8 → Option Shape → Prop
  | blank {c : UInt8} {next : Option UInt8} : isspace c = true → LexRound [c] next none
  | lineComment {text : Bytes} {next : Option UInt8} : (10 : UInt8) ∉ text → (∀ c ∈ next, c = 10) →
      LexRound (45 :: 45 :: text) next none
  | blockComment {text : Bytes} {next : Option UInt8} : ¬[42, 47] <:+: text →
      LexRound (47 :: 42 :: (text ++ [42, 47])) next none
  | word {ch : UInt8} {tail : Bytes} {next : Option UInt8} : isalpha ch = true ∨ ch = 95 →
      (∀ c ∈ tail, isIdentifierByte c = true) → (∀ c ∈ next, isIdentifierByte c = false) →
      LexRound (ch :: tail) next
        (some (keywordType (CString.ofBuffer (ch :: tail)), CString.ofBuffer (ch :: tail)))
  | number {ch : UInt8} {digits : Bytes} {next : Option UInt8} :
      isdigit ch = true ∨ (ch = 45 ∧ digits ≠ []) → (∀ c ∈ digits, isdigit c = true) →
      (∀ c ∈ next, isdigit c = false) →
      LexRound (ch :: digits) next (some (.number, CString.ofBuffer (ch :: digits)))
  | string {text : Bytes} {next : Option UInt8} : (∀ c ∈ next, c ≠ 39) →
      LexRound (39 :: (text.flatMap quoteByte ++ [39])) next (some (.string, CString.ofBuffer text))
  | symbol {ch : UInt8} {tail : Bytes} {next : Option UInt8} {type : TokenType} :
      symbolType ch (tail ++ next.toList) = some (type, tail.length + 1) →
      LexRound (ch :: tail) next (some (type, CString.ofBuffer (ch :: tail)))

section Branches

variable {rest : Bytes}

theorem lexOne_blank {c : UInt8} (h : isspace c = true) (rest : Bytes) (pos : Position) :
    lexOne c rest pos = .ok ⟨none, rest, pos.next c⟩ := if_pos h

theorem lexOne_lineComment {text : Bytes} (htext : (10 : UInt8) ∉ text)
    (hrest : ∀ c ∈ rest.head?, c = 10) (pos : Position) :
    lexOne 45 (45 :: (text ++ rest)) pos = .ok ⟨none, rest, pos.advance (2 + text.length)⟩ := by
  have hword : ∀ c ∈ text, decide (c ≠ 10) = true := by
    intro c hc
    exact decide_eq_true (ne_of_mem_of_not_mem hc htext)
  have hstop : StopsAt (fun c => decide (c ≠ 10)) rest := by
    intro c hc
    simpa using hrest c hc
  obtain ⟨htake, hdrop⟩ := span_stopsAt hword hstop
  rw [lexOne, if_neg (by decide), if_pos ⟨rfl, rfl⟩, List.tail_cons, hdrop, htake]

theorem lexOne_blockComment {text : Bytes} (h : ¬[42, 47] <:+: text) (rest : Bytes)
    (pos : Position) : lexOne 47 (42 :: (text ++ 42 :: 47 :: rest)) pos =
      .ok ⟨none, rest, (text.foldl Position.next (pos.advance 2)).advance 2⟩ := by
  have hminus : ¬((47 : UInt8) = 45 ∧
      (42 :: (text ++ 42 :: 47 :: rest)).head? = some 45) := fun h => absurd h.1 (by decide)
  rw [lexOne, if_neg (by decide), if_neg hminus, if_pos ⟨rfl, rfl⟩, List.tail_cons,
    skipBlockComment_iff.mpr ⟨text, rfl, h, rfl⟩]

theorem lexOne_word {ch : UInt8} {tail : Bytes} (hch : isalpha ch = true ∨ ch = 95)
    (htail : ∀ c ∈ tail, isIdentifierByte c = true) (hrest : StopsAt isIdentifierByte rest)
    (pos : Position) :
    lexOne ch (tail ++ rest) pos =
      .ok (lexed (keywordType (CString.ofBuffer (ch :: tail))) (ch :: tail) rest pos) := by
  obtain ⟨hspace, -, hminus, hslash, -⟩ := isIdentifierByte_cases (wordStart_cases hch).1
  obtain ⟨htake, hdrop⟩ := span_stopsAt htail hrest
  have hspace' : ¬isspace ch = true := by
    rw [hspace]
    decide
  rw [lexOne, if_neg hspace', if_neg fun h => hminus h.1, if_neg fun h => hslash h.1, if_pos hch,
    htake, hdrop]

theorem lexOne_number {ch : UInt8} {digits : Bytes} (hch : isdigit ch = true ∨ ch = 45 ∧ digits ≠ [])
    (hdigits : ∀ c ∈ digits, isdigit c = true) (hrest : StopsAt isdigit rest) (pos : Position) :
    lexOne ch (digits ++ rest) pos = .ok (lexed .number (ch :: digits) rest pos) := by
  obtain ⟨htake, hdrop⟩ := span_stopsAt hdigits hrest
  have hfirst : isspace ch = false ∧ ch ≠ 47 ∧ isalpha ch = false ∧ ch ≠ 95 ∧
      ¬(ch = 45 ∧ (digits ++ rest).head? = some 45) ∧
      (isdigit ch = true ∨ ch = 45 ∧ ∃ next ∈ (digits ++ rest).head?, isdigit next = true) := by
    rcases hch with hdigit | ⟨rfl, hne⟩
    · obtain ⟨hbyte, halpha, hunderscore⟩ := isdigit_cases hdigit
      obtain ⟨hspace, -, hminus, hslash, -⟩ := isIdentifierByte_cases hbyte
      exact ⟨hspace, hslash, halpha, hunderscore, fun h => hminus h.1, Or.inl hdigit⟩
    · obtain ⟨d, tail, rfl⟩ := List.exists_cons_of_ne_nil hne
      have hd := hdigits d List.mem_cons_self
      refine ⟨by decide, by decide, by decide, by decide, ?_, Or.inr ⟨rfl, d, rfl, hd⟩⟩
      rintro ⟨-, hhead⟩
      obtain rfl := Option.some.inj hhead
      exact absurd hd (by decide)
  obtain ⟨hspace, hslash, halpha, hunderscore, hcomment, hnumber⟩ := hfirst
  have hword : ¬(isalpha ch = true ∨ ch = 95) := by
    rw [halpha]
    simpa using hunderscore
  rw [lexOne, if_neg (by rw [hspace]; decide), if_neg hcomment, if_neg fun h => hslash h.1,
    if_neg hword, if_pos hnumber, htake, hdrop]

theorem lexOne_quote (source : Bytes) (pos : Position) :
    lexOne 39 source pos = readStringToken source pos := by
  rw [lexOne, if_neg (by decide), if_neg fun h => absurd h.1 (by decide),
    if_neg fun h => absurd h.1 (by decide), if_neg (by decide), if_neg, if_pos rfl]
  rintro (h | ⟨h, -⟩)
  · exact absurd h (by decide)
  · exact absurd h (by decide)

theorem lexOne_string (text : Bytes) (hrest : ∀ c ∈ rest.head?, c ≠ 39) (pos : Position) :
    lexOne 39 (text.flatMap quoteByte ++ 39 :: rest) pos =
      .ok ⟨some ⟨.string, CString.ofBuffer text, pos.line, pos.column⟩, rest,
        pos.advance ((text.flatMap quoteByte).length + 1)⟩ := by
  rw [lexOne_quote, readStringToken, readStringFrom_quoted text hrest]
  rfl

/-- The first byte of a symbol takes the loop to its `switch`. -/
theorem symbolType_first {ch : UInt8} {source : Bytes} {symbol : TokenType × ℕ}
    (h : symbolType ch source = some symbol) :
    isspace ch = false ∧ ch ≠ 45 ∧ ch ≠ 47 ∧ isalpha ch = false ∧ ch ≠ 95 ∧ isdigit ch = false ∧
      ch ≠ 39 ∧ ch ≠ 10 := by
  have hmem : ch ∈ ([44, 46, 40, 41, 59, 42, 61, 62, 60] : Bytes) := by
    by_contra hnot
    simp only [List.mem_cons, List.not_mem_nil, or_false, not_or] at hnot
    obtain ⟨h1, h2, h3, h4, h5, h6, h7, h8, h9⟩ := hnot
    rw [symbolType, if_neg h1, if_neg h2, if_neg h3, if_neg h4, if_neg h5, if_neg h6, if_neg h7,
      if_neg h8, if_neg h9] at h
    cases h
  have hall : ∀ ch ∈ ([44, 46, 40, 41, 59, 42, 61, 62, 60] : Bytes),
      isspace ch = false ∧ ch ≠ 45 ∧ ch ≠ 47 ∧ isalpha ch = false ∧ ch ≠ 95 ∧ isdigit ch = false ∧
        ch ≠ 39 ∧ ch ≠ 10 := by decide +kernel
  exact hall ch hmem

theorem lexOne_switch {ch : UInt8} {source source' : Bytes} {symbol : TokenType × ℕ}
    (h : symbolType ch source = some symbol) (pos : Position) :
    lexOne ch source' pos = readSymbol ch source' pos := by
  obtain ⟨hspace, hminus, hslash, halpha, hunderscore, hdigit, hquote, -⟩ := symbolType_first h
  have hword : ¬(isalpha ch = true ∨ ch = 95) := by
    rw [halpha]
    simpa using hunderscore
  have hnumber : ¬(isdigit ch = true ∨ ch = 45 ∧ ∃ next ∈ source'.head?, isdigit next = true) := by
    rw [hdigit]
    rintro (h | ⟨h, -⟩)
    · cases h
    · exact hminus h
  rw [lexOne, if_neg (by rw [hspace]; decide), if_neg fun h => hminus h.1, if_neg fun h => hslash h.1,
    if_neg hword, if_neg hnumber, if_neg hquote]

/-- Only the next byte counts for a symbol. -/
theorem symbolType_congr {ch : UInt8} {source source' : Bytes} (h : source.head? = source'.head?) :
    symbolType ch source = symbolType ch source' := by
  rw [symbolType, symbolType, h]

/-- A symbol has one character, or a `=` behind it. -/
theorem symbolType_length {ch : UInt8} {source : Bytes} {type : TokenType} {n : ℕ}
    (h : symbolType ch source = some (type, n)) : n = 1 ∨ n = 2 ∧ source.head? = some 61 := by
  by_cases hhead : source.head? = some 61
  · have hlengths : ∀ s ∈ symbolTypes, s.2 = 1 ∨ s.2 = 2 := by decide
    exact (hlengths _ (symbolType_mem h)).imp_right fun htwo => ⟨htwo, hhead⟩
  · left
    have hall : ∀ s ∈ symbolType ch source, s.2 = 1 := by
      rw [symbolType, if_neg hhead, if_neg hhead]
      repeat' apply forall_mem_ite
      all_goals decide
    exact hall _ h

theorem lexOne_symbolType {ch : UInt8} {tail : Bytes} {type : TokenType}
    (h : symbolType ch (tail ++ rest.head?.toList) = some (type, tail.length + 1)) (pos : Position) :
    lexOne ch (tail ++ rest) pos = .ok (lexed type (ch :: tail) rest pos) := by
  have hhead : (tail ++ rest.head?.toList).head? = (tail ++ rest).head? := by
    cases tail with
    | nil => cases rest <;> rfl
    | cons c tail => rfl
  rw [lexOne_switch h, readSymbol, ← symbolType_congr hhead, h]
  dsimp only
  rw [List.take_succ_cons, List.drop_succ_cons, List.take_left, List.drop_left]

end Branches

/-- A round consumes its bytes. -/
theorem lexOne_of_round {bytes rest : Bytes} {shape : Option Shape}
    (h : LexRound bytes rest.head? shape) (pos : Position) :
    ∃ ch tail, bytes = ch :: tail ∧
      lexOne ch (tail ++ rest) pos = .ok ⟨shape.map pos.token, rest, pos.after bytes⟩ := by
  cases h with
  | @blank c _ hc =>
    refine ⟨c, [], rfl, ?_⟩
    have hquote : c ≠ 39 := by
      rintro rfl
      exact absurd hc (by decide)
    rw [Position.after, if_neg (by simpa using hquote)]
    exact lexOne_blank hc rest pos
  | @lineComment text _ htext hnext =>
    refine ⟨45, 45 :: text, rfl, ?_⟩
    have hbytes : (10 : UInt8) ∉ 45 :: 45 :: text := by simpa using htext
    rw [after_word (by decide) hbytes, List.cons_append, lexOne_lineComment htext hnext]
    simp only [List.length_cons, Option.map_none]
    congr 3
    omega
  | @blockComment text _ htext =>
    refine ⟨47, 42 :: (text ++ [42, 47]), rfl, ?_⟩
    have hstart : (pos.next 47).next 42 = pos.advance 2 := rfl
    have hend : ∀ pos : Position, (pos.next 42).next 47 = pos.advance 2 := fun pos => rfl
    rw [Position.after, if_neg (by simp), List.cons_append, List.append_assoc]
    show lexOne 47 (42 :: (text ++ 42 :: 47 :: rest)) pos = _
    rw [lexOne_blockComment htext, List.foldl_cons, List.foldl_cons, hstart, List.foldl_append]
    simp only [List.foldl_cons, List.foldl_nil, hend, Option.map_none]
  | @word ch tail _ hch htail hnext =>
    refine ⟨ch, tail, rfl, ?_⟩
    obtain ⟨-, hquote, -⟩ := isIdentifierByte_cases (wordStart_cases hch).1
    have hbytes : (10 : UInt8) ∉ ch :: tail := by
      intro hmem
      rcases List.mem_cons.mp hmem with rfl | hmem
      · exact absurd (wordStart_cases hch).1 (by decide)
      · exact absurd (htail 10 hmem) (by decide)
    rw [after_word hquote hbytes, lexOne_word hch htail hnext]
    rfl
  | @number ch digits _ hch hdigits hnext =>
    refine ⟨ch, digits, rfl, ?_⟩
    have hfirst : ch ≠ 39 ∧ ch ≠ 10 := by
      rcases hch with hdigit | ⟨rfl, -⟩
      · refine ⟨?_, ?_⟩ <;> (rintro rfl; exact absurd hdigit (by decide))
      · exact ⟨by decide, by decide⟩
    have hbytes : (10 : UInt8) ∉ ch :: digits := by
      intro hmem
      rcases List.mem_cons.mp hmem with hten | hmem
      · exact hfirst.2 hten.symm
      · exact absurd (hdigits 10 hmem) (by decide)
    rw [after_word hfirst.1 hbytes, lexOne_number hch hdigits hnext]
    rfl
  | @string text _ hnext =>
    refine ⟨39, text.flatMap quoteByte ++ [39], rfl, ?_⟩
    have hhead : (39 :: (text.flatMap quoteByte ++ [39])).head? = some 39 := rfl
    rw [Position.after, if_pos hhead, List.append_assoc, List.singleton_append,
      lexOne_string text hnext]
    simp only [List.length_cons, List.length_append, List.length_nil, Nat.add_sub_cancel,
      Option.map_some]
    rfl
  | @symbol ch tail _ type htype =>
    refine ⟨ch, tail, rfl, ?_⟩
    obtain ⟨-, -, -, -, -, -, hquote, hten⟩ := symbolType_first htype
    have htail : tail = [] ∨ tail = [61] := by
      rcases symbolType_length htype with hone | ⟨htwo, hhead⟩
      · exact Or.inl (List.length_eq_zero_iff.mp (by omega))
      · obtain ⟨c, rfl⟩ := List.length_eq_one_iff.mp (show tail.length = 1 by omega)
        obtain rfl := Option.some.inj hhead
        exact Or.inr rfl
    have hbytes : (10 : UInt8) ∉ ch :: tail := by
      rcases htail with rfl | rfl <;> simpa using hten.symm
    rw [after_word hquote hbytes, lexOne_symbolType htype]
    rfl

/-- What a round does is one of the rounds listed. -/
theorem lexOne_round {ch : UInt8} {rest : Bytes} {pos : Position} {l : Lexed}
    (h : lexOne ch rest pos = .ok l) :
    ∃ bytes shape, ch :: rest = bytes ++ l.rest ∧ LexRound bytes l.rest.head? shape := by
  rw [lexOne] at h
  split at h
  · rename_i hspace
    obtain rfl := Except.ok.inj h
    exact ⟨[ch], none, rfl, .blank hspace⟩
  · split at h
    · rename_i hcomment
      obtain ⟨rfl, hhead⟩ := hcomment
      obtain ⟨tail, rfl⟩ := List.head?_eq_some_iff.mp hhead
      obtain rfl := Except.ok.inj h
      dsimp only [List.tail_cons]
      refine ⟨45 :: 45 :: tail.takeWhile fun c => decide (c ≠ 10), none, ?_, .lineComment ?_ ?_⟩
      · simp [List.takeWhile_append_dropWhile]
      · intro hmem
        simpa using List.mem_takeWhile_imp hmem
      · intro c hc
        simpa using dropWhile_stopsAt _ tail c hc
    · split at h
      · rename_i hcomment
        obtain ⟨rfl, hhead⟩ := hcomment
        obtain ⟨tail, rfl⟩ := List.head?_eq_some_iff.mp hhead
        split at h
        · cases h
        · rename_i rest' pos' hskip
          obtain ⟨text, htext, hclosed, -⟩ := skipBlockComment_iff.mp hskip
          obtain rfl := Except.ok.inj h
          refine ⟨47 :: 42 :: (text ++ [42, 47]), none, ?_, .blockComment hclosed⟩
          rw [List.tail_cons] at htext
          rw [htext]
          simp
      · split at h
        · rename_i hword
          obtain rfl := Except.ok.inj h
          refine ⟨ch :: rest.takeWhile isIdentifierByte, _, ?_,
            .word hword (fun c hc => List.mem_takeWhile_imp hc) (dropWhile_stopsAt _ rest)⟩
          simp [lexed, List.takeWhile_append_dropWhile]
        · split at h
          · rename_i hnumber
            obtain rfl := Except.ok.inj h
            refine ⟨ch :: rest.takeWhile isdigit, _, ?_,
              .number ?_ (fun c hc => List.mem_takeWhile_imp hc) (dropWhile_stopsAt _ rest)⟩
            · simp [lexed, List.takeWhile_append_dropWhile]
            · refine hnumber.imp_right fun hminus => ⟨hminus.1, ?_⟩
              obtain ⟨-, d, hd, hdigit⟩ := hminus
              obtain ⟨tail, rfl⟩ := List.head?_eq_some_iff.mp hd
              rw [List.takeWhile_cons_of_pos hdigit]
              exact List.cons_ne_nil _ _
          · split at h
            · rename_i hquote
              rw [readStringToken] at h
              split at h
              · cases h
              · rename_i text rest' column hread
                obtain ⟨rfl, hrest, -⟩ := readStringFrom_iff.mp hread
                obtain rfl := Except.ok.inj h
                refine ⟨39 :: (text.flatMap quoteByte ++ [39]), _, ?_, .string hrest⟩
                rw [hquote]
                simp
            · rw [readSymbol] at h
              split at h
              · cases h
              · rename_i type n htype
                obtain rfl := Except.ok.inj h
                rcases symbolType_length htype with rfl | ⟨rfl, hhead⟩
                · have hone : symbolType ch ([] ++ rest.head?.toList) = some (type, 1) := by
                    rw [← htype]
                    exact symbolType_congr (by cases rest <;> rfl)
                  exact ⟨[ch], _, rfl, .symbol hone⟩
                · obtain ⟨tail, rfl⟩ := List.head?_eq_some_iff.mp hhead
                  have htwo : symbolType ch ([61] ++ tail.head?.toList) = some (type, 2) := by
                    rw [← htype]
                    exact symbolType_congr rfl
                  exact ⟨[ch, 61], _, rfl, .symbol htwo⟩

/-- **One round.**  The loop consumes the bytes of a round, and there is only one way to do so. -/
theorem lexOne_iff {ch : UInt8} {rest : Bytes} {pos : Position} {l : Lexed} :
    lexOne ch rest pos = .ok l ↔ ∃ bytes shape, ch :: rest = bytes ++ l.rest ∧
      LexRound bytes l.rest.head? shape ∧ l.token = shape.map pos.token ∧ l.pos = pos.after bytes := by
  constructor
  · intro h
    obtain ⟨bytes, shape, hbytes, hround⟩ := lexOne_round h
    obtain ⟨ch', tail, rfl, h'⟩ := lexOne_of_round hround pos
    rw [List.cons_append, List.cons.injEq] at hbytes
    obtain ⟨rfl, htail⟩ := hbytes
    rw [← htail, h] at h'
    have hl := Except.ok.inj h'
    refine ⟨ch :: tail, shape, by rw [htail, List.cons_append], hround, ?_, ?_⟩
    · rw [hl]
    · rw [hl]
  · rintro ⟨bytes, shape, hbytes, hround, htoken, hpos⟩
    obtain ⟨ch', tail, rfl, h'⟩ := lexOne_of_round hround pos
    rw [List.cons_append, List.cons.injEq] at hbytes
    obtain ⟨rfl, htail⟩ := hbytes
    rw [htail, h', ← htoken, ← hpos]

theorem LexRound.ne_nil {bytes : Bytes} {next : Option UInt8} {shape : Option Shape}
    (h : LexRound bytes next shape) : bytes ≠ [] := by
  cases h <;> exact List.cons_ne_nil _ _

/-- The rounds are determined by the text. -/
theorem LexRound.unique {bytes bytes' rest rest' : Bytes} {shape shape' : Option Shape}
    (h : LexRound bytes rest.head? shape) (h' : LexRound bytes' rest'.head? shape')
    (heq : bytes ++ rest = bytes' ++ rest') : bytes = bytes' ∧ shape = shape' ∧ rest = rest' := by
  obtain ⟨ch, tail, rfl, hlex⟩ := lexOne_of_round h ⟨1, 1⟩
  obtain ⟨ch', tail', rfl, hlex'⟩ := lexOne_of_round h' ⟨1, 1⟩
  rw [List.cons_append, List.cons_append, List.cons.injEq] at heq
  obtain ⟨rfl, htails⟩ := heq
  rw [htails, hlex'] at hlex
  obtain ⟨htoken, hrest, -⟩ := Lexed.mk.inj (Except.ok.inj hlex)
  subst hrest
  refine ⟨by rw [List.append_cancel_right htails], ?_, rfl⟩
  cases shape <;> cases shape'
  · rfl
  · cases htoken
  · cases htoken
  · rename_i a b
    obtain ⟨htype, hlexeme, -, -⟩ := Token.mk.inj (Option.some.inj htoken)
    exact congrArg some (Prod.ext htype hlexeme).symm

/-- No round appends the `END` token. -/
theorem LexRound.type_ne_end {bytes : Bytes} {next : Option UInt8} {shape : Shape}
    (h : LexRound bytes next (some shape)) : shape.1 ≠ .end_ := by
  cases h with
  | word _ _ _ => exact keywordType_ne (by decide) (by decide) _
  | number _ _ _ =>
    show TokenType.number ≠ .end_
    decide
  | string _ =>
    show TokenType.string ≠ .end_
    decide
  | symbol htype =>
    have hsymbols : ∀ s ∈ symbolTypes, s.1 ≠ .end_ := by decide
    exact hsymbols _ (symbolType_mem htype)

/-- A round consumes its character. -/
theorem lexOne_rest {ch : UInt8} {rest : Bytes} {pos : Position} {l : Lexed}
    (h : lexOne ch rest pos = .ok l) : l.rest.length ≤ rest.length := by
  obtain ⟨bytes, shape, hbytes, hround⟩ := lexOne_round h
  have hlength := congrArg List.length hbytes
  have hpos := List.length_pos_of_ne_nil hround.ne_nil
  rw [List.length_cons, List.length_append] at hlength
  omega

/-- Any number of rounds above the number of bytes gives the same tokens. -/
theorem tokenizeFrom_fuel {source : Bytes} {fuel fuel' : ℕ} (h : source.length < fuel)
    (h' : source.length < fuel') (pos : Position) :
    tokenizeFrom fuel source pos = tokenizeFrom fuel' source pos := by
  induction fuel generalizing source fuel' pos with
  | zero => omega
  | succ fuel ih =>
    obtain ⟨fuel', rfl⟩ : ∃ f, fuel' = f + 1 := ⟨fuel' - 1, by omega⟩
    cases source with
    | nil => rfl
    | cons ch rest =>
      rw [List.length_cons] at h h'
      rw [tokenizeFrom, tokenizeFrom]
      cases hlex : lexOne ch rest pos with
      | error e => rfl
      | ok l =>
        have hle := lexOne_rest hlex
        obtain ⟨token, rest', pos'⟩ := l
        dsimp only at hle ⊢
        have hrec : tokenizeFrom fuel rest' pos' = tokenizeFrom fuel' rest' pos' :=
          ih (by omega) (by omega) pos'
        rw [hrec]

/-! ### Texts -/

/-- What one round takes off a text. -/
structure Piece where
  bytes : Bytes
  shape : Option Shape

/-- A text is made of these pieces. -/
inductive Lexes : Bytes → List Piece → Prop
  | nil : Lexes [] []
  | cons {p : Piece} {rest : Bytes} {pieces : List Piece} : LexRound p.bytes rest.head? p.shape →
      Lexes rest pieces → Lexes (p.bytes ++ rest) (p :: pieces)

/-- The tokens of the pieces from a position on, with the `END` token. -/
def tokensAt : Position → List Piece → List Token
  | pos, [] => [⟨.end_, CString.empty, pos.line, pos.column⟩]
  | pos, p :: pieces => (p.shape.map pos.token).toList ++ tokensAt (pos.after p.bytes) pieces

/-- A token is the `END` token or the token of a piece. -/
theorem mem_tokensAt {pos : Position} {pieces : List Piece} {t : Token} (h : t ∈ tokensAt pos pieces) :
    t.type = .end_ ∨ ∃ p ∈ pieces, p.shape = some (t.type, t.lexeme) := by
  induction pieces generalizing pos with
  | nil =>
    left
    rw [List.mem_singleton.mp h]
  | cons p pieces ih =>
    rcases List.mem_append.mp h with ht | ht
    · obtain ⟨shape, hshape, rfl⟩ := Option.map_eq_some_iff.mp (Option.mem_toList.mp ht)
      exact Or.inr ⟨p, List.mem_cons_self, hshape⟩
    · rcases ih ht with hend | ⟨q, hq, hshape⟩
      · exact Or.inl hend
      · exact Or.inr ⟨q, List.mem_cons_of_mem p hq, hshape⟩

theorem Lexes.round {source : Bytes} {pieces : List Piece} (h : Lexes source pieces) {p : Piece}
    (hp : p ∈ pieces) : ∃ next, LexRound p.bytes next p.shape := by
  induction h with
  | nil => cases hp
  | cons hround _ ih =>
    rcases List.mem_cons.mp hp with rfl | hp
    · exact ⟨_, hround⟩
    · exact ih hp

theorem Lexes.mem {source : Bytes} {pieces : List Piece} (h : Lexes source pieces) {p : Piece}
    (hp : p ∈ pieces) : p.bytes ⊆ source := by
  induction h with
  | nil => cases hp
  | cons _ _ ih =>
    rcases List.mem_cons.mp hp with rfl | hp
    · exact List.subset_append_left _ _
    · exact List.Subset.trans (ih hp) (List.subset_append_right _ _)

theorem Lexes.length_le {source : Bytes} {pieces : List Piece} (h : Lexes source pieces) :
    pieces.length ≤ source.length := by
  induction h with
  | nil => exact le_refl _
  | cons hround _ ih =>
    have hpos := List.length_pos_of_ne_nil hround.ne_nil
    rw [List.length_cons, List.length_append]
    omega

theorem Lexes.unique {source : Bytes} {pieces pieces' : List Piece} (h : Lexes source pieces)
    (h' : Lexes source pieces') : pieces = pieces' := by
  induction h generalizing pieces' with
  | nil =>
    generalize hsource : ([] : Bytes) = source at h'
    cases h' with
    | nil => rfl
    | cons hround _ => exact absurd (List.append_eq_nil_iff.mp hsource.symm).1 hround.ne_nil
  | @cons p rest pieces hround _ ih =>
    generalize hsource : p.bytes ++ rest = source at h'
    cases h' with
    | nil => exact absurd (List.append_eq_nil_iff.mp hsource).1 hround.ne_nil
    | @cons p' rest' pieces' hround' hrest' =>
      obtain ⟨hbytes, hshape, rfl⟩ := hround.unique hround' hsource
      have hp : p = p' := by
        cases p
        cases p'
        exact congrArg₂ Piece.mk hbytes hshape
      rw [hp, ih hrest']

/-- **The tokenizer.**  It accepts the texts that are made of pieces, and returns their tokens. -/
theorem tokenizeFrom_iff {source : Bytes} {fuel : ℕ} (hfuel : source.length < fuel) {pos : Position}
    {tokens : List Token} :
    tokenizeFrom fuel source pos = .ok tokens ↔
      ∃ pieces, Lexes source pieces ∧ tokens = tokensAt pos pieces := by
  constructor
  · intro h
    induction fuel generalizing source pos tokens with
    | zero => omega
    | succ fuel ih =>
      cases source with
      | nil =>
        obtain rfl := Except.ok.inj h
        exact ⟨[], .nil, rfl⟩
      | cons ch rest =>
        rw [tokenizeFrom] at h
        cases hlex : lexOne ch rest pos with
        | error e =>
          rw [hlex] at h
          cases h
        | ok l =>
          have hle := lexOne_rest hlex
          obtain ⟨bytes, shape, hbytes, hround, htoken, hpos⟩ := lexOne_iff.mp hlex
          obtain ⟨token, rest', pos'⟩ := l
          rw [hlex] at h
          rw [List.length_cons] at hfuel
          dsimp only at hle hbytes hround htoken hpos h
          cases hrest : tokenizeFrom fuel rest' pos' with
          | error e =>
            rw [hrest] at h
            cases h
          | ok tokens' =>
            obtain ⟨pieces, hpieces, rfl⟩ := ih (by omega) hrest
            rw [hrest] at h
            obtain rfl := Except.ok.inj h
            refine ⟨⟨bytes, shape⟩ :: pieces, ?_, ?_⟩
            · rw [hbytes]
              exact @Lexes.cons ⟨bytes, shape⟩ rest' pieces hround hpieces
            · rw [tokensAt, htoken, hpos]
  · rintro ⟨pieces, hpieces, rfl⟩
    induction hpieces generalizing fuel pos with
    | nil =>
      cases fuel <;> rfl
    | @cons p rest pieces hround _ ih =>
      obtain ⟨ch, tail, hbytes, hlex⟩ := lexOne_of_round hround pos
      rw [hbytes, List.length_append, List.length_cons] at hfuel
      obtain ⟨fuel, rfl⟩ : ∃ f, fuel = f + 1 := ⟨fuel - 1, by omega⟩
      rw [tokensAt, hbytes, List.cons_append, tokenizeFrom, hlex]
      dsimp only
      rw [ih (show rest.length < fuel by omega), hbytes]

theorem tokensAt_length (pos : Position) (pieces : List Piece) :
    (tokensAt pos pieces).length ≤ pieces.length + 1 := by
  induction pieces generalizing pos with
  | nil => exact le_refl _
  | cons p pieces ih =>
    have htoken : (p.shape.map pos.token).toList.length ≤ 1 := by cases p.shape <;> simp
    have hrest := ih (pos.after p.bytes)
    rw [tokensAt, List.length_append, List.length_cons]
    omega

theorem tokensAt_end {source : Bytes} {pieces : List Piece} (h : Lexes source pieces) (pos : Position) :
    ∃ body last, tokensAt pos pieces = body ++ [last] ∧ last.type = .end_ ∧
      ∀ t ∈ body, t.type ≠ .end_ := by
  induction h generalizing pos with
  | nil => exact ⟨[], _, rfl, rfl, by simp⟩
  | @cons p rest pieces hround _ ih =>
    obtain ⟨body, last, heq, hlast, hbody⟩ := ih (pos.after p.bytes)
    refine ⟨(p.shape.map pos.token).toList ++ body, last, ?_, hlast, ?_⟩
    · rw [tokensAt, heq, List.append_assoc]
    · intro t ht
      rcases List.mem_append.mp ht with ht | ht
      · obtain ⟨shape, hshape, rfl⟩ := Option.map_eq_some_iff.mp (Option.mem_toList.mp ht)
        rw [hshape] at hround
        exact hround.type_ne_end
      · exact hbody t ht

/-- The tokens of a source end in the only `END` token. -/
theorem tokenizeSql_end {source : CString} {tokens : List Token} (h : tokenizeSql source = .ok tokens) :
    ∃ body last, tokens = body ++ [last] ∧ last.type = .end_ ∧ ∀ t ∈ body, t.type ≠ .end_ := by
  obtain ⟨pieces, hpieces, rfl⟩ := (tokenizeFrom_iff (Nat.lt_succ_self _)).mp h
  exact tokensAt_end hpieces _

/-! ### Joining texts -/

theorem symbolType_congr_equal {ch : UInt8} {source source' : Bytes}
    (h : source.head? = some 61 ↔ source'.head? = some 61) :
    symbolType ch source = symbolType ch source' := by
  rw [symbolType, symbolType]
  simp only [h]

/-- A newline may come behind whatever may end a text. -/
theorem LexRound.before_newline {bytes : Bytes} {shape : Option Shape} (h : LexRound bytes none shape) :
    LexRound bytes (some 10) shape := by
  have hten : ∀ c ∈ some (10 : UInt8), c = 10 := fun c hc => (Option.some.inj hc).symm
  cases h with
  | blank hc => exact .blank hc
  | lineComment htext _ => exact .lineComment htext hten
  | blockComment htext => exact .blockComment htext
  | word hch htail _ =>
    refine .word hch htail fun c hc => ?_
    rw [hten c hc]
    decide
  | number hch hdigits _ =>
    refine .number hch hdigits fun c hc => ?_
    rw [hten c hc]
    decide
  | string _ =>
    refine .string fun c hc => ?_
    rw [hten c hc]
    decide
  | @symbol ch tail _ type htype =>
    refine .symbol ?_
    rw [← htype]
    apply symbolType_congr_equal
    cases tail with
    | nil => decide
    | cons c tail => exact Iff.rfl

/-- A round that ends in a newline is that blank. -/
theorem LexRound.last_newline {bytes : Bytes} {next : Option UInt8} {shape : Option Shape}
    (h : LexRound bytes next shape) (hlast : bytes.getLast? = some 10) :
    bytes = [10] ∧ shape = none := by
  have hmem : ∀ {ch : UInt8} {tail : Bytes}, (ch :: tail).getLast? = some 10 → ch = 10 ∨ 10 ∈ tail := by
    intro ch tail hten
    rcases List.mem_cons.mp (List.mem_of_getLast? hten) with heq | hin
    · exact Or.inl heq.symm
    · exact Or.inr hin
  cases h with
  | blank _ =>
    obtain rfl := Option.some.inj hlast
    exact ⟨rfl, rfl⟩
  | lineComment htext _ =>
    rcases hmem hlast with heq | hin
    · exact absurd heq (by decide)
    · exact absurd hin (by simpa using htext)
  | @blockComment text _ _ =>
    have hslash : (47 :: 42 :: (text ++ [42, 47])).getLast? = some 47 := by
      rw [show 47 :: 42 :: (text ++ [42, 47]) = (47 :: 42 :: (text ++ [42])) ++ [47] by simp,
        List.getLast?_concat]
    exact absurd (Option.some.inj (hslash.symm.trans hlast)) (by decide)
  | word hch htail _ =>
    rcases hmem hlast with rfl | hin
    · exact absurd hch (by decide)
    · exact absurd (htail 10 hin) (by decide)
  | number hch hdigits _ =>
    rcases hmem hlast with rfl | hin
    · exact absurd (hch.imp_right And.left) (by decide)
    · exact absurd (hdigits 10 hin) (by decide)
  | @string text _ _ =>
    have hquote : (39 :: (text.flatMap quoteByte ++ [39])).getLast? = some 39 := by
      rw [← List.cons_append, List.getLast?_concat]
    exact absurd (Option.some.inj (hquote.symm.trans hlast)) (by decide)
  | @symbol ch tail _ type htype =>
    obtain ⟨-, -, -, -, -, -, -, hten⟩ := symbolType_first htype
    rcases hmem hlast with heq | hin
    · exact absurd heq hten
    · rcases symbolType_length htype with hone | ⟨htwo, hhead⟩
      · rw [List.length_eq_zero_iff.mp (show tail.length = 0 by omega)] at hin
        cases hin
      · obtain ⟨c, rfl⟩ := List.length_eq_one_iff.mp (show tail.length = 1 by omega)
        obtain rfl := Option.some.inj hhead
        exact absurd (List.mem_singleton.mp hin) (by decide)

/-- The text `s` is made of these pieces when `rest` comes behind it. -/
inductive LexesBefore (rest : Bytes) : Bytes → List Piece → Prop
  | nil : LexesBefore rest [] []
  | cons {p : Piece} {tail : Bytes} {pieces : List Piece} :
      LexRound p.bytes (tail ++ rest).head? p.shape → LexesBefore rest tail pieces →
      LexesBefore rest (p.bytes ++ tail) (p :: pieces)

/-- There is a newline between two texts. -/
def NewlineBetween (s rest : Bytes) : Prop := rest.head? = some 10 ∨ s.getLast? = some 10

/-- A newline keeps the pieces of a text apart from what comes behind it. -/
theorem Lexes.before {s rest : Bytes} {pieces : List Piece} (h : Lexes s pieces)
    (hjoin : NewlineBetween s rest) : LexesBefore rest s pieces := by
  induction h with
  | nil => exact .nil
  | @cons p tail pieces hround htail ih =>
    cases tail with
    | cons c tail =>
      refine .cons hround (ih (hjoin.imp_right fun hlast => ?_))
      rw [← hlast, List.getLast?_append_of_ne_nil _ (List.cons_ne_nil c tail)]
    | nil =>
      cases pieces with
      | cons q pieces =>
        generalize hnil : ([] : Bytes) = source at htail
        cases htail with
        | cons hq _ => exact absurd (List.append_eq_nil_iff.mp hnil.symm).1 hq.ne_nil
      | nil =>
        refine .cons ?_ .nil
        rw [List.nil_append]
        rcases hjoin with hhead | hlast
        · rw [hhead]
          exact hround.before_newline
        · rw [List.append_nil] at hlast
          obtain ⟨hbytes, hshape⟩ := hround.last_newline hlast
          rw [hbytes, hshape]
          exact .blank (by decide)

theorem LexesBefore.append {s rest : Bytes} {pieces pieces' : List Piece}
    (h : LexesBefore rest s pieces) (h' : Lexes rest pieces') : Lexes (s ++ rest) (pieces ++ pieces') := by
  induction h with
  | nil => exact h'
  | cons hround _ ih =>
    rw [List.append_assoc]
    exact .cons hround ih

/-- The pieces of a whole text begin with those of its front. -/
theorem LexesBefore.split {s rest : Bytes} {pieces whole : List Piece} (h : LexesBefore rest s pieces)
    (hwhole : Lexes (s ++ rest) whole) : ∃ back, whole = pieces ++ back ∧ Lexes rest back := by
  induction h generalizing whole with
  | nil => exact ⟨whole, rfl, hwhole⟩
  | @cons p tail pieces hround _ ih =>
    generalize hsource : p.bytes ++ tail ++ rest = source at hwhole
    rw [List.append_assoc] at hsource
    cases hwhole with
    | nil => exact absurd (List.append_eq_nil_iff.mp hsource).1 hround.ne_nil
    | @cons p' tail' pieces' hround' htail' =>
      obtain ⟨hbytes, hshape, rfl⟩ := hround.unique hround' hsource
      obtain ⟨back, rfl, hback⟩ := ih htail'
      have hp : p = p' := by
        cases p
        cases p'
        exact congrArg₂ Piece.mk hbytes hshape
      exact ⟨back, by rw [hp, List.cons_append], hback⟩

end MiniSql
