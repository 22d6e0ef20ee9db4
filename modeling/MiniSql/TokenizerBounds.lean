import MiniSql.LexicalGrammar
import MiniSql.Library.CheckedCursor

/-!
# The index of the tokenizer

`tokenize_sql` and `read_string_token` with an index into the bytes of the source and its terminating zero.  A
read behind that zero, and a loop that needs more rounds than it is given, are faults.

* `byteAt` is the only way to read the source, and `andNext` a test that reads the next byte only where the
  first test holds.
* `scanBytes` are the loops over one kind of bytes; `skipBlockCommentAt` and `readStringFromAt` have bodies of
  their own.
* `lexOneAt`, `tokenizeFromAt` and `tokenizeSqlAt` are the functions of `Tokens` with the index.

`Before` connects an index with the rest of the text that `Tokens` has as its state.

* `lexOneAt_agrees`: one round reads no byte behind the terminator, and does what `lexOne` does.
* `tokenizeSqlAt_eq`: with more rounds than the source has bytes the tokenizer ends without a fault, with the
  result of `tokenizeSql`.
* `tokenizeSql_length`: there is at most one token a byte, and the `END` token.
-/

namespace MiniSql

open CheckedCursor

/-! ### Reading the source -/

/-- `source[index]` -/
def byteAt (source : CString) (index : ℕ) : Checked ParseError UInt8 :=
  itemAt (source.bytes ++ [0]) index

/-- `c && p(source[index + 1])`, which reads the next byte only where `c` holds. -/
def andNext (c : Bool) (p : UInt8 → Bool) (source : CString) (index : ℕ) :
    Checked ParseError Bool := do
  if c then
    let next ← byteAt source (index + 1)
    pure (p next)
  else pure false

/-- `while (p(source[index])) index++;` -/
def scanBytes (p : UInt8 → Bool) (source : CString) (rounds index : ℕ) : Checked ParseError ℕ :=
  scanWhile p (source.bytes ++ [0]) rounds index

/-- The bytes `memcpy` copies from `source + start`. -/
def copyBytes (source : CString) (start length : ℕ) : Checked ParseError Bytes :=
  if start + length ≤ source.length then pure ((source.bytes.drop start).take length)
  else fault .outside

/-! ### One round -/

/-- What a round leaves: the token it appended, the index, and the position. -/
abbrev RoundResult := Option Token × ℕ × Position

/-- `token_list_append` for the bytes from `index` to `stop`. -/
def appendBytes (type : CString → TokenType) (source : CString) (index stop : ℕ) (pos : Position) :
    Checked ParseError RoundResult := do
  let lexeme ← copyBytes source index (stop - index)
  pure (some ⟨type (CString.ofBuffer lexeme), CString.ofBuffer lexeme, pos.line, pos.column⟩, stop,
    pos.advance (stop - index))

/-- The loop over the inside of a block comment. -/
def skipBlockCommentAt (source : CString) : ℕ → ℕ → Position → Checked ParseError (ℕ × Position)
  | 0, _, _ => fault .rounds
  | rounds + 1, index, pos => do
      let ch ← byteAt source index
      if ch = 0 then pure (index, pos)
      else
        let closed ← andNext (decide (ch = 42)) (fun next => decide (next = 47)) source index
        if closed then pure (index, pos)
        else skipBlockCommentAt source rounds (index + 1) (pos.next ch)

/-- The loop of `read_string_token`, with the buffer. -/
def readStringFromAt (source : CString) :
    ℕ → Bytes → ℕ → ℕ → Checked ParseError (Bytes × ℕ × ℕ)
  | 0, _, _, _ => fault .rounds
  | rounds + 1, buffer, cursor, column => do
      let ch ← byteAt source cursor
      if ch = 0 then pure (buffer, cursor, column)
      else if ch = 39 then
        let next ← byteAt source (cursor + 1)
        if next = 39 then readStringFromAt source rounds (buffer ++ [39]) (cursor + 2) (column + 2)
        else pure (buffer, cursor, column)
      else readStringFromAt source rounds (buffer ++ [ch]) (cursor + 1) (column + 1)

/-- `read_string_token` -/
def readStringTokenAt (rounds : ℕ) (source : CString) (index : ℕ) (pos : Position) :
    Checked ParseError RoundResult := do
  let (buffer, cursor, column) ← readStringFromAt source rounds [] (index + 1) pos.column
  let last ← byteAt source cursor
  if last ≠ 39 then throw (.located (lit "unterminated string literal") pos.line pos.column)
  else
    pure (some ⟨.string, CString.ofBuffer buffer, pos.line, pos.column⟩, cursor + 1,
      ⟨pos.line, column + 1⟩)

/-- The `switch`, which reads the next byte behind `>` and `<`. -/
def readSymbolAt (source : CString) (ch : UInt8) (index : ℕ) (pos : Position) :
    Checked ParseError RoundResult := do
  let equal ← andNext (decide (ch = 62 ∨ ch = 60)) (fun next => decide (next = 61)) source index
  match symbolType ch (if equal then [61] else []) with
  | none => throw (.located (lit "unexpected character '" ++ CString.ofBuffer [ch] ++ lit "'")
      pos.line pos.column)
  | some (type, n) => appendBytes (fun _ => type) source index (index + n) pos

/-- The branch for a line comment. -/
def lineCommentAt (rounds : ℕ) (source : CString) (index : ℕ) (pos : Position) :
    Checked ParseError RoundResult := do
  let stop ← scanBytes (fun c => decide (c ≠ 0 ∧ c ≠ 10)) source rounds (index + 2)
  pure (none, stop, pos.advance (stop - index))

/-- The branch for a block comment. -/
def blockCommentAt (rounds : ℕ) (source : CString) (index : ℕ) (pos : Position) :
    Checked ParseError RoundResult := do
  let (stop, pos) ← skipBlockCommentAt source rounds (index + 2) (pos.advance 2)
  let last ← byteAt source stop
  if last = 0 then throw .unterminatedComment else pure (none, stop + 2, pos.advance 2)

/-- The branch for a word. -/
def readWordAt (rounds : ℕ) (source : CString) (index : ℕ) (pos : Position) :
    Checked ParseError RoundResult := do
  let stop ← scanBytes isIdentifierByte source rounds index
  appendBytes keywordType source index stop pos

/-- The branch for a number. -/
def readNumberAt (rounds : ℕ) (source : CString) (index : ℕ) (pos : Position) :
    Checked ParseError RoundResult := do
  let stop ← scanBytes isdigit source rounds (index + 1)
  appendBytes (fun _ => .number) source index stop pos

/-- One round of the loop of `tokenize_sql` at the character `ch`. -/
def lexOneAt (rounds : ℕ) (source : CString) (ch : UInt8) (index : ℕ) (pos : Position) :
    Checked ParseError RoundResult := do
  if isspace ch then pure (none, index + 1, pos.next ch)
  else
    let lineComment ← andNext (decide (ch = 45)) (fun next => decide (next = 45)) source index
    if lineComment then lineCommentAt rounds source index pos
    else
      let blockComment ← andNext (decide (ch = 47)) (fun next => decide (next = 42)) source index
      if blockComment then blockCommentAt rounds source index pos
      else if isalpha ch ∨ ch = 95 then readWordAt rounds source index pos
      else
        let minus ← andNext (!isdigit ch && decide (ch = 45)) isdigit source index
        if isdigit ch || minus then readNumberAt rounds source index pos
        else if ch = 39 then readStringTokenAt rounds source index pos
        else readSymbolAt source ch index pos

/-! ### The loop -/

/-- The loop of `tokenize_sql` and the `END` token behind it; `rounds` bounds the loops inside. -/
def tokenizeFromAt (rounds : ℕ) (source : CString) :
    ℕ → List Token → ℕ → Position → Checked ParseError (List Token)
  | 0, _, _, _ => fault .rounds
  | n + 1, tokens, index, pos => do
      let ch ← byteAt source index
      if ch = 0 then pure (tokens ++ [⟨.end_, CString.empty, pos.line, pos.column⟩])
      else
        let (token, index, pos) ← lexOneAt rounds source ch index pos
        tokenizeFromAt rounds source n (tokens ++ token.toList) index pos

/-- The test for a byte order mark, each byte of which is read if those before it are there. -/
def hasMarkAt (source : CString) : Checked ParseError Bool := do
  let first ← byteAt source 0
  if first = 0xEF then
    let second ← byteAt source 1
    if second = 0xBB then
      let third ← byteAt source 2
      pure (decide (third = 0xBF))
    else pure false
  else pure false

/-- `tokenize_sql`, with a bound on the rounds of each loop. -/
def tokenizeSqlAt (rounds : ℕ) (source : CString) : Checked ParseError (List Token) := do
  let mark ← hasMarkAt source
  if mark then tokenizeFromAt rounds source rounds [] 3 ⟨1, 4⟩
  else tokenizeFromAt rounds source rounds [] 0 ⟨1, 1⟩

/-! ### The text behind an index -/

/-- The text of the source from `index` on, without its terminator. -/
def Before (source : CString) (index : ℕ) (text : Bytes) : Prop :=
  source.bytes.drop index = text ∧ index ≤ source.length

section Before

variable {source : CString} {index : ℕ} {text front back : Bytes} {ch : UInt8} {p : UInt8 → Bool}

theorem Before.at_ (h : Before source index text) :
    At (source.bytes ++ [0]) index (text ++ [0]) := by
  refine ⟨?_, by simp⟩
  rw [List.drop_append_of_le_length h.2, h.1]

theorem Before.length (h : Before source index text) : index + text.length = source.length := by
  have hle := h.2
  rw [← h.1, List.length_drop]
  show index + (source.length - index) = source.length
  omega

theorem Before.nul_free (h : Before source index text) : (0 : UInt8) ∉ text := by
  rw [← h.1]
  exact fun hmem => source.nul_free (List.mem_of_mem_drop hmem)

theorem Before.add (h : Before source index (front ++ back)) :
    Before source (index + front.length) back := by
  have hlength := h.length
  rw [List.length_append] at hlength
  refine ⟨?_, by omega⟩
  rw [← List.drop_drop, h.1, List.drop_left]

theorem Before.succ (h : Before source index (ch :: text)) : Before source (index + 1) text :=
  @Before.add source index [ch] text h

/-- Every byte of the text and its terminator can be read. -/
theorem Before.byte (h : Before source index text) : byteAt source index = pure (text.headD 0) := by
  have hat := h.at_
  cases text with
  | nil => exact hat.item
  | cons ch text => exact hat.item

/-- The byte behind the terminator cannot. -/
example : byteAt (lit "a") 2 = fault .outside := rfl

theorem Before.andNext (h : Before source index (ch :: text)) (hp : p 0 = false) (c : Bool) :
    MiniSql.andNext c p source index =
      pure (c && decide (∃ next ∈ text.head?, p next = true)) := by
  rw [MiniSql.andNext]
  cases c with
  | false => rfl
  | true =>
    rw [if_pos rfl, h.succ.byte, pure_bind]
    cases text with
    | nil => simp [hp]
    | cons next text => simp

theorem Before.andNext_eq (h : Before source index (ch :: text)) {b : UInt8} (hb : b ≠ 0) (c : Prop)
    [Decidable c] :
    MiniSql.andNext (decide c) (fun next => decide (next = b)) source index =
      pure (decide (c ∧ text.head? = some b)) := by
  rw [h.andNext (by simpa using hb.symm)]
  congr 1
  simp

theorem Before.scanBytes (h : Before source index text) (hp : p 0 = false) {rounds : ℕ}
    (hrounds : text.length < rounds) :
    MiniSql.scanBytes p source rounds index = pure (index + (text.takeWhile p).length) ∧
      Before source (index + (text.takeWhile p).length) (text.dropWhile p) := by
  have hsplit : text = text.takeWhile p ++ text.dropWhile p :=
    List.takeWhile_append_dropWhile.symm
  have hle : (text.takeWhile p).length ≤ text.length := (List.takeWhile_prefix p).length_le
  constructor
  · have hat := h.at_
    rw [hsplit, List.append_assoc] at hat
    have hfront : ∀ c ∈ text.takeWhile p, p c = true := fun c hc => List.mem_takeWhile_imp hc
    cases hdrop : text.dropWhile p with
    | nil =>
      rw [hdrop] at hat
      exact scanWhile_eq hat hfront hp (by omega)
    | cons c tail =>
      rw [hdrop] at hat
      have hc := dropWhile_stopsAt p text c (by rw [hdrop]; rfl)
      exact scanWhile_eq hat hfront hc (by omega)
  · rw [hsplit] at h
    exact h.add

theorem Before.copyBytes (h : Before source index (front ++ back)) :
    MiniSql.copyBytes source index front.length = pure front := by
  have hlength := h.length
  rw [List.length_append] at hlength
  rw [MiniSql.copyBytes, if_pos (by omega), h.1, List.take_left]

theorem Before.appendBytes (h : Before source index (front ++ back)) (type : CString → TokenType)
    (pos : Position) :
    MiniSql.appendBytes type source index (index + front.length) pos =
      pure (some ⟨type (CString.ofBuffer front), CString.ofBuffer front, pos.line, pos.column⟩,
        index + front.length, pos.advance front.length) := by
  rw [MiniSql.appendBytes, Nat.add_sub_cancel_left, h.copyBytes, pure_bind]

end Before

/-! ### The loops of a round -/

theorem skipBlockCommentAt_eq {source : CString} {index rounds : ℕ} {text : Bytes} {pos : Position}
    (h : Before source index text) (hrounds : text.length < rounds) :
    ∃ stop pos', skipBlockCommentAt source rounds index pos = pure (stop, pos') ∧
      match skipBlockComment text pos with
      | none => Before source stop []
      | some (rest, pos'') => Before source stop (42 :: 47 :: rest) ∧ pos'' = pos'.advance 2 := by
  induction text generalizing index rounds pos with
  | nil =>
    obtain ⟨rounds, rfl⟩ := Nat.exists_eq_succ_of_ne_zero (Nat.ne_of_gt hrounds)
    refine ⟨index, pos, ?_, h⟩
    rw [skipBlockCommentAt, h.byte, pure_bind]
    rfl
  | cons ch text ih =>
    rw [List.length_cons] at hrounds
    obtain ⟨rounds, rfl⟩ := Nat.exists_eq_succ_of_ne_zero (Nat.ne_of_gt (Nat.zero_lt_of_lt hrounds))
    have hch : ch ≠ 0 := by
      rintro rfl
      exact h.nul_free List.mem_cons_self
    rw [skipBlockCommentAt, h.byte, pure_bind, List.headD_cons, if_neg hch,
      h.andNext_eq (by decide), pure_bind, skipBlockComment]
    by_cases hclosed : ch = 42 ∧ text.head? = some 47
    · rw [if_pos hclosed, if_pos (decide_eq_true hclosed)]
      obtain ⟨rfl, hhead⟩ := hclosed
      obtain ⟨tail, rfl⟩ := List.head?_eq_some_iff.mp hhead
      exact ⟨index, pos, rfl, h, rfl⟩
    · rw [if_neg hclosed, if_neg (by simpa using hclosed)]
      exact ih h.succ (Nat.lt_of_succ_lt_succ hrounds)

/-- The loop over a string stops at the closing quote, with what `readStringFrom` returns, or at the
terminator. -/
def StringEnd (source : CString) (stop : ℕ) (content : Bytes) (column : ℕ) :
    Option (Bytes × Bytes × ℕ) → Prop
  | none => Before source stop []
  | some (content', rest, column') =>
      Before source stop (39 :: rest) ∧ content' = content ∧ column' = column

theorem StringEnd.cons {source : CString} {stop column : ℕ} {content : Bytes}
    {r : Option (Bytes × Bytes × ℕ)} (h : StringEnd source stop content column r) (c : UInt8) :
    StringEnd source stop (c :: content) column (r.map fun r => (c :: r.1, r.2)) := by
  cases r with
  | none => exact h
  | some r => exact ⟨h.1, congrArg (List.cons c) h.2.1, h.2.2⟩

theorem readStringFromAt_eq {source : CString} {cursor rounds : ℕ} {text buffer : Bytes} {column : ℕ}
    (h : Before source cursor text) (hrounds : text.length < rounds) :
    ∃ content stop column',
      readStringFromAt source rounds buffer cursor column = pure (buffer ++ content, stop, column') ∧
      StringEnd source stop content column' (readStringFrom text column) := by
  induction text, column using readStringFrom.induct generalizing cursor rounds buffer with
  | case1 column =>
    obtain ⟨rounds, rfl⟩ := Nat.exists_eq_succ_of_ne_zero (Nat.ne_of_gt hrounds)
    refine ⟨[], cursor, column, ?_, h⟩
    rw [readStringFromAt, h.byte, pure_bind, List.append_nil]
    rfl
  | case2 column =>
    obtain ⟨rounds, rfl⟩ := Nat.exists_eq_succ_of_ne_zero (Nat.ne_of_gt (Nat.zero_lt_of_lt hrounds))
    refine ⟨[], cursor, column, ?_, h, rfl, rfl⟩
    rw [readStringFromAt, h.byte, pure_bind, List.append_nil, List.headD_cons, if_neg (by decide),
      if_pos rfl, h.succ.byte, pure_bind]
    rfl
  | case3 column rest ih =>
    obtain ⟨rounds, rfl⟩ := Nat.exists_eq_succ_of_ne_zero (Nat.ne_of_gt (Nat.zero_lt_of_lt hrounds))
    rw [List.length_cons, List.length_cons] at hrounds
    obtain ⟨content, stop, column', hread, hresult⟩ :=
      @ih (cursor + 2) rounds (buffer ++ [39]) h.succ.succ (by omega)
    refine ⟨39 :: content, stop, column', ?_, ?_⟩
    · rw [readStringFromAt, h.byte, pure_bind, List.headD_cons, if_neg (by decide), if_pos rfl,
        h.succ.byte, pure_bind, List.headD_cons, if_pos rfl, hread, List.append_assoc]
      rfl
    · rw [readStringFrom.eq_def]
      dsimp only
      rw [if_pos rfl, if_pos rfl]
      exact hresult.cons 39
  | case4 column next rest hnext =>
    obtain ⟨rounds, rfl⟩ := Nat.exists_eq_succ_of_ne_zero (Nat.ne_of_gt (Nat.zero_lt_of_lt hrounds))
    refine ⟨[], cursor, column, ?_, ?_⟩
    · rw [readStringFromAt, h.byte, pure_bind, List.headD_cons, if_neg (by decide), if_pos rfl,
        h.succ.byte, pure_bind, List.headD_cons, if_neg hnext, List.append_nil]
    · rw [readStringFrom.eq_def]
      dsimp only
      rw [if_pos rfl, if_neg hnext]
      exact ⟨h, rfl, rfl⟩
  | case5 ch rest column hch ih =>
    obtain ⟨rounds, rfl⟩ := Nat.exists_eq_succ_of_ne_zero (Nat.ne_of_gt (Nat.zero_lt_of_lt hrounds))
    rw [List.length_cons] at hrounds
    have hnul : ch ≠ 0 := by
      rintro rfl
      exact h.nul_free List.mem_cons_self
    obtain ⟨content, stop, column', hread, hresult⟩ :=
      @ih (cursor + 1) rounds (buffer ++ [ch]) h.succ (by omega)
    refine ⟨ch :: content, stop, column', ?_, ?_⟩
    · rw [readStringFromAt, h.byte, pure_bind, List.headD_cons, if_neg hnul, if_neg hch, hread,
        List.append_assoc]
      rfl
    · rw [readStringFrom.eq_def]
      dsimp only
      rw [if_neg hch]
      exact hresult.cons ch

/-! ### The round -/

/-- The round ends as `lexOne` does, with the index at the rest it leaves. -/
def RoundAgrees (source : CString) (r : Checked ParseError RoundResult) : Except ParseError Lexed → Prop
  | .error e => r = throw e
  | .ok l => ∃ stop, r = pure (l.token, stop, l.pos) ∧ Before source stop l.rest

section Round

variable {source : CString} {index rounds : ℕ} {ch : UInt8} {rest : Bytes}

theorem readStringTokenAt_agrees (h : Before source index (39 :: rest)) (hrounds : rest.length < rounds)
    (pos : Position) :
    RoundAgrees source (readStringTokenAt rounds source index pos) (readStringToken rest pos) := by
  obtain ⟨content, stop, column, hread, hresult⟩ :=
    @readStringFromAt_eq source (index + 1) rounds rest [] pos.column h.succ hrounds
  rw [readStringTokenAt, hread, pure_bind, readStringToken]
  dsimp only
  cases hstring : readStringFrom rest pos.column with
  | none =>
    rw [hstring] at hresult
    have hend : Before source stop [] := hresult
    rw [hend.byte, pure_bind]
    rfl
  | some r =>
    obtain ⟨content', rest', column'⟩ := r
    rw [hstring] at hresult
    obtain ⟨hend, rfl, rfl⟩ := hresult
    rw [hend.byte, pure_bind]
    exact ⟨stop + 1, rfl, hend.succ⟩

/-- The `switch` looks no further than at the next byte behind `>` and `<`. -/
theorem symbolType_next (ch : UInt8) (rest : Bytes) :
    symbolType ch (if decide ((ch = 62 ∨ ch = 60) ∧ rest.head? = some 61) then [61] else []) =
      symbolType ch rest := by
  by_cases hop : ch = 62 ∨ ch = 60
  · apply symbolType_congr_equal
    by_cases hhead : rest.head? = some 61
    · rw [if_pos (decide_eq_true ⟨hop, hhead⟩)]
      simp [hhead]
    · rw [if_neg (by simp [hhead])]
      simp [hhead]
  · obtain ⟨hgreater, hless⟩ := not_or.mp hop
    rw [symbolType, symbolType]
    simp only [if_neg hgreater, if_neg hless]

theorem readSymbolAt_agrees (h : Before source index (ch :: rest)) (pos : Position) :
    RoundAgrees source (readSymbolAt source ch index pos) (readSymbol ch rest pos) := by
  rw [readSymbolAt, h.andNext_eq (by decide), pure_bind, symbolType_next, readSymbol]
  cases hsymbol : symbolType ch rest with
  | none => rfl
  | some symbol =>
    obtain ⟨type, n⟩ := symbol
    have hsplit : ch :: rest = (ch :: rest).take n ++ (ch :: rest).drop n :=
      (List.take_append_drop n (ch :: rest)).symm
    have hn : ((ch :: rest).take n).length = n := by
      rw [List.length_take, Nat.min_eq_left]
      rcases symbolType_length hsymbol with rfl | ⟨rfl, hhead⟩
      · simp
      · obtain ⟨tail, rfl⟩ := List.head?_eq_some_iff.mp hhead
        simp
    rw [hsplit] at h
    have happend := h.appendBytes (fun _ => type) pos
    have hafter := h.add
    rw [hn] at happend hafter
    dsimp only
    rw [happend]
    refine ⟨index + n, ?_, hafter⟩
    show _ = pure (some _, index + n, pos.advance ((ch :: rest).take n).length)
    rw [hn]

/-- A line comment goes up to a newline or the terminator. -/
theorem lineComment_bytes {text : Bytes} (h : (0 : UInt8) ∉ text) :
    (text.takeWhile fun c => decide (c ≠ 0 ∧ c ≠ 10)) = text.takeWhile (fun c => decide (c ≠ 10)) ∧
      (text.dropWhile fun c => decide (c ≠ 0 ∧ c ≠ 10)) =
        text.dropWhile (fun c => decide (c ≠ 10)) := by
  induction text with
  | nil => exact ⟨rfl, rfl⟩
  | cons c text ih =>
    obtain ⟨htake, hdrop⟩ := ih fun hmem => h (List.mem_cons_of_mem c hmem)
    have hc : c ≠ 0 := by
      rintro rfl
      exact h List.mem_cons_self
    by_cases hten : c = 10
    · simp [hten]
    · simp [hc, hten] at htake hdrop ⊢
      exact ⟨htake, hdrop⟩

theorem lineCommentAt_agrees (h : Before source index (45 :: 45 :: rest)) (hrounds : rest.length < rounds)
    (pos : Position) :
    RoundAgrees source (lineCommentAt rounds source index pos)
      (.ok ⟨none, rest.dropWhile fun c => decide (c ≠ 10),
        pos.advance (2 + (rest.takeWhile fun c => decide (c ≠ 10)).length)⟩) := by
  have hrest : Before source (index + 2) rest := h.succ.succ
  obtain ⟨htake, hdrop⟩ := lineComment_bytes hrest.nul_free
  obtain ⟨hscan, hafter⟩ := @Before.scanBytes source (index + 2) rest
    (fun c => decide (c ≠ 0 ∧ c ≠ 10)) hrest (by decide) rounds hrounds
  rw [htake] at hscan hafter
  rw [hdrop] at hafter
  rw [lineCommentAt, hscan, pure_bind, Nat.add_assoc, Nat.add_sub_cancel_left]
  rw [Nat.add_assoc] at hafter
  exact ⟨_, rfl, hafter⟩

theorem blockCommentAt_agrees (h : Before source index (47 :: 42 :: rest))
    (hrounds : rest.length < rounds) (pos : Position) :
    RoundAgrees source (blockCommentAt rounds source index pos)
      (match skipBlockComment rest (pos.advance 2) with
        | none => .error .unterminatedComment
        | some (rest, pos) => .ok ⟨none, rest, pos⟩) := by
  have hrest : Before source (index + 2) rest := h.succ.succ
  obtain ⟨stop, pos', hskip, hresult⟩ :=
    @skipBlockCommentAt_eq source (index + 2) rounds rest (pos.advance 2) hrest hrounds
  rw [blockCommentAt, hskip, pure_bind]
  cases hcomment : skipBlockComment rest (pos.advance 2) with
  | none =>
    rw [hcomment] at hresult
    have hend : Before source stop [] := hresult
    dsimp only
    rw [hend.byte, pure_bind]
    rfl
  | some r =>
    rw [hcomment] at hresult
    obtain ⟨hend, hpos⟩ := hresult
    dsimp only at hend hpos ⊢
    rw [hend.byte, pure_bind, hpos]
    exact ⟨stop + 2, rfl, hend.succ.succ⟩

theorem readWordAt_agrees (h : Before source index (ch :: rest)) (hrounds : rest.length + 1 < rounds)
    (hch : isIdentifierByte ch = true) (pos : Position) :
    RoundAgrees source (readWordAt rounds source index pos)
      (.ok (lexed (keywordType (CString.ofBuffer (ch :: rest.takeWhile isIdentifierByte)))
        (ch :: rest.takeWhile isIdentifierByte) (rest.dropWhile isIdentifierByte) pos)) := by
  have htake : (ch :: rest).takeWhile isIdentifierByte = ch :: rest.takeWhile isIdentifierByte :=
    List.takeWhile_cons_of_pos hch
  have hdrop : (ch :: rest).dropWhile isIdentifierByte = rest.dropWhile isIdentifierByte :=
    List.dropWhile_cons_of_pos hch
  obtain ⟨hscan, hafter⟩ := h.scanBytes (show isIdentifierByte 0 = false by decide) hrounds
  rw [htake] at hscan hafter
  rw [hdrop] at hafter
  have hsplit : ch :: rest = (ch :: rest.takeWhile isIdentifierByte) ++
      rest.dropWhile isIdentifierByte := by
    rw [List.cons_append, List.takeWhile_append_dropWhile]
  rw [hsplit] at h
  rw [readWordAt, hscan, pure_bind, h.appendBytes]
  exact ⟨_, rfl, hafter⟩

theorem readNumberAt_agrees (h : Before source index (ch :: rest)) (hrounds : rest.length < rounds)
    (pos : Position) :
    RoundAgrees source (readNumberAt rounds source index pos)
      (.ok (lexed .number (ch :: rest.takeWhile isdigit) (rest.dropWhile isdigit) pos)) := by
  obtain ⟨hscan, hafter⟩ := h.succ.scanBytes (show isdigit 0 = false by decide) hrounds
  have hstop : index + 1 + (rest.takeWhile isdigit).length =
      index + (ch :: rest.takeWhile isdigit).length := by
    rw [List.length_cons]
    omega
  have hsplit : ch :: rest = (ch :: rest.takeWhile isdigit) ++ rest.dropWhile isdigit := by
    rw [List.cons_append, List.takeWhile_append_dropWhile]
  rw [hstop] at hscan hafter
  rw [hsplit] at h
  rw [readNumberAt, hscan, pure_bind, h.appendBytes]
  exact ⟨_, rfl, hafter⟩

/-- **One round.**  It reads no byte behind the terminator. -/
theorem lexOneAt_agrees (h : Before source index (ch :: rest)) (hrounds : rest.length + 1 < rounds)
    (pos : Position) :
    RoundAgrees source (lexOneAt rounds source ch index pos) (lexOne ch rest pos) := by
  rw [lexOneAt, lexOne]
  by_cases hspace : isspace ch = true
  · rw [if_pos hspace, if_pos hspace]
    exact ⟨index + 1, rfl, h.succ⟩
  rw [if_neg hspace, if_neg hspace, h.andNext_eq (by decide), pure_bind]
  by_cases hline : ch = 45 ∧ rest.head? = some 45
  · rw [if_pos hline, if_pos (decide_eq_true hline)]
    obtain ⟨rfl, hhead⟩ := hline
    obtain ⟨tail, rfl⟩ := List.head?_eq_some_iff.mp hhead
    rw [List.length_cons] at hrounds
    exact lineCommentAt_agrees h (by omega) pos
  rw [if_neg hline, if_neg (by simpa using hline), h.andNext_eq (by decide), pure_bind]
  by_cases hblock : ch = 47 ∧ rest.head? = some 42
  · rw [if_pos hblock, if_pos (decide_eq_true hblock)]
    obtain ⟨rfl, hhead⟩ := hblock
    obtain ⟨tail, rfl⟩ := List.head?_eq_some_iff.mp hhead
    rw [List.length_cons] at hrounds
    exact blockCommentAt_agrees h (by omega) pos
  rw [if_neg hblock, if_neg (by simpa using hblock)]
  by_cases hword : isalpha ch = true ∨ ch = 95
  · rw [if_pos hword, if_pos hword]
    exact readWordAt_agrees h hrounds (wordStart_cases hword).1 pos
  rw [if_neg hword, if_neg hword, h.andNext (by decide), pure_bind]
  by_cases hnumber : isdigit ch = true ∨ ch = 45 ∧ ∃ next ∈ rest.head?, isdigit next = true
  · have hbool : (isdigit ch || ((!isdigit ch && decide (ch = 45)) &&
        decide (∃ next ∈ rest.head?, isdigit next = true))) = true := by
      cases hdigit : isdigit ch with
      | true => rfl
      | false =>
        rw [hdigit] at hnumber
        simpa using hnumber
    rw [if_pos hnumber, if_pos hbool]
    exact readNumberAt_agrees h (by omega) pos
  · have hbool : ¬(isdigit ch || ((!isdigit ch && decide (ch = 45)) &&
        decide (∃ next ∈ rest.head?, isdigit next = true))) = true := by
      obtain ⟨hdigit, hminus⟩ := not_or.mp hnumber
      rw [Bool.not_eq_true] at hdigit
      rw [hdigit]
      simpa using hminus
    rw [if_neg hnumber, if_neg hbool]
    by_cases hquote : ch = 39
    · rw [if_pos hquote, if_pos hquote]
      subst hquote
      exact readStringTokenAt_agrees h (by omega) pos
    · rw [if_neg hquote, if_neg hquote]
      exact readSymbolAt_agrees h pos

end Round

/-! ### The loop and the source -/

/-- The loop ends, and does what `tokenizeFrom` does. -/
theorem tokenizeFromAt_eq {source : CString} {rounds n fuel index : ℕ} {text : Bytes}
    (h : Before source index text) (hn : text.length < n) (hfuel : text.length < fuel)
    (hrounds : text.length < rounds) (tokens : List Token) (pos : Position) :
    tokenizeFromAt rounds source n tokens index pos =
      ofResult ((tokenizeFrom fuel text pos).map fun more => tokens ++ more) := by
  induction n generalizing fuel index text tokens pos with
  | zero => exact absurd hn (Nat.not_lt_zero _)
  | succ n ih =>
    obtain ⟨fuel, rfl⟩ := Nat.exists_eq_succ_of_ne_zero (Nat.ne_of_gt (Nat.zero_lt_of_lt hfuel))
    rw [tokenizeFromAt, h.byte, pure_bind]
    cases text with
    | nil => rfl
    | cons ch rest =>
      have hch : ch ≠ 0 := by
        rintro rfl
        exact h.nul_free List.mem_cons_self
      rw [List.length_cons] at hn hfuel hrounds
      rw [List.headD_cons, if_neg hch, tokenizeFrom]
      have hround := lexOneAt_agrees h hrounds pos
      cases hlex : lexOne ch rest pos with
      | error e =>
        rw [hlex] at hround
        rw [show lexOneAt rounds source ch index pos = throw e from hround]
        rfl
      | ok l =>
        rw [hlex] at hround
        obtain ⟨stop, hlexed, hafter⟩ := hround
        have hle := lexOne_rest hlex
        obtain ⟨token, rest', pos'⟩ := l
        dsimp only at hlexed hafter hle ⊢
        rw [hlexed, pure_bind]
        dsimp only
        rw [@ih fuel stop rest' hafter (by omega) (by omega) (by omega)]
        cases tokenizeFrom fuel rest' pos' with
        | error e => rfl
        | ok more =>
          show ofResult (.ok (tokens ++ token.toList ++ more)) =
            ofResult (.ok (tokens ++ (token.toList ++ more)))
          rw [List.append_assoc]

theorem headD_eq {text : Bytes} {b : UInt8} (hb : b ≠ 0) (h : text.headD 0 = b) :
    ∃ tail, text = b :: tail := by
  cases text with
  | nil => exact absurd h.symm hb
  | cons c tail =>
    obtain rfl : c = b := h
    exact ⟨tail, rfl⟩

theorem skipByteOrderMark_other {source : Bytes} (h : ∀ rest, source ≠ 0xEF :: 0xBB :: 0xBF :: rest) :
    skipByteOrderMark source = (source, ⟨1, 1⟩) := by
  unfold skipByteOrderMark
  split
  · rename_i rest
    exact absurd rfl (h rest)
  · rfl

/-- The test for a byte order mark reads as far as the bytes are those of the mark. -/
theorem hasMarkAt_cases (source : CString) :
    (hasMarkAt source = pure true ∧ skipByteOrderMark source.bytes = (source.bytes.drop 3, ⟨1, 4⟩) ∧
        3 ≤ source.length) ∨
      hasMarkAt source = pure false ∧ skipByteOrderMark source.bytes = (source.bytes, ⟨1, 1⟩) := by
  have h : Before source 0 source.bytes := ⟨rfl, Nat.zero_le _⟩
  have hlength : source.length = source.bytes.length := rfl
  generalize source.bytes = text at h hlength
  rw [hasMarkAt, h.byte, pure_bind, hlength]
  by_cases hfirst : text.headD 0 = 0xEF
  · obtain ⟨text, rfl⟩ := headD_eq (by decide) hfirst
    rw [if_pos hfirst, h.succ.byte, pure_bind]
    by_cases hsecond : text.headD 0 = 0xBB
    · obtain ⟨text, rfl⟩ := headD_eq (by decide) hsecond
      rw [if_pos hsecond, h.succ.succ.byte, pure_bind]
      by_cases hthird : text.headD 0 = 0xBF
      · obtain ⟨text, rfl⟩ := headD_eq (by decide) hthird
        exact Or.inl ⟨rfl, rfl, by simp⟩
      · rw [decide_eq_false hthird]
        refine Or.inr ⟨rfl, skipByteOrderMark_other fun rest heq => hthird ?_⟩
        rw [(List.cons.inj (List.cons.inj heq).2).2]
        rfl
    · rw [if_neg hsecond]
      refine Or.inr ⟨rfl, skipByteOrderMark_other fun rest heq => hsecond ?_⟩
      rw [(List.cons.inj heq).2]
      rfl
  · rw [if_neg hfirst]
    refine Or.inr ⟨rfl, skipByteOrderMark_other fun rest heq => hfirst ?_⟩
    rw [heq]
    rfl

/-- At most one token a byte, and the `END` token. -/
theorem tokenizeSql_length {source : CString} {tokens : List Token}
    (h : tokenizeSql source = .ok tokens) : tokens.length ≤ source.length + 1 := by
  obtain ⟨pieces, hpieces, rfl⟩ := (tokenizeFrom_iff (Nat.lt_succ_self _)).mp h
  have htokens := tokensAt_length (skipByteOrderMark source.bytes).2 pieces
  have hlength := hpieces.length_le
  have hskip : (skipByteOrderMark source.bytes).1.length ≤ source.length := by
    rcases hasMarkAt_cases source with ⟨-, hskip, -⟩ | ⟨-, hskip⟩
    · rw [hskip, List.length_drop]
      exact Nat.sub_le _ 3
    · rw [hskip]
      exact le_refl _
  exact htokens.trans (Nat.succ_le_succ (hlength.trans hskip))

/-- **The tokenizer.**  With more rounds than the source has bytes, it never reads behind the terminator
and ends. -/
theorem tokenizeSqlAt_eq {source : CString} {rounds : ℕ} (hrounds : source.length < rounds) :
    tokenizeSqlAt rounds source = ofResult (tokenizeSql source) := by
  rw [tokenizeSqlAt, tokenizeSql]
  rcases hasMarkAt_cases source with ⟨hmark, hskip, hlength⟩ | ⟨hmark, hskip⟩
  · have h : Before source 3 (source.bytes.drop 3) := ⟨rfl, hlength⟩
    have hle := h.length
    rw [hmark, pure_bind, if_pos rfl, hskip]
    dsimp only
    rw [tokenizeFromAt_eq h (by omega) (Nat.lt_succ_self _) (by omega)]
    cases tokenizeFrom ((source.bytes.drop 3).length + 1) (source.bytes.drop 3) ⟨1, 4⟩ <;> rfl
  · have h : Before source 0 source.bytes := ⟨rfl, Nat.zero_le _⟩
    rw [hmark, pure_bind, if_neg (by decide), hskip]
    dsimp only
    rw [tokenizeFromAt_eq h hrounds (Nat.lt_succ_self _) hrounds]
    cases tokenizeFrom (source.bytes.length + 1) source.bytes ⟨1, 1⟩ <;> rfl

end MiniSql
