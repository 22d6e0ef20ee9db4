import MiniSql.TablePaths

/-!
# Tokens

`tokenize_sql`.  A source text is a NUL-terminated string, and the state of the loop is the rest of the text
and a position.

* `Position` and `Token` count lines and columns without a bound; the `int`s of the source hold them as
  `toCInt` has it, which is what `positionText` prints.
* `lexOne` is one round of the main loop.  It skips blanks or a comment, or appends a token, and always
  consumes at least one byte (`lexOne_rest`).
* `tokenizeFrom` is the loop with the `END` token behind it, and `tokenizeSql` the whole function with the
  byte order mark.
* `ParseError` is what `parse_sql_script` leaves in its error buffer.

The codes below are `'` 39, `*` 42, `-` 45, `/` 47, `=` 61 and `_` 95.
-/

namespace MiniSql

/-! ### Errors -/

/-- What `parse_sql_script` leaves in its error buffer: most texts end in a position. -/
inductive ParseError where
  | located (text : CString) (line column : ℕ)
  | unterminatedComment
  | comparisonOperator
  deriving DecidableEq

/-- `snprintf("%d")` of a line or a column that has been counted up to `n`. -/
def positionText (n : ℕ) : CString where
  bytes := intBytes (toCInt n)
  nul_free := fun h => (intBytes_digits _ 0 h).elim (by decide) fun hdigit => ne_zero_of_isdigit hdigit rfl

def ParseError.message : ParseError → CString
  | located text line column =>
      text ++ lit " at line " ++ positionText line ++ lit ", column " ++ positionText column
  | unterminatedComment => lit "unterminated block comment"
  | comparisonOperator => lit "expected comparison operator (=, >, >=, <, <=) in WHERE clause"

/-! ### Tokens -/

inductive TokenType where
  | identifier
  | string
  | number
  | comma
  | dot
  | lparen
  | rparen
  | semicolon
  | star
  | equal
  | greater
  | greaterEqual
  | less
  | lessEqual
  | insert
  | into
  | values
  | select
  | from_
  | where_
  | end_
  deriving DecidableEq, Repr

/-- `line` and `column` are what the two counters have been moved up to; the `int`s of the source hold them
as `toCInt` has it. -/
structure Token where
  type : TokenType
  lexeme : CString
  line : ℕ
  column : ℕ
  deriving DecidableEq

/-- The keywords in the order `keyword_type` tries them. -/
def keywords : List (CString × TokenType) :=
  [(lit "INSERT", .insert), (lit "INTO", .into), (lit "VALUES", .values), (lit "SELECT", .select),
    (lit "FROM", .from_), (lit "WHERE", .where_)]

/-- `keyword_type`. -/
def keywordType (lexeme : CString) : TokenType :=
  match keywords.find? fun k => decide (sqlStricmp lexeme k.1 = 0) with
  | some (_, type) => type
  | none => .identifier

/-! ### Positions -/

/-- `line` and `column`, as in a token. -/
structure Position where
  line : ℕ
  column : ℕ
  deriving DecidableEq

def Position.advance (pos : Position) (n : ℕ) : Position := { pos with column := pos.column + n }

/-- The position behind `ch`, where the loop looks for newlines. -/
def Position.next (pos : Position) (ch : UInt8) : Position :=
  if ch = 10 then ⟨pos.line + 1, 1⟩ else pos.advance 1

/-! ### One round -/

/-- What a round of the loop leaves: the rest of the source and the position, and the token it appended. -/
structure Lexed where
  token : Option Token
  rest : Bytes
  pos : Position
  deriving DecidableEq

/-- The loop over the inside of a block comment, up to its end. -/
def skipBlockComment : Bytes → Position → Option (Bytes × Position)
  | [], _ => none
  | ch :: rest, pos =>
      if ch = 42 ∧ rest.head? = some 47 then some (rest.tail, pos.advance 2)
      else skipBlockComment rest (pos.next ch)

/-- The loop of `read_string_token` behind the opening quote: the content, what follows the closing
quote, and `*column` there.  Two quotes stand for one. -/
def readStringFrom : Bytes → ℕ → Option (Bytes × Bytes × ℕ)
  | [], _ => none
  | ch :: rest, column =>
      if ch = 39 then
        match rest with
        | [] => some ([], [], column)
        | next :: rest' =>
            if next = 39 then
              (readStringFrom rest' (column + 2)).map fun r => (39 :: r.1, r.2)
            else some ([], next :: rest', column)
      else (readStringFrom rest (column + 1)).map fun r => (ch :: r.1, r.2)
  termination_by structural source => source

/-- `read_string_token`.  The opening quote does not count in `*column`. -/
def readStringToken (rest : Bytes) (pos : Position) : Except ParseError Lexed :=
  match readStringFrom rest pos.column with
  | none => .error (.located (lit "unterminated string literal") pos.line pos.column)
  | some (content, rest, column) =>
      .ok ⟨some ⟨.string, CString.ofBuffer content, pos.line, pos.column⟩, rest,
        ⟨pos.line, column + 1⟩⟩

/-- A token of the bytes `lexeme`, with `rest` behind it. -/
def lexed (type : TokenType) (lexeme rest : Bytes) (pos : Position) : Lexed :=
  ⟨some ⟨type, CString.ofBuffer lexeme, pos.line, pos.column⟩, rest, pos.advance lexeme.length⟩

/-- The cases of the `switch` over punctuation: the token type, and the number of characters, which for
`>` and `<` depends on the next one. -/
def symbolType (ch : UInt8) (rest : Bytes) : Option (TokenType × ℕ) :=
  if ch = 44 then some (.comma, 1)
  else if ch = 46 then some (.dot, 1)
  else if ch = 40 then some (.lparen, 1)
  else if ch = 41 then some (.rparen, 1)
  else if ch = 59 then some (.semicolon, 1)
  else if ch = 42 then some (.star, 1)
  else if ch = 61 then some (.equal, 1)
  else if ch = 62 then if rest.head? = some 61 then some (.greaterEqual, 2) else some (.greater, 1)
  else if ch = 60 then if rest.head? = some 61 then some (.lessEqual, 2) else some (.less, 1)
  else none

def readSymbol (ch : UInt8) (rest : Bytes) (pos : Position) : Except ParseError Lexed :=
  match symbolType ch rest with
  | none => .error (.located (lit "unexpected character '" ++ CString.ofBuffer [ch] ++ lit "'")
      pos.line pos.column)
  | some (type, n) => .ok (lexed type ((ch :: rest).take n) ((ch :: rest).drop n) pos)

/-- One round of the loop of `tokenize_sql` at the character `ch`. -/
def lexOne (ch : UInt8) (rest : Bytes) (pos : Position) : Except ParseError Lexed :=
  if isspace ch then .ok ⟨none, rest, pos.next ch⟩
  else if ch = 45 ∧ rest.head? = some 45 then
    let comment := rest.tail.takeWhile fun c => decide (c ≠ 10)
    .ok ⟨none, rest.tail.dropWhile fun c => decide (c ≠ 10), pos.advance (2 + comment.length)⟩
  else if ch = 47 ∧ rest.head? = some 42 then
    match skipBlockComment rest.tail (pos.advance 2) with
    | none => .error .unterminatedComment
    | some (rest, pos) => .ok ⟨none, rest, pos⟩
  else if isalpha ch ∨ ch = 95 then
    let word := ch :: rest.takeWhile isIdentifierByte
    .ok (lexed (keywordType (CString.ofBuffer word)) word (rest.dropWhile isIdentifierByte) pos)
  else if isdigit ch ∨ (ch = 45 ∧ ∃ next ∈ rest.head?, isdigit next) then
    .ok (lexed .number (ch :: rest.takeWhile isdigit) (rest.dropWhile isdigit) pos)
  else if ch = 39 then readStringToken rest pos
  else readSymbol ch rest pos

/-! ### The loop -/

/-- The loop of `tokenize_sql` and the `END` token behind it.  Every round consumes a byte, so one round
more than there are bytes is enough (`tokenizeFrom_fuel`). -/
def tokenizeFrom : ℕ → Bytes → Position → Except ParseError (List Token)
  | 0, _, pos => .ok [⟨.end_, CString.empty, pos.line, pos.column⟩]
  | _, [], pos => .ok [⟨.end_, CString.empty, pos.line, pos.column⟩]
  | fuel + 1, ch :: rest, pos =>
      match lexOne ch rest pos with
      | .error e => .error e
      | .ok ⟨token, rest, pos⟩ =>
          match tokenizeFrom fuel rest pos with
          | .error e => .error e
          | .ok tokens => .ok (token.toList ++ tokens)

/-- The byte order mark at the start of a source is skipped. -/
def skipByteOrderMark : Bytes → Bytes × Position
  | 0xEF :: 0xBB :: 0xBF :: rest => (rest, ⟨1, 4⟩)
  | source => (source, ⟨1, 1⟩)

def tokenizeSql (source : CString) : Except ParseError (List Token) :=
  let (rest, pos) := skipByteOrderMark source.bytes
  tokenizeFrom (rest.length + 1) rest pos

/-! ### Types of tokens -/

/-- The tokens of one or two characters. -/
def symbolTypes : List (TokenType × ℕ) :=
  [(.comma, 1), (.dot, 1), (.lparen, 1), (.rparen, 1), (.semicolon, 1), (.star, 1), (.equal, 1),
    (.greaterEqual, 2), (.greater, 1), (.lessEqual, 2), (.less, 1)]

/-- What holds of both values holds of a choice. -/
theorem forall_mem_ite {α : Type*} {p : α → Prop} {c : Prop} [Decidable c] {a b : Option α}
    (ha : ∀ x ∈ a, p x) (hb : ∀ x ∈ b, p x) : ∀ x ∈ (if c then a else b), p x := by
  by_cases hc : c
  · rw [if_pos hc]
    exact ha
  · rw [if_neg hc]
    exact hb

theorem symbolType_mem {ch : UInt8} {rest : Bytes} {symbol : TokenType × ℕ}
    (h : symbolType ch rest = some symbol) : symbol ∈ symbolTypes := by
  have hall : ∀ s ∈ symbolType ch rest, s ∈ symbolTypes := by
    rw [symbolType]
    repeat' apply forall_mem_ite
    all_goals decide
  exact hall symbol h

/-- A word is a keyword or an identifier. -/
theorem keywordType_ne {type : TokenType} (hidentifier : .identifier ≠ type)
    (hkeywords : ∀ k ∈ keywords, k.2 ≠ type) (lexeme : CString) : keywordType lexeme ≠ type := by
  rw [keywordType]
  split
  · rename_i k type' hfind
    exact hkeywords _ (List.mem_of_find?_eq_some hfind)
  · exact hidentifier

end MiniSql
