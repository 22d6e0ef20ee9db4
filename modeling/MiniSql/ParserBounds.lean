import MiniSql.Grammar
import MiniSql.TokenizerBounds

/-!
# The cursor of the parser

The parser with `tokens.items` as an array and `current` as an index into it.  `peek` outside the array,
`current++` at the `END` token, and a loop that needs more rounds than it is given are faults.

* `peekAt` is the only way to look at a token, and `consumeAt` the only one to move.
* `identifierListRound`, `valueListRound` and `scriptRound` are one round of each of the loops.
* `parseStatementsAt` and `parseSqlScriptAt` are the functions of `Parser` with the cursor.

Main results:

* `scriptRound_consumes`: every round of the loop fails or consumes a token.
* `parseStatementsAt_eq`, `parseSqlScriptAt_eq`: without a fault, the parser does what the one on lists does.
* `parseSqlScript_bounded`: tokenizer and parser on every source, with any number of rounds above the number
  of its bytes.
-/

namespace MiniSql

open CheckedCursor PrefixParsing

/-! ### Looking at tokens -/

/-- `peek` -/
def peekAt (tokens : List Token) (current : ℕ) : Checked ParseError Token := itemAt tokens current

/-- An error at a token. -/
def locatedAt (text : CString) (token : Token) : ParseError := .located text token.line token.column

/-- `match`: the position behind a token of this type. -/
def matchAt (type : TokenType) (tokens : List Token) (current : ℕ) :
    Checked ParseError (Option ℕ) := do
  let token ← peekAt tokens current
  if token.type = type then
    let current ← advance tokens current
    pure (some current)
  else pure none

/-- `consume` -/
def consumeAt (type : TokenType) (message : CString) (tokens : List Token) (current : ℕ) :
    Checked ParseError ℕ := do
  let token ← peekAt tokens current
  if token.type = type then advance tokens current else throw (locatedAt message token)

/-! ### Lists and names -/

/-- A round of `parse_identifier_list`: the lexeme, and whether a comma comes behind it. -/
def identifierListRound (tokens : List Token) (current : ℕ) :
    Checked ParseError ((CString × Bool) × ℕ) :=
  sepListRound identifierItem isComma (locatedAt (lit "expected identifier")) tokens current

/-- A round of `parse_value_list`. -/
def valueListRound (tokens : List Token) (current : ℕ) :
    Checked ParseError ((CString × Bool) × ℕ) :=
  sepListRound literalItem isComma (locatedAt (lit "expected literal value")) tokens current

/-- `parse_identifier_list`, with a bound on the rounds of its loop. -/
def parseIdentifierListAt (rounds : ℕ) (tokens : List Token) (current : ℕ) :
    Checked ParseError (StringList × ℕ) :=
  sepListAt identifierItem isComma (locatedAt (lit "expected identifier")) tokens rounds [] current

/-- `parse_value_list` -/
def parseValueListAt (rounds : ℕ) (tokens : List Token) (current : ℕ) :
    Checked ParseError (StringList × ℕ) :=
  sepListAt literalItem isComma (locatedAt (lit "expected literal value")) tokens rounds [] current

/-- `parse_qualified_name` -/
def parseQualifiedNameAt (tokens : List Token) (current : ℕ) :
    Checked ParseError (QualifiedName × ℕ) := do
  let first ← peekAt tokens current
  match identifierItem first with
  | none => throw (locatedAt (lit "expected table name") first)
  | some name =>
      let current ← advance tokens current
      match ← matchAt .dot tokens current with
      | none => pure (⟨none, name⟩, current)
      | some current =>
          let second ← peekAt tokens current
          match identifierItem second with
          | none => throw (locatedAt (lit "expected identifier after '.'") second)
          | some table =>
              let current ← advance tokens current
              pure (⟨some name, table⟩, current)

/-! ### Statements -/

/-- `parse_insert`, behind the `INSERT`. -/
def parseInsertAt (rounds : ℕ) (tokens : List Token) (current : ℕ) :
    Checked ParseError (Statement × ℕ) := do
  let current ← consumeAt .into (lit "expected INTO after INSERT") tokens current
  let (target, current) ← parseQualifiedNameAt tokens current
  let current ← consumeAt .lparen (lit "expected '(' after table name") tokens current
  let (columns, current) ← parseIdentifierListAt rounds tokens current
  let current ← consumeAt .rparen (lit "expected ')' after column list") tokens current
  let current ← consumeAt .values (lit "expected VALUES keyword") tokens current
  let current ← consumeAt .lparen (lit "expected '(' before VALUES list") tokens current
  let (values, current) ← parseValueListAt rounds tokens current
  let current ← consumeAt .rparen (lit "expected ')' after VALUES list") tokens current
  pure (.insert ⟨target, columns, values⟩, current)

/-- The select list: `select_all` and `columns`. -/
def parseSelectListAt (rounds : ℕ) (tokens : List Token) (current : ℕ) :
    Checked ParseError ((Bool × StringList) × ℕ) := do
  match ← matchAt .star tokens current with
  | some current => pure ((true, []), current)
  | none =>
      let (columns, current) ← parseIdentifierListAt rounds tokens current
      pure ((false, columns), current)

/-- The operators in the order `parse_select` tries them. -/
def operatorTypes : List (TokenType × WhereOperator) :=
  [(.equal, .equal), (.greaterEqual, .greaterEqual), (.greater, .greater), (.lessEqual, .lessEqual),
    (.less, .less)]

def matchOperatorAt (tokens : List Token) (current : ℕ) :
    List (TokenType × WhereOperator) → Checked ParseError (Option (WhereOperator × ℕ))
  | [] => pure none
  | (type, op) :: operators => do
      match ← matchAt type tokens current with
      | some current => pure (some (op, current))
      | none => matchOperatorAt tokens current operators

/-- The WHERE clause of `parse_select`, if there is one. -/
def parseWhereAt (tokens : List Token) (current : ℕ) :
    Checked ParseError (Option WhereClause × ℕ) := do
  match ← matchAt .where_ tokens current with
  | none => pure (none, current)
  | some current =>
      let column ← peekAt tokens current
      match identifierItem column with
      | none => throw (locatedAt (lit "expected column name after WHERE") column)
      | some name =>
          let current ← advance tokens current
          match ← matchOperatorAt tokens current operatorTypes with
          | none => throw .comparisonOperator
          | some (op, current) =>
              let value ← peekAt tokens current
              match literalItem value with
              | none => throw (locatedAt (lit "expected literal after '='") value)
              | some text =>
                  let current ← advance tokens current
                  pure (some ⟨name, text, op⟩, current)

/-- `parse_select`, behind the `SELECT`. -/
def parseSelectAt (rounds : ℕ) (tokens : List Token) (current : ℕ) :
    Checked ParseError (Statement × ℕ) := do
  let ((selectAll, columns), current) ← parseSelectListAt rounds tokens current
  let current ← consumeAt .from_ (lit "expected FROM after select list") tokens current
  let (source, current) ← parseQualifiedNameAt tokens current
  let (where_, current) ← parseWhereAt tokens current
  pure (.select ⟨source, selectAll, columns, where_⟩, current)

/-- The choice between the statements in the loop of `parse_sql_script`. -/
def parseStatementAt (rounds : ℕ) (tokens : List Token) (current : ℕ) :
    Checked ParseError (Statement × ℕ) := do
  match ← matchAt .insert tokens current with
  | some current => parseInsertAt rounds tokens current
  | none =>
      match ← matchAt .select tokens current with
      | some current => parseSelectAt rounds tokens current
      | none =>
          let token ← peekAt tokens current
          throw (locatedAt (lit "unsupported statement") token)

/-! ### Scripts -/

/-- A round of the loop of `parse_sql_script` before the `END` token. -/
def scriptRound (rounds : ℕ) (tokens : List Token) (current : ℕ) :
    Checked ParseError (Option Statement × ℕ) := do
  match ← matchAt .semicolon tokens current with
  | some current => pure (none, current)
  | none =>
      let (statement, current) ← parseStatementAt rounds tokens current
      match ← matchAt .semicolon tokens current with
      | some current => pure (some statement, current)
      | none => pure (some statement, current)

/-- The loop of `parse_sql_script`. -/
def parseStatementsAt (rounds : ℕ) (tokens : List Token) :
    ℕ → List Statement → ℕ → Checked ParseError (List Statement)
  | 0, _, _ => fault .rounds
  | n + 1, script, current => do
      let token ← peekAt tokens current
      if token.type = .end_ then pure script
      else
        let (statement, current) ← scriptRound rounds tokens current
        parseStatementsAt rounds tokens n (script ++ statement.toList) current

/-- What the caller of `parse_sql_script` gets: the error, or `none` for success, and `*script`, which
`free_script` empties. -/
def scriptOutcome (result : Checked ParseError (List Statement)) :
    Except Fault (Option ParseError × List Statement) :=
  match result.run with
  | .error fault => .error fault
  | .ok (.error e) => .ok (some e, [])
  | .ok (.ok script) => .ok (none, script)

/-- `parse_sql_script`, with a bound on the rounds of each loop. -/
def parseSqlScriptAt (rounds : ℕ) (source : CString) :
    Except Fault (Option ParseError × List Statement) :=
  scriptOutcome do
    let tokens ← tokenizeSqlAt rounds source
    parseStatementsAt rounds tokens rounds [] 0

/-! ### One step -/

section Steps

variable {tokens rest back : List Token} {i : ℕ} {t : Token}

/-- The last token is the `END` token. -/
def EndsInEnd (tokens : List Token) : Prop := ∀ t ∈ tokens.getLast?, t.type = .end_

theorem EndsInEnd.behind (hend : EndsInEnd tokens) (h : At tokens i (t :: back))
    (ht : t.type ≠ .end_) : back ≠ [] := by
  rintro rfl
  exact ht (hend t h.last)

theorem matchAt_eq (hend : EndsInEnd tokens) (h : At tokens i (t :: back)) {type : TokenType}
    (htype : type ≠ .end_) :
    matchAt type tokens i = pure (if t.type = type then some (i + 1) else none) := by
  rw [matchAt, peekAt, h.item, pure_bind]
  by_cases ht : t.type = type
  · have hback := hend.behind h (by rw [ht]; exact htype)
    rw [if_pos ht, if_pos ht, h.advance hback]
    rfl
  · rw [if_neg ht, if_neg ht]

theorem matchAt_cases (hend : EndsInEnd tokens) (h : At tokens i rest) {type : TokenType}
    (htype : type ≠ .end_) :
    (matchToken type rest = none ∧ matchAt type tokens i = pure none) ∨
      ∃ back, matchToken type rest = some back ∧ matchAt type tokens i = pure (some (i + 1)) ∧
        At tokens (i + 1) back := by
  obtain ⟨t, back, rfl⟩ := List.exists_cons_of_ne_nil h.2
  rw [matchAt_eq hend h htype]
  by_cases ht : t.type = type
  · have hback := hend.behind h (by rw [ht]; exact htype)
    rw [if_pos ht]
    exact Or.inr ⟨back, if_pos ht, rfl, h.succ hback⟩
  · rw [if_neg ht]
    exact Or.inl ⟨if_neg ht, rfl⟩

theorem consumeAt_mirrors (hend : EndsInEnd tokens) (h : At tokens i rest) {type : TokenType}
    (htype : type ≠ .end_) (message : CString) :
    MirrorsStep tokens i (consumeAt type message tokens i) (consume type message rest) := by
  obtain ⟨t, back, rfl⟩ := List.exists_cons_of_ne_nil h.2
  rw [consumeAt, peekAt, h.item, pure_bind, consume, peek_cons]
  by_cases ht : t.type = type
  · have hback := hend.behind h (by rw [ht]; exact htype)
    rw [if_pos ht, if_pos ht, h.advance hback]
    exact ⟨i + 1, rfl, Nat.lt_succ_self i, h.succ hback⟩
  · rw [if_neg ht, if_neg ht]
    rfl

theorem EndsInEnd.identifier (hend : EndsInEnd tokens) :
    ∀ t ∈ tokens.getLast?, IsSentinel identifierItem isComma t := by
  intro t ht
  rw [IsSentinel, identifierItem, isComma, hend t ht]
  exact ⟨rfl, rfl⟩

theorem EndsInEnd.literal (hend : EndsInEnd tokens) :
    ∀ t ∈ tokens.getLast?, IsSentinel literalItem isComma t := by
  intro t ht
  rw [IsSentinel, literalItem, isComma, hend t ht]
  exact ⟨rfl, rfl⟩

/-- An item is not the `END` token. -/
theorem EndsInEnd.item {item : Token → Option CString}
    (hitems : ∀ t ∈ tokens.getLast?, IsSentinel item isComma t) (h : At tokens i (t :: back))
    {text : CString} (ht : item t = some text) : back ≠ [] := by
  apply h.behind hitems
  rintro ⟨hnone, -⟩
  rw [ht] at hnone
  cases hnone

end Steps

/-! ### The productions -/

section Productions

variable {tokens : List Token}

theorem listAt_refines {item : Token → Option CString} {expected : CString}
    (hitems : ∀ t ∈ tokens.getLast?, IsSentinel item isComma t) {rounds : ℕ}
    (hrounds : tokens.length ≤ rounds) :
    Refines tokens (sepListAt item isComma (locatedAt expected) tokens rounds [])
      (sepList item isComma (errorAt expected)) := by
  intro i rest h
  have hlength := h.length
  have herror : ∀ t rest, errorAt expected (t :: rest) = locatedAt expected t := fun _ _ => rfl
  have hmirrors := sepListAt_mirrors hitems herror h (show rest.length ≤ rounds by omega) []
  cases hlist : sepList item isComma (errorAt expected) rest with
  | error e =>
    rw [hlist] at hmirrors
    exact hmirrors
  | ok r =>
    rw [hlist] at hmirrors
    exact hmirrors

theorem parseIdentifierListAt_refines (hend : EndsInEnd tokens) {rounds : ℕ}
    (hrounds : tokens.length ≤ rounds) :
    Refines tokens (parseIdentifierListAt rounds tokens) parseIdentifierList :=
  listAt_refines hend.identifier hrounds

theorem parseValueListAt_refines (hend : EndsInEnd tokens) {rounds : ℕ}
    (hrounds : tokens.length ≤ rounds) :
    Refines tokens (parseValueListAt rounds tokens) parseValueList :=
  listAt_refines hend.literal hrounds

theorem parseQualifiedNameAt_refines (hend : EndsInEnd tokens) :
    Refines tokens (parseQualifiedNameAt tokens) parseQualifiedName := by
  intro i rest h
  obtain ⟨t, back, rfl⟩ := List.exists_cons_of_ne_nil h.2
  rw [parseQualifiedNameAt, peekAt, h.item, pure_bind, parseQualifiedName, peek_cons]
  cases hname : identifierItem t with
  | none => exact .throw _
  | some name =>
    have hback := EndsInEnd.item hend.identifier h hname
    have hnext := h.succ hback
    dsimp only
    rw [h.advance hback, pure_bind, List.tail_cons]
    rcases matchAt_cases hend hnext (show TokenType.dot ≠ .end_ by decide) with
      ⟨hdot, hmatch⟩ | ⟨back', hdot, hmatch, hafter⟩
    · rw [hmatch, hdot, pure_bind]
      exact (Mirrors.pure _ hnext).mono (Nat.le_succ i)
    · rw [hmatch, hdot, pure_bind]
      obtain ⟨t', tail, rfl⟩ := List.exists_cons_of_ne_nil hafter.2
      dsimp only
      rw [peekAt, hafter.item, pure_bind, peek_cons]
      cases htable : identifierItem t' with
      | none => exact .throw _
      | some table =>
        have htail := EndsInEnd.item hend.identifier hafter htable
        dsimp only
        rw [hafter.advance htail]
        exact (Mirrors.pure _ (hafter.succ htail)).mono (by omega)

theorem parseInsertAt_refines (hend : EndsInEnd tokens) {rounds : ℕ}
    (hrounds : tokens.length ≤ rounds) :
    Refines tokens (parseInsertAt rounds tokens) parseInsert := by
  intro i rest h
  rw [parseInsertAt, parseInsert]
  apply (consumeAt_mirrors hend h (by decide) _).bind
  intro i rest h
  apply (parseQualifiedNameAt_refines hend i rest h).bind
  intro target i rest h
  apply (consumeAt_mirrors hend h (by decide) _).bind
  intro i rest h
  apply (parseIdentifierListAt_refines hend hrounds i rest h).bind
  intro columns i rest h
  apply (consumeAt_mirrors hend h (by decide) _).bind
  intro i rest h
  apply (consumeAt_mirrors hend h (by decide) _).bind
  intro i rest h
  apply (consumeAt_mirrors hend h (by decide) _).bind
  intro i rest h
  apply (parseValueListAt_refines hend hrounds i rest h).bind
  intro values i rest h
  apply (consumeAt_mirrors hend h (by decide) _).bind
  intro i rest h
  exact .pure _ h

theorem parseSelectListAt_refines (hend : EndsInEnd tokens) {rounds : ℕ}
    (hrounds : tokens.length ≤ rounds) :
    Refines tokens (parseSelectListAt rounds tokens) parseSelectList := by
  intro i rest h
  rw [parseSelectListAt, parseSelectList]
  rcases matchAt_cases hend h (show TokenType.star ≠ .end_ by decide) with
    ⟨hstar, hmatch⟩ | ⟨back, hstar, hmatch, hback⟩
  · rw [hmatch, hstar, pure_bind]
    apply (parseIdentifierListAt_refines hend hrounds i rest h).bind
    intro columns i rest h
    exact .pure _ h
  · rw [hmatch, hstar, pure_bind]
    exact (Mirrors.pure _ hback).mono (Nat.le_succ i)

/-- The five tries of `parse_select` find the operator. -/
theorem matchOperatorAt_eq (hend : EndsInEnd tokens) {i : ℕ} {t : Token} {back : List Token}
    (h : At tokens i (t :: back)) :
    matchOperatorAt tokens i operatorTypes = pure ((operatorOf t.type).map fun op => (op, i + 1)) := by
  have hall : ∀ operators : List (TokenType × WhereOperator), (∀ o ∈ operators, o.1 ≠ .end_) →
      matchOperatorAt tokens i operators =
        pure ((operators.find? fun o => decide (t.type = o.1)).map fun o => (o.2, i + 1)) := by
    intro operators hoperators
    induction operators with
    | nil => rfl
    | cons o operators ih =>
      have hrest := ih fun o' ho' => hoperators o' (List.mem_cons_of_mem o ho')
      rw [matchOperatorAt, matchAt_eq hend h (hoperators o List.mem_cons_self), pure_bind,
        List.find?_cons]
      by_cases ht : t.type = o.1
      · rw [if_pos ht, decide_eq_true ht]
        rfl
      · rw [if_neg ht, decide_eq_false ht]
        exact hrest
  rw [hall operatorTypes (by decide)]
  cases t.type <;> rfl

theorem parseWhereAt_refines (hend : EndsInEnd tokens) :
    Refines tokens (parseWhereAt tokens) parseWhere := by
  intro i rest h
  rw [parseWhereAt, parseWhere]
  rcases matchAt_cases hend h (show TokenType.where_ ≠ .end_ by decide) with
    ⟨hwhere, hmatch⟩ | ⟨back, hwhere, hmatch, hback⟩
  · rw [hmatch, hwhere, pure_bind]
    exact .pure _ h
  · rw [hmatch, hwhere, pure_bind]
    obtain ⟨column, back, rfl⟩ := List.exists_cons_of_ne_nil hback.2
    dsimp only
    rw [peekAt, hback.item, pure_bind, peek_cons]
    cases hname : identifierItem column with
    | none => exact .throw _
    | some name =>
      have hrest := EndsInEnd.item hend.identifier hback hname
      have hnext := hback.succ hrest
      obtain ⟨op, tail, rfl⟩ := List.exists_cons_of_ne_nil hrest
      dsimp only
      rw [hback.advance hrest, pure_bind, List.tail_cons, peek_cons, matchOperatorAt_eq hend hnext,
        pure_bind]
      cases hop : operatorOf op.type with
      | none => exact .throw _
      | some operator =>
        have htail := hend.behind hnext (fun hop' => by rw [hop'] at hop; cases hop)
        have hvalue := hnext.succ htail
        obtain ⟨value, tail, rfl⟩ := List.exists_cons_of_ne_nil htail
        rw [Option.map_some]
        dsimp only
        rw [peekAt, hvalue.item, pure_bind, List.tail_cons, peek_cons]
        cases htext : literalItem value with
        | none => exact .throw _
        | some text =>
          have hlast := EndsInEnd.item hend.literal hvalue htext
          dsimp only
          rw [hvalue.advance hlast]
          exact (Mirrors.pure _ (hvalue.succ hlast)).mono (by omega)

theorem parseSelectAt_refines (hend : EndsInEnd tokens) {rounds : ℕ}
    (hrounds : tokens.length ≤ rounds) :
    Refines tokens (parseSelectAt rounds tokens) parseSelect := by
  intro i rest h
  rw [parseSelectAt, parseSelect]
  apply (parseSelectListAt_refines hend hrounds i rest h).bind
  intro selected i rest h
  apply (consumeAt_mirrors hend h (by decide) _).bind
  intro i rest h
  apply (parseQualifiedNameAt_refines hend i rest h).bind
  intro source i rest h
  apply (parseWhereAt_refines hend i rest h).bind
  intro where_ i rest h
  exact .pure _ h

/-- A statement takes at least its keyword. -/
theorem parseStatementAt_mirrors (hend : EndsInEnd tokens) {rounds : ℕ}
    (hrounds : tokens.length ≤ rounds) {i : ℕ} {rest : List Token} (h : At tokens i rest) :
    Mirrors tokens (i + 1) (parseStatementAt rounds tokens i) (parseStatement rest) := by
  rw [parseStatementAt, parseStatement]
  rcases matchAt_cases hend h (show TokenType.insert ≠ .end_ by decide) with
    ⟨hinsert, hmatch⟩ | ⟨back, hinsert, hmatch, hback⟩
  · rw [hmatch, hinsert, pure_bind]
    dsimp only
    rcases matchAt_cases hend h (show TokenType.select ≠ .end_ by decide) with
      ⟨hselect, hmatch'⟩ | ⟨back, hselect, hmatch', hback⟩
    · rw [hmatch', hselect, pure_bind]
      obtain ⟨t, back, rfl⟩ := List.exists_cons_of_ne_nil h.2
      dsimp only
      rw [peekAt, h.item, pure_bind]
      exact .throw _
    · rw [hmatch', hselect, pure_bind]
      exact parseSelectAt_refines hend hrounds (i + 1) back hback
  · rw [hmatch, hinsert, pure_bind]
    exact parseInsertAt_refines hend hrounds (i + 1) back hback

end Productions

/-! ### The loop over statements -/

section Script

variable {tokens : List Token} {rounds : ℕ}

/-- What a round does: a semicolon, an error of a statement, or a statement with its semicolon. -/
theorem scriptRound_cases (hend : EndsInEnd tokens) (hrounds : tokens.length ≤ rounds) {i : ℕ}
    {rest : List Token} (h : At tokens i rest) :
    (∃ back, matchToken .semicolon rest = some back ∧
        scriptRound rounds tokens i = pure (none, i + 1) ∧ At tokens (i + 1) back) ∨
      matchToken .semicolon rest = none ∧
        ((∃ e, parseStatement rest = .error e ∧ scriptRound rounds tokens i = throw e) ∨
          ∃ statement back j, parseStatement rest = .ok (statement, back) ∧
            scriptRound rounds tokens i = pure (some statement, j) ∧ i < j ∧
            At tokens j ((matchToken .semicolon back).getD back)) := by
  rw [scriptRound]
  rcases matchAt_cases hend h (show TokenType.semicolon ≠ .end_ by decide) with
    ⟨hnone, hmatch⟩ | ⟨back, hsome, hmatch, hback⟩
  · refine Or.inr ⟨hnone, ?_⟩
    rw [hmatch, pure_bind]
    have hmirrors := parseStatementAt_mirrors hend hrounds h
    cases hstatement : parseStatement rest with
    | error e =>
      rw [hstatement] at hmirrors
      refine Or.inl ⟨e, rfl, ?_⟩
      dsimp only
      rw [show parseStatementAt rounds tokens i = throw e from hmirrors]
      rfl
    | ok r =>
      obtain ⟨statement, back⟩ := r
      rw [hstatement] at hmirrors
      obtain ⟨j, hparse, hij, hj⟩ := hmirrors
      refine Or.inr ⟨statement, back, ?_⟩
      dsimp only
      rw [hparse, pure_bind]
      rcases matchAt_cases hend hj (show TokenType.semicolon ≠ .end_ by decide) with
        ⟨hnone', hmatch'⟩ | ⟨back', hsome', hmatch', hback'⟩
      · rw [hmatch', hnone']
        exact ⟨j, rfl, rfl, hij, hj⟩
      · rw [hmatch', hsome']
        exact ⟨j + 1, rfl, rfl, by omega, hback'⟩
  · rw [hmatch, pure_bind]
    exact Or.inl ⟨back, hsome, rfl, hback⟩

/-- Every round of the loop fails or consumes a token. -/
theorem scriptRound_consumes (hend : EndsInEnd tokens) (hrounds : tokens.length ≤ rounds) {i : ℕ}
    (hi : i < tokens.length) : FailsOrConsumes tokens i (scriptRound rounds tokens i) := by
  have hne : tokens.drop i ≠ [] := by simpa using hi
  rcases scriptRound_cases hend hrounds ⟨rfl, hne⟩ with
    ⟨back, -, hround, hback⟩ | ⟨-, ⟨e, -, hround⟩ | ⟨statement, back, j, -, hround, hij, hj⟩⟩
  · exact Or.inr ⟨none, i + 1, hround, Nat.lt_succ_self i, hback.lt⟩
  · exact Or.inl ⟨e, hround⟩
  · exact Or.inr ⟨some statement, j, hround, hij, hj.lt⟩

/-- The error, or the statements. -/
def scriptResult : Option ParseError × List Statement → Checked ParseError (List Statement)
  | (some e, _) => throw e
  | (none, script) => pure script

/-- The loop does what `parseStatements` does. -/
theorem parseStatementsAt_eq (hend : EndsInEnd tokens) (hrounds : tokens.length ≤ rounds)
    {n fuel : ℕ} {i : ℕ} {rest : List Token} (h : At tokens i rest) (hn : rest.length ≤ n)
    (hfuel : rest.length ≤ fuel) (script : List Statement) :
    parseStatementsAt rounds tokens n script i = scriptResult (parseStatements fuel rest script) := by
  induction n generalizing fuel i rest script with
  | zero => exact absurd (List.eq_nil_of_length_eq_zero (Nat.le_zero.mp hn)) h.2
  | succ n ih =>
    have hpos := List.length_pos_of_ne_nil h.2
    obtain ⟨fuel, rfl⟩ := Nat.exists_eq_succ_of_ne_zero (show fuel ≠ 0 by omega)
    obtain ⟨t, back, rfl⟩ := List.exists_cons_of_ne_nil h.2
    rw [parseStatementsAt, parseStatements, peekAt, h.item, pure_bind, atEnd, peek_cons]
    by_cases ht : t.type = .end_
    · rw [if_pos ht, if_pos (decide_eq_true ht)]
      rfl
    · rw [if_neg ht, if_neg (by simpa using ht)]
      have hlength := h.length
      rcases scriptRound_cases hend hrounds h with
        ⟨back', hsome, hround, hback⟩ |
          ⟨hnone, ⟨e, hstatement, hround⟩ | ⟨statement, back', j, hstatement, hround, hij, hj⟩⟩
      · rw [hround, pure_bind, hsome]
        have hlength' := hback.length
        have hloop := @ih fuel _ _ hback (by omega) (by omega) script
        simpa using hloop
      · rw [hround, hnone, hstatement]
        rfl
      · rw [hround, pure_bind, hnone, hstatement]
        have hlength' := hj.length
        exact ih hj (by omega) (by omega) (script ++ [statement])

end Script

theorem scriptOutcome_result {r : Option ParseError × List Statement} (h : r.1 ≠ none → r.2 = []) :
    scriptOutcome (scriptResult r) = .ok r := by
  obtain ⟨error, script⟩ := r
  cases error with
  | none => rfl
  | some e =>
    obtain rfl : script = [] := h (by simp)
    rfl

theorem tokenizeSql_endsInEnd {source : CString} {tokens : List Token}
    (h : tokenizeSql source = .ok tokens) : EndsInEnd tokens := by
  obtain ⟨body, last, rfl, hlast, -⟩ := tokenizeSql_end h
  intro t ht
  rw [List.getLast?_concat] at ht
  rw [← Option.some.inj ht, hlast]

/-- The parser ends without a fault, and does what `parseSqlScript` does. -/
theorem parseSqlScriptAt_eq {source : CString} {rounds : ℕ} (hrounds : source.length < rounds) :
    parseSqlScriptAt rounds source = .ok (parseSqlScript source) := by
  rw [parseSqlScriptAt, tokenizeSqlAt_eq hrounds, parseSqlScript]
  cases htokens : tokenizeSql source with
  | error e => rfl
  | ok tokens =>
    have hlength := tokenizeSql_length htokens
    have hend := tokenizeSql_endsInEnd htokens
    have hne : tokens ≠ [] := by
      obtain ⟨body, last, rfl, -⟩ := tokenizeSql_end htokens
      simp
    have hloop := @parseStatementsAt_eq tokens rounds hend (by omega) rounds tokens.length 0 tokens
      ⟨rfl, hne⟩ (by omega) (le_refl _) []
    show scriptOutcome (parseStatementsAt rounds tokens rounds [] 0) = .ok _
    rw [hloop, scriptOutcome_result parseStatements_failed]

/-- **Bounds.**  On every source, with any number of rounds for each loop that is greater than the number
of its bytes: the tokenizer ends without a read behind the terminator; the parser ends without a `peek`
outside the tokens and without passing the `END` token, which is the last one and the only one; and every
round of the loop over statements and of the loops over lists, wherever it starts, fails or consumes a
token. -/
theorem parseSqlScript_bounded (source : CString) (rounds : ℕ) (hrounds : source.length < rounds) :
    tokenizeSqlAt rounds source = ofResult (tokenizeSql source) ∧
    parseSqlScriptAt rounds source = .ok (parseSqlScript source) ∧
    ∀ tokens, tokenizeSql source = .ok tokens →
      (∃ body last, tokens = body ++ [last] ∧ last.type = .end_ ∧ ∀ t ∈ body, t.type ≠ .end_) ∧
      ∀ current < tokens.length,
        FailsOrConsumes tokens current (scriptRound rounds tokens current) ∧
        FailsOrConsumes tokens current (identifierListRound tokens current) ∧
        FailsOrConsumes tokens current (valueListRound tokens current) := by
  refine ⟨tokenizeSqlAt_eq hrounds, parseSqlScriptAt_eq hrounds, fun tokens htokens => ?_⟩
  have hlength := tokenizeSql_length htokens
  have hend := tokenizeSql_endsInEnd htokens
  exact ⟨tokenizeSql_end htokens, fun current hcurrent =>
    ⟨scriptRound_consumes hend (by omega) hcurrent, sepListRound_consumes hend.identifier hcurrent,
      sepListRound_consumes hend.literal hcurrent⟩⟩

theorem parseSqlScript_bounded_cut :
    (lit "INSERT INTO t(a) VALUES ('x").length < 29 ∧
      parseSqlScriptAt 29 (lit "INSERT INTO t(a) VALUES ('x") =
        .ok (parseSqlScript (lit "INSERT INTO t(a) VALUES ('x")) := by
  have hrounds : (lit "INSERT INTO t(a) VALUES ('x").length < 29 := by decide
  exact ⟨hrounds, (parseSqlScript_bounded _ 29 hrounds).2.1⟩

end MiniSql
