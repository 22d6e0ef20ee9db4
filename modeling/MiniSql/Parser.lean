import MiniSql.Library.PrefixParsing
import MiniSql.Tokens

/-!
# The parser

`parse_sql_script` and the functions below it.

* The state of the parser is the list of the tokens from `current` on.  It ends in the `END` token, which
  nothing consumes, so `peek` always has a token to look at.
* `parseInsert` and `parseSelect` are the statements behind their keywords, with `parseSelectList` and
  `parseWhere` for the parts of a SELECT.
* `parseStatements` is the loop over the script, with the error it ends with and the statements it leaves; a
  failed script is emptied by `freeScript`.
* `parseSqlScript` runs the tokenizer first.

The bounds of the cursor, which this form of the parser takes for granted, are shown for an index into an
array in `ParserBounds`.
-/

namespace MiniSql

open PrefixParsing

/-! ### Looking at tokens -/

def peek (tokens : List Token) : Token := tokens.headD ⟨.end_, CString.empty, 0, 0⟩

/-- `at_end` -/
def atEnd (tokens : List Token) : Bool := decide ((peek tokens).type = .end_)

/-- `match`: the tokens behind a token of this type. -/
def matchToken (type : TokenType) (tokens : List Token) : Option (List Token) :=
  if (peek tokens).type = type then some tokens.tail else none

/-- An error at the next token. -/
def errorAt (text : CString) (tokens : List Token) : ParseError :=
  .located text (peek tokens).line (peek tokens).column

def consume (type : TokenType) (message : CString) (tokens : List Token) :
    Except ParseError (List Token) :=
  if (peek tokens).type = type then .ok tokens.tail else .error (errorAt message tokens)

/-! ### Lists and names -/

/-- The lexeme of an identifier. -/
def identifierItem (token : Token) : Option CString :=
  if token.type = .identifier then some token.lexeme else none

/-- The lexeme of a literal value: a string, a number, or an identifier. -/
def literalItem (token : Token) : Option CString :=
  if token.type ≠ .string ∧ token.type ≠ .number ∧ token.type ≠ .identifier then none
  else some token.lexeme

def isComma (token : Token) : Bool := decide (token.type = .comma)

def parseIdentifierList : Parser Token ParseError StringList :=
  sepList identifierItem isComma (errorAt (lit "expected identifier"))

def parseValueList : Parser Token ParseError StringList :=
  sepList literalItem isComma (errorAt (lit "expected literal value"))

def parseQualifiedName : Parser Token ParseError QualifiedName := fun tokens =>
  match identifierItem (peek tokens) with
  | none => .error (errorAt (lit "expected table name") tokens)
  | some first =>
      match matchToken .dot tokens.tail with
      | none => .ok (⟨none, first⟩, tokens.tail)
      | some tokens =>
          match identifierItem (peek tokens) with
          | none => .error (errorAt (lit "expected identifier after '.'") tokens)
          | some second => .ok (⟨some first, second⟩, tokens.tail)

/-! ### Statements -/

/-- `parse_insert`, behind the `INSERT`. -/
def parseInsert : Parser Token ParseError Statement := fun tokens => do
  let tokens ← consume .into (lit "expected INTO after INSERT") tokens
  let (target, tokens) ← parseQualifiedName tokens
  let tokens ← consume .lparen (lit "expected '(' after table name") tokens
  let (columns, tokens) ← parseIdentifierList tokens
  let tokens ← consume .rparen (lit "expected ')' after column list") tokens
  let tokens ← consume .values (lit "expected VALUES keyword") tokens
  let tokens ← consume .lparen (lit "expected '(' before VALUES list") tokens
  let (values, tokens) ← parseValueList tokens
  let tokens ← consume .rparen (lit "expected ')' after VALUES list") tokens
  .ok (.insert ⟨target, columns, values⟩, tokens)

/-- The select list: `select_all` and `columns`. -/
def parseSelectList : Parser Token ParseError (Bool × StringList) := fun tokens =>
  match matchToken .star tokens with
  | some tokens => .ok ((true, []), tokens)
  | none => do
      let (columns, tokens) ← parseIdentifierList tokens
      .ok ((false, columns), tokens)

/-- The comparison operators. -/
def operatorOf : TokenType → Option WhereOperator
  | .equal => some .equal
  | .greaterEqual => some .greaterEqual
  | .greater => some .greater
  | .lessEqual => some .lessEqual
  | .less => some .less
  | _ => none

/-- The WHERE clause of `parse_select`, if there is one. -/
def parseWhere : Parser Token ParseError (Option WhereClause) := fun tokens =>
  match matchToken .where_ tokens with
  | none => .ok (none, tokens)
  | some tokens =>
      match identifierItem (peek tokens) with
      | none => .error (errorAt (lit "expected column name after WHERE") tokens)
      | some column =>
          match operatorOf (peek tokens.tail).type with
          | none => .error .comparisonOperator
          | some op =>
              match literalItem (peek tokens.tail.tail) with
              | none => .error (errorAt (lit "expected literal after '='") tokens.tail.tail)
              | some value => .ok (some ⟨column, value, op⟩, tokens.tail.tail.tail)

/-- `parse_select`, behind the `SELECT`. -/
def parseSelect : Parser Token ParseError Statement := fun tokens => do
  let ((selectAll, columns), tokens) ← parseSelectList tokens
  let tokens ← consume .from_ (lit "expected FROM after select list") tokens
  let (source, tokens) ← parseQualifiedName tokens
  let (where_, tokens) ← parseWhere tokens
  .ok (.select ⟨source, selectAll, columns, where_⟩, tokens)

/-- The choice between the statements in the loop of `parse_sql_script`. -/
def parseStatement : Parser Token ParseError Statement := fun tokens =>
  match matchToken .insert tokens with
  | some tokens => parseInsert tokens
  | none =>
      match matchToken .select tokens with
      | some tokens => parseSelect tokens
      | none => .error (errorAt (lit "unsupported statement") tokens)

/-! ### Scripts -/

/-- `free_script`: no statements are left. -/
def freeScript (_script : List Statement) : List Statement := []

/-- The loop of `parse_sql_script`: its error, if it fails, and `*script`.  Every round consumes a token
before `END`, so as many rounds as there are tokens are enough. -/
def parseStatements : ℕ → List Token → List Statement → Option ParseError × List Statement
  | 0, _, script => (none, script)
  | fuel + 1, tokens, script =>
      if atEnd tokens then (none, script)
      else
        match matchToken .semicolon tokens with
        | some tokens => parseStatements fuel tokens script
        | none =>
            match parseStatement tokens with
            | .error e => (some e, freeScript script)
            | .ok (statement, tokens) =>
                parseStatements fuel ((matchToken .semicolon tokens).getD tokens)
                  (script ++ [statement])

/-- `parse_sql_script`: the error, or `none` for success, and `*script`. -/
def parseSqlScript (source : CString) : Option ParseError × List Statement :=
  match tokenizeSql source with
  | .error e => (some e, [])
  | .ok tokens => parseStatements tokens.length tokens []

end MiniSql
