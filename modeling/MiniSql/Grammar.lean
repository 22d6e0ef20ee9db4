import MiniSql.LexicalGrammar
import MiniSql.Parser

/-!
# The grammar of scripts

The language of `parse_sql_script` as productions over tokens, and the proof that the parser accepts exactly
its sentences and builds exactly their statements.

* `InsertGrammar`, `SelectGrammar`, `StatementGrammar` and the smaller productions keep the statement that a
  sentence stands for as an index.
* `ScriptGrammar` is the whole language.  A statement may be followed by another one without a semicolon, so
  it keeps the tokens each statement derives from, and its uniqueness is about where the statements begin and
  end as well.
* `NoComma` and `StatementEnd` say what may follow a list and a statement; the parser looks one token ahead
  and goes on if it can.

Main results:

* `parseStatements_complete`: the loop builds the statements of a derivation; `parseStatements_sound`: what it
  accepts is a sentence.
* `ScriptGrammar.unique`: the tokens determine the derivation.
* `parseSqlScript_grammar`: the parser as a whole, with the empty script for what is not accepted.
-/

namespace MiniSql

open PrefixParsing

/-! ### Productions -/

/-- `ident {',' ident}` -/
abbrev IdentifierListGrammar : Language Token StringList :=
  SepList identifierItem fun t => isComma t = true

/-- `lit {',' lit}` -/
abbrev ValueListGrammar : Language Token StringList := SepList literalItem fun t => isComma t = true

/-- `qname := ident ['.' ident]` -/
inductive QualifiedNameGrammar : Language Token QualifiedName
  | table {t : Token} : t.type = .identifier → QualifiedNameGrammar [t] ⟨none, t.lexeme⟩
  | qualified {schema dot t : Token} : schema.type = .identifier → dot.type = .dot →
      t.type = .identifier → QualifiedNameGrammar [schema, dot, t] ⟨some schema.lexeme, t.lexeme⟩

/-- `'*' | ident {',' ident}` -/
inductive SelectListGrammar : Language Token (Bool × StringList)
  | all {star : Token} : star.type = .star → SelectListGrammar [star] (true, [])
  | columns {tokens : List Token} {columns : StringList} : IdentifierListGrammar tokens columns →
      SelectListGrammar tokens (false, columns)

/-- `[WHERE ident op lit]` -/
inductive WhereGrammar : Language Token (Option WhereClause)
  | absent : WhereGrammar [] none
  | present {keyword column op value : Token} {operator : WhereOperator} {text : CString} :
      keyword.type = .where_ → column.type = .identifier → operatorOf op.type = some operator →
      literalItem value = some text →
      WhereGrammar [keyword, column, op, value] (some ⟨column.lexeme, text, operator⟩)

/-- `INTO qname '(' ident {',' ident} ')' VALUES '(' lit {',' lit} ')'` -/
inductive InsertGrammar : Language Token Statement
  | mk {into lparen rparen values lparen' rparen' : Token} {name columns literals : List Token}
      {target : QualifiedName} {columnNames texts : StringList} :
      into.type = .into → QualifiedNameGrammar name target → lparen.type = .lparen →
      IdentifierListGrammar columns columnNames → rparen.type = .rparen → values.type = .values →
      lparen'.type = .lparen → ValueListGrammar literals texts → rparen'.type = .rparen →
      InsertGrammar (into :: (name ++ lparen :: (columns ++ rparen :: values :: lparen' ::
        (literals ++ [rparen'])))) (.insert ⟨target, columnNames, texts⟩)

/-- `('*' | ident {',' ident}) FROM qname [WHERE ident op lit]` -/
inductive SelectGrammar : Language Token Statement
  | mk {list name filter : List Token} {from_ : Token} {selected : Bool × StringList}
      {source : QualifiedName} {where_ : Option WhereClause} :
      SelectListGrammar list selected → from_.type = .from_ → QualifiedNameGrammar name source →
      WhereGrammar filter where_ →
      SelectGrammar (list ++ from_ :: (name ++ filter))
        (.select ⟨source, selected.1, selected.2, where_⟩)

/-- `stmt := INSERT … | SELECT …` -/
inductive StatementGrammar : Language Token Statement
  | insert {keyword : Token} {tokens : List Token} {statement : Statement} :
      keyword.type = .insert → InsertGrammar tokens statement →
      StatementGrammar (keyword :: tokens) statement
  | select {keyword : Token} {tokens : List Token} {statement : Statement} :
      keyword.type = .select → SelectGrammar tokens statement →
      StatementGrammar (keyword :: tokens) statement

/-- `script := { ';' | stmt [';'] }`, with the statements and the tokens of each. -/
inductive ScriptGrammar : Language Token (List (List Token × Statement))
  | nil : ScriptGrammar [] []
  | semicolon {t : Token} {tokens : List Token} {parts : List (List Token × Statement)} :
      t.type = .semicolon → ScriptGrammar tokens parts → ScriptGrammar (t :: tokens) parts
  | statement {phrase tokens : List Token} {statement : Statement}
      {parts : List (List Token × Statement)} : StatementGrammar phrase statement →
      ScriptGrammar tokens parts → ScriptGrammar (phrase ++ tokens) ((phrase, statement) :: parts)
  | terminated {phrase tokens : List Token} {t : Token} {statement : Statement}
      {parts : List (List Token × Statement)} : StatementGrammar phrase statement →
      t.type = .semicolon → ScriptGrammar tokens parts →
      ScriptGrammar (phrase ++ t :: tokens) ((phrase, statement) :: parts)

/-! ### Looking at tokens -/

@[simp] theorem peek_cons (t : Token) (tokens : List Token) : peek (t :: tokens) = t := rfl

theorem matchToken_some {type : TokenType} (htype : type ≠ .end_) {tokens rest : List Token}
    (h : matchToken type tokens = some rest) : ∃ t, tokens = t :: rest ∧ t.type = type := by
  rw [matchToken] at h
  split at h
  · rename_i hpeek
    cases tokens with
    | nil => exact absurd hpeek.symm htype
    | cons t tokens =>
      obtain rfl := Option.some.inj h
      exact ⟨t, rfl, hpeek⟩
  · cases h

theorem matchToken_of_type {t : Token} {type : TokenType} (h : t.type = type) (rest : List Token) :
    matchToken type (t :: rest) = some rest := if_pos h

theorem matchToken_of_ne {type : TokenType} {tokens : List Token} (h : (peek tokens).type ≠ type) :
    matchToken type tokens = none := if_neg h

theorem consume_skips (type : TokenType) (message : CString) (htype : type ≠ .end_) :
    Skips (consume type message) (fun t => t.type = type) where
  sound := by
    intro tokens rest h
    rw [consume] at h
    split at h
    · rename_i hpeek
      cases tokens with
      | nil => exact absurd hpeek.symm htype
      | cons t tokens =>
        obtain rfl := Except.ok.inj h
        exact ⟨t, rfl, hpeek⟩
    · cases h
  complete := fun ht => if_pos ht

theorem identifierItem_some {t : Token} {text : CString} :
    identifierItem t = some text ↔ t.type = .identifier ∧ t.lexeme = text := by
  rw [identifierItem]
  split
  · rename_i h
    simp [h]
  · rename_i h
    simp [h]

/-- An item is never read off the `END` token. -/
theorem identifierItem_peek {tokens : List Token} {text : CString}
    (h : identifierItem (peek tokens) = some text) :
    ∃ t, tokens = t :: tokens.tail ∧ t.type = .identifier ∧ t.lexeme = text := by
  cases tokens with
  | nil => cases h
  | cons t tokens => exact ⟨t, rfl, identifierItem_some.mp h⟩

/-! ### The parser recognizes the productions -/

theorem parseQualifiedName_recognizes :
    Recognizes parseQualifiedName QualifiedNameGrammar (fun rest => (peek rest).type ≠ .dot) where
  sound := by
    intro tokens name rest h
    rw [parseQualifiedName] at h
    split at h
    · cases h
    · rename_i first hfirst
      obtain ⟨t, htokens, htype, rfl⟩ := identifierItem_peek hfirst
      split at h
      · obtain ⟨rfl, rfl⟩ := Prod.mk.inj (Except.ok.inj h)
        exact ⟨[t], htokens, .table htype⟩
      · rename_i tokens' hdot
        obtain ⟨dot, htail, hdottype⟩ := matchToken_some (by decide) hdot
        split at h
        · cases h
        · rename_i second hsecond
          obtain ⟨t', htokens', htype', rfl⟩ := identifierItem_peek hsecond
          obtain ⟨rfl, rfl⟩ := Prod.mk.inj (Except.ok.inj h)
          refine ⟨[t, dot, t'], ?_, .qualified htype hdottype htype'⟩
          rw [htokens, htail]
          show t :: dot :: tokens' = t :: dot :: t' :: tokens'.tail
          rw [← htokens']
  complete := by
    intro phrase name rest hphrase hrest
    cases hphrase with
    | @table t htype =>
      show parseQualifiedName (t :: rest) = _
      rw [parseQualifiedName, peek_cons, identifierItem_some.mpr ⟨htype, rfl⟩, List.tail_cons]
      dsimp only
      rw [matchToken_of_ne hrest]
    | @qualified schema dot t hschema hdot htype =>
      show parseQualifiedName (schema :: dot :: t :: rest) = _
      rw [parseQualifiedName, peek_cons, identifierItem_some.mpr ⟨hschema, rfl⟩, List.tail_cons]
      dsimp only
      rw [matchToken_of_type hdot]
      dsimp only
      rw [peek_cons, identifierItem_some.mpr ⟨htype, rfl⟩, List.tail_cons]

/-- What may follow a list: not another comma. -/
def NoComma (rest : List Token) : Prop := ∀ t ∈ rest.head?, isComma t = false

theorem NoComma.cons {t : Token} {type : TokenType} (h : t.type = type) (hne : type ≠ .comma)
    (rest : List Token) : NoComma (t :: rest) := by
  intro t' ht
  obtain rfl := Option.some.inj ht
  rw [isComma, h, decide_eq_false_iff_not]
  exact hne

theorem parseIdentifierList_recognizes :
    Recognizes parseIdentifierList IdentifierListGrammar NoComma :=
  sepList_recognizes identifierItem isComma _

theorem parseValueList_recognizes : Recognizes parseValueList ValueListGrammar NoComma :=
  sepList_recognizes literalItem isComma _

theorem parseInsert_recognizes : Recognizes parseInsert InsertGrammar (fun _ => True) := by
  -- from the last token to the first one
  have hdone := fun target columns values =>
    (consume_skips .rparen (lit "expected ')' after VALUES list") (by decide)).bind
      (Recognizes.pure (T := Token) (F := fun _ => True)
        (Statement.insert ⟨target, columns, values⟩))
  have hvalues := fun target columns =>
    (consume_skips .lparen (lit "expected '(' before VALUES list") (by decide)).bind
      (parseValueList_recognizes.bind (hdone target columns) (by
        rintro values phrase b rest ⟨t, back, rfl, ht, -⟩ -
        exact NoComma.cons ht (by decide) _))
  have hcolumns := fun target =>
    (consume_skips .lparen (lit "expected '(' after table name") (by decide)).bind
      (parseIdentifierList_recognizes.bind (fun columns =>
        (consume_skips .rparen (lit "expected ')' after column list") (by decide)).bind
          ((consume_skips .values (lit "expected VALUES keyword") (by decide)).bind
            (hvalues target columns))) (by
        rintro columns phrase b rest ⟨t, back, rfl, ht, -⟩ -
        exact NoComma.cons ht (by decide) _))
  have hall := (consume_skips .into (lit "expected INTO after INSERT") (by decide)).bind
    (parseQualifiedName_recognizes.bind hcolumns (by
      rintro target phrase b rest ⟨t, back, rfl, ht, -⟩ -
      show t.type ≠ .dot
      rw [ht]
      decide))
  refine Recognizes.congr (p := parseInsert) hall ?_
  intro phrase statement
  constructor
  · rintro ⟨into, -, rfl, hinto, name, target, -, rfl, hname, lparen, -, rfl, hlparen, columns,
      columnNames, -, rfl, hcolumns, rparen, -, rfl, hrparen, values, -, rfl, hvalues, lparen', -,
      rfl, hlparen', literals, texts, -, rfl, hliterals, rparen', -, rfl, hrparen', rfl, rfl⟩
    exact .mk hinto hname hlparen hcolumns hrparen hvalues hlparen' hliterals hrparen'
  · rintro ⟨hinto, hname, hlparen, hcolumns, hrparen, hvalues, hlparen', hliterals, hrparen'⟩
    exact ⟨_, _, rfl, hinto, _, _, _, rfl, hname, _, _, rfl, hlparen, _, _, _, rfl, hcolumns, _, _,
      rfl, hrparen, _, _, rfl, hvalues, _, _, rfl, hlparen', _, _, _, rfl, hliterals, _, _, rfl,
      hrparen', rfl, rfl⟩

theorem parseSelectList_recognizes :
    Recognizes parseSelectList SelectListGrammar NoComma where
  sound := by
    intro tokens selected rest h
    rw [parseSelectList] at h
    split at h
    · rename_i tokens' hstar
      obtain ⟨t, rfl, ht⟩ := matchToken_some (by decide) hstar
      obtain ⟨rfl, rfl⟩ := Prod.mk.inj (Except.ok.inj h)
      exact ⟨[t], rfl, .all ht⟩
    · obtain ⟨⟨columns, tokens'⟩, hcolumns, h⟩ := bind_eq_ok.mp h
      obtain ⟨rfl, rfl⟩ := Prod.mk.inj (Except.ok.inj h)
      obtain ⟨phrase, rfl, hphrase⟩ := parseIdentifierList_recognizes.sound hcolumns
      exact ⟨phrase, rfl, .columns hphrase⟩
  complete := by
    intro phrase selected rest hphrase hrest
    cases hphrase with
    | @all star hstar =>
      rw [List.singleton_append, parseSelectList, matchToken_of_type hstar]
    | @columns _ columns hcolumns =>
      have hstar : (peek (phrase ++ rest)).type ≠ .star := by
        obtain ⟨t, tail, rfl, ht⟩ : ∃ t tail, phrase = t :: tail ∧ t.type = .identifier := by
          cases hcolumns with
          | one hitem => exact ⟨_, _, rfl, (identifierItem_some.mp hitem).1⟩
          | cons hitem hsep htail => exact ⟨_, _, rfl, (identifierItem_some.mp hitem).1⟩
        show t.type ≠ .star
        rw [ht]
        decide
      rw [parseSelectList, matchToken_of_ne hstar]
      exact bind_eq_ok.mpr ⟨_, parseIdentifierList_recognizes.complete hcolumns hrest, rfl⟩

theorem literalItem_peek {tokens : List Token} {text : CString}
    (h : literalItem (peek tokens) = some text) : ∃ t, tokens = t :: tokens.tail ∧
      literalItem t = some text := by
  cases tokens with
  | nil => cases h
  | cons t tokens => exact ⟨t, rfl, h⟩

theorem operatorOf_peek {tokens : List Token} {op : WhereOperator}
    (h : operatorOf (peek tokens).type = some op) : ∃ t, tokens = t :: tokens.tail ∧
      operatorOf t.type = some op := by
  cases tokens with
  | nil => cases h
  | cons t tokens => exact ⟨t, rfl, h⟩

theorem parseWhere_recognizes :
    Recognizes parseWhere WhereGrammar (fun rest => (peek rest).type ≠ .where_) where
  sound := by
    intro tokens where_ rest h
    rw [parseWhere] at h
    split at h
    · obtain ⟨rfl, rfl⟩ := Prod.mk.inj (Except.ok.inj h)
      exact ⟨[], rfl, .absent⟩
    · rename_i tokens' hkeyword
      obtain ⟨keyword, rfl, hkw⟩ := matchToken_some (by decide) hkeyword
      split at h
      · cases h
      · rename_i column hcolumn
        obtain ⟨c, hc, hctype, rfl⟩ := identifierItem_peek hcolumn
        split at h
        · cases h
        · rename_i op hop
          obtain ⟨o, ho, hotype⟩ := operatorOf_peek hop
          split at h
          · cases h
          · rename_i text htext
            obtain ⟨v, hv, hvtype⟩ := literalItem_peek htext
            obtain ⟨rfl, rfl⟩ := Prod.mk.inj (Except.ok.inj h)
            refine ⟨[keyword, c, o, v], ?_, .present hkw hctype hotype hvtype⟩
            show keyword :: tokens' = keyword :: c :: o :: v :: tokens'.tail.tail.tail
            rw [← hv, ← ho, ← hc]
  complete := by
    intro phrase where_ rest hphrase hrest
    cases hphrase with
    | absent => rw [List.nil_append, parseWhere, matchToken_of_ne hrest]
    | @present keyword column op value operator text hkw hcolumn hop hvalue =>
      show parseWhere (keyword :: column :: op :: value :: rest) = _
      rw [parseWhere, matchToken_of_type hkw]
      dsimp only
      rw [peek_cons, identifierItem_some.mpr ⟨hcolumn, rfl⟩, List.tail_cons]
      dsimp only
      rw [peek_cons, hop, List.tail_cons]
      dsimp only
      rw [peek_cons, hvalue, List.tail_cons]

/-- What may follow a statement: neither a `.` nor a `WHERE` that would still belong to it. -/
def StatementEnd (rest : List Token) : Prop := (peek rest).type ≠ .dot ∧ (peek rest).type ≠ .where_

theorem parseSelect_recognizes : Recognizes parseSelect SelectGrammar StatementEnd := by
  have hwhere := fun (selected : Bool × StringList) source =>
    (parseWhere_recognizes.follow (G := StatementEnd) fun _ h => h.2).bind
      (fun where_ => Recognizes.pure (T := Token) (E := ParseError) (F := StatementEnd)
        (Statement.select ⟨source, selected.1, selected.2, where_⟩)) (by
        rintro where_ phrase b rest ⟨rfl, -⟩ h
        exact h)
  have hall := parseSelectList_recognizes.bind (fun selected =>
    (consume_skips .from_ (lit "expected FROM after select list") (by decide)).bind
      (parseQualifiedName_recognizes.bind (hwhere selected) (by
        rintro source phrase b rest ⟨filter, where_, -, rfl, hfilter, rfl, -⟩ h
        cases hfilter with
        | absent => exact h.1
        | @present keyword column op value operator text hkw hcolumn hop hvalue =>
          rw [List.append_nil]
          show keyword.type ≠ .dot
          rw [hkw]
          decide))) (by
      rintro selected phrase b rest ⟨t, back, rfl, ht, -⟩ -
      exact NoComma.cons ht (by decide) _)
  refine Recognizes.congr (p := parseSelect) hall ?_
  intro phrase statement
  constructor
  · rintro ⟨list, selected, -, rfl, hlist, from_, -, rfl, hfrom, name, source, -, rfl, hname, filter,
      where_, -, rfl, hfilter, rfl, rfl⟩
    rw [List.append_nil]
    exact .mk hlist hfrom hname hfilter
  · rintro ⟨hlist, hfrom, hname, hfilter⟩
    refine ⟨_, _, _, rfl, hlist, _, _, rfl, hfrom, _, _, _, rfl, hname, _, _, [], ?_, hfilter, rfl,
      rfl⟩
    rw [List.append_nil]

theorem parseStatement_recognizes : Recognizes parseStatement StatementGrammar StatementEnd where
  sound := by
    intro tokens statement rest h
    rw [parseStatement] at h
    split at h
    · rename_i tokens' hkeyword
      obtain ⟨t, rfl, ht⟩ := matchToken_some (by decide) hkeyword
      obtain ⟨phrase, rfl, hphrase⟩ := parseInsert_recognizes.sound h
      exact ⟨t :: phrase, rfl, .insert ht hphrase⟩
    · split at h
      · rename_i tokens' hkeyword
        obtain ⟨t, rfl, ht⟩ := matchToken_some (by decide) hkeyword
        obtain ⟨phrase, rfl, hphrase⟩ := parseSelect_recognizes.sound h
        exact ⟨t :: phrase, rfl, .select ht hphrase⟩
      · cases h
  complete := by
    intro phrase statement rest hphrase hrest
    cases hphrase with
    | @insert keyword tokens _ hkeyword hinsert =>
      rw [List.cons_append, parseStatement, matchToken_of_type hkeyword]
      exact parseInsert_recognizes.complete hinsert trivial
    | @select keyword tokens _ hkeyword hselect =>
      have hne : (peek (keyword :: (tokens ++ rest))).type ≠ .insert := by
        rw [peek_cons, hkeyword]
        decide
      rw [List.cons_append, parseStatement, matchToken_of_ne hne]
      dsimp only
      rw [matchToken_of_type hkeyword]
      exact parseSelect_recognizes.complete hselect hrest

/-! ### Where statements begin and end -/

/-- A statement begins with its keyword. -/
theorem StatementGrammar.head {phrase : List Token} {statement : Statement}
    (h : StatementGrammar phrase statement) :
    ∃ t tail, phrase = t :: tail ∧ (t.type = .insert ∨ t.type = .select) := by
  cases h with
  | insert hkeyword => exact ⟨_, _, rfl, Or.inl hkeyword⟩
  | select hkeyword => exact ⟨_, _, rfl, Or.inr hkeyword⟩

theorem StatementGrammar.head_type {phrase : List Token} {statement : Statement}
    (h : StatementGrammar phrase statement) (tokens : List Token) :
    (peek (phrase ++ tokens)).type = .insert ∨ (peek (phrase ++ tokens)).type = .select := by
  obtain ⟨t, tail, rfl, ht⟩ := h.head
  exact ht

/-- What a script begins with may follow a statement. -/
theorem ScriptGrammar.statementEnd {tokens : List Token} {parts : List (List Token × Statement)}
    (h : ScriptGrammar tokens parts) {rest : List Token} (hrest : (peek rest).type = .end_) :
    StatementEnd (tokens ++ rest) := by
  have hend : ∀ {type : TokenType}, type ≠ .dot → type ≠ .where_ → ∀ {ts : List Token},
      (peek ts).type = type → StatementEnd ts := by
    intro type hdot hwhere ts hts
    rw [StatementEnd, hts]
    exact ⟨hdot, hwhere⟩
  have hphrase : ∀ {phrase : List Token} {statement : Statement} {ts : List Token},
      StatementGrammar phrase statement → StatementEnd (phrase ++ ts) := by
    intro phrase statement ts hp
    rcases hp.head_type ts with ht | ht
    · exact hend (by decide) (by decide) ht
    · exact hend (by decide) (by decide) ht
  cases h with
  | nil => exact hend (by decide) (by decide) hrest
  | semicolon ht => exact hend (by decide) (by decide) ht
  | statement hp =>
    rw [List.append_assoc]
    exact hphrase hp
  | terminated hp =>
    rw [List.append_assoc]
    exact hphrase hp

theorem ScriptGrammar.follows {tokens : List Token} {parts : List (List Token × Statement)}
    (h : ScriptGrammar tokens parts) : StatementEnd tokens := by
  have hfollow := h.statementEnd (show (peek []).type = .end_ from rfl)
  rwa [List.append_nil] at hfollow

/-- No `END` token is among these. -/
def NoEnd (tokens : List Token) : Prop := ∀ t ∈ tokens, t.type ≠ .end_

theorem type_ne_end {t : Token} {type : TokenType} (ht : t.type = type) (hne : type ≠ .end_) :
    t.type ≠ .end_ := by
  rw [ht]
  exact hne

theorem identifierItem_no_end {t : Token} {text : CString} (h : identifierItem t = some text) :
    t.type ≠ .end_ := type_ne_end (identifierItem_some.mp h).1 (by decide)

theorem literalItem_no_end {t : Token} {text : CString} (h : literalItem t = some text) :
    t.type ≠ .end_ := by
  intro ht
  rw [literalItem, ht] at h
  cases h

theorem isComma_no_end {t : Token} (h : isComma t = true) : t.type ≠ .end_ :=
  type_ne_end (of_decide_eq_true h) (by decide)

theorem identifierList_no_end {phrase : List Token} {names : StringList}
    (h : IdentifierListGrammar phrase names) : NoEnd phrase :=
  h.forall_mem (fun _ _ hitem => identifierItem_no_end hitem) fun _ hsep => isComma_no_end hsep

theorem valueList_no_end {phrase : List Token} {texts : StringList}
    (h : ValueListGrammar phrase texts) : NoEnd phrase :=
  h.forall_mem (fun _ _ hitem => literalItem_no_end hitem) fun _ hsep => isComma_no_end hsep

theorem QualifiedNameGrammar.no_end {phrase : List Token} {name : QualifiedName}
    (h : QualifiedNameGrammar phrase name) : NoEnd phrase := by
  cases h with
  | table ht => exact List.forall_mem_singleton.mpr (type_ne_end ht (by decide))
  | qualified hschema hdot ht =>
    exact List.forall_mem_cons.mpr ⟨type_ne_end hschema (by decide),
      List.forall_mem_cons.mpr ⟨type_ne_end hdot (by decide),
        List.forall_mem_singleton.mpr (type_ne_end ht (by decide))⟩⟩

theorem SelectListGrammar.no_end {phrase : List Token} {selected : Bool × StringList}
    (h : SelectListGrammar phrase selected) : NoEnd phrase := by
  cases h with
  | all hstar => exact List.forall_mem_singleton.mpr (type_ne_end hstar (by decide))
  | columns hcolumns => exact identifierList_no_end hcolumns

theorem WhereGrammar.no_end {phrase : List Token} {where_ : Option WhereClause}
    (h : WhereGrammar phrase where_) : NoEnd phrase := by
  cases h with
  | absent => exact fun t ht => (by cases ht)
  | @present keyword column op value operator text hkeyword hcolumn hop hvalue =>
    have hoperator : op.type ≠ .end_ := by
      intro ht
      rw [ht] at hop
      cases hop
    exact List.forall_mem_cons.mpr ⟨type_ne_end hkeyword (by decide),
      List.forall_mem_cons.mpr ⟨type_ne_end hcolumn (by decide),
        List.forall_mem_cons.mpr ⟨hoperator,
          List.forall_mem_singleton.mpr (literalItem_no_end hvalue)⟩⟩⟩

theorem StatementGrammar.no_end {phrase : List Token} {statement : Statement}
    (h : StatementGrammar phrase statement) : NoEnd phrase := by
  rw [NoEnd]
  cases h with
  | insert hkeyword hinsert =>
    obtain ⟨hinto, hname, hlparen, hcolumns, hrparen, hvalues, hlparen', hliterals, hrparen'⟩ :=
      hinsert
    simp only [List.forall_mem_cons, List.forall_mem_append]
    exact ⟨type_ne_end hkeyword (by decide), type_ne_end hinto (by decide), hname.no_end,
      type_ne_end hlparen (by decide), identifierList_no_end hcolumns,
      type_ne_end hrparen (by decide), type_ne_end hvalues (by decide),
      type_ne_end hlparen' (by decide), valueList_no_end hliterals,
      type_ne_end hrparen' (by decide), by simp⟩
  | select hkeyword hselect =>
    obtain ⟨hlist, hfrom, hname, hfilter⟩ := hselect
    simp only [List.forall_mem_cons, List.forall_mem_append]
    exact ⟨type_ne_end hkeyword (by decide), hlist.no_end, type_ne_end hfrom (by decide),
      hname.no_end, hfilter.no_end⟩

/-! ### Unique derivations -/

theorem StatementGrammar.ne_semicolon {phrase : List Token} {statement : Statement}
    (h : StatementGrammar phrase statement) {t : Token} (ht : t.type = .semicolon)
    (tokens rest : List Token) : phrase ++ rest ≠ t :: tokens := by
  intro heq
  have htype := h.head_type rest
  rw [heq, peek_cons, ht] at htype
  rcases htype with htype | htype <;> cases htype

/-- A script that begins with a semicolon. -/
theorem ScriptGrammar.of_semicolon {t : Token} {tokens : List Token}
    {parts : List (List Token × Statement)} (h : ScriptGrammar (t :: tokens) parts)
    (ht : t.type = .semicolon) : ScriptGrammar tokens parts := by
  generalize heq : t :: tokens = whole at h
  cases h with
  | nil => cases heq
  | semicolon _ hrest =>
    obtain ⟨-, rfl⟩ := List.cons.inj heq
    exact hrest
  | statement hphrase _ => exact absurd heq.symm (hphrase.ne_semicolon ht _ _)
  | terminated hphrase _ _ => exact absurd heq.symm (hphrase.ne_semicolon ht _ _)

/-- A script that begins with a statement. -/
theorem ScriptGrammar.of_statement {phrase rest : List Token} {statement : Statement}
    {parts : List (List Token × Statement)} (h : ScriptGrammar (phrase ++ rest) parts)
    (hphrase : StatementGrammar phrase statement) (hrest : StatementEnd rest) :
    ∃ parts', parts = (phrase, statement) :: parts' ∧ ScriptGrammar rest parts' := by
  -- another statement at the front is the same one
  have hsame : ∀ {phrase' rest' : List Token} {statement' : Statement}
      {parts' : List (List Token × Statement)}, StatementGrammar phrase' statement' →
      ScriptGrammar rest' parts' → phrase ++ rest = phrase' ++ rest' →
      phrase = phrase' ∧ statement = statement' ∧ rest = rest' :=
    fun hphrase' hrest' heq =>
      parseStatement_recognizes.unique hphrase hphrase' hrest hrest'.follows heq
  generalize heq : phrase ++ rest = whole at h
  cases h with
  | nil =>
    obtain ⟨t, tail, rfl, -⟩ := hphrase.head
    cases heq
  | semicolon ht _ => exact absurd heq (hphrase.ne_semicolon ht _ _)
  | statement hphrase' hrest' =>
    obtain ⟨rfl, rfl, rfl⟩ := hsame hphrase' hrest' heq
    exact ⟨_, rfl, hrest'⟩
  | terminated hphrase' ht hrest' =>
    obtain ⟨rfl, rfl, rfl⟩ := hsame hphrase' (.semicolon ht hrest') heq
    exact ⟨_, rfl, .semicolon ht hrest'⟩

/-- The derivation of a script is determined by its tokens, up to which production takes a semicolon. -/
theorem ScriptGrammar.unique {tokens : List Token} {parts parts' : List (List Token × Statement)}
    (h : ScriptGrammar tokens parts) (h' : ScriptGrammar tokens parts') : parts = parts' := by
  induction h generalizing parts' with
  | nil =>
    generalize heq : ([] : List Token) = whole at h'
    cases h' with
    | nil => rfl
    | semicolon _ _ => cases heq
    | statement hphrase _ =>
      obtain ⟨t, tail, rfl, -⟩ := hphrase.head
      cases heq
    | terminated hphrase _ _ =>
      obtain ⟨t, tail, rfl, -⟩ := hphrase.head
      cases heq
  | semicolon ht _ ih => exact ih (h'.of_semicolon ht)
  | statement hphrase hrest ih =>
    obtain ⟨parts'', rfl, hrest'⟩ := h'.of_statement hphrase hrest.follows
    rw [ih hrest']
  | terminated hphrase ht hrest ih =>
    obtain ⟨parts'', rfl, hrest'⟩ := h'.of_statement hphrase (ScriptGrammar.semicolon ht hrest).follows
    rw [ih (hrest'.of_semicolon ht)]

/-! ### The loop -/

theorem parseStatements_semicolon {t : Token} (ht : t.type = .semicolon) (fuel : ℕ)
    (tokens : List Token) (script : List Statement) :
    parseStatements (fuel + 1) (t :: tokens) script = parseStatements fuel tokens script := by
  have hend : atEnd (t :: tokens) = false := by
    rw [atEnd, peek_cons, ht]
    rfl
  rw [parseStatements, hend, if_neg (by decide), matchToken_of_type ht]

/-- A round that begins with a statement. -/
theorem parseStatements_statement {phrase : List Token} {statement : Statement}
    (hphrase : StatementGrammar phrase statement) {rest : List Token} (hrest : StatementEnd rest)
    (fuel : ℕ) (script : List Statement) :
    parseStatements (fuel + 1) (phrase ++ rest) script =
      parseStatements fuel ((matchToken .semicolon rest).getD rest) (script ++ [statement]) := by
  have htype := hphrase.head_type rest
  have hend : atEnd (phrase ++ rest) = false := by
    rw [atEnd]
    rcases htype with htype | htype <;> rw [htype] <;> rfl
  have hsemicolon : (peek (phrase ++ rest)).type ≠ .semicolon := by
    rcases htype with htype | htype <;> rw [htype] <;> decide
  rw [parseStatements, hend, if_neg (by decide), matchToken_of_ne hsemicolon]
  dsimp only
  rw [parseStatement_recognizes.complete hphrase hrest]

theorem parseStatements_end {last : Token} (hlast : last.type = .end_) (fuel : ℕ)
    (script : List Statement) : parseStatements (fuel + 1) [last] script = (none, script) := by
  have hend : atEnd [last] = true := by
    rw [atEnd, peek_cons, hlast]
    rfl
  rw [parseStatements, hend, if_pos rfl]

/-- The loop builds the statements of a derivation. -/
theorem parseStatements_complete {tokens : List Token} {parts : List (List Token × Statement)}
    (h : ScriptGrammar tokens parts) {last : Token} (hlast : last.type = .end_) {fuel : ℕ}
    (hfuel : tokens.length < fuel) (script : List Statement) :
    parseStatements fuel (tokens ++ [last]) script = (none, script ++ parts.map Prod.snd) := by
  have hone : ∀ {phrase : List Token} {statement : Statement}, StatementGrammar phrase statement →
      1 ≤ phrase.length := by
    intro phrase statement hphrase
    obtain ⟨t, tail, rfl, -⟩ := hphrase.head
    exact Nat.succ_pos _
  induction h generalizing fuel script with
  | nil =>
    obtain ⟨fuel, rfl⟩ : ∃ f, fuel = f + 1 := ⟨fuel - 1, by omega⟩
    rw [List.nil_append, parseStatements_end hlast, List.map_nil, List.append_nil]
  | @semicolon t tokens parts ht hrest ih =>
    obtain ⟨fuel, rfl⟩ : ∃ f, fuel = f + 1 := ⟨fuel - 1, by omega⟩
    rw [List.length_cons] at hfuel
    rw [List.cons_append, parseStatements_semicolon ht]
    exact ih (by omega) script
  | @statement phrase tokens statement parts hphrase hrest ih =>
    obtain ⟨fuel, rfl⟩ : ∃ f, fuel = f + 1 := ⟨fuel - 1, by omega⟩
    have hpos := hone hphrase
    rw [List.length_append] at hfuel
    have hscript : script ++ ((phrase, statement) :: parts).map Prod.snd =
        (script ++ [statement]) ++ parts.map Prod.snd := by
      rw [List.map_cons, List.append_assoc]
      rfl
    have hfollow := hrest.statementEnd (show (peek [last]).type = .end_ from hlast)
    rw [List.append_assoc, parseStatements_statement hphrase hfollow, hscript]
    by_cases hsemicolon : (peek (tokens ++ [last])).type = .semicolon
    · -- the loop takes the semicolon at once, the derivation in the next step
      cases tokens with
      | nil =>
        rw [List.nil_append, peek_cons, hlast] at hsemicolon
        cases hsemicolon
      | cons t tail =>
        replace hsemicolon : t.type = .semicolon := hsemicolon
        have hnext := ih (show (t :: tail).length < fuel + 1 by omega) (script ++ [statement])
        rw [List.cons_append, parseStatements_semicolon hsemicolon] at hnext
        rw [List.cons_append, matchToken_of_type hsemicolon, Option.getD_some]
        exact hnext
    · rw [matchToken_of_ne hsemicolon, Option.getD_none]
      exact ih (by omega) (script ++ [statement])
  | @terminated phrase tokens t statement parts hphrase ht hrest ih =>
    obtain ⟨fuel, rfl⟩ : ∃ f, fuel = f + 1 := ⟨fuel - 1, by omega⟩
    rw [List.length_append, List.length_cons] at hfuel
    have hfollow := (ScriptGrammar.semicolon ht hrest).statementEnd
      (show (peek [last]).type = .end_ from hlast)
    rw [List.append_assoc, parseStatements_statement hphrase hfollow, List.cons_append,
      matchToken_of_type ht, Option.getD_some, ih (by omega), List.map_cons, List.append_assoc]
    rfl

/-- What the loop accepts is a sentence. -/
theorem parseStatements_sound {fuel : ℕ} {tokens : List Token} {last : Token}
    {script out : List Statement} (hlast : last.type = .end_) (hbody : NoEnd tokens)
    (hfuel : tokens.length < fuel)
    (h : parseStatements fuel (tokens ++ [last]) script = (none, out)) :
    ∃ parts, ScriptGrammar tokens parts := by
  induction fuel generalizing tokens script with
  | zero => omega
  | succ fuel ih =>
    cases tokens with
    | nil => exact ⟨[], .nil⟩
    | cons t tokens =>
      rw [List.length_cons] at hfuel
      obtain ⟨ht, htokens⟩ := List.forall_mem_cons.mp hbody
      by_cases hsemicolon : t.type = .semicolon
      · rw [List.cons_append, parseStatements_semicolon hsemicolon] at h
        obtain ⟨parts, hparts⟩ := ih htokens (by omega) h
        exact ⟨parts, .semicolon hsemicolon hparts⟩
      · have hend : atEnd (t :: tokens ++ [last]) = false := decide_eq_false ht
        have hfirst : (peek (t :: tokens ++ [last])).type ≠ .semicolon := hsemicolon
        rw [parseStatements, hend, if_neg (by decide), matchToken_of_ne hfirst] at h
        dsimp only at h
        cases hstatement : parseStatement (t :: tokens ++ [last]) with
        | error e =>
          rw [hstatement] at h
          cases h
        | ok r =>
          obtain ⟨statement, rest⟩ := r
          rw [hstatement] at h
          dsimp only at h
          obtain ⟨phrase, hsplit, hphrase⟩ := parseStatement_recognizes.sound hstatement
          -- the phrase ends before the `END` token
          obtain ⟨tail, htail, rfl⟩ : ∃ tail, t :: tokens = phrase ++ tail ∧
              rest = tail ++ [last] := by
            rcases List.append_eq_append_iff.mp hsplit with ⟨extra, hphrase', hlast'⟩ |
              ⟨extra, hbody', hrest'⟩
            · cases extra with
              | nil =>
                rw [List.append_nil] at hphrase'
                exact ⟨[], by rw [hphrase', List.append_nil], by simpa using hlast'.symm⟩
              | cons x xs =>
                obtain ⟨rfl, -⟩ := List.cons.inj hlast'
                refine absurd hlast (hphrase.no_end _ ?_)
                rw [hphrase']
                exact List.mem_append_right _ List.mem_cons_self
            · exact ⟨extra, hbody', hrest'⟩
          have hpos : 1 ≤ phrase.length := by
            obtain ⟨t', tail', rfl, -⟩ := hphrase.head
            exact Nat.succ_pos _
          have hlength := congrArg List.length htail
          rw [List.length_cons, List.length_append] at hlength
          have htailbody : NoEnd tail := by
            intro t' hmem
            refine hbody t' ?_
            rw [htail]
            exact List.mem_append_right phrase hmem
          rw [htail]
          by_cases hnext : (peek (tail ++ [last])).type = .semicolon
          · cases tail with
            | nil =>
              rw [List.nil_append, peek_cons, hlast] at hnext
              cases hnext
            | cons t' tail =>
              replace hnext : t'.type = .semicolon := hnext
              rw [List.cons_append, matchToken_of_type hnext, Option.getD_some] at h
              rw [List.length_cons] at hlength
              obtain ⟨parts, hparts⟩ := ih (List.forall_mem_cons.mp htailbody).2 (by omega) h
              exact ⟨_, .terminated hphrase hnext hparts⟩
          · rw [matchToken_of_ne hnext, Option.getD_none] at h
            obtain ⟨parts, hparts⟩ := ih htailbody (by omega) h
            exact ⟨_, .statement hphrase hparts⟩

/-- A script that is not accepted is returned empty. -/
theorem parseStatements_failed {fuel : ℕ} {tokens : List Token} {script : List Statement}
    (h : (parseStatements fuel tokens script).1 ≠ none) :
    (parseStatements fuel tokens script).2 = [] := by
  induction fuel generalizing tokens script with
  | zero => exact absurd rfl h
  | succ fuel ih =>
    rw [parseStatements] at h ⊢
    split
    · rename_i hend
      rw [if_pos hend] at h
      exact absurd rfl h
    · rename_i hend
      rw [if_neg hend] at h
      split
      · rename_i tokens' hsemicolon
        rw [hsemicolon] at h
        exact ih h
      · rename_i hsemicolon
        rw [hsemicolon] at h
        dsimp only at h
        split
        · rfl
        · rename_i statement tokens' hstatement
          rw [hstatement] at h
          exact ih h

theorem parseSqlScript_failed {source : CString} (h : (parseSqlScript source).1 ≠ none) :
    (parseSqlScript source).2 = [] := by
  rw [parseSqlScript] at h ⊢
  split
  · rfl
  · rename_i tokens htokens
    rw [htokens] at h
    exact parseStatements_failed h

theorem parseSqlScript_derivation {source : CString} {tokens : List Token} {last : Token}
    (htokens : tokenizeSql source = .ok (tokens ++ [last]))
    {parts : List (List Token × Statement)} (h : ScriptGrammar tokens parts) :
    parseSqlScript source = (none, parts.map Prod.snd) := by
  obtain ⟨body, last', heq, hlast, -⟩ := tokenizeSql_end htokens
  obtain ⟨rfl, hsame⟩ := List.append_inj' heq rfl
  obtain ⟨rfl, -⟩ := List.cons.inj hsame
  rw [parseSqlScript, htokens]
  dsimp only
  rw [parseStatements_complete h hlast (by rw [List.length_append]; exact Nat.lt_succ_self _)]
  rfl

/-- **The parser.**  Let a source have the tokens `tokens` and the `END` token.  Then the parser succeeds
exactly if `tokens` is a sentence of the grammar; its statements are then those of the derivation, which
is the only one; and if the parser fails, the script it returns is empty. -/
theorem parseSqlScript_grammar (source : CString) (tokens : List Token) (last : Token)
    (htokens : tokenizeSql source = .ok (tokens ++ [last])) :
    ((parseSqlScript source).1 = none ↔ ∃ parts, ScriptGrammar tokens parts) ∧
    (∀ parts, ScriptGrammar tokens parts →
      (parseSqlScript source).2 = parts.map Prod.snd ∧
      ∀ parts', ScriptGrammar tokens parts' → parts' = parts) ∧
    ((parseSqlScript source).1 ≠ none → (parseSqlScript source).2 = []) := by
  refine ⟨⟨?_, ?_⟩, ?_, parseSqlScript_failed⟩
  · intro h
    obtain ⟨body, last', heq, hlast, hbody⟩ := tokenizeSql_end htokens
    obtain ⟨rfl, hsame⟩ := List.append_inj' heq rfl
    obtain ⟨rfl, -⟩ := List.cons.inj hsame
    rw [parseSqlScript, htokens] at h
    dsimp only at h
    exact parseStatements_sound hlast hbody
      (by rw [List.length_append]; exact Nat.lt_succ_self _) (Prod.ext h rfl)
  · rintro ⟨parts, hparts⟩
    rw [parseSqlScript_derivation htokens hparts]
  · intro parts hparts
    rw [parseSqlScript_derivation htokens hparts]
    exact ⟨rfl, fun parts' hparts' => hparts'.unique hparts⟩

/-- `SELECT*FROM` a table of one letter, at the given column. -/
def selectTokens (table : CString) (column : ℕ) : List Token :=
  [⟨.select, lit "SELECT", 1, column⟩, ⟨.star, lit "*", 1, column + 6⟩,
    ⟨.from_, lit "FROM", 1, column + 7⟩, ⟨.identifier, table, 1, column + 12⟩]

theorem selectTokens_grammar (table : CString) (column : ℕ) :
    StatementGrammar (selectTokens table column) (.select ⟨⟨none, table⟩, true, [], none⟩) :=
  .select rfl (.mk (.all rfl) rfl (.table rfl) .absent)

/-- Two statements without a semicolon between them. -/
theorem parseSqlScript_grammar_two :
    (parseSqlScript (lit "SELECT*FROM t SELECT*FROM u")).2 =
      [.select ⟨⟨none, lit "t"⟩, true, [], none⟩, .select ⟨⟨none, lit "u"⟩, true, [], none⟩] :=
  ((parseSqlScript_grammar (lit "SELECT*FROM t SELECT*FROM u")
    (selectTokens (lit "t") 1 ++ selectTokens (lit "u") 15) ⟨.end_, CString.empty, 1, 28⟩
    (by decide +kernel)).2.1 _
    (.statement (selectTokens_grammar (lit "t") 1)
      (.statement (selectTokens_grammar (lit "u") 15) .nil))).1

end MiniSql
