import MiniSql.Grammar
import MiniSql.LexicalGrammar

/-!
# Printing statements

A statement can be written down in many ways: keywords in any letter case, and any blanks and comments between
its tokens.

* `Item`s are the pieces of a printed statement, and `Statement.items` lists those of a statement.
* `Spelled` are the ways to write an item, and `Gap` what may stand between two of them; where two words or
  two strings meet (`Meet`), the gap is not empty.
* `Printed` describes the texts of a list of items.
* `Statement.Printable`: names are identifiers, and lists are not empty.

Main results:

* `scan_separator`: the tokenizer gets over a separator.
* `scan_printed`: it reads the items of a printed text and nothing else, since no item can run into what
  follows it (`MayFollow`, `FirstByte.mayFollow`).
* `parseSqlScript_printed`: `parse_sql_script` reads the statements back from each of the texts.
-/

namespace MiniSql

open PrefixParsing

/-! ### What is printed -/

/-- The pieces of a printed statement. -/
inductive Item where
  | keyword (type : TokenType)
  | name (text : CString)
  | value (text : CString)
  | symbol (type : TokenType)
  deriving DecidableEq

/-- Items with commas between them. -/
def listItems (item : CString → Item) : StringList → List Item
  | [] => []
  | [x] => [item x]
  | x :: y :: xs => item x :: .symbol .comma :: listItems item (y :: xs)

def nameItems (name : QualifiedName) : List Item :=
  match name.schema with
  | none => [.name name.table]
  | some schema => [.name schema, .symbol .dot, .name name.table]

def operatorType : WhereOperator → TokenType
  | .equal => .equal
  | .greater => .greater
  | .greaterEqual => .greaterEqual
  | .less => .less
  | .lessEqual => .lessEqual

def whereItems : Option WhereClause → List Item
  | none => []
  | some w => [.keyword .where_, .name w.column, .symbol (operatorType w.op), .value w.value]

/-- The items of a statement, without the semicolon behind it. -/
def Statement.items : Statement → List Item
  | .insert s => .keyword .insert :: .keyword .into :: (nameItems s.target ++ .symbol .lparen ::
      (listItems .name s.columns ++ .symbol .rparen :: .keyword .values :: .symbol .lparen ::
        (listItems .value s.values ++ [.symbol .rparen])))
  | .select s => .keyword .select ::
      ((if s.selectAll then [.symbol .star] else listItems .name s.columns) ++ .keyword .from_ ::
        (nameItems s.source ++ whereItems s.where_))

/-- The items of a script: a semicolon after each statement. -/
def scriptItems (statements : List Statement) : List Item :=
  statements.flatMap fun s => s.items ++ [.symbol .semicolon]

/-- An identifier that is no keyword. -/
structure IsName (text : CString) : Prop where
  identifier : IsIdentifier text
  no_keyword : ∀ k ∈ keywords, text.bytes.map tolower ≠ k.1.bytes.map tolower

structure IsQualifiedName (name : QualifiedName) : Prop where
  schema : ∀ schema ∈ name.schema, IsName schema
  table : IsName name.table

/-- The statements that can be written down: names are identifiers, lists are not empty. -/
def Statement.Printable : Statement → Prop
  | .insert s => IsQualifiedName s.target ∧ s.columns ≠ [] ∧ (∀ c ∈ s.columns, IsName c) ∧
      s.values ≠ []
  | .select s => IsQualifiedName s.source ∧
      (if s.selectAll then s.columns = [] else s.columns ≠ [] ∧ ∀ c ∈ s.columns, IsName c) ∧
      ∀ w ∈ s.where_, IsName w.column

/-! ### How it is printed -/

/-- A blank, a line comment with its newline, or a closed block comment. -/
inductive Separator : Bytes → Prop
  | blank {c : UInt8} : isspace c = true → Separator [c]
  | lineComment {text : Bytes} : (10 : UInt8) ∉ text → Separator (45 :: 45 :: (text ++ [10]))
  | blockComment {text : Bytes} : ¬[42, 47] <:+: text → Separator (47 :: 42 :: (text ++ [42, 47]))

/-- Any number of separators. -/
inductive Gap : Bytes → Prop
  | nil : Gap []
  | cons {separator gap : Bytes} : Separator separator → Gap gap → Gap (separator ++ gap)

def symbolText : TokenType → Option Bytes
  | .comma => some [44]
  | .dot => some [46]
  | .lparen => some [40]
  | .rparen => some [41]
  | .semicolon => some [59]
  | .star => some [42]
  | .equal => some [61]
  | .greater => some [62]
  | .greaterEqual => some [62, 61]
  | .less => some [60]
  | .lessEqual => some [60, 61]
  | _ => none

/-- The ways to write an item. -/
inductive Spelled : Item → Bytes → Prop
  | keyword {text : CString} {type : TokenType} {word : Bytes} : (text, type) ∈ keywords →
      word.map tolower = text.bytes.map tolower → Spelled (.keyword type) word
  | name (text : CString) : Spelled (.name text) text.bytes
  | value (text : CString) : Spelled (.value text) (39 :: (text.bytes.flatMap quoteByte ++ [39]))
  | symbol {type : TokenType} {word : Bytes} : symbolText type = some word →
      Spelled (.symbol type) word

def Item.isWord : Item → Bool
  | .keyword _ => true
  | .name _ => true
  | _ => false

def Item.isString : Item → Bool
  | .value _ => true
  | _ => false

/-- Two words, or two strings. -/
def Meet (a b : Item) : Prop := (a.isWord ∧ b.isWord) ∨ (a.isString ∧ b.isString)

instance (a b : Item) : Decidable (Meet a b) :=
  inferInstanceAs (Decidable ((a.isWord ∧ b.isWord) ∨ (a.isString ∧ b.isString)))

/-- The texts of the items, behind the item `prev`: each in one of its ways, with gaps around them, which
are not empty where two words or two strings meet. -/
inductive Printed : Option Item → List Item → Bytes → Prop
  | done {prev : Option Item} {gap : Bytes} : Gap gap → Printed prev [] gap
  | item {prev : Option Item} {a : Item} {items : List Item} {gap word rest : Bytes} : Gap gap →
      (∀ p ∈ prev, Meet p a → gap ≠ []) → Spelled a word → Printed (some a) items rest →
      Printed prev (a :: items) (gap ++ (word ++ rest))

/-! ### One round of the tokenizer -/

/-- The tokens from a position on. -/
def scan (source : Bytes) (pos : Position) : Except ParseError (List Token) :=
  tokenizeFrom (source.length + 1) source pos

theorem scan_skip {ch : UInt8} {rest rest' : Bytes} {pos pos' : Position}
    (h : lexOne ch rest pos = .ok ⟨none, rest', pos'⟩) :
    scan (ch :: rest) pos = scan rest' pos' := by
  have hle := lexOne_rest h
  dsimp only at hle
  rw [scan, scan, List.length_cons, tokenizeFrom, h]
  dsimp only
  rw [tokenizeFrom_fuel (show rest'.length < rest.length + 1 by omega)
    (show rest'.length < rest'.length + 1 by omega)]
  cases tokenizeFrom (rest'.length + 1) rest' pos' <;> rfl

theorem scan_token {ch : UInt8} {rest rest' : Bytes} {pos pos' : Position} {t : Token}
    {tokens : List Token} (h : lexOne ch rest pos = .ok ⟨some t, rest', pos'⟩)
    (hrest : scan rest' pos' = .ok tokens) : scan (ch :: rest) pos = .ok (t :: tokens) := by
  have hle := lexOne_rest h
  dsimp only at hle
  rw [scan] at hrest ⊢
  rw [List.length_cons, tokenizeFrom, h]
  dsimp only
  rw [tokenizeFrom_fuel (show rest'.length < rest.length + 1 by omega)
    (show rest'.length < rest'.length + 1 by omega), hrest]
  rfl

/-! ### Separators -/

/-- The tokenizer gets over a separator. -/
theorem scan_separator {separator : Bytes} (h : Separator separator) (rest : Bytes) (pos : Position) :
    ∃ pos', scan (separator ++ rest) pos = scan rest pos' := by
  cases h with
  | blank hc => exact ⟨_, scan_skip (lexOne_blank hc rest pos)⟩
  | @lineComment text hnewline =>
    have hnext : ∀ c ∈ (10 :: rest).head?, c = 10 := by
      intro c hc
      exact (Option.some.inj hc).symm
    have hlex := lexOne_lineComment hnewline hnext pos
    refine ⟨(pos.advance (2 + text.length)).next 10, ?_⟩
    have hbytes : 45 :: 45 :: (text ++ [10]) ++ rest = 45 :: 45 :: (text ++ 10 :: rest) := by simp
    rw [hbytes, scan_skip hlex, scan_skip (lexOne_blank (by decide) rest _)]
  | @blockComment text hclosed =>
    have hbytes : 47 :: 42 :: (text ++ [42, 47]) ++ rest = 47 :: 42 :: (text ++ 42 :: 47 :: rest) := by
      simp
    rw [hbytes]
    exact ⟨_, scan_skip (lexOne_blockComment hclosed rest pos)⟩

theorem scan_gap {gap : Bytes} (h : Gap gap) (rest : Bytes) (pos : Position) :
    ∃ pos', scan (gap ++ rest) pos = scan rest pos' := by
  induction h generalizing pos with
  | nil => exact ⟨pos, rfl⟩
  | @cons separator gap hseparator _ ih =>
    obtain ⟨pos₁, h₁⟩ := scan_separator hseparator (gap ++ rest) pos
    obtain ⟨pos₂, h₂⟩ := ih pos₁
    exact ⟨pos₂, by rw [List.append_assoc, h₁, h₂]⟩

/-- What a gap begins with. -/
theorem Gap.head {gap : Bytes} (h : Gap gap) (hne : gap ≠ []) :
    ∃ c tail, gap = c :: tail ∧ (isspace c = true ∨ c = 45 ∨ c = 47) := by
  cases h with
  | nil => exact absurd rfl hne
  | cons hseparator _ =>
    cases hseparator with
    | blank hc => exact ⟨_, _, rfl, Or.inl hc⟩
    | lineComment _ => exact ⟨_, _, rfl, Or.inr (Or.inl rfl)⟩
    | blockComment _ => exact ⟨_, _, rfl, Or.inr (Or.inr rfl)⟩

/-! ### Words -/

theorem isalpha_tolower (c : UInt8) : isalpha (tolower c) = isalpha c := by
  revert c
  apply forall_byte
  decide +kernel

/-- The bytes of a keyword in any letter case. -/
theorem keyword_letters {k : CString × TokenType} (hk : k ∈ keywords) {word : Bytes}
    (h : word.map tolower = k.1.bytes.map tolower) : word ≠ [] ∧ ∀ c ∈ word, isalpha c = true := by
  have hall : ∀ k ∈ keywords, k.1.bytes.map tolower ≠ [] ∧
      ∀ c ∈ k.1.bytes.map tolower, isalpha c = true := by decide +kernel
  obtain ⟨hne, halpha⟩ := hall k hk
  rw [← h] at hne halpha
  refine ⟨fun hnil => hne (by rw [hnil, List.map_nil]), fun c hc => ?_⟩
  rw [← isalpha_tolower]
  exact halpha _ (List.mem_map_of_mem hc)

/-- Letter case does not count in a comparison with the keywords. -/
theorem keyword_test (lexeme : CString) :
    (fun k : CString × TokenType => decide (sqlStricmp lexeme k.1 = 0)) =
      fun k => decide (lexeme.bytes.map tolower = k.1.bytes.map tolower) := by
  funext k
  rw [decide_eq_decide]
  exact sqlStricmp_eq_zero

theorem keywordType_keyword {k : CString × TokenType} (hk : k ∈ keywords) {lexeme : CString}
    (h : lexeme.bytes.map tolower = k.1.bytes.map tolower) : keywordType lexeme = k.2 := by
  have hall : ∀ k ∈ keywords, keywords.find? (fun k' =>
      decide (k.1.bytes.map tolower = k'.1.bytes.map tolower)) = some k := by decide +kernel
  rw [keywordType, keyword_test, h, hall k hk]

theorem keywordType_name {text : CString} (h : IsName text) : keywordType text = .identifier := by
  have hnone : keywords.find? (fun k =>
      decide (text.bytes.map tolower = k.1.bytes.map tolower)) = none := by
    rw [List.find?_eq_none]
    intro k hk hdec
    exact h.no_keyword k hk (of_decide_eq_true hdec)
  rw [keywordType, keyword_test, hnone]

/-! ### Symbols -/

theorem symbolType_greater {rest : Bytes} (h : ∀ c ∈ rest.head?, c ≠ 61) :
    symbolType 62 rest = some (.greater, 1) := by
  have hhead : rest.head? ≠ some 61 := fun heq => h 61 heq rfl
  show (if rest.head? = some 61 then some (TokenType.greaterEqual, 2) else some (.greater, 1)) = _
  rw [if_neg hhead]

theorem symbolType_less {rest : Bytes} (h : ∀ c ∈ rest.head?, c ≠ 61) :
    symbolType 60 rest = some (.less, 1) := by
  have hhead : rest.head? ≠ some 61 := fun heq => h 61 heq rfl
  show (if rest.head? = some 61 then some (TokenType.lessEqual, 2) else some (.less, 1)) = _
  rw [if_neg hhead]

theorem lexOne_symbol {type : TokenType} {word : Bytes} (h : symbolText type = some word)
    {rest : Bytes} (hrest : ∀ c ∈ rest.head?, c ≠ 61) (pos : Position) :
    ∃ ch tail, word = ch :: tail ∧ lexOne ch (tail ++ rest) pos = .ok (lexed type word rest pos) := by
  cases type
  case greater =>
    obtain rfl := Option.some.inj h
    refine ⟨62, [], rfl, ?_⟩
    show readSymbol 62 rest pos = _
    rw [readSymbol, symbolType_greater hrest]
    rfl
  case less =>
    obtain rfl := Option.some.inj h
    refine ⟨60, [], rfl, ?_⟩
    show readSymbol 60 rest pos = _
    rw [readSymbol, symbolType_less hrest]
    rfl
  all_goals cases h
  -- the types that are left have one text, whatever follows
  all_goals exact ⟨_, _, rfl, rfl⟩

/-! ### Items -/

/-- The token an item is read as. -/
def Matches : Item → Token → Prop
  | .keyword type, t => t.type = type
  | .name text, t => t.type = .identifier ∧ t.lexeme = text
  | .value text, t => t.type = .string ∧ t.lexeme = text
  | .symbol type, t => t.type = type

/-- The bytes that may stand right behind an item. -/
def MayFollow : Item → UInt8 → Prop
  | .keyword _, c => isIdentifierByte c = false
  | .name _, c => isIdentifierByte c = false
  | .value _, c => c ≠ 39
  | .symbol _, c => c ≠ 61

def Item.WellFormed : Item → Prop
  | .name text => IsName text
  | _ => True

theorem lexOne_spelled {a : Item} {word : Bytes} (h : Spelled a word) (ha : a.WellFormed)
    {rest : Bytes} (hrest : ∀ c ∈ rest.head?, MayFollow a c) (pos : Position) :
    ∃ ch tail t pos', word = ch :: tail ∧ Matches a t ∧
      lexOne ch (tail ++ rest) pos = .ok ⟨some t, rest, pos'⟩ := by
  cases h with
  | @keyword text type _ hmem hlower =>
    obtain ⟨hne, halpha⟩ := keyword_letters hmem hlower
    obtain ⟨ch, tail, rfl⟩ := List.exists_cons_of_ne_nil hne
    have hword : ∀ c ∈ ch :: tail, isIdentifierByte c = true :=
      fun c hc => (wordStart_cases (Or.inl (halpha c hc))).1
    have hnul : (0 : UInt8) ∉ ch :: tail := fun h => absurd (hword 0 h) (by decide)
    have htype : keywordType (CString.ofBuffer (ch :: tail)) = type :=
      keywordType_keyword hmem (by rw [CString.ofBuffer_bytes hnul, hlower])
    refine ⟨ch, tail, _, _, rfl, ?_, lexOne_word (Or.inl (halpha ch (List.mem_cons_self ..)))
      (fun c hc => hword c (List.mem_cons_of_mem ch hc)) hrest pos⟩
    exact htype
  | name text =>
    obtain ⟨ch, hch, hstart⟩ := ha.identifier.start
    obtain ⟨tail, htail⟩ : ∃ tail, text.bytes = ch :: tail := List.head?_eq_some_iff.mp hch
    have hbuffer : CString.ofBuffer (ch :: tail) = text := by
      rw [← htail, CString.ofBuffer_of_bytes]
    have hword : ∀ c ∈ tail, isIdentifierByte c = true := by
      intro c hc
      apply ha.identifier.bytes
      rw [htail]
      exact List.mem_cons_of_mem ch hc
    refine ⟨ch, tail, _, _, htail, ?_, lexOne_word hstart hword hrest pos⟩
    rw [hbuffer, keywordType_name ha]
    exact ⟨rfl, rfl⟩
  | value text =>
    refine ⟨39, _, ⟨.string, text, pos.line, pos.column⟩,
      pos.advance ((text.bytes.flatMap quoteByte).length + 1), rfl, ⟨rfl, rfl⟩, ?_⟩
    rw [List.append_assoc, List.singleton_append, lexOne_string text.bytes hrest,
      CString.ofBuffer_of_bytes]
  | @symbol type _ hsymbol =>
    obtain ⟨ch, tail, rfl, hlex⟩ := lexOne_symbol hsymbol hrest pos
    refine ⟨ch, tail, _, _, rfl, ?_, hlex⟩
    exact rfl

/-- The bytes an item's text can begin with. -/
def FirstByte : Item → UInt8 → Prop
  | .keyword _, c => isalpha c = true ∨ c = 95
  | .name _, c => isalpha c = true ∨ c = 95
  | .value _, c => c = 39
  | .symbol type, c => isIdentifierByte c = false ∧ c ≠ 39 ∧ c < 128 ∧ (c = 61 → type = .equal)

theorem Spelled.firstByte {a : Item} {word : Bytes} (h : Spelled a word) (ha : a.WellFormed) :
    ∃ c tail, word = c :: tail ∧ FirstByte a c := by
  cases h with
  | keyword hmem hlower =>
    obtain ⟨hne, halpha⟩ := keyword_letters hmem hlower
    obtain ⟨ch, tail, rfl⟩ := List.exists_cons_of_ne_nil hne
    exact ⟨ch, tail, rfl, Or.inl (halpha ch (List.mem_cons_self ..))⟩
  | name text =>
    obtain ⟨ch, hch, hstart⟩ := ha.identifier.start
    obtain ⟨tail, htail⟩ : ∃ tail, text.bytes = ch :: tail := List.head?_eq_some_iff.mp hch
    exact ⟨ch, tail, htail, hstart⟩
  | value text => exact ⟨39, _, rfl, rfl⟩
  | @symbol type _ hsymbol =>
    cases type
    all_goals cases hsymbol
    all_goals exact ⟨_, _, rfl, by decide, by decide, by decide, by decide⟩

theorem FirstByte.ascii {a : Item} {c : UInt8} (h : FirstByte a c) : c < 128 := by
  cases a with
  | keyword type => exact (wordStart_cases h).2
  | name text => exact (wordStart_cases h).2
  | value text =>
    obtain rfl : c = 39 := h
    decide
  | symbol type => exact h.2.2.1

/-- An item may stand right behind another one, unless a separator is needed. -/
theorem FirstByte.mayFollow {a b : Item} {c : UInt8} (h : FirstByte b c) (hmeet : ¬Meet a b)
    (hequal : b = .symbol .equal → a.isWord = true) : MayFollow a c := by
  have hword : (isalpha c = true ∨ c = 95) → c ≠ 39 ∧ c ≠ 61 := by
    intro hstart
    obtain ⟨-, hquote, -, -, hequal⟩ := isIdentifierByte_cases (wordStart_cases hstart).1
    exact ⟨hquote, hequal⟩
  have hbehindWord : a.isWord = true → isIdentifierByte c = false := by
    intro ha
    cases b with
    | keyword type => exact absurd (Or.inl ⟨ha, rfl⟩) hmeet
    | name text => exact absurd (Or.inl ⟨ha, rfl⟩) hmeet
    | value text =>
      obtain rfl : c = 39 := h
      decide
    | symbol type => exact h.1
  cases a with
  | keyword type => exact hbehindWord rfl
  | name text => exact hbehindWord rfl
  | value text =>
    cases b with
    | keyword type => exact (hword h).1
    | name text => exact (hword h).1
    | value text => exact absurd (Or.inr ⟨rfl, rfl⟩) hmeet
    | symbol type => exact h.2.1
  | symbol type =>
    cases b with
    | keyword type => exact (hword h).2
    | name text => exact (hword h).2
    | value text =>
      obtain rfl : c = 39 := h
      show (39 : UInt8) ≠ 61
      decide
    | symbol type =>
      intro hc
      rw [h.2.2.2 hc] at hequal
      cases hequal rfl

/-! ### Texts -/

/-- `=` stands behind words only. -/
def NoMerge (a b : Item) : Prop := b = .symbol .equal → a.isWord = true

theorem Printed.mayFollow {a : Item} {items : List Item} {source : Bytes}
    (h : Printed (some a) items source) (hitems : ∀ b ∈ items, b.WellFormed)
    (hmerge : ∀ b ∈ items.head?, NoMerge a b) : ∀ c ∈ source.head?, MayFollow a c := by
  have hgap : ∀ {c : UInt8}, (isspace c = true ∨ c = 45 ∨ c = 47) → MayFollow a c := by
    intro c hc
    have hnot : isIdentifierByte c = false ∧ c ≠ 39 ∧ c ≠ 61 := by
      refine ⟨?_, ?_, ?_⟩
      · rw [Bool.eq_false_iff]
        intro hid
        obtain ⟨hspace, -, hminus, hslash, -⟩ := isIdentifierByte_cases hid
        rcases hc with hc | hc | hc
        · rw [hspace] at hc
          cases hc
        · exact hminus hc
        · exact hslash hc
      · rintro rfl
        exact absurd hc (by decide)
      · rintro rfl
        exact absurd hc (by decide)
    cases a with
    | keyword type => exact hnot.1
    | name text => exact hnot.1
    | value text => exact hnot.2.1
    | symbol type => exact hnot.2.2
  intro c hc
  cases h with
  | done hgaps =>
    obtain ⟨c', tail, hsource, hc'⟩ := hgaps.head (by rintro rfl; cases hc)
    rw [hsource] at hc
    obtain rfl := Option.some.inj hc
    exact hgap hc'
  | @item _ b items gap word rest hgaps hmeet hspelled hrest =>
    by_cases hnil : gap = []
    · obtain ⟨c', tail, hword, hfirst⟩ := hspelled.firstByte (hitems b (List.mem_cons_self ..))
      rw [hnil, hword] at hc
      obtain rfl := Option.some.inj hc
      exact hfirst.mayFollow (fun hm => hmeet a rfl hm hnil) (hmerge b rfl)
    · obtain ⟨c', tail, hsource, hc'⟩ := hgaps.head hnil
      rw [hsource] at hc
      obtain rfl := Option.some.inj hc
      exact hgap hc'

/-- The tokenizer reads the items of a printed text, and nothing else. -/
theorem scan_printed {prev : Option Item} {items : List Item} {source : Bytes}
    (h : Printed prev items source) (hitems : ∀ a ∈ items, a.WellFormed)
    (hchain : items.IsChain NoMerge) (pos : Position) :
    ∃ tokens last, scan source pos = .ok (tokens ++ [last]) ∧ List.Forall₂ Matches items tokens := by
  induction h generalizing pos with
  | done hgap =>
    obtain ⟨pos', hpos'⟩ := scan_gap hgap [] pos
    refine ⟨[], ⟨.end_, CString.empty, pos'.line, pos'.column⟩, ?_, .nil⟩
    rw [List.append_nil] at hpos'
    rw [hpos']
    rfl
  | @item prev a items gap word rest hgap hmeet hspelled hrest ih =>
    obtain ⟨pos₁, hpos₁⟩ := scan_gap hgap (word ++ rest) pos
    have hitems' : ∀ b ∈ items, b.WellFormed := fun b hb => hitems b (List.mem_cons_of_mem a hb)
    have hfollow : ∀ c ∈ rest.head?, MayFollow a c :=
      hrest.mayFollow hitems' (List.isChain_cons.mp hchain).1
    obtain ⟨ch, tail, t, pos₂, rfl, ht, hlex⟩ :=
      lexOne_spelled hspelled (hitems a (List.mem_cons_self ..)) hfollow pos₁
    obtain ⟨tokens, last, htokens, hmatches⟩ := ih hitems' (List.isChain_cons.mp hchain).2 pos₂
    refine ⟨t :: tokens, last, ?_, .cons ht hmatches⟩
    rw [hpos₁, List.cons_append]
    exact scan_token hlex htokens

/-! ### The items of a script -/

theorem mem_listItems {item : CString → Item} {xs : StringList} {a : Item}
    (h : a ∈ listItems item xs) : a = .symbol .comma ∨ ∃ x ∈ xs, a = item x := by
  induction xs using listItems.induct with
  | case1 => cases h
  | case2 x => exact Or.inr ⟨x, List.mem_singleton_self x, List.mem_singleton.mp h⟩
  | case3 x y xs ih =>
    rw [listItems] at h
    rcases List.mem_cons.mp h with h | h
    · exact Or.inr ⟨x, List.mem_cons_self .., h⟩
    · rcases List.mem_cons.mp h with h | h
      · exact Or.inl h
      · rcases ih h with h | ⟨z, hz, h⟩
        · exact Or.inl h
        · exact Or.inr ⟨z, List.mem_cons_of_mem x hz, h⟩

/-- Items that can be printed and read, and are not `=`. -/
def Item.Plain (a : Item) : Prop := a.WellFormed ∧ a ≠ .symbol .equal

theorem Item.plain_keyword (type : TokenType) : (Item.keyword type).Plain :=
  ⟨trivial, fun h => by cases h⟩

theorem Item.plain_symbol {type : TokenType} (h : type ≠ .equal) : (Item.symbol type).Plain :=
  ⟨trivial, fun heq => h (Item.symbol.inj heq)⟩

theorem Item.plain_name {text : CString} (h : IsName text) : (Item.name text).Plain :=
  ⟨h, fun heq => by cases heq⟩

theorem Item.plain_value (text : CString) : (Item.value text).Plain :=
  ⟨trivial, fun h => by cases h⟩

theorem listItems_plain {item : CString → Item} {xs : StringList} (h : ∀ x ∈ xs, (item x).Plain) :
    ∀ a ∈ listItems item xs, a.Plain := by
  intro a ha
  rcases mem_listItems ha with rfl | ⟨x, hx, rfl⟩
  · exact Item.plain_symbol (by decide)
  · exact h x hx

theorem nameItems_plain {name : QualifiedName} (h : IsQualifiedName name) :
    ∀ a ∈ nameItems name, a.Plain := by
  obtain ⟨schema, table⟩ := name
  cases schema with
  | none => exact List.forall_mem_singleton.mpr (Item.plain_name h.table)
  | some schema =>
    exact List.forall_mem_cons.mpr ⟨Item.plain_name (h.schema schema rfl),
      List.forall_mem_cons.mpr ⟨Item.plain_symbol (by decide),
        List.forall_mem_singleton.mpr (Item.plain_name h.table)⟩⟩

theorem isChain_of_plain {items : List Item} (h : ∀ a ∈ items, a.Plain) : items.IsChain NoMerge := by
  induction items with
  | nil => exact .nil
  | cons a items ih =>
    obtain ⟨-, hitems⟩ := List.forall_mem_cons.mp h
    refine List.isChain_cons.mpr ⟨fun b hb heq => ?_, ih hitems⟩
    exact absurd heq (hitems b (List.mem_of_mem_head? hb)).2

/-- What scripts are made of: the items are well formed, and a `=` stands behind a name. -/
structure Proper (items : List Item) : Prop where
  wellFormed : ∀ a ∈ items, a.WellFormed
  chain : items.IsChain NoMerge
  head : items.head? ≠ some (.symbol .equal)

theorem Proper.of_plain {items : List Item} (h : ∀ a ∈ items, a.Plain) : Proper items where
  wellFormed := fun a ha => (h a ha).1
  chain := isChain_of_plain h
  head := fun hhead => (h _ (List.mem_of_mem_head? hhead)).2 rfl

theorem Proper.append {items items' : List Item} (h : Proper items) (h' : Proper items') :
    Proper (items ++ items') where
  wellFormed := List.forall_mem_append.mpr ⟨h.wellFormed, h'.wellFormed⟩
  chain := by
    refine List.isChain_append.mpr ⟨h.chain, h'.chain, fun a _ b hb heq => ?_⟩
    rw [heq] at hb
    exact absurd hb h'.head
  head := by
    cases items with
    | nil => exact h'.head
    | cons a items => exact h.head

theorem whereItems_proper {where_ : Option WhereClause} (h : ∀ w ∈ where_, IsName w.column) :
    Proper (whereItems where_) := by
  cases where_ with
  | none => exact .of_plain fun a ha => by cases ha
  | some w =>
    refine ⟨?_, ?_, fun hhead => by cases hhead⟩
    · exact List.forall_mem_cons.mpr ⟨trivial, List.forall_mem_cons.mpr ⟨h w rfl,
        List.forall_mem_cons.mpr ⟨trivial, List.forall_mem_singleton.mpr trivial⟩⟩⟩
    · rw [whereItems]
      simp [NoMerge, Item.isWord]

theorem Statement.items_proper {s : Statement} (h : s.Printable) : Proper s.items := by
  cases s with
  | insert s =>
    obtain ⟨htarget, -, hcolumns, -⟩ := h
    have hname : ∀ c ∈ s.columns, (Item.name c).Plain := fun c hc => Item.plain_name (hcolumns c hc)
    have hvalue : ∀ v ∈ s.values, (Item.value v).Plain := fun v _ => Item.plain_value v
    apply Proper.of_plain
    rw [Statement.items]
    simp only [List.forall_mem_cons, List.forall_mem_append]
    exact ⟨Item.plain_keyword _, Item.plain_keyword _, nameItems_plain htarget,
      Item.plain_symbol (by decide), listItems_plain hname, Item.plain_symbol (by decide),
      Item.plain_keyword _, Item.plain_symbol (by decide), listItems_plain hvalue,
      Item.plain_symbol (by decide), by simp⟩
  | select s =>
    obtain ⟨hsource, hlist, hwhere⟩ := h
    have hselected : ∀ a ∈ (if s.selectAll then [.symbol .star] else listItems .name s.columns),
        a.Plain := by
      split
      · exact List.forall_mem_singleton.mpr (Item.plain_symbol (by decide))
      · rename_i hall
        rw [if_neg hall] at hlist
        exact listItems_plain fun c hc => Item.plain_name (hlist.2 c hc)
    have hfront := Proper.append (Proper.of_plain (List.forall_mem_cons.mpr
      ⟨Item.plain_keyword .select, hselected⟩)) (Proper.of_plain (List.forall_mem_cons.mpr
      ⟨Item.plain_keyword .from_, nameItems_plain hsource⟩))
    have hall := hfront.append (whereItems_proper hwhere)
    rw [List.append_assoc] at hall
    exact hall

theorem scriptItems_proper {statements : List Statement} (h : ∀ s ∈ statements, s.Printable) :
    Proper (scriptItems statements) := by
  induction statements with
  | nil => exact .of_plain fun a ha => by cases ha
  | cons s statements ih =>
    obtain ⟨hs, hstatements⟩ := List.forall_mem_cons.mp h
    have hend : Proper [.symbol .semicolon] :=
      .of_plain (List.forall_mem_singleton.mpr (Item.plain_symbol (by decide)))
    rw [scriptItems, List.flatMap_cons]
    exact ((Statement.items_proper hs).append hend).append (ih hstatements)

/-! ### The tokens of a script derive from the grammar -/

theorem matches_cons {a : Item} {items : List Item} {tokens : List Token}
    (h : List.Forall₂ Matches (a :: items) tokens) :
    ∃ t rest, tokens = t :: rest ∧ Matches a t ∧ List.Forall₂ Matches items rest := by
  obtain ⟨t, rest, ht, hrest, rfl⟩ := List.forall₂_cons_left_iff.mp h
  exact ⟨t, rest, rfl, ht, hrest⟩

theorem matches_append {items items' : List Item} {tokens : List Token}
    (h : List.Forall₂ Matches (items ++ items') tokens) :
    ∃ front back, tokens = front ++ back ∧ List.Forall₂ Matches items front ∧
      List.Forall₂ Matches items' back := by
  induction items generalizing tokens with
  | nil => exact ⟨[], tokens, rfl, .nil, h⟩
  | cons a items ih =>
    obtain ⟨t, rest, rfl, ht, hrest⟩ := matches_cons h
    obtain ⟨front, back, rfl, hfront, hback⟩ := ih hrest
    exact ⟨t :: front, back, rfl, .cons ht hfront, hback⟩

theorem listItems_grammar {item : CString → Item} {read : Token → Option CString}
    (hread : ∀ x t, Matches (item x) t → read t = some x) {xs : StringList} (hne : xs ≠ [])
    {tokens : List Token} (h : List.Forall₂ Matches (listItems item xs) tokens) :
    SepList read (fun t => isComma t = true) tokens xs := by
  induction xs using listItems.induct generalizing tokens with
  | case1 => exact absurd rfl hne
  | case2 x =>
    obtain ⟨t, rest, rfl, ht, hrest⟩ := matches_cons h
    cases hrest
    exact .one (hread x t ht)
  | case3 x y xs ih =>
    obtain ⟨t, rest, rfl, ht, hrest⟩ := matches_cons h
    obtain ⟨comma, rest', rfl, hcomma, hrest'⟩ := matches_cons hrest
    have hsep : isComma comma = true := decide_eq_true hcomma
    exact .cons (hread x t ht) hsep (ih (List.cons_ne_nil y xs) hrest')

theorem name_identifier (x : CString) (t : Token) (h : Matches (.name x) t) :
    identifierItem t = some x := identifierItem_some.mpr h

theorem value_literal (x : CString) (t : Token) (h : Matches (.value x) t) :
    literalItem t = some x := by
  obtain ⟨htype, hlexeme⟩ := h
  rw [literalItem, if_neg fun hne => hne.1 htype, hlexeme]

theorem nameItems_grammar {name : QualifiedName} {tokens : List Token}
    (h : List.Forall₂ Matches (nameItems name) tokens) : QualifiedNameGrammar tokens name := by
  obtain ⟨schema, table⟩ := name
  cases schema with
  | none =>
    obtain ⟨t, rest, rfl, ⟨htype, rfl⟩, hrest⟩ := matches_cons h
    cases hrest
    exact .table htype
  | some schema =>
    obtain ⟨t, rest, rfl, ⟨htype, rfl⟩, hrest⟩ := matches_cons h
    obtain ⟨dot, rest', rfl, hdot, hrest'⟩ := matches_cons hrest
    obtain ⟨t', rest'', rfl, ⟨htype', rfl⟩, hrest''⟩ := matches_cons hrest'
    cases hrest''
    exact .qualified htype hdot htype'

theorem operatorOf_operatorType (op : WhereOperator) : operatorOf (operatorType op) = some op := by
  cases op <;> rfl

theorem whereItems_grammar {where_ : Option WhereClause} {tokens : List Token}
    (h : List.Forall₂ Matches (whereItems where_) tokens) : WhereGrammar tokens where_ := by
  cases where_ with
  | none =>
    cases h
    exact .absent
  | some w =>
    obtain ⟨column, value, op⟩ := w
    obtain ⟨keyword, rest, rfl, hkeyword, hrest⟩ := matches_cons h
    obtain ⟨c, rest₁, rfl, ⟨hctype, rfl⟩, hrest₁⟩ := matches_cons hrest
    obtain ⟨o, rest₂, rfl, hotype, hrest₂⟩ := matches_cons hrest₁
    obtain ⟨v, rest₃, rfl, hv, hrest₃⟩ := matches_cons hrest₂
    cases hrest₃
    have hop : operatorOf o.type = some op := by
      rw [show o.type = operatorType op from hotype, operatorOf_operatorType]
    exact .present hkeyword hctype hop (value_literal value v hv)

theorem insertItems_grammar {s : InsertStatement} (hcolumns : s.columns ≠ []) (hvalues : s.values ≠ [])
    {tokens : List Token} (h : List.Forall₂ Matches (Statement.insert s).items tokens) :
    StatementGrammar tokens (.insert s) := by
  obtain ⟨keyword, rest, rfl, hkeyword, hrest⟩ := matches_cons h
  obtain ⟨into, rest₁, rfl, hinto, hrest₁⟩ := matches_cons hrest
  obtain ⟨name, rest₂, rfl, hname, hrest₂⟩ := matches_append hrest₁
  obtain ⟨lparen, rest₃, rfl, hlparen, hrest₃⟩ := matches_cons hrest₂
  obtain ⟨columns, rest₄, rfl, hcols, hrest₄⟩ := matches_append hrest₃
  obtain ⟨rparen, rest₅, rfl, hrparen, hrest₅⟩ := matches_cons hrest₄
  obtain ⟨values, rest₆, rfl, hvals, hrest₆⟩ := matches_cons hrest₅
  obtain ⟨lparen', rest₇, rfl, hlparen', hrest₇⟩ := matches_cons hrest₆
  obtain ⟨literals, rest₈, rfl, hlits, hrest₈⟩ := matches_append hrest₇
  obtain ⟨rparen', rest₉, rfl, hrparen', hrest₉⟩ := matches_cons hrest₈
  cases hrest₉
  exact .insert hkeyword (.mk hinto (nameItems_grammar hname) hlparen
    (listItems_grammar name_identifier hcolumns hcols) hrparen hvals hlparen'
    (listItems_grammar value_literal hvalues hlits) hrparen')

theorem selectItems_grammar {s : SelectStatement}
    (hlist : if s.selectAll then s.columns = [] else s.columns ≠ [])
    {tokens : List Token} (h : List.Forall₂ Matches (Statement.select s).items tokens) :
    StatementGrammar tokens (.select s) := by
  obtain ⟨source, selectAll, columns, where_⟩ := s
  obtain ⟨keyword, rest, rfl, hkeyword, hrest⟩ := matches_cons h
  obtain ⟨list, rest₁, rfl, hselected, hrest₁⟩ := matches_append hrest
  obtain ⟨from_, rest₂, rfl, hfrom, hrest₂⟩ := matches_cons hrest₁
  obtain ⟨name, filter, rfl, hname, hfilter⟩ := matches_append hrest₂
  have hselect : SelectListGrammar list (selectAll, columns) := by
    cases selectAll with
    | true =>
      obtain rfl : columns = [] := hlist
      obtain ⟨star, rest₃, rfl, hstar, hrest₃⟩ := matches_cons hselected
      cases hrest₃
      exact .all hstar
    | false => exact .columns (listItems_grammar name_identifier hlist hselected)
  exact .select hkeyword (.mk hselect hfrom (nameItems_grammar hname) (whereItems_grammar hfilter))

theorem Statement.items_grammar {s : Statement} (h : s.Printable) {tokens : List Token}
    (htokens : List.Forall₂ Matches s.items tokens) : StatementGrammar tokens s := by
  cases s with
  | insert s => exact insertItems_grammar h.2.1 h.2.2.2 htokens
  | select s =>
    refine selectItems_grammar ?_ htokens
    have hlist := h.2.1
    split at hlist
    · rename_i hall
      rw [if_pos hall]
      exact hlist
    · rename_i hall
      rw [if_neg hall]
      exact hlist.1

theorem scriptItems_grammar {statements : List Statement} (h : ∀ s ∈ statements, s.Printable)
    {tokens : List Token} (htokens : List.Forall₂ Matches (scriptItems statements) tokens) :
    ∃ parts, ScriptGrammar tokens parts ∧ parts.map Prod.snd = statements := by
  induction statements generalizing tokens with
  | nil =>
    cases htokens
    exact ⟨[], .nil, rfl⟩
  | cons s statements ih =>
    obtain ⟨hs, hstatements⟩ := List.forall_mem_cons.mp h
    rw [scriptItems, List.flatMap_cons, List.append_assoc] at htokens
    obtain ⟨phrase, rest, rfl, hphrase, hrest⟩ := matches_append htokens
    obtain ⟨semicolon, rest₁, rfl, hsemicolon, hrest₁⟩ := matches_cons hrest
    obtain ⟨parts, hparts, hmap⟩ := ih hstatements hrest₁
    refine ⟨(phrase, s) :: parts, .terminated (Statement.items_grammar hs hphrase) hsemicolon hparts, ?_⟩
    rw [List.map_cons, hmap]

/-! ### The result -/

theorem Gap.ascii {gap : Bytes} (h : Gap gap) : ∀ c ∈ gap.head?, c < 128 := by
  intro c hc
  obtain ⟨c', tail, rfl, hc'⟩ := h.head (by rintro rfl; cases hc)
  obtain rfl := Option.some.inj hc
  have hall : ∀ c : UInt8, (isspace c = true ∨ c = 45 ∨ c = 47) → c < 128 :=
    forall_byte (by decide +kernel)
  exact hall c' hc'

/-- A printed text has no byte order mark. -/
theorem Printed.ascii {prev : Option Item} {items : List Item} {source : Bytes}
    (h : Printed prev items source) (hitems : ∀ a ∈ items, a.WellFormed) :
    ∀ c ∈ source.head?, c < 128 := by
  intro c hc
  cases h with
  | done hgap => exact hgap.ascii c hc
  | @item _ a items gap word rest hgap _ hspelled _ =>
    cases gap with
    | nil =>
      obtain ⟨c', tail, rfl, hfirst⟩ := hspelled.firstByte (hitems a (List.mem_cons_self ..))
      obtain rfl := Option.some.inj hc
      exact hfirst.ascii
    | cons c' gap => exact hgap.ascii c hc

theorem skipByteOrderMark_ascii {source : Bytes} (h : ∀ c ∈ source.head?, c < 128) :
    skipByteOrderMark source = (source, ⟨1, 1⟩) := by
  rw [skipByteOrderMark]
  rintro rest rfl
  exact absurd (h 0xEF rfl) (by decide)

/-- **Parsing undoes printing.**  Whatever letter case, blanks and comments a script is written with, the
parser reads its statements back. -/
theorem parseSqlScript_printed (statements : List Statement) (source : CString)
    (hstatements : ∀ s ∈ statements, s.Printable)
    (hprinted : Printed none (scriptItems statements) source.bytes) :
    parseSqlScript source = (none, statements) := by
  have hproper := scriptItems_proper hstatements
  obtain ⟨tokens, last, hscan, hmatches⟩ :=
    scan_printed hprinted hproper.wellFormed hproper.chain ⟨1, 1⟩
  obtain ⟨parts, hparts, hmap⟩ := scriptItems_grammar hstatements hmatches
  have htokens : tokenizeSql source = .ok (tokens ++ [last]) := by
    rw [tokenizeSql, skipByteOrderMark_ascii (hprinted.ascii hproper.wellFormed)]
    exact hscan
  rw [parseSqlScript_derivation htokens hparts, hmap]

theorem Printed.tight {prev : Option Item} {a : Item} {items : List Item} {word rest : Bytes}
    (hmeet : ∀ p ∈ prev, ¬Meet p a) (h : Spelled a word) (hrest : Printed (some a) items rest) :
    Printed prev (a :: items) (word ++ rest) :=
  .item .nil (fun p hp hm => absurd hm (hmeet p hp)) h hrest

theorem Printed.spaced {prev : Option Item} {a : Item} {items : List Item}
    {separator word rest : Bytes} (hseparator : Separator separator) (h : Spelled a word)
    (hrest : Printed (some a) items rest) : Printed prev (a :: items) (separator ++ (word ++ rest)) := by
  have hgap : Gap separator := by
    rw [← List.append_nil separator]
    exact .cons hseparator .nil
  refine .item hgap (fun p _ _ hnil => ?_) h hrest
  subst hnil
  cases hseparator

/-- A SELECT with a comment and a quote in it. -/
theorem parseSqlScript_printed_select :
    parseSqlScript (lit "Select*FROM t--\nwhere a>'it''s';") =
      (none, [.select ⟨⟨none, lit "t"⟩, true, [], some ⟨lit "a", lit "it's", .greater⟩⟩]) := by
  have hname : ∀ c ∈ [lit "t", lit "a"], IsName c := by
    intro c hc
    refine ⟨⟨?_, ?_⟩, ?_⟩
    · rcases List.mem_cons.mp hc with rfl | hc
      · exact ⟨116, rfl, Or.inl rfl⟩
      · obtain rfl := List.mem_singleton.mp hc
        exact ⟨97, rfl, Or.inl rfl⟩
    · revert c
      decide +kernel
    · revert c
      decide +kernel
  have ht := hname (lit "t") (by simp)
  have ha := hname (lit "a") (by simp)
  have hkeyword : ∀ k ∈ keywords, ∀ word : Bytes, word.map tolower = k.1.bytes.map tolower →
      Spelled (.keyword k.2) word := fun k hk word h => .keyword hk h
  have hblank : Separator [32] := .blank (by decide)
  have hcomment : Separator (45 :: 45 :: ([] ++ [10])) := .lineComment (by decide)
  refine parseSqlScript_printed _ _ (List.forall_mem_singleton.mpr ⟨⟨?_, ht⟩, rfl, ?_⟩) ?_
  · exact fun schema h => by cases h
  · intro w hw
    obtain rfl := Option.some.inj hw
    exact ha
  · exact .tight (by decide) (hkeyword (lit "SELECT", .select) (by decide +kernel) (lit "Select").bytes
        (by decide +kernel))
      (.tight (by decide) (.symbol (rfl : symbolText .star = some [42]))
      (.tight (by decide) (hkeyword (lit "FROM", .from_) (by decide +kernel) (lit "FROM").bytes
        (by decide +kernel))
      (.spaced hblank (.name (lit "t"))
      (.spaced hcomment (hkeyword (lit "WHERE", .where_) (by decide +kernel) (lit "where").bytes
        (by decide +kernel))
      (.spaced hblank (.name (lit "a"))
      (.tight (by decide) (.symbol (rfl : symbolText .greater = some [62]))
      (.tight (by decide) (.value (lit "it's"))
      (.tight (by decide) (.symbol (rfl : symbolText .semicolon = some [59]))
      (.done .nil)))))))))

end MiniSql
