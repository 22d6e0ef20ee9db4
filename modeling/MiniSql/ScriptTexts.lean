import MiniSql.Grammar
import MiniSql.TokenPositions

/-!
# Texts of scripts

Which texts `parse_sql_script` accepts, without a word about positions.

* `ScriptText`: the text is made of pieces whose tokens form a script with these statements.
* `Alike`: the same tokens at other places.  Nothing in the grammar depends on the positions of the tokens
  (`ScriptGrammar.alike`).

Main results:

* `parseSqlScript_iff`: a source is accepted exactly if it is such a text, behind a byte order mark.
* `ScriptText.append`: such texts can be put one behind the other with a newline between them.
* `parseSqlScript_append`: so parsing is compositional, if the second text does not begin with a byte order
  mark.
-/

namespace MiniSql

open PrefixParsing

/-! ### Tokens at other places -/

/-- The same token, at another place. -/
def SameShape (t t' : Token) : Prop := t.type = t'.type ∧ t.lexeme = t'.lexeme

/-- The same tokens, at other places. -/
abbrev Alike (tokens tokens' : List Token) : Prop := List.Forall₂ SameShape tokens tokens'

section Alike

variable {t t' : Token} {phrase phrase' : List Token}

theorem SameShape.identifierItem (h : SameShape t t') : identifierItem t' = identifierItem t := by
  rw [MiniSql.identifierItem, MiniSql.identifierItem, h.1, h.2]

theorem SameShape.literalItem (h : SameShape t t') : literalItem t' = literalItem t := by
  rw [MiniSql.literalItem, MiniSql.literalItem, h.1, h.2]

theorem SameShape.isComma (h : SameShape t t') : isComma t' = isComma t := by
  rw [MiniSql.isComma, MiniSql.isComma, h.1]

theorem SameShape.type (h : SameShape t t') {type : TokenType} (ht : t.type = type) :
    t'.type = type := by
  rw [← h.1, ht]

theorem alike_append {front back whole : List Token} (h : Alike (front ++ back) whole) :
    ∃ front' back', whole = front' ++ back' ∧ Alike front front' ∧ Alike back back' := by
  induction front generalizing whole with
  | nil => exact ⟨[], whole, rfl, .nil, h⟩
  | cons t front ih =>
    cases h with
    | cons ht hrest =>
      obtain ⟨front', back', rfl, hfront, hback⟩ := ih hrest
      exact ⟨_ :: front', back', rfl, .cons ht hfront, hback⟩

theorem identifierList_alike {names : StringList} (h : IdentifierListGrammar phrase names)
    (ha : Alike phrase phrase') : IdentifierListGrammar phrase' names :=
  SepList.alike (fun hs hitem => by rw [hs.identifierItem, hitem])
    (fun hs hsep => by rw [hs.isComma, hsep]) h ha

theorem valueList_alike {texts : StringList} (h : ValueListGrammar phrase texts)
    (ha : Alike phrase phrase') : ValueListGrammar phrase' texts :=
  SepList.alike (fun hs hitem => by rw [hs.literalItem, hitem])
    (fun hs hsep => by rw [hs.isComma, hsep]) h ha

theorem QualifiedNameGrammar.alike {name : QualifiedName} (h : QualifiedNameGrammar phrase name)
    (ha : Alike phrase phrase') : QualifiedNameGrammar phrase' name := by
  cases h with
  | table ht =>
    cases ha with
    | cons hs hnil =>
      cases hnil
      rw [hs.2]
      exact .table (hs.type ht)
  | qualified hschema hdot ht =>
    cases ha with
    | cons hs hrest =>
      cases hrest with
      | cons hs' hrest =>
        cases hrest with
        | cons hs'' hnil =>
          cases hnil
          rw [hs.2, hs''.2]
          exact .qualified (hs.type hschema) (hs'.type hdot) (hs''.type ht)

theorem SelectListGrammar.alike {selected : Bool × StringList} (h : SelectListGrammar phrase selected)
    (ha : Alike phrase phrase') : SelectListGrammar phrase' selected := by
  cases h with
  | all hstar =>
    cases ha with
    | cons hs hnil =>
      cases hnil
      exact .all (hs.type hstar)
  | columns hcolumns => exact .columns (identifierList_alike hcolumns ha)

theorem WhereGrammar.alike {where_ : Option WhereClause} (h : WhereGrammar phrase where_)
    (ha : Alike phrase phrase') : WhereGrammar phrase' where_ := by
  cases h with
  | absent =>
    cases ha
    exact .absent
  | present hkeyword hcolumn hop hvalue =>
    cases ha with
    | cons hs₁ hrest =>
      cases hrest with
      | cons hs₂ hrest =>
        cases hrest with
        | cons hs₃ hrest =>
          cases hrest with
          | cons hs₄ hnil =>
            cases hnil
            rw [hs₂.2]
            exact .present (hs₁.type hkeyword) (hs₂.type hcolumn) (by rw [← hs₃.1, hop])
              (by rw [hs₄.literalItem, hvalue])

theorem InsertGrammar.alike {statement : Statement} (h : InsertGrammar phrase statement)
    (ha : Alike phrase phrase') : InsertGrammar phrase' statement := by
  cases h with
  | mk hinto hname hlparen hcolumns hrparen hvalues hlparen' hliterals hrparen' =>
    cases ha with
    | cons hs hrest =>
      obtain ⟨name', back₁, rfl, hname', hback₁⟩ := alike_append hrest
      cases hback₁ with
      | cons hs₁ hrest₁ =>
        obtain ⟨columns', back₂, rfl, hcolumns', hback₂⟩ := alike_append hrest₁
        cases hback₂ with
        | cons hs₂ hrest₂ =>
          cases hrest₂ with
          | cons hs₃ hrest₃ =>
            cases hrest₃ with
            | cons hs₄ hrest₄ =>
              obtain ⟨literals', back₅, rfl, hliterals', hback₅⟩ := alike_append hrest₄
              cases hback₅ with
              | cons hs₅ hnil =>
                cases hnil
                exact .mk (hs.type hinto) (hname.alike hname') (hs₁.type hlparen)
                  (identifierList_alike hcolumns hcolumns') (hs₂.type hrparen) (hs₃.type hvalues)
                  (hs₄.type hlparen') (valueList_alike hliterals hliterals') (hs₅.type hrparen')

theorem SelectGrammar.alike {statement : Statement} (h : SelectGrammar phrase statement)
    (ha : Alike phrase phrase') : SelectGrammar phrase' statement := by
  cases h with
  | mk hlist hfrom hname hwhere =>
    obtain ⟨list', back₁, rfl, hlist', hback₁⟩ := alike_append ha
    cases hback₁ with
    | cons hs hrest =>
      obtain ⟨name', filter', rfl, hname', hfilter'⟩ := alike_append hrest
      exact .mk (hlist.alike hlist') (hs.type hfrom) (hname.alike hname') (hwhere.alike hfilter')

theorem StatementGrammar.alike {statement : Statement} (h : StatementGrammar phrase statement)
    (ha : Alike phrase phrase') : StatementGrammar phrase' statement := by
  cases h with
  | insert hkeyword hinsert =>
    cases ha with
    | cons hs ha => exact .insert (hs.type hkeyword) (hinsert.alike ha)
  | select hkeyword hselect =>
    cases ha with
    | cons hs ha => exact .select (hs.type hkeyword) (hselect.alike ha)

/-- The grammar does not look at positions. -/
theorem ScriptGrammar.alike {tokens tokens' : List Token} {parts : List (List Token × Statement)}
    (h : ScriptGrammar tokens parts) (ha : Alike tokens tokens') :
    ∃ parts', ScriptGrammar tokens' parts' ∧ parts'.map Prod.snd = parts.map Prod.snd := by
  induction h generalizing tokens' with
  | nil =>
    cases ha
    exact ⟨[], .nil, rfl⟩
  | semicolon ht _ ih =>
    cases ha with
    | cons hs ha =>
      obtain ⟨parts', hparts', hmap⟩ := ih ha
      exact ⟨parts', .semicolon (hs.type ht) hparts', hmap⟩
  | statement hphrase _ ih =>
    obtain ⟨phrase', back, rfl, hphrase', hback⟩ := alike_append ha
    obtain ⟨parts', hparts', hmap⟩ := ih hback
    refine ⟨_, .statement (hphrase.alike hphrase') hparts', ?_⟩
    rw [List.map_cons, List.map_cons, hmap]
  | terminated hphrase ht _ ih =>
    obtain ⟨phrase', back, rfl, hphrase', hback⟩ := alike_append ha
    cases hback with
    | cons hs hrest =>
      obtain ⟨parts', hparts', hmap⟩ := ih hrest
      refine ⟨_, .terminated (hphrase.alike hphrase') (hs.type ht) hparts', ?_⟩
      rw [List.map_cons, List.map_cons, hmap]

end Alike

/-- One script behind the other. -/
theorem ScriptGrammar.append {tokens tokens' : List Token} {parts parts' : List (List Token × Statement)}
    (h : ScriptGrammar tokens parts) (h' : ScriptGrammar tokens' parts') :
    ScriptGrammar (tokens ++ tokens') (parts ++ parts') := by
  induction h with
  | nil => exact h'
  | semicolon ht _ ih => exact .semicolon ht ih
  | statement hphrase _ ih =>
    rw [List.append_assoc]
    exact .statement hphrase ih
  | terminated hphrase ht _ ih =>
    rw [List.append_assoc]
    exact .terminated hphrase ht ih

/-! ### The tokens of pieces -/

/-- The tokens of the pieces, without the `END` token. -/
def bodyAt : Position → List Piece → List Token
  | _, [] => []
  | pos, p :: pieces => (p.shape.map pos.token).toList ++ bodyAt (pos.after p.bytes) pieces

/-- The position behind the pieces. -/
def endAt (pos : Position) (pieces : List Piece) : Position :=
  pieces.foldl (fun pos p => pos.after p.bytes) pos

theorem tokensAt_eq (pos : Position) (pieces : List Piece) :
    tokensAt pos pieces = bodyAt pos pieces ++
      [⟨.end_, CString.empty, (endAt pos pieces).line, (endAt pos pieces).column⟩] := by
  induction pieces generalizing pos with
  | nil => rfl
  | cons p pieces ih => rw [tokensAt, bodyAt, ih, List.append_assoc, endAt, endAt, List.foldl_cons]

theorem bodyAt_append (pos : Position) (pieces pieces' : List Piece) :
    bodyAt pos (pieces ++ pieces') = bodyAt pos pieces ++ bodyAt (endAt pos pieces) pieces' := by
  induction pieces generalizing pos with
  | nil => rfl
  | cons p pieces ih => rw [List.cons_append, bodyAt, bodyAt, ih, List.append_assoc, endAt, endAt,
      List.foldl_cons]

theorem bodyAt_alike (pos pos' : Position) (pieces : List Piece) :
    Alike (bodyAt pos pieces) (bodyAt pos' pieces) := by
  induction pieces generalizing pos pos' with
  | nil => exact .nil
  | cons p pieces ih =>
    rw [bodyAt, bodyAt]
    cases p.shape with
    | none => exact ih _ _
    | some shape => exact .cons ⟨rfl, rfl⟩ (ih _ _)

/-! ### Texts of scripts -/

/-- The pieces are those of a script with these statements. -/
def ScriptPieces (pieces : List Piece) (statements : List Statement) : Prop :=
  ∃ parts, ScriptGrammar (bodyAt ⟨1, 1⟩ pieces) parts ∧ statements = parts.map Prod.snd

/-- The text is that of a script with these statements. -/
def ScriptText (source : Bytes) (statements : List Statement) : Prop :=
  ∃ pieces, Lexes source pieces ∧ ScriptPieces pieces statements

theorem ScriptPieces.at {pieces : List Piece} {statements : List Statement}
    (h : ScriptPieces pieces statements) (pos : Position) :
    ∃ parts, ScriptGrammar (bodyAt pos pieces) parts ∧ statements = parts.map Prod.snd := by
  obtain ⟨parts, hparts, rfl⟩ := h
  obtain ⟨parts', hparts', hmap⟩ := hparts.alike (bodyAt_alike ⟨1, 1⟩ pos pieces)
  exact ⟨parts', hparts', hmap.symm⟩

theorem ScriptPieces.of_at {pos : Position} {pieces : List Piece}
    {parts : List (List Token × Statement)} (h : ScriptGrammar (bodyAt pos pieces) parts) :
    ScriptPieces pieces (parts.map Prod.snd) := by
  obtain ⟨parts', hparts', hmap⟩ := h.alike (bodyAt_alike pos ⟨1, 1⟩ pieces)
  exact ⟨parts', hparts', hmap.symm⟩

theorem ScriptPieces.append {pieces pieces' : List Piece} {statements statements' : List Statement}
    (h : ScriptPieces pieces statements) (h' : ScriptPieces pieces' statements') :
    ScriptPieces (pieces ++ pieces') (statements ++ statements') := by
  obtain ⟨parts, hparts, rfl⟩ := h
  obtain ⟨parts', hparts', rfl⟩ := h'.at (endAt ⟨1, 1⟩ pieces)
  refine ⟨parts ++ parts', ?_, (List.map_append ..).symm⟩
  rw [bodyAt_append]
  exact hparts.append hparts'

theorem ScriptPieces.unique {pieces : List Piece} {statements statements' : List Statement}
    (h : ScriptPieces pieces statements) (h' : ScriptPieces pieces statements') :
    statements = statements' := by
  obtain ⟨parts, hparts, rfl⟩ := h
  obtain ⟨parts', hparts', rfl⟩ := h'
  rw [hparts.unique hparts']

theorem ScriptText.unique {source : Bytes} {statements statements' : List Statement}
    (h : ScriptText source statements) (h' : ScriptText source statements') :
    statements = statements' := by
  obtain ⟨pieces, hlexes, hscript⟩ := h
  obtain ⟨pieces', hlexes', hscript'⟩ := h'
  rw [hlexes.unique hlexes'] at hscript
  exact hscript.unique hscript'

/-- **Joining.**  Two texts of scripts with a newline between them are the text of both scripts. -/
theorem ScriptText.append {s t : Bytes} {statements statements' : List Statement}
    (h : ScriptText s statements) (h' : ScriptText t statements') (hjoin : NewlineBetween s t) :
    ScriptText (s ++ t) (statements ++ statements') := by
  obtain ⟨pieces, hlexes, hscript⟩ := h
  obtain ⟨pieces', hlexes', hscript'⟩ := h'
  exact ⟨pieces ++ pieces', (hlexes.before hjoin).append hlexes', hscript.append hscript'⟩

/-- **Parsing.**  A source is accepted with these statements exactly if, behind a byte order mark, it is
the text of that script. -/
theorem parseSqlScript_iff {source : CString} {statements : List Statement} :
    parseSqlScript source = (none, statements) ↔
      ScriptText (skipByteOrderMark source.bytes).1 statements := by
  have htokenize : ∀ {tokens}, tokenizeSql source = .ok tokens ↔
      ∃ pieces, Lexes (skipByteOrderMark source.bytes).1 pieces ∧
        tokens = tokensAt (skipByteOrderMark source.bytes).2 pieces :=
    tokenizeFrom_iff (Nat.lt_succ_self _)
  constructor
  · intro h
    cases htokens : tokenizeSql source with
    | error e =>
      rw [parseSqlScript, htokens] at h
      cases (Prod.mk.inj h).1
    | ok tokens =>
      obtain ⟨pieces, hpieces, hall⟩ := htokenize.mp htokens
      obtain ⟨body, last, hsplit, hlast, hbody⟩ := tokenizeSql_end htokens
      rw [tokensAt_eq, hsplit] at hall
      obtain ⟨rfl, -⟩ := List.append_inj' hall rfl
      rw [hsplit] at htokens
      have hparse := h
      rw [parseSqlScript, htokens] at hparse
      dsimp only at hparse
      obtain ⟨parts, hparts⟩ := parseStatements_sound hlast hbody
        (by rw [List.length_append]; exact Nat.lt_succ_self _) hparse
      rw [parseSqlScript_derivation htokens hparts] at h
      obtain rfl := (Prod.mk.inj h).2
      exact ⟨pieces, hpieces, .of_at hparts⟩
  · rintro ⟨pieces, hpieces, hscript⟩
    obtain ⟨parts, hparts, rfl⟩ := hscript.at (skipByteOrderMark source.bytes).2
    have htokens := htokenize.mpr ⟨pieces, hpieces, rfl⟩
    rw [tokensAt_eq] at htokens
    exact parseSqlScript_derivation htokens hparts

/-! ### Byte order marks -/

/-- The text begins with a byte order mark. -/
def HasMark (source : Bytes) : Prop := [0xEF, 0xBB, 0xBF] <+: source

theorem skipByteOrderMark_no_mark {source : Bytes} (h : ¬HasMark source) :
    skipByteOrderMark source = (source, ⟨1, 1⟩) := by
  unfold skipByteOrderMark
  split
  · exact absurd ⟨_, rfl⟩ h
  · rfl

/-- A newline does not become part of a byte order mark. -/
theorem skipByteOrderMark_newline (s t : Bytes) :
    (skipByteOrderMark (s ++ 10 :: t)).1 = (skipByteOrderMark s).1 ++ 10 :: t := by
  by_cases hmark : HasMark s
  · obtain ⟨rest, rfl⟩ := hmark
    rfl
  · have hwhole : ¬HasMark (s ++ 10 :: t) := by
      intro hprefix
      rcases List.prefix_or_prefix_of_prefix hprefix (List.prefix_append s _) with hs | ⟨u, hu⟩
      · exact hmark hs
      · cases u with
        | nil =>
          rw [List.append_nil] at hu
          exact hmark (by rw [hu]; exact List.prefix_refl _)
        | cons c u =>
          have hc : c :: u <+: 10 :: t := by
            rw [← List.prefix_append_right_inj s, hu]
            exact hprefix
          obtain rfl := (List.cons_prefix_cons.mp hc).1
          have hmem : (10 : UInt8) ∈ ([0xEF, 0xBB, 0xBF] : Bytes) := by
            rw [← hu]
            simp
          exact absurd hmem (by decide)
    rw [skipByteOrderMark_no_mark hmark, skipByteOrderMark_no_mark hwhole]

/-! ### Two sources -/

theorem semicolon_scriptText : ScriptText [10, 59, 10] [] := by
  have hsemicolon : parseSqlScript (lit "\n;\n") = (none, []) := by decide +kernel
  exact parseSqlScript_iff.mp hsemicolon

/-- **Composition.**  If two sources are accepted and the second one does not begin with a byte order
mark, then the first one, a semicolon on a line of its own and the second one are accepted, with the
statements of both. -/
theorem parseSqlScript_append (a b : CString) (statements statements' : List Statement)
    (ha : parseSqlScript a = (none, statements)) (hb : parseSqlScript b = (none, statements'))
    (hmark : ¬[0xEF, 0xBB, 0xBF] <+: b.bytes) :
    parseSqlScript (a ++ lit "\n;\n" ++ b) = (none, statements ++ statements') := by
  rw [parseSqlScript_iff] at ha hb ⊢
  rw [skipByteOrderMark_no_mark hmark] at hb
  have hbytes : (a ++ lit "\n;\n" ++ b).bytes = a.bytes ++ 10 :: ([59, 10] ++ b.bytes) := by
    rw [CString.append_bytes, CString.append_bytes, List.append_assoc]
    rfl
  rw [hbytes, skipByteOrderMark_newline]
  have hback : ScriptText ([10, 59, 10] ++ b.bytes) ([] ++ statements') :=
    semicolon_scriptText.append hb (Or.inr rfl)
  exact ha.append hback (Or.inl rfl)

theorem parseSqlScript_append_two :
    parseSqlScript (lit "SELECT * FROM t -- ;") =
        (none, [.select ⟨⟨none, lit "t"⟩, true, [], none⟩]) ∧
      parseSqlScript (lit "SELECT * FROM u") =
        (none, [.select ⟨⟨none, lit "u"⟩, true, [], none⟩]) ∧
      ¬[0xEF, 0xBB, 0xBF] <+: (lit "SELECT * FROM u").bytes ∧
      parseSqlScript (lit "SELECT * FROM t -- ;" ++ lit "\n;\n" ++ lit "SELECT * FROM u") =
        (none, [.select ⟨⟨none, lit "t"⟩, true, [], none⟩] ++
          [.select ⟨⟨none, lit "u"⟩, true, [], none⟩]) := by
  have ha : parseSqlScript (lit "SELECT * FROM t -- ;") =
      (none, [.select ⟨⟨none, lit "t"⟩, true, [], none⟩]) := by decide +kernel
  have hb : parseSqlScript (lit "SELECT * FROM u") =
      (none, [.select ⟨⟨none, lit "u"⟩, true, [], none⟩]) := by decide +kernel
  have hmark : ¬[0xEF, 0xBB, 0xBF] <+: (lit "SELECT * FROM u").bytes := by decide
  exact ⟨ha, hb, hmark, parseSqlScript_append _ _ _ _ ha hb hmark⟩

end MiniSql
