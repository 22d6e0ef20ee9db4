import MiniSql.History
import MiniSql.PathBuffers
import MiniSql.ScriptTexts

/-!
# The statements of a source text

What the parser hands to `execute_statement` comes from tokens of the source, so it is bounded by the source.

* `SourceToken` is what holds of each token of a text: its lexeme is not longer than the text, and an
  identifier is made of the bytes of a word.
* `StatementGrammar.admitted`: so the runs of the program admit a statement that derives from such tokens.
* `parseSqlScript_bounds`: the tables are named by identifiers, no value is longer than the text, and there
  are no more statements than bytes.
-/

namespace MiniSql

open PrefixParsing

/-! ### Lexemes -/

theorem length_flatMap_quoteByte (text : Bytes) : text.length ≤ (text.flatMap quoteByte).length := by
  induction text with
  | nil => exact le_refl _
  | cons c text ih =>
    have hone : 1 ≤ (quoteByte c).length := by
      rw [quoteByte]
      split <;> simp
    rw [List.flatMap_cons, List.length_append, List.length_cons]
    omega

/-- A token is not longer than what it was read from. -/
theorem LexRound.lexeme_length {bytes : Bytes} {next : Option UInt8} {type : TokenType} {text : CString}
    (h : LexRound bytes next (some (type, text))) : text.length ≤ bytes.length := by
  generalize hshape : some (type, text) = shape at h
  cases h with
  | blank _ => cases hshape
  | lineComment _ _ => cases hshape
  | blockComment _ => cases hshape
  | word _ _ _ =>
    obtain ⟨-, rfl⟩ := Prod.mk.inj (Option.some.inj hshape)
    exact CString.length_ofBuffer_le _
  | number _ _ _ =>
    obtain ⟨-, rfl⟩ := Prod.mk.inj (Option.some.inj hshape)
    exact CString.length_ofBuffer_le _
  | @string text' _ _ =>
    obtain ⟨-, rfl⟩ := Prod.mk.inj (Option.some.inj hshape)
    have hbuffer : (CString.ofBuffer text').length ≤ text'.length := CString.length_ofBuffer_le text'
    have hquoted := length_flatMap_quoteByte text'
    rw [List.length_cons, List.length_append]
    omega
  | symbol _ =>
    obtain ⟨-, rfl⟩ := Prod.mk.inj (Option.some.inj hshape)
    exact CString.length_ofBuffer_le _

theorem Lexes.piece_length {source : Bytes} {pieces : List Piece} (h : Lexes source pieces) {p : Piece}
    (hp : p ∈ pieces) : p.bytes.length ≤ source.length := by
  induction h with
  | nil => cases hp
  | cons _ _ ih =>
    rw [List.length_append]
    rcases List.mem_cons.mp hp with rfl | hp
    · exact Nat.le_add_right _ _
    · exact (ih hp).trans (Nat.le_add_left _ _)

/-- What holds of the tokens of a text of at most `n` bytes. -/
structure SourceToken (n : ℕ) (t : Token) : Prop where
  length_le : t.lexeme.length ≤ n
  identifier : t.type = .identifier → IsIdentifier t.lexeme

theorem Lexes.sourceToken {source : Bytes} {pieces : List Piece} (h : Lexes source pieces)
    {pos : Position} {t : Token} (ht : t ∈ bodyAt pos pieces) : SourceToken source.length t := by
  have hmem : t ∈ tokensAt pos pieces := by
    rw [tokensAt_eq]
    exact List.mem_append_left _ ht
  rcases mem_tokensAt hmem with hend | ⟨p, hp, hshape⟩
  · obtain ⟨body, last, heq, -, hbody⟩ := tokensAt_end h pos
    rw [tokensAt_eq] at heq
    obtain ⟨rfl, -⟩ := List.append_inj' heq rfl
    exact absurd hend (hbody t ht)
  · obtain ⟨next, hround⟩ := h.round hp
    rw [hshape] at hround
    refine ⟨hround.lexeme_length.trans (h.piece_length hp), fun htype => ?_⟩
    rw [htype] at hround
    exact hround.identifier

theorem bodyAt_length (pos : Position) (pieces : List Piece) :
    (bodyAt pos pieces).length ≤ pieces.length := by
  have h := tokensAt_length pos pieces
  rw [tokensAt_eq, List.length_append, List.length_singleton] at h
  omega

/-! ### Derivations -/

theorem QualifiedNameGrammar.parsedName {n : ℕ} {tokens : List Token} {name : QualifiedName}
    (h : QualifiedNameGrammar tokens name) (hall : ∀ t ∈ tokens, SourceToken n t) : ParsedName name := by
  cases h with
  | table htype =>
    exact ⟨fun _ hschema => (by cases hschema), (hall _ List.mem_cons_self).identifier htype⟩
  | qualified hschema _ htype =>
    refine ⟨fun schema hmem => ?_, (hall _ (by simp)).identifier htype⟩
    obtain rfl := Option.some.inj hmem
    exact (hall _ List.mem_cons_self).identifier hschema

theorem valueList_length_le {n : ℕ} {tokens : List Token} {texts : StringList}
    (h : ValueListGrammar tokens texts) (hall : ∀ t ∈ tokens, SourceToken n t) :
    ∀ text ∈ texts, text.length ≤ n := by
  have hitem : ∀ t text, literalItem t = some text → text = t.lexeme := by
    intro t text ht
    rw [literalItem] at ht
    split at ht
    · cases ht
    · exact (Option.some.inj ht).symm
  induction h with
  | one ht =>
    rw [List.forall_mem_singleton, hitem _ _ ht]
    exact (hall _ List.mem_cons_self).length_le
  | cons ht _ _ ih =>
    rw [List.forall_mem_cons, hitem _ _ ht]
    exact ⟨(hall _ List.mem_cons_self).length_le,
      ih fun t hmem => hall t (List.mem_cons_of_mem _ (List.mem_cons_of_mem _ hmem))⟩

/-- What the runs of the program ask of a statement. -/
theorem StatementGrammar.admitted {n : ℕ} (hn : n ≤ maxBinaryFieldBytes) {tokens : List Token}
    {statement : Statement} (h : StatementGrammar tokens statement)
    (hall : ∀ t ∈ tokens, SourceToken n t) : (Event.statement statement).Admitted := by
  cases h with
  | insert _ hinsert =>
    cases hinsert with
    | mk _ hname _ _ _ _ _ htexts _ =>
      refine ⟨hname.parsedName fun t ht => hall t ?_, fun v hv => ?_⟩
      · simp only [List.mem_cons, List.mem_append]
        tauto
      · refine (valueList_length_le htexts (fun t ht => hall t ?_) v hv).trans hn
        simp only [List.mem_cons, List.mem_append]
        tauto
  | select _ hselect =>
    cases hselect with
    | mk _ _ hname _ =>
      refine hname.parsedName fun t ht => hall t ?_
      simp only [List.mem_cons, List.mem_append]
      tauto

theorem ScriptGrammar.length_le {tokens : List Token} {parts : List (List Token × Statement)}
    (h : ScriptGrammar tokens parts) : parts.length ≤ tokens.length := by
  have hpos : ∀ {phrase : List Token} {statement : Statement}, StatementGrammar phrase statement →
      1 ≤ phrase.length := by
    intro phrase statement hphrase
    cases hphrase <;> exact Nat.le_add_left _ _
  induction h with
  | nil => exact le_refl _
  | semicolon _ _ ih => exact ih.trans (Nat.le_succ _)
  | statement hphrase _ ih =>
    have hone := hpos hphrase
    rw [List.length_cons, List.length_append]
    omega
  | terminated hphrase _ _ ih =>
    have hone := hpos hphrase
    rw [List.length_cons, List.length_append, List.length_cons]
    omega

theorem ScriptGrammar.forall_statements {P : Token → Prop} {Q : Statement → Prop}
    (hstatement : ∀ {phrase : List Token} {statement : Statement},
      StatementGrammar phrase statement → (∀ t ∈ phrase, P t) → Q statement)
    {tokens : List Token} {parts : List (List Token × Statement)} (h : ScriptGrammar tokens parts)
    (hall : ∀ t ∈ tokens, P t) : ∀ statement ∈ parts.map Prod.snd, Q statement := by
  induction h with
  | nil => simp
  | semicolon _ _ ih => exact ih fun t ht => hall t (List.mem_cons_of_mem _ ht)
  | statement hphrase _ ih =>
    rw [List.map_cons, List.forall_mem_cons]
    exact ⟨hstatement hphrase fun t ht => hall t (List.mem_append_left _ ht),
      ih fun t ht => hall t (List.mem_append_right _ ht)⟩
  | terminated hphrase _ _ ih =>
    rw [List.map_cons, List.forall_mem_cons]
    exact ⟨hstatement hphrase fun t ht => hall t (List.mem_append_left _ ht),
      ih fun t ht => hall t (List.mem_append_right _ (List.mem_cons_of_mem _ ht))⟩

/-! ### Source texts -/

theorem skipByteOrderMark_length (source : Bytes) :
    (skipByteOrderMark source).1.length ≤ source.length := by
  by_cases hmark : HasMark source
  · obtain ⟨rest, rfl⟩ := hmark
    rw [List.length_append]
    exact Nat.le_add_left _ _
  · rw [skipByteOrderMark_no_mark hmark]

/-- The statements of a text of at most 16 MiB: the runs of the program admit every one of them, and there
are no more of them than bytes in the text. -/
theorem parseSqlScript_bounds {source : CString} (hsource : source.length ≤ maxBinaryFieldBytes) :
    (∀ statement ∈ (parseSqlScript source).2, (Event.statement statement).Admitted) ∧
      (parseSqlScript source).2.length ≤ source.length := by
  by_cases haccepted : (parseSqlScript source).1 = none
  · obtain ⟨pieces, hlexes, hscript⟩ := parseSqlScript_iff.mp (Prod.ext haccepted rfl :
      parseSqlScript source = (none, (parseSqlScript source).2))
    obtain ⟨parts, hparts, heq⟩ := hscript
    have hlength := skipByteOrderMark_length source.bytes
    rw [heq]
    constructor
    · refine hparts.forall_statements (fun hphrase hall => hphrase.admitted ?_ hall)
        fun t ht => hlexes.sourceToken ht
      exact hlength.trans hsource
    · have hbody := bodyAt_length ⟨1, 1⟩ pieces
      have hpieces := hlexes.length_le
      have hle := hparts.length_le
      rw [List.length_map, CString.length]
      omega
  · rw [parseSqlScript_failed haccepted]
    exact ⟨by simp, Nat.zero_le _⟩

end MiniSql
