import MiniSql.LexicalGrammar

/-!
# Token positions

The line and the column a token carries against the ones its first byte has in the source.  The source text
is cut into pieces by the lexical grammar; the model of `tokenize_sql` counts a line and a column over them,
and its tokens carry the counts as `int`s.

* `truePosition`, `tokenStarts`: where a byte stands, and the bytes before each token of a text.
* `PositionTrue`: the two `int`s of a token are the line and the column of its first byte;
  `PositionCounted`: the two counts are.
* `reportedTrue_cases`: `read_string_token` counts neither the opening quote nor the newlines of a literal.
  One induction carries the three ways to be behind: on track, short in the column, short in the line.
* `lags_tokens`: a count is never ahead of the true position in its line, so an `int` that is true is
  a count that is.
* `tokenPositions_iff`: the positions are true exactly if no literal has a newline in it, a newline comes
  behind each literal before anything else does, and no position is beyond `INT_MAX`.
-/

namespace MiniSql

/-! ### True positions -/

/-- The position of the byte behind `before`: one plus the newlines, one plus the bytes behind the last
newline. -/
def truePosition (before : Bytes) : Position :=
  ⟨1 + before.count 10, 1 + (before.reverse.takeWhile fun c => decide (c ≠ 10)).length⟩

/-- The token stands where its two `int`s say. -/
def PositionTrue (before : Bytes) (t : Token) : Prop :=
  toCInt t.line = (truePosition before).line ∧ toCInt t.column = (truePosition before).column

instance (before : Bytes) (t : Token) : Decidable (PositionTrue before t) :=
  inferInstanceAs (Decidable (_ ∧ _))

/-- The token stands where its line and its column have been counted up to. -/
def PositionCounted (before : Bytes) (t : Token) : Prop :=
  t.line = (truePosition before).line ∧ t.column = (truePosition before).column

/-- An `int` holds the line and the column of the byte behind `before`. -/
def PositionFits (before : Bytes) : Prop :=
  (truePosition before).line ≤ intMax ∧ (truePosition before).column ≤ intMax

/-- The pieces of a source text, with the byte order mark as the first one. -/
def SourcePieces (source : CString) (pieces : List Piece) : Prop :=
  ∃ mark rest pos body, source.bytes = mark ++ rest ∧
    skipByteOrderMark source.bytes = (rest, pos) ∧ Lexes rest body ∧ pieces = ⟨mark, none⟩ :: body

/-- The bytes before each token, the `END` token included. -/
def tokenStarts : Bytes → List Piece → List Bytes
  | before, [] => [before]
  | before, p :: pieces =>
      (p.shape.map fun _ => before).toList ++ tokenStarts (before ++ p.bytes) pieces

/-- A newline comes before the next token. -/
def NewlineFirst : List Piece → Prop
  | [] => False
  | p :: pieces => p.shape = none ∧ ((10 : UInt8) ∈ p.bytes ∨ NewlineFirst pieces)

/-- No string literal has a newline in it, and a newline comes behind each one before the next token or
the end. -/
def StringsEndLines : List Piece → Prop
  | [] => True
  | p :: pieces =>
      (p.bytes.head? = some 39 → (10 : UInt8) ∉ p.bytes ∧ NewlineFirst pieces) ∧
        StringsEndLines pieces

theorem position_eq_iff {pos pos' : Position} :
    pos = pos' ↔ pos.line = pos'.line ∧ pos.column = pos'.column := by
  cases pos
  cases pos'
  simp

theorem truePosition_snoc (before : Bytes) (c : UInt8) :
    truePosition (before ++ [c]) = (truePosition before).next c := by
  rw [truePosition, truePosition, List.count_append, List.reverse_append, List.reverse_singleton,
    List.singleton_append, Position.next]
  by_cases hc : c = 10
  · subst hc
    rw [if_pos rfl, List.takeWhile_cons_of_neg (by simp)]
    rfl
  · have hcount : [c].count 10 = 0 := List.count_eq_zero_of_not_mem (by simpa using Ne.symm hc)
    rw [if_neg hc, List.takeWhile_cons_of_pos (by simpa using hc), hcount]
    rfl

/-- The true position moves on byte by byte, as the loop does it outside of literals. -/
theorem truePosition_append (before bytes : Bytes) :
    truePosition (before ++ bytes) = bytes.foldl Position.next (truePosition before) := by
  induction bytes generalizing before with
  | nil => rw [List.append_nil, List.foldl_nil]
  | cons c bytes ih =>
    rw [List.foldl_cons, ← truePosition_snoc, ← ih, List.append_assoc, List.singleton_append]

theorem foldl_next_line (bytes : Bytes) (pos : Position) :
    (bytes.foldl Position.next pos).line = pos.line + bytes.count 10 := by
  induction bytes generalizing pos with
  | nil => rfl
  | cons c bytes ih =>
    rw [List.foldl_cons, ih, Position.next]
    by_cases hc : c = 10
    · subst hc
      rw [if_pos rfl, List.count_cons_self]
      show pos.line + 1 + bytes.count 10 = pos.line + (bytes.count 10 + 1)
      omega
    · rw [if_neg hc, List.count_cons_of_ne hc]
      rfl

/-- Behind a newline the column does not depend on what was before. -/
theorem foldl_next_column {bytes : Bytes} (h : (10 : UInt8) ∈ bytes) (pos pos' : Position) :
    (bytes.foldl Position.next pos).column = (bytes.foldl Position.next pos').column := by
  induction bytes generalizing pos pos' with
  | nil => cases h
  | cons c bytes ih =>
    rw [List.foldl_cons, List.foldl_cons]
    by_cases hmem : (10 : UInt8) ∈ bytes
    · exact ih hmem _ _
    · have hc : c = 10 := by
        rcases List.mem_cons.mp h with heq | hin
        · exact heq.symm
        · exact absurd hin hmem
      rw [foldl_next_of_not_mem hmem, foldl_next_of_not_mem hmem, hc]
      rfl

/-! ### Reported positions -/

/-- What is counted for the tokens of these pieces is true. -/
def ReportedTrue (pos : Position) (before : Bytes) (pieces : List Piece) : Prop :=
  List.Forall₂ PositionCounted (tokenStarts before pieces) (tokensAt pos pieces)

theorem reportedTrue_nil {pos : Position} {before : Bytes} :
    ReportedTrue pos before [] ↔ pos = truePosition before := by
  rw [ReportedTrue, tokenStarts, tokensAt, List.forall₂_cons, position_eq_iff]
  simp [PositionCounted]

theorem reportedTrue_cons {pos : Position} {before : Bytes} {p : Piece} {pieces : List Piece} :
    ReportedTrue pos before (p :: pieces) ↔ (p.shape ≠ none → pos = truePosition before) ∧
      ReportedTrue (pos.after p.bytes) (before ++ p.bytes) pieces := by
  rw [ReportedTrue, tokenStarts, tokensAt]
  cases p.shape with
  | none => simp [ReportedTrue]
  | some shape =>
    simp [ReportedTrue, PositionCounted, position_eq_iff, Position.token]

/-- A string literal is a token and has its two quotes. -/
theorem LexRound.literal {bytes : Bytes} {next : Option UInt8} {shape : Option Shape}
    (h : LexRound bytes next shape) (hquote : bytes.head? = some 39) :
    shape ≠ none ∧ 2 ≤ bytes.length := by
  cases h with
  | @blank c _ hc =>
    obtain rfl := Option.some.inj hquote
    exact absurd hc (by decide)
  | lineComment _ _ => exact absurd (Option.some.inj hquote) (by decide)
  | blockComment _ => exact absurd (Option.some.inj hquote) (by decide)
  | word hch _ _ =>
    obtain rfl := Option.some.inj hquote
    exact absurd hch (by decide)
  | number hch _ _ =>
    obtain rfl := Option.some.inj hquote
    exact absurd (hch.imp_right And.left) (by decide)
  | string _ => exact ⟨by simp, by simp⟩
  | symbol htype =>
    obtain rfl := Option.some.inj hquote
    obtain ⟨-, -, -, -, -, -, hne, -⟩ := symbolType_first htype
    exact absurd rfl hne

/-- The three ways the reported position `pos` can relate to the true one.  On track: the rest is
reported truly exactly if every literal ends its line.  Behind in the column: a newline has to come
first.  Behind in the line: nothing is true any more, since the `END` token is reported as well. -/
theorem reportedTrue_cases {pieces : List Piece}
    (hliteral : ∀ p ∈ pieces, p.bytes.head? = some 39 → p.shape ≠ none ∧ 2 ≤ p.bytes.length)
    (pos : Position) (before : Bytes) :
    (pos = truePosition before → (ReportedTrue pos before pieces ↔ StringsEndLines pieces)) ∧
    (pos.line = (truePosition before).line ∧ pos.column < (truePosition before).column →
      (ReportedTrue pos before pieces ↔ NewlineFirst pieces ∧ StringsEndLines pieces)) ∧
    (pos.line < (truePosition before).line → ¬ReportedTrue pos before pieces) := by
  induction pieces generalizing pos before with
  | nil =>
    rw [reportedTrue_nil, StringsEndLines, NewlineFirst]
    refine ⟨fun h => ⟨fun _ => trivial, fun _ => h⟩, fun h => ?_, fun h heq => ?_⟩
    · constructor
      · rintro rfl
        omega
      · rintro ⟨hno, -⟩
        exact hno.elim
    · rw [heq] at h
      exact lt_irrefl _ h
  | cons p pieces ih =>
    obtain ⟨hp, hpieces⟩ := List.forall_mem_cons.mp hliteral
    obtain ⟨htrack, hlag, hlost⟩ := ih hpieces (pos.after p.bytes) (before ++ p.bytes)
    rw [truePosition_append] at htrack hlag hlost
    rw [reportedTrue_cons, StringsEndLines, NewlineFirst]
    -- away from literals both positions move in the same way
    have hmoves : p.bytes.head? ≠ some 39 → pos.after p.bytes = p.bytes.foldl Position.next pos :=
      fun hquote => if_neg hquote
    have hnotoken : p.shape = none → p.bytes.head? ≠ some 39 :=
      fun hshape hquote => (hp hquote).1 hshape
    refine ⟨?_, ?_, ?_⟩
    · rintro rfl
      by_cases hquote : p.bytes.head? = some 39
      · have hafter : (truePosition before).after p.bytes =
            (truePosition before).advance (p.bytes.length - 1) := if_pos hquote
        have hlength := (hp hquote).2
        by_cases hnewline : (10 : UInt8) ∈ p.bytes
        · have hcount := List.count_pos_iff.mpr hnewline
          have hbehind : ((truePosition before).after p.bytes).line <
              (p.bytes.foldl Position.next (truePosition before)).line := by
            rw [hafter, foldl_next_line]
            show (truePosition before).line < _
            omega
          constructor
          · rintro ⟨-, h⟩
            exact absurd h (hlost hbehind)
          · rintro ⟨h, -⟩
            exact absurd hnewline (h hquote).1
        · have hbehind : ((truePosition before).after p.bytes).line =
                (p.bytes.foldl Position.next (truePosition before)).line ∧
              ((truePosition before).after p.bytes).column <
                (p.bytes.foldl Position.next (truePosition before)).column := by
            rw [hafter, foldl_next_of_not_mem hnewline]
            refine ⟨rfl, ?_⟩
            show (truePosition before).column + (p.bytes.length - 1) <
              (truePosition before).column + p.bytes.length
            omega
          rw [hlag hbehind]
          simp [hquote, hnewline]
      · rw [htrack (hmoves hquote)]
        simp [hquote]
    · rintro ⟨hline, hcolumn⟩
      have hne : pos ≠ truePosition before := by
        rintro rfl
        exact lt_irrefl _ hcolumn
      by_cases hshape : p.shape = none
      · have hquote := hnotoken hshape
        by_cases hnewline : (10 : UInt8) ∈ p.bytes
        · have hsame : pos.after p.bytes = p.bytes.foldl Position.next (truePosition before) := by
            rw [hmoves hquote, position_eq_iff, foldl_next_line, foldl_next_line, hline]
            exact ⟨rfl, foldl_next_column hnewline _ _⟩
          rw [htrack hsame]
          simp [hshape, hquote, hnewline]
        · have hbehind : (pos.after p.bytes).line =
                (p.bytes.foldl Position.next (truePosition before)).line ∧
              (pos.after p.bytes).column <
                (p.bytes.foldl Position.next (truePosition before)).column := by
            rw [hmoves hquote, foldl_next_of_not_mem hnewline, foldl_next_of_not_mem hnewline]
            exact ⟨hline, Nat.add_lt_add_right hcolumn _⟩
          rw [hlag hbehind]
          simp [hshape, hquote, hnewline]
      · simp [hshape, hne]
    · rintro hline ⟨htoken, hrest⟩
      by_cases hshape : p.shape = none
      · refine hlost ?_ hrest
        rw [hmoves (hnotoken hshape), foldl_next_line, foldl_next_line]
        exact Nat.add_lt_add_right hline _
      · rw [htoken hshape] at hline
        exact lt_irrefl _ hline

/-! ### Counts and `int`s -/

/-- The position is not ahead of the other one: its line is an earlier one, or it is the same line and the
column is not behind. -/
def Position.Lags (pos pos' : Position) : Prop :=
  pos.line < pos'.line ∨ pos.line = pos'.line ∧ pos.column ≤ pos'.column

theorem Position.Lags.foldl_next {pos pos' : Position} (h : pos.Lags pos') (bytes : Bytes) :
    (bytes.foldl Position.next pos).Lags (bytes.foldl Position.next pos') := by
  rw [Position.Lags, foldl_next_line, foldl_next_line]
  rcases h with hline | ⟨hline, hcolumn⟩
  · exact Or.inl (Nat.add_lt_add_right hline _)
  · refine Or.inr ⟨by rw [hline], ?_⟩
    by_cases hnewline : (10 : UInt8) ∈ bytes
    · exact (foldl_next_column hnewline pos pos').le
    · rw [foldl_next_of_not_mem hnewline, foldl_next_of_not_mem hnewline]
      exact Nat.add_le_add_right hcolumn _

/-- A piece moves the counts on by no more than the true position moves. -/
theorem Position.Lags.after {pos : Position} {before : Bytes} (h : pos.Lags (truePosition before))
    (bytes : Bytes) : (pos.after bytes).Lags (truePosition (before ++ bytes)) := by
  rw [truePosition_append]
  by_cases hquote : bytes.head? = some 39
  · have hafter : pos.after bytes = pos.advance (bytes.length - 1) := if_pos hquote
    rw [hafter, Position.Lags, foldl_next_line]
    show pos.line < _ ∨ pos.line = _ ∧ pos.column + (bytes.length - 1) ≤ _
    by_cases hnewline : (10 : UInt8) ∈ bytes
    · have hcount := List.count_pos_iff.mpr hnewline
      rcases h with hline | ⟨hline, -⟩ <;> exact Or.inl (by omega)
    · rw [foldl_next_of_not_mem hnewline, List.count_eq_zero_of_not_mem hnewline, Nat.add_zero]
      show pos.line < _ ∨ pos.line = _ ∧ _ ≤ (truePosition before).column + bytes.length
      rcases h with hline | ⟨hline, hcolumn⟩
      · exact Or.inl hline
      · exact Or.inr ⟨hline, by omega⟩
  · have hafter : pos.after bytes = bytes.foldl Position.next pos := if_neg hquote
    rw [hafter]
    exact h.foldl_next bytes

/-- No token is counted ahead of its first byte. -/
theorem lags_tokens {pieces : List Piece} {pos : Position} {before : Bytes}
    (h : pos.Lags (truePosition before)) :
    List.Forall₂ (fun before (t : Token) => Position.Lags ⟨t.line, t.column⟩ (truePosition before))
      (tokenStarts before pieces) (tokensAt pos pieces) := by
  induction pieces generalizing pos before with
  | nil => exact .cons h .nil
  | cons p pieces ih =>
    have hrest := ih (h.after p.bytes)
    rw [tokenStarts, tokensAt]
    cases p.shape with
    | none => exact hrest
    | some shape => exact .cons h hrest

/-- For a token that is not counted ahead, the `int`s are true exactly if the counts are and fit. -/
theorem positionTrue_iff {before : Bytes} {t : Token}
    (h : Position.Lags ⟨t.line, t.column⟩ (truePosition before)) :
    PositionTrue before t ↔ PositionCounted before t ∧ PositionFits before := by
  constructor
  · rintro ⟨hline, hcolumn⟩
    have hmaxLine := toCInt_le t.line
    have hmaxColumn := toCInt_le t.column
    have hfits : PositionFits before := ⟨by omega, by omega⟩
    rcases h with hearlier | ⟨hsame, hlag⟩
    · rw [toCInt_of_le (le_trans (le_of_lt hearlier) hfits.1)] at hline
      exact absurd hearlier (by omega)
    · rw [toCInt_of_le (le_trans hlag hfits.2)] at hcolumn
      exact ⟨⟨hsame, Int.ofNat_inj.mp hcolumn⟩, hfits⟩
  · rintro ⟨⟨hline, hcolumn⟩, hfitsLine, hfitsColumn⟩
    rw [PositionTrue, hline, hcolumn]
    exact ⟨toCInt_of_le hfitsLine, toCInt_of_le hfitsColumn⟩

theorem forall_positionTrue_iff {starts : List Bytes} {tokens : List Token}
    (h : List.Forall₂ (fun before (t : Token) => Position.Lags ⟨t.line, t.column⟩ (truePosition before))
      starts tokens) :
    List.Forall₂ PositionTrue starts tokens ↔
      List.Forall₂ PositionCounted starts tokens ∧ ∀ before ∈ starts, PositionFits before := by
  induction h with
  | nil => simp
  | cons hlag _ ih =>
    rw [List.forall₂_cons, List.forall₂_cons, List.forall_mem_cons, positionTrue_iff hlag, ih]
    exact and_and_and_comm

/-! ### Source texts -/

theorem skipByteOrderMark_cases (source : Bytes) :
    ∃ mark, source = mark ++ (skipByteOrderMark source).1 ∧
      (skipByteOrderMark source).2 = Position.after ⟨1, 1⟩ mark ∧
      (mark = [] ∨ mark = [0xEF, 0xBB, 0xBF]) := by
  unfold skipByteOrderMark
  split
  · exact ⟨[0xEF, 0xBB, 0xBF], rfl, rfl, Or.inr rfl⟩
  · exact ⟨[], rfl, rfl, Or.inl rfl⟩

/-- A source is accepted exactly if it is made of pieces, whose tokens it has. -/
theorem tokenizeSql_iff {source : CString} {tokens : List Token} :
    tokenizeSql source = .ok tokens ↔
      ∃ pieces, SourcePieces source pieces ∧ tokens = tokensAt ⟨1, 1⟩ pieces := by
  obtain ⟨mark, hsource, hpos, -⟩ := skipByteOrderMark_cases source.bytes
  have htokens : ∀ body, tokensAt ⟨1, 1⟩ (⟨mark, none⟩ :: body) =
      tokensAt (skipByteOrderMark source.bytes).2 body := by
    intro body
    rw [tokensAt, hpos]
    rfl
  rw [tokenizeSql]
  dsimp only
  rw [tokenizeFrom_iff (Nat.lt_succ_self _)]
  constructor
  · rintro ⟨body, hbody, rfl⟩
    exact ⟨⟨mark, none⟩ :: body, ⟨mark, _, _, body, hsource, rfl, hbody, rfl⟩, (htokens body).symm⟩
  · rintro ⟨pieces, ⟨mark', rest, pos, body, hsource', hskip, hbody, rfl⟩, rfl⟩
    rw [hskip] at hsource htokens ⊢
    obtain rfl : mark' = mark := List.append_cancel_right (hsource'.symm.trans hsource)
    exact ⟨body, hbody, htokens body⟩

theorem SourcePieces.unique {source : CString} {pieces pieces' : List Piece}
    (h : SourcePieces source pieces) (h' : SourcePieces source pieces') : pieces = pieces' := by
  obtain ⟨mark, rest, pos, body, hsource, hskip, hbody, rfl⟩ := h
  obtain ⟨mark', rest', pos', body', hsource', hskip', hbody', rfl⟩ := h'
  obtain ⟨rfl, -⟩ := Prod.mk.inj (hskip.symm.trans hskip')
  rw [hbody.unique hbody', List.append_cancel_right (hsource.symm.trans hsource')]

theorem SourcePieces.reportedTrue_iff {source : CString} {pieces : List Piece}
    (h : SourcePieces source pieces) : ReportedTrue ⟨1, 1⟩ [] pieces ↔ StringsEndLines pieces := by
  have hliteral : ∀ p ∈ pieces, p.bytes.head? = some 39 → p.shape ≠ none ∧ 2 ≤ p.bytes.length := by
    obtain ⟨mark, rest, pos, body, hsource, hskip, hbody, rfl⟩ := h
    obtain ⟨mark', hsource', -, hmark⟩ := skipByteOrderMark_cases source.bytes
    rw [hskip] at hsource'
    obtain rfl : mark' = mark := List.append_cancel_right (hsource'.symm.trans hsource)
    intro p hp hquote
    rcases List.mem_cons.mp hp with rfl | hp
    · rcases hmark with rfl | rfl
      · cases hquote
      · exact absurd (Option.some.inj hquote) (by decide)
    · obtain ⟨next, hround⟩ := hbody.round hp
      exact hround.literal hquote
  exact (reportedTrue_cases hliteral ⟨1, 1⟩ []).1 rfl

/-- **Token positions.**  For every source that is accepted: all its tokens, the `END` token included,
carry the position of their first byte exactly if no string literal has a newline in it, behind each
one a newline comes before the next token, and every position fits an `int`. -/
theorem tokenPositions_iff (source : CString) (tokens : List Token) (pieces : List Piece)
    (htokens : tokenizeSql source = .ok tokens) (hpieces : SourcePieces source pieces) :
    List.Forall₂ PositionTrue (tokenStarts [] pieces) tokens ↔
      StringsEndLines pieces ∧ ∀ before ∈ tokenStarts [] pieces, PositionFits before := by
  obtain ⟨pieces', hpieces', rfl⟩ := tokenizeSql_iff.mp htokens
  obtain rfl := hpieces.unique hpieces'
  have hstart : Position.Lags ⟨1, 1⟩ (truePosition []) := Or.inr ⟨rfl, le_rfl⟩
  rw [forall_positionTrue_iff (lags_tokens hstart)]
  exact and_congr_left' hpieces.reportedTrue_iff

/-! ### A literal in the middle of a line -/

/-- The pieces of a text, computed round by round. -/
def cutPieces : ℕ → Bytes → Option (List Piece)
  | 0, _ => none
  | _, [] => some []
  | fuel + 1, ch :: rest =>
      match lexOne ch rest ⟨1, 1⟩ with
      | .error _ => none
      | .ok l => (cutPieces fuel l.rest).map fun pieces =>
          ⟨(ch :: rest).take ((ch :: rest).length - l.rest.length),
            l.token.map fun t => (t.type, t.lexeme)⟩ :: pieces

theorem cutPieces_lexes {fuel : ℕ} {source : Bytes} {pieces : List Piece}
    (h : cutPieces fuel source = some pieces) : Lexes source pieces := by
  induction fuel generalizing source pieces with
  | zero => cases h
  | succ fuel ih =>
    cases source with
    | nil =>
      obtain rfl := Option.some.inj h
      exact .nil
    | cons ch rest =>
      rw [cutPieces] at h
      cases hlex : lexOne ch rest ⟨1, 1⟩ with
      | error e =>
        rw [hlex] at h
        cases h
      | ok l =>
        rw [hlex] at h
        obtain ⟨pieces', hpieces', rfl⟩ := Option.map_eq_some_iff.mp h
        obtain ⟨bytes, shape, hbytes, hround, htoken, -⟩ := lexOne_iff.mp hlex
        have htake : (ch :: rest).take ((ch :: rest).length - l.rest.length) = bytes := by
          rw [hbytes, List.length_append, Nat.add_sub_cancel, List.take_left]
        have hshape : (l.token.map fun t => (t.type, t.lexeme)) = shape := by
          rw [htoken]
          cases shape <;> rfl
        rw [htake, hshape, hbytes]
        exact @Lexes.cons ⟨bytes, shape⟩ l.rest pieces' hround (ih hpieces')

def literalSource : CString := lit "SELECT * FROM t WHERE a = 'x';"

def literalPieces : List Piece := ⟨[], none⟩ :: (cutPieces 40 literalSource.bytes).getD []

theorem literalSource_pieces : SourcePieces literalSource literalPieces := by
  obtain ⟨pieces, hpieces⟩ : ∃ pieces, cutPieces 40 literalSource.bytes = some pieces :=
    Option.isSome_iff_exists.mp (by decide +kernel)
  rw [literalPieces, hpieces]
  exact ⟨[], _, _, _, rfl, rfl, cutPieces_lexes hpieces, rfl⟩

theorem literalSource_tokens :
    tokenizeSql literalSource = .ok (tokensAt ⟨1, 1⟩ literalPieces) :=
  tokenizeSql_iff.mpr ⟨literalPieces, literalSource_pieces, rfl⟩

theorem tokenPositions_iff_literal :
    tokenizeSql literalSource = .ok (tokensAt ⟨1, 1⟩ literalPieces) ∧
      SourcePieces literalSource literalPieces ∧
      (List.Forall₂ PositionTrue (tokenStarts [] literalPieces) (tokensAt ⟨1, 1⟩ literalPieces) ↔
        StringsEndLines literalPieces ∧
          ∀ before ∈ tokenStarts [] literalPieces, PositionFits before) :=
  ⟨literalSource_tokens, literalSource_pieces,
    tokenPositions_iff literalSource _ literalPieces literalSource_tokens literalSource_pieces⟩

/-- The semicolon and the end are reported one column short. -/
theorem tokenPositions_short :
    tokenizeSql literalSource = .ok (tokensAt ⟨1, 1⟩ literalPieces) ∧
      SourcePieces literalSource literalPieces ∧
      ¬List.Forall₂ PositionTrue (tokenStarts [] literalPieces) (tokensAt ⟨1, 1⟩ literalPieces) :=
  ⟨literalSource_tokens, literalSource_pieces, by decide +kernel⟩

end MiniSql
