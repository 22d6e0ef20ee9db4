import MiniSql.ActiveTable
import MiniSql.CommandHistory
import MiniSql.ScriptTexts

/-!
# Interactive mode

`execute_source_text` and `run_interactive` of `main.c`, the latter on lines read with `fgets`.  It looks
for a `;` in each line and runs what has come up to such a line as a source text of its own, a chunk.
Compared with the whole text at once, nothing is lost and nothing is reported exactly if every chunk is a
script by itself (`runInteractive_iff`): a `;` in a string, in a comment or between two parts of a line
does not end a statement.

* `executeSourceText`, `runInteractive`: the batch run and the session, with what each executes and reports.
* `sourceLines`, `stdinLines_eq`: the lines of a text, which `fgets` reads as long as they are short.
* `chunks`, `runInteractive_eq`: what comes up to a line with a `;`, and the session as a run of the chunks.
* `chunks_statements`: chunks that are accepted have the statements of the whole text.
* `runInteractive_iff`, `runInteractive_cut_statement`: the condition, and a text that fails it.
-/

namespace MiniSql

/-! ### Running a source text -/

/-- What ends the run of a source text, or the session; `fault` is an access outside the fields of a
row. -/
inductive RunError where
  | parse (e : ParseError)
  | storage (e : StorageError)
  | history (message : CString)
  | fault

/-- The error of a statement that fails. -/
def Outcome.error? : Outcome → Option RunError
  | .inserted (.ok _) => none
  | .inserted (.error e) => some (.storage e)
  | .selected (.ok _) => none
  | .selected (.error e) => some (.storage e)
  | .selected .fault => some .fault

/-- The statements that were executed, with their outcomes, the error at the end, and the state. -/
structure TextRun where
  executed : List (Statement × Outcome)
  error : Option RunError
  state : State

/-- The loop of `execute_source_text`. -/
def executeStatements (uninit : ℕ → UInt32) (dbRoot : CString) : List Statement → State → TextRun
  | [], s => ⟨[], none, s⟩
  | statement :: statements, s =>
      let r := executeStatement uninit dbRoot statement s
      match r.1.error? with
      | some e => ⟨[(statement, r.1)], some e, r.2⟩
      | none =>
          let run := executeStatements uninit dbRoot statements r.2
          ⟨(statement, r.1) :: run.executed, run.error, run.state⟩

/-- `execute_source_text`. -/
def executeSourceText (uninit : ℕ → UInt32) (dbRoot source : CString) (s : State) : TextRun :=
  match parseSqlScript source with
  | (some e, _) => ⟨[], some (.parse e), s⟩
  | (none, statements) => executeStatements uninit dbRoot statements s

/-! ### Commands -/

def equalsIgnoreCaseBytes : Bytes → Bytes → Bool
  | a :: as, b :: bs => if tolower a ≠ tolower b then false else equalsIgnoreCaseBytes as bs
  | [], [] => true
  | _, _ => false

/-- `equals_ignore_case`. -/
def equalsIgnoreCase (left right : CString) : Bool := equalsIgnoreCaseBytes left.bytes right.bytes

/-- `read_single_token`: the line without the blanks at both ends. -/
def readSingleToken (line : CString) (tokenSize : ℕ) : Option CString :=
  let token := CString.ofBuffer ((line.bytes.dropWhile isspace).rdropWhile isspace)
  if token.length = 0 ∨ tokenSize ≤ token.length then none else some token

/-- `is_exit_command`. -/
def isExitCommand (line : CString) : Bool :=
  match readSingleToken line 16 with
  | none => false
  | some token => equalsIgnoreCase token (lit "exit") || equalsIgnoreCase token (lit "quit")

/-- `is_help_command`. -/
def isHelpCommand (line : CString) : Bool :=
  match readSingleToken line 16 with
  | none => false
  | some token => equalsIgnoreCase token (lit "help")

/-! ### Lines -/

/-- How many bytes `fgets` takes when it may take `n`. -/
def lineLength : ℕ → Bytes → ℕ
  | 0, _ => 0
  | _ + 1, [] => 0
  | n + 1, c :: rest => if c = 10 then 1 else lineLength n rest + 1

/-- `fgets`: the string in the buffer and the rest of the stream; `none` at the end. -/
def fgets (size : ℕ) : Bytes → Option (CString × Bytes)
  | [] => none
  | stream =>
      let n := lineLength (size - 1) stream
      some (CString.ofBuffer (stream.take n), stream.drop n)

/-- The lines `run_interactive` reads from a stream.  Each takes at least one byte. -/
def readLinesFrom : ℕ → Bytes → List CString
  | 0, _ => []
  | fuel + 1, stream =>
      match fgets interactiveLineMax stream with
      | none => []
      | some (line, stream) => line :: readLinesFrom fuel stream

def stdinLines (source : CString) : List CString := readLinesFrom source.length source.bytes

/-! ### The session -/

/-- The statements a session executes, the errors it reports, and its last state. -/
structure Session where
  executed : List (Statement × Outcome)
  reported : List RunError
  state : State

/-- A session behind the run of a source text. -/
def Session.behind (session : Session) (run : TextRun) : Session :=
  ⟨run.executed ++ session.executed, run.error.toList ++ session.reported, session.state⟩

/-- The loop of `run_interactive` on the lines it reads, with the buffer; memory is never refused.
What `help` prints leaves no trace here. -/
def interactiveLoop (uninit : ℕ → UInt32) (dbRoot : CString) :
    List CString → InputHistory → CString → State → Session
  | [], _, _, s => ⟨[], [], s⟩
  | line :: lines, history, buffer, s =>
      match historyAdd true history line with
      | .error message => ⟨[], [.history message], s⟩
      | .ok history =>
          if buffer.length = 0 ∧ isExitCommand line then ⟨[], [], s⟩
          else if buffer.length = 0 ∧ isHelpCommand line then
            interactiveLoop uninit dbRoot lines history buffer s
          else if 59 ∉ line.bytes then
            interactiveLoop uninit dbRoot lines history (buffer ++ line) s
          else
            let run := executeSourceText uninit dbRoot (buffer ++ line) s
            (interactiveLoop uninit dbRoot lines history CString.empty run.state).behind run

/-- `run_interactive`. -/
def runInteractive (uninit : ℕ → UInt32) (dbRoot source : CString) (s : State) : Session :=
  interactiveLoop uninit dbRoot (stdinLines source) historyInit CString.empty s

/-! ### The lines of a text -/

/-- The lines of a text, each with its newline. -/
def textLines : Bytes → List Bytes
  | [] => []
  | c :: rest =>
      if c = 10 then [10] :: textLines rest
      else
        match textLines rest with
        | [] => [[c]]
        | line :: lines => (c :: line) :: lines

def sourceLines (source : CString) : List CString := (textLines source.bytes).map CString.ofBuffer

/-- None is empty, and every line but the last one ends in a newline. -/
inductive AreLines : List Bytes → Prop
  | nil : AreLines []
  | last {line : Bytes} : line ≠ [] → AreLines [line]
  | cons {line : Bytes} {lines : List Bytes} : line.getLast? = some 10 → AreLines lines →
      AreLines (line :: lines)

theorem AreLines.uncons {line : Bytes} {lines : List Bytes} (h : AreLines (line :: lines)) :
    (line.getLast? = some 10 ∨ lines = []) ∧ AreLines lines := by
  cases h with
  | last _ => exact ⟨Or.inr rfl, .nil⟩
  | cons hlast hlines => exact ⟨Or.inl hlast, hlines⟩

theorem AreLines.ne_nil {lines : List Bytes} (h : AreLines lines) {line : Bytes}
    (hline : line ∈ lines) : line ≠ [] := by
  induction h with
  | nil => cases hline
  | last hne =>
    rw [List.mem_singleton.mp hline]
    exact hne
  | cons hlast _ ih =>
    rcases List.mem_cons.mp hline with rfl | hline
    · rintro rfl
      cases hlast
    · exact ih hline

theorem textLines_flatten (source : Bytes) : (textLines source).flatten = source := by
  induction source with
  | nil => rfl
  | cons c rest ih =>
    rw [textLines]
    split
    · rename_i hc
      rw [List.flatten_cons, ih, hc, List.singleton_append]
    · split
      · rename_i hnil
        rw [hnil] at ih
        rw [← ih]
        rfl
      · rename_i line lines hcons
        rw [hcons, List.flatten_cons] at ih
        rw [List.flatten_cons, List.cons_append, ih]

theorem textLines_areLines (source : Bytes) : AreLines (textLines source) := by
  induction source with
  | nil => exact .nil
  | cons c rest ih =>
    rw [textLines]
    split
    · exact .cons rfl ih
    · split
      · exact .last (List.cons_ne_nil c [])
      · rename_i line lines hcons
        rw [hcons] at ih
        cases ih with
        | last hline => exact .last (List.cons_ne_nil c line)
        | cons hlast hlines =>
          refine .cons ?_ hlines
          rw [List.getLast?_cons, hlast]
          rfl

/-- The first line is what `fgets` takes, if it may take that much. -/
theorem textLines_head {stream line : Bytes} {lines : List Bytes}
    (h : textLines stream = line :: lines) :
    line ≠ [] ∧ textLines lines.flatten = lines ∧
      ∀ n, line.length ≤ n → lineLength n stream = line.length := by
  induction stream generalizing line lines with
  | nil => cases h
  | cons c rest ih =>
    rw [textLines] at h
    split at h
    · rename_i hc
      obtain ⟨rfl, rfl⟩ := List.cons.inj h
      refine ⟨List.cons_ne_nil 10 [], by rw [textLines_flatten], fun n hn => ?_⟩
      obtain ⟨n, rfl⟩ := Nat.exists_eq_succ_of_ne_zero (Nat.one_le_iff_ne_zero.mp hn)
      rw [lineLength, if_pos hc]
      rfl
    · rename_i hc
      split at h
      · rename_i hnil
        obtain ⟨rfl, rfl⟩ := List.cons.inj h
        have hrest := textLines_flatten rest
        rw [hnil] at hrest
        subst hrest
        refine ⟨List.cons_ne_nil c [], rfl, fun n hn => ?_⟩
        obtain ⟨n, rfl⟩ := Nat.exists_eq_succ_of_ne_zero (Nat.one_le_iff_ne_zero.mp hn)
        rw [lineLength, if_neg hc]
        cases n <;> rfl
      · rename_i first others hcons
        obtain ⟨rfl, rfl⟩ := List.cons.inj h
        obtain ⟨-, hlines, hlength⟩ := ih hcons
        refine ⟨List.cons_ne_nil c first, hlines, fun n hn => ?_⟩
        rw [List.length_cons] at hn
        obtain ⟨n, rfl⟩ : ∃ m, n = m + 1 := ⟨n - 1, by omega⟩
        rw [lineLength, if_neg hc, hlength n (by omega), List.length_cons]

theorem readLinesFrom_eq {fuel : ℕ} {stream : Bytes} (hfuel : stream.length ≤ fuel)
    (hshort : ∀ line ∈ textLines stream, line.length < interactiveLineMax) :
    readLinesFrom fuel stream = (textLines stream).map CString.ofBuffer := by
  induction fuel generalizing stream with
  | zero =>
    obtain rfl := List.eq_nil_of_length_eq_zero (Nat.le_zero.mp hfuel)
    rfl
  | succ fuel ih =>
    cases stream with
    | nil => rfl
    | cons c rest =>
      have hflatten := textLines_flatten (c :: rest)
      cases hlines : textLines (c :: rest) with
      | nil =>
        rw [hlines] at hflatten
        cases hflatten
      | cons line lines =>
        rw [hlines] at hshort hflatten
        rw [List.flatten_cons] at hflatten
        obtain ⟨hne, htail, hlength⟩ := textLines_head hlines
        have hline := hshort line List.mem_cons_self
        have hpos := List.length_pos_of_ne_nil hne
        have hsum : line.length + lines.flatten.length = (c :: rest).length := by
          rw [← List.length_append, hflatten]
        rw [readLinesFrom, fgets, hlength _ (by omega)]
        · dsimp only
          rw [← hflatten, List.take_left, List.drop_left, ih, htail, List.map_cons]
          · omega
          · rw [htail]
            exact fun l hl => hshort l (List.mem_cons_of_mem line hl)
        · exact List.cons_ne_nil c rest

theorem sourceLines_bytes (source : CString) :
    (sourceLines source).map CString.bytes = textLines source.bytes := by
  rw [sourceLines, List.map_map]
  refine (List.map_congr_left fun line hline => ?_).trans (List.map_id _)
  refine CString.ofBuffer_bytes fun hnul => source.nul_free ?_
  rw [← textLines_flatten source.bytes]
  exact List.mem_flatten_of_mem hline hnul

/-- Lines that are shorter than the buffer are read one by one. -/
theorem stdinLines_eq {source : CString}
    (hshort : ∀ line ∈ sourceLines source, line.length < interactiveLineMax) :
    stdinLines source = sourceLines source := by
  refine readLinesFrom_eq (le_refl _) fun line hline => ?_
  rw [← sourceLines_bytes] at hline
  obtain ⟨text, htext, rfl⟩ := List.mem_map.mp hline
  exact hshort text htext

/-! ### Chunks -/

/-- What is run as a source text of its own: the lines up to the next one with a `;` in it.  What
comes behind the last such line is never run. -/
def chunksFrom : CString → List CString → List CString
  | _, [] => []
  | buffer, line :: lines =>
      if 59 ∉ line.bytes then chunksFrom (buffer ++ line) lines
      else (buffer ++ line) :: chunksFrom CString.empty lines

def chunks (source : CString) : List CString := chunksFrom CString.empty (sourceLines source)

/-- No line at the start of a chunk is a command. -/
def NoCommands : Bool → List CString → Prop
  | _, [] => True
  | start, line :: lines =>
      (start = true → isExitCommand line = false ∧ isHelpCommand line = false) ∧
        NoCommands (decide (59 ∈ line.bytes)) lines

instance NoCommands.decidable : (start : Bool) → (lines : List CString) →
    Decidable (NoCommands start lines)
  | _, [] => inferInstanceAs (Decidable True)
  | _, line :: lines =>
      have := NoCommands.decidable (decide (59 ∈ line.bytes)) lines
      inferInstanceAs (Decidable (_ ∧ _))

/-- Each chunk as a source text of its own. -/
def runChunks (uninit : ℕ → UInt32) (dbRoot : CString) : List CString → State → Session
  | [], s => ⟨[], [], s⟩
  | chunk :: chunks, s =>
      let run := executeSourceText uninit dbRoot chunk s
      (runChunks uninit dbRoot chunks run.state).behind run

/-- Without commands a session runs the chunks. -/
theorem interactiveLoop_eq (uninit : ℕ → UInt32) (dbRoot : CString) {lines : List CString}
    (hlines : ∀ line ∈ lines, line.bytes ≠ []) {buffer : CString}
    (hcommands : NoCommands (decide (buffer.length = 0)) lines) (history : InputHistory) (s : State) :
    interactiveLoop uninit dbRoot lines history buffer s =
      runChunks uninit dbRoot (chunksFrom buffer lines) s := by
  induction lines generalizing buffer history s with
  | nil => rfl
  | cons line lines ih =>
    obtain ⟨hstart, hrest⟩ := hcommands
    obtain ⟨history', hhistory, -⟩ := historyAdd_ok history line
    have hexit : ¬(buffer.length = 0 ∧ isExitCommand line = true) := by
      rintro ⟨hempty, hexit⟩
      rw [(hstart (decide_eq_true hempty)).1] at hexit
      cases hexit
    have hhelp : ¬(buffer.length = 0 ∧ isHelpCommand line = true) := by
      rintro ⟨hempty, hhelp⟩
      rw [(hstart (decide_eq_true hempty)).2] at hhelp
      cases hhelp
    have hlines' : ∀ line ∈ lines, line.bytes ≠ [] := fun l hl =>
      hlines l (List.mem_cons_of_mem line hl)
    rw [interactiveLoop, hhistory]
    dsimp only
    rw [if_neg hexit, if_neg hhelp, chunksFrom]
    by_cases hsemicolon : 59 ∈ line.bytes
    · rw [if_neg (not_not.mpr hsemicolon), if_neg (not_not.mpr hsemicolon), runChunks]
      rw [decide_eq_true hsemicolon] at hrest
      have hempty : NoCommands (decide (CString.empty.length = 0)) lines := hrest
      rw [ih hlines' hempty]
    · rw [if_pos hsemicolon, if_pos hsemicolon]
      have hlength : (buffer ++ line).length ≠ 0 := by
        have hpos := List.length_pos_of_ne_nil (hlines line List.mem_cons_self)
        simp only [CString.length, CString.append_bytes, List.length_append]
        omega
      rw [decide_eq_false hsemicolon, ← decide_eq_false hlength] at hrest
      exact ih hlines' hrest history' s

/-- Every chunk ends in a newline, or nothing comes behind it. -/
def Separated : List Bytes → Bytes → Prop
  | [], _ => True
  | chunk :: chunks, rest =>
      (chunk.getLast? = some 10 ∨ chunks.flatten ++ rest = []) ∧ Separated chunks rest

/-- The chunks are the text up to a rest without a `;`. -/
theorem chunksFrom_join {lines : List CString} (hlines : AreLines (lines.map CString.bytes))
    {buffer : CString} (hbuffer : 59 ∉ buffer.bytes) :
    ∃ rest, buffer.bytes ++ (lines.map CString.bytes).flatten =
        ((chunksFrom buffer lines).map CString.bytes).flatten ++ rest ∧ 59 ∉ rest ∧
      Separated ((chunksFrom buffer lines).map CString.bytes) rest := by
  induction lines generalizing buffer with
  | nil => exact ⟨buffer.bytes, by simp [chunksFrom], hbuffer, trivial⟩
  | cons line lines ih =>
    obtain ⟨hend, hlines'⟩ := hlines.uncons
    rw [chunksFrom]
    by_cases hsemicolon : 59 ∈ line.bytes
    · obtain ⟨rest, hjoin, hrest, hsep⟩ := @ih hlines' CString.empty List.not_mem_nil
      rw [if_neg (not_not.mpr hsemicolon)]
      refine ⟨rest, ?_, hrest, ?_, hsep⟩
      · rw [CString.empty_bytes, List.nil_append] at hjoin
        simp only [List.map_cons, List.flatten_cons, hjoin, CString.append_bytes, List.append_assoc]
      · rw [← hjoin]
        rcases hend with hlast | hnil
        · left
          rw [CString.append_bytes, List.getLast?_append, hlast]
          rfl
        · right
          rw [hnil]
          rfl
    · have hbuffer' : 59 ∉ (buffer ++ line).bytes := by
        rw [CString.append_bytes, List.mem_append, not_or]
        exact ⟨hbuffer, hsemicolon⟩
      obtain ⟨rest, hjoin, hrest⟩ := ih hlines' hbuffer'
      rw [if_pos hsemicolon]
      refine ⟨rest, ?_, hrest⟩
      rw [← hjoin, List.map_cons, List.flatten_cons, CString.append_bytes, List.append_assoc]

/-! ### Chunks of a script -/

/-- `script := { ';' | stmt ';' }` -/
inductive TerminatedScript : List Token → Prop
  | nil : TerminatedScript []
  | semicolon {t : Token} {tokens : List Token} : t.type = .semicolon → TerminatedScript tokens →
      TerminatedScript (t :: tokens)
  | statement {phrase tokens : List Token} {t : Token} {statement : Statement} :
      StatementGrammar phrase statement → t.type = .semicolon → TerminatedScript tokens →
      TerminatedScript (phrase ++ t :: tokens)

/-- Every statement of the source is terminated by a semicolon. -/
def StatementsTerminated (source : CString) : Prop :=
  ∃ tokens last, tokenizeSql source = .ok (tokens ++ [last]) ∧ TerminatedScript tokens

theorem TerminatedScript.last {tokens : List Token} (h : TerminatedScript tokens) :
    tokens = [] ∨ ∃ t ∈ tokens.getLast?, t.type = .semicolon := by
  have hcons : ∀ {t : Token} {tokens : List Token}, t.type = .semicolon →
      (tokens = [] ∨ ∃ t ∈ tokens.getLast?, t.type = .semicolon) →
      ∃ t' ∈ (t :: tokens).getLast?, t'.type = .semicolon := by
    intro t tokens ht htokens
    rcases htokens with rfl | ⟨t', hlast, ht'⟩
    · exact ⟨t, rfl, ht⟩
    · refine ⟨t', ?_, ht'⟩
      rw [List.getLast?_cons, Option.mem_def.mp hlast]
      rfl
  induction h with
  | nil => exact Or.inl rfl
  | semicolon ht _ ih => exact Or.inr (hcons ht ih)
  | statement _ ht _ ih =>
    obtain ⟨t', hlast, ht'⟩ := hcons ht ih
    refine Or.inr ⟨t', ?_, ht'⟩
    rw [List.getLast?_append, Option.mem_def.mp hlast]
    rfl

/-- No piece begins a byte order mark. -/
theorem Lexes.no_mark {source : Bytes} {pieces : List Piece} (h : Lexes source pieces) :
    ¬HasMark source := by
  rintro ⟨rest, hrest⟩
  cases h with
  | nil => cases hrest
  | @cons p rest' pieces hround hlexes =>
    obtain ⟨ch, tail, hbytes, hlex⟩ := lexOne_of_round hround ⟨1, 1⟩
    rw [hbytes] at hrest
    obtain ⟨rfl, -⟩ := List.cons.inj hrest
    cases hlex

/-- The piece of a semicolon. -/
theorem LexRound.semicolon {bytes : Bytes} {next : Option UInt8} {shape : Option Shape}
    (h : LexRound bytes next shape) {lexeme : CString} (hshape : shape = some (.semicolon, lexeme)) :
    59 ∈ bytes := by
  cases h with
  | blank _ => cases hshape
  | lineComment _ _ => cases hshape
  | blockComment _ => cases hshape
  | word _ _ _ =>
    have htype := (Prod.mk.inj (Option.some.inj hshape)).1
    exact absurd htype (keywordType_ne (by decide) (by decide) _)
  | number _ _ _ => cases hshape
  | string _ => cases hshape
  | @symbol ch tail _ type htype =>
    obtain ⟨rfl, -⟩ := Prod.mk.inj (Option.some.inj hshape)
    by_cases hch : ch = 59
    · exact List.mem_cons.mpr (Or.inl hch.symm)
    · have hall : ∀ s ∈ symbolType ch (tail ++ next.toList), s.1 ≠ .semicolon := by
        rw [symbolType, if_neg hch]
        repeat' apply forall_mem_ite
        all_goals decide
      exact absurd rfl (hall _ htype)

/-- A script at the front of a text, with a newline or nothing behind it. -/
theorem ScriptText.front {s rest : Bytes} {statements : List Statement} {whole : List Piece}
    (h : ScriptText s statements) (hend : s.getLast? = some 10 ∨ rest = [])
    (hwhole : Lexes (s ++ rest) whole) :
    ∃ pieces back, whole = pieces ++ back ∧ ScriptPieces pieces statements ∧ Lexes rest back := by
  obtain ⟨pieces, hlexes, hscript⟩ := h
  rcases hend with hlast | rfl
  · obtain ⟨back, rfl, hback⟩ := (hlexes.before (Or.inr hlast)).split hwhole
    exact ⟨pieces, back, rfl, hscript, hback⟩
  · rw [List.append_nil] at hwhole
    rw [hwhole.unique hlexes]
    exact ⟨pieces, [], (List.append_nil pieces).symm, hscript, .nil⟩

/-- The statements of some source texts. -/
def textStatements (texts : List CString) : List Statement :=
  texts.flatMap fun text => (parseSqlScript text).2

theorem parseSqlScript_accepted {source : CString} (h : (parseSqlScript source).1 = none) :
    parseSqlScript source = (none, (parseSqlScript source).2) := Prod.ext h rfl

/-- Scripts one behind the other at the front of a text. -/
theorem scriptTexts_front {texts : List CString} {rest : Bytes} {whole : List Piece}
    (haccepted : ∀ text ∈ texts, (parseSqlScript text).1 = none)
    (hsep : Separated (texts.map CString.bytes) rest)
    (hwhole : Lexes ((texts.map CString.bytes).flatten ++ rest) whole) :
    ∃ pieces back, whole = pieces ++ back ∧ ScriptPieces pieces (textStatements texts) ∧
      Lexes rest back := by
  induction texts generalizing whole with
  | nil => exact ⟨[], whole, rfl, ⟨[], .nil, rfl⟩, hwhole⟩
  | cons text texts ih =>
    obtain ⟨hend, hsep⟩ := hsep
    rw [List.map_cons, List.flatten_cons, List.append_assoc] at hwhole
    have hmark : ¬HasMark text.bytes := fun h => hwhole.no_mark (h.trans (List.prefix_append _ _))
    have htext := parseSqlScript_iff.mp
      (parseSqlScript_accepted (haccepted text List.mem_cons_self))
    rw [skipByteOrderMark_no_mark hmark] at htext
    obtain ⟨pieces, back, rfl, hscript, hback⟩ := htext.front hend hwhole
    obtain ⟨pieces', back', rfl, hscript', hrest⟩ :=
      ih (fun t ht => haccepted t (List.mem_cons_of_mem text ht)) hsep hback
    exact ⟨pieces ++ pieces', back', (List.append_assoc ..).symm, hscript.append hscript', hrest⟩

theorem skipByteOrderMark_append {s rest : Bytes} (hend : s.getLast? = some 10 ∨ rest = []) :
    (skipByteOrderMark (s ++ rest)).1 = (skipByteOrderMark s).1 ++ rest ∧
      ((skipByteOrderMark s).1.getLast? = some 10 ∨ rest = []) := by
  rcases hend with hlast | rfl
  · obtain ⟨front, rfl⟩ := List.getLast?_eq_some_iff.mp hlast
    have hfront := skipByteOrderMark_newline front []
    rw [List.append_assoc, List.singleton_append, skipByteOrderMark_newline, hfront,
      List.append_assoc]
    exact ⟨rfl, Or.inl List.getLast?_concat⟩
  · rw [List.append_nil, List.append_nil]
    exact ⟨rfl, Or.inr rfl⟩

theorem skipByteOrderMark_subset (source : Bytes) : (skipByteOrderMark source).1 ⊆ source := by
  by_cases hmark : HasMark source
  · obtain ⟨rest, rfl⟩ := hmark
    exact List.subset_append_right _ _
  · rw [skipByteOrderMark_no_mark hmark]
    exact List.Subset.refl source

/-- A rest without a `;` adds nothing to a script that is terminated. -/
theorem bodyAt_terminated {pos : Position} {rest : Bytes} {back : List Piece}
    (hlexes : Lexes rest back) (hrest : 59 ∉ rest) {front : List Token}
    (h : TerminatedScript (front ++ bodyAt pos back)) : bodyAt pos back = [] := by
  by_contra hne
  rcases h.last with hnil | ⟨t, hlast, ht⟩
  · exact hne (List.append_eq_nil_iff.mp hnil).2
  · rw [List.getLast?_append_of_ne_nil _ hne] at hlast
    have hmem : t ∈ tokensAt pos back := by
      rw [tokensAt_eq]
      exact List.mem_append_left _ (List.mem_of_getLast? hlast)
    rcases mem_tokensAt hmem with hend | ⟨p, hp, hshape⟩
    · rw [ht] at hend
      cases hend
    · rw [ht] at hshape
      obtain ⟨next, hround⟩ := hlexes.round hp
      exact hrest (hlexes.mem hp (hround.semicolon hshape))

/-- The pieces of a source whose chunks are accepted, and of the rest that is never run. -/
theorem chunks_front {source : CString} {whole : List Piece}
    (hlexes : Lexes (skipByteOrderMark source.bytes).1 whole)
    (haccepted : ∀ chunk ∈ chunks source, (parseSqlScript chunk).1 = none) :
    ∃ pieces back rest, whole = pieces ++ back ∧
      ScriptPieces pieces (textStatements (chunks source)) ∧ Lexes rest back ∧ 59 ∉ rest := by
  have hlines : AreLines ((sourceLines source).map CString.bytes) := by
    rw [sourceLines_bytes]
    exact textLines_areLines source.bytes
  obtain ⟨rest, hjoin, hrest, hsep⟩ := @chunksFrom_join _ hlines CString.empty List.not_mem_nil
  rw [CString.empty_bytes, List.nil_append, sourceLines_bytes, textLines_flatten, ← chunks] at hjoin
  rw [← chunks] at hsep
  cases hchunks : chunks source with
  | nil =>
    rw [hchunks, List.map_nil, List.flatten_nil, List.nil_append] at hjoin
    refine ⟨[], whole, _, rfl, ⟨[], .nil, rfl⟩, hlexes, fun hmem => hrest ?_⟩
    rw [← hjoin]
    exact skipByteOrderMark_subset source.bytes hmem
  | cons chunk texts =>
    rw [hchunks] at hjoin hsep haccepted
    obtain ⟨hend, hsep⟩ := hsep
    rw [List.map_cons, List.flatten_cons, List.append_assoc] at hjoin
    obtain ⟨hskip, hend⟩ := skipByteOrderMark_append hend
    rw [hjoin, hskip] at hlexes
    have hchunk := parseSqlScript_iff.mp
      (parseSqlScript_accepted (haccepted chunk List.mem_cons_self))
    obtain ⟨pieces, back, rfl, hscript, hback⟩ := hchunk.front hend hlexes
    obtain ⟨pieces', back', rfl, hscript', hrest'⟩ :=
      scriptTexts_front (fun t ht => haccepted t (List.mem_cons_of_mem chunk ht)) hsep hback
    exact ⟨pieces ++ pieces', back', rest, (List.append_assoc ..).symm, hscript.append hscript',
      hrest', hrest⟩

/-- If every chunk is accepted, the chunks have the statements of the whole text. -/
theorem chunks_statements {source : CString} {statements : List Statement}
    (hwhole : parseSqlScript source = (none, statements)) (hterminated : StatementsTerminated source)
    (haccepted : ∀ chunk ∈ chunks source, (parseSqlScript chunk).1 = none) :
    textStatements (chunks source) = statements := by
  obtain ⟨whole, hlexes, hscript⟩ := parseSqlScript_iff.mp hwhole
  obtain ⟨pieces, back, rest, rfl, hpieces, hback, hrest⟩ := chunks_front hlexes haccepted
  obtain ⟨tokens, last, htokens, hterminated⟩ := hterminated
  have htext : ∃ pieces, Lexes (skipByteOrderMark source.bytes).1 pieces ∧
      tokens ++ [last] = tokensAt (skipByteOrderMark source.bytes).2 pieces :=
    (tokenizeFrom_iff (Nat.lt_succ_self _)).mp htokens
  obtain ⟨whole, hwhole, hall⟩ := htext
  rw [hwhole.unique hlexes, tokensAt_eq, bodyAt_append] at hall
  obtain ⟨rfl, -⟩ := List.append_inj' hall rfl
  have hempty := bodyAt_terminated hback hrest hterminated
  have hnone : ScriptPieces back [] := by
    refine @ScriptPieces.of_at (endAt (skipByteOrderMark source.bytes).2 pieces) back [] ?_
    rw [hempty]
    exact .nil
  have hunique := (hpieces.append hnone).unique hscript
  rw [List.append_nil] at hunique
  exact hunique

/-! ### Sessions and runs -/

section Runs

variable (uninit : ℕ → UInt32) (dbRoot : CString)

theorem executeStatements_append (front back : List Statement) (s : State) :
    executeStatements uninit dbRoot (front ++ back) s =
      match executeStatements uninit dbRoot front s with
      | ⟨executed, some e, s'⟩ => ⟨executed, some e, s'⟩
      | ⟨executed, none, s'⟩ =>
          ⟨executed ++ (executeStatements uninit dbRoot back s').executed,
            (executeStatements uninit dbRoot back s').error,
            (executeStatements uninit dbRoot back s').state⟩ := by
  induction front generalizing s with
  | nil => rfl
  | cons statement front ih =>
    rw [List.cons_append, executeStatements, executeStatements]
    cases (executeStatement uninit dbRoot statement s).1.error? with
    | some e => rfl
    | none =>
      dsimp only
      rw [ih]
      rcases executeStatements uninit dbRoot front (executeStatement uninit dbRoot statement s).2
        with ⟨executed, error, s'⟩
      cases error <;> rfl

/-- All statements of the run have succeeded. -/
def Succeeded (executed : List (Statement × Outcome)) : Prop :=
  ∀ r ∈ executed, r.2.error? = none

theorem executeStatements_succeeded {statements : List Statement} {s : State}
    (h : Succeeded (executeStatements uninit dbRoot statements s).executed) :
    (executeStatements uninit dbRoot statements s).executed.map Prod.fst = statements := by
  induction statements generalizing s with
  | nil => rfl
  | cons statement statements ih =>
    rw [executeStatements] at h ⊢
    cases hout : (executeStatement uninit dbRoot statement s).1.error? with
    | some e =>
      rw [hout] at h
      have hfirst := h _ List.mem_cons_self
      rw [hout] at hfirst
      cases hfirst
    | none =>
      rw [hout] at h
      dsimp only at h ⊢
      rw [List.map_cons, ih fun r hr => h r (List.mem_cons_of_mem _ hr)]

theorem executeStatements_no_error {statements : List Statement} {s : State}
    (h : (executeStatements uninit dbRoot statements s).error = none) :
    Succeeded (executeStatements uninit dbRoot statements s).executed := by
  induction statements generalizing s with
  | nil => exact fun r hr => absurd hr List.not_mem_nil
  | cons statement statements ih =>
    rw [executeStatements] at h ⊢
    cases hout : (executeStatement uninit dbRoot statement s).1.error? with
    | some e =>
      rw [hout] at h
      cases h
    | none =>
      rw [hout] at h
      intro r hr
      rcases List.mem_cons.mp hr with rfl | hr
      · exact hout
      · exact ih h r hr

theorem executeSourceText_accepted {source : CString} (h : (parseSqlScript source).1 = none)
    (s : State) : executeSourceText uninit dbRoot source s =
      executeStatements uninit dbRoot (parseSqlScript source).2 s := by
  rw [executeSourceText, parseSqlScript_accepted h]

theorem executeSourceText_rejected {source : CString} {e : ParseError}
    (h : (parseSqlScript source).1 = some e) (s : State) :
    executeSourceText uninit dbRoot source s = ⟨[], some (.parse e), s⟩ := by
  have hparse : parseSqlScript source = (some e, (parseSqlScript source).2) := Prod.ext h rfl
  rw [executeSourceText, hparse]

/-- If nothing fails, a session executes the statements of the texts that are accepted. -/
theorem runChunks_succeeded {texts : List CString} {s : State}
    (h : Succeeded (runChunks uninit dbRoot texts s).executed) :
    (runChunks uninit dbRoot texts s).executed.map Prod.fst = textStatements texts := by
  induction texts generalizing s with
  | nil => rfl
  | cons text texts ih =>
    rw [runChunks] at h ⊢
    dsimp only [Session.behind] at h ⊢
    have hback := ih fun r hr => h r (List.mem_append_right _ hr)
    have hfront : Succeeded (executeSourceText uninit dbRoot text s).executed :=
      fun r hr => h r (List.mem_append_left _ hr)
    rw [List.map_append, hback, textStatements, textStatements, List.flatMap_cons]
    congr 1
    cases hparse : (parseSqlScript text).1 with
    | some e =>
      have hnone : (parseSqlScript text).2 = [] := parseSqlScript_failed (by rw [hparse]; simp)
      rw [executeSourceText_rejected uninit dbRoot hparse, hnone]
      rfl
    | none =>
      rw [executeSourceText_accepted uninit dbRoot hparse] at hfront ⊢
      exact executeStatements_succeeded uninit dbRoot hfront

/-- The errors of the texts that are rejected. -/
def rejections (texts : List CString) : List RunError :=
  texts.filterMap fun text => (parseSqlScript text).1.map .parse

/-- If the statements of the accepted texts can be run, the session runs them. -/
theorem runChunks_eq {texts : List CString} {s : State}
    (h : (executeStatements uninit dbRoot (textStatements texts) s).error = none) :
    runChunks uninit dbRoot texts s =
      ⟨(executeStatements uninit dbRoot (textStatements texts) s).executed, rejections texts,
        (executeStatements uninit dbRoot (textStatements texts) s).state⟩ := by
  induction texts generalizing s with
  | nil => rfl
  | cons text texts ih =>
    rw [textStatements, List.flatMap_cons, ← textStatements] at h ⊢
    rw [executeStatements_append] at h ⊢
    rw [runChunks, rejections, List.filterMap_cons, ← rejections]
    cases hparse : (parseSqlScript text).1 with
    | some e =>
      have hnone : (parseSqlScript text).2 = [] := parseSqlScript_failed (by rw [hparse]; simp)
      rw [hnone] at h ⊢
      rw [executeSourceText_rejected uninit dbRoot hparse]
      dsimp only
      rw [ih h]
      rfl
    | none =>
      rw [executeSourceText_accepted uninit dbRoot hparse]
      generalize executeStatements uninit dbRoot (parseSqlScript text).2 s = run at h ⊢
      obtain ⟨executed, error, s'⟩ := run
      cases error with
      | some e => cases h
      | none =>
        dsimp only at h ⊢
        rw [ih h]
        rfl

/-- A session that reports nothing has rejected no text. -/
theorem runChunks_reported {texts : List CString} {s : State}
    (h : (runChunks uninit dbRoot texts s).reported = []) :
    ∀ text ∈ texts, (parseSqlScript text).1 = none := by
  induction texts generalizing s with
  | nil => exact fun text htext => absurd htext List.not_mem_nil
  | cons text texts ih =>
    rw [runChunks] at h
    obtain ⟨hfront, hback⟩ := List.append_eq_nil_iff.mp h
    intro t ht
    rcases List.mem_cons.mp ht with rfl | ht
    · cases hparse : (parseSqlScript t).1 with
      | none => rfl
      | some e =>
        rw [executeSourceText_rejected uninit dbRoot hparse] at hfront
        cases hfront
    · exact ih hback t ht

end Runs

/-! ### Interactive mode against batch mode -/

theorem rejections_accepted {texts : List CString}
    (h : ∀ text ∈ texts, (parseSqlScript text).1 = none) : rejections texts = [] := by
  rw [rejections, List.filterMap_eq_nil_iff]
  intro text htext
  rw [h text htext]
  rfl

/-- Without commands and lines that are too long, a session runs the chunks of its input. -/
theorem runInteractive_eq (uninit : ℕ → UInt32) (dbRoot : CString) {source : CString}
    (hshort : ∀ line ∈ sourceLines source, line.length < interactiveLineMax)
    (hcommands : NoCommands true (sourceLines source)) (s : State) :
    runInteractive uninit dbRoot source s = runChunks uninit dbRoot (chunks source) s := by
  have hlines : ∀ line ∈ sourceLines source, line.bytes ≠ [] := by
    intro line hline
    apply (textLines_areLines source.bytes).ne_nil
    rw [← sourceLines_bytes]
    exact List.mem_map_of_mem hline
  have hstart : NoCommands (decide (CString.empty.length = 0)) (sourceLines source) := hcommands
  rw [runInteractive, stdinLines_eq hshort, chunks]
  exact interactiveLoop_eq uninit dbRoot hlines hstart historyInit s

/-- A run without an error is that of a text the parser accepts. -/
theorem accepted_of_no_error {uninit : ℕ → UInt32} {dbRoot source : CString} {s : State}
    (hrun : (executeSourceText uninit dbRoot source s).error = none) : (parseSqlScript source).1 = none := by
  cases hparse : (parseSqlScript source).1 with
  | none => rfl
  | some e =>
    rw [executeSourceText_rejected uninit dbRoot hparse] at hrun
    cases hrun

/-- Such a session executes the statements of the batch run exactly if the chunks that are accepted have
these statements. -/
theorem executed_iff (uninit : ℕ → UInt32) (dbRoot source : CString) (s : State)
    (hshort : ∀ line ∈ sourceLines source, line.length < interactiveLineMax)
    (hcommands : NoCommands true (sourceLines source))
    (hrun : (executeSourceText uninit dbRoot source s).error = none) :
    (runInteractive uninit dbRoot source s).executed =
        (executeSourceText uninit dbRoot source s).executed ↔
      textStatements (chunks source) = (parseSqlScript source).2 := by
  have haccepted := accepted_of_no_error hrun
  rw [executeSourceText_accepted uninit dbRoot haccepted] at hrun ⊢
  rw [runInteractive_eq uninit dbRoot hshort hcommands]
  have hok := executeStatements_no_error uninit dbRoot hrun
  constructor
  · intro heq
    rw [← heq] at hok
    rw [← runChunks_succeeded uninit dbRoot hok, heq]
    rw [heq] at hok
    exact executeStatements_succeeded uninit dbRoot hok
  · intro heq
    rw [← heq] at hrun ⊢
    rw [runChunks_eq uninit dbRoot hrun]

/-- They can have them by accident, with an error in between: the comment of this text hides the statement
that the second chunk has. -/
example : (parseSqlScript (lit "SELECT * FROM t; /* ;\nSELECT * FROM t; -- */\n")).1 = none ∧
    textStatements (chunks (lit "SELECT * FROM t; /* ;\nSELECT * FROM t; -- */\n")) =
      (parseSqlScript (lit "SELECT * FROM t; /* ;\nSELECT * FROM t; -- */\n")).2 ∧
    ∃ chunk ∈ chunks (lit "SELECT * FROM t; /* ;\nSELECT * FROM t; -- */\n"),
      (parseSqlScript chunk).1 ≠ none := by decide +kernel

/-- **Interactive mode.**  On a source that is accepted, with every statement terminated and none
failing, with short lines and no command at the start of a chunk: the session executes the statements of
the batch run, and reports no error, exactly if every chunk is accepted by itself.  It then leaves the
state of the batch run. -/
theorem runInteractive_iff (uninit : ℕ → UInt32) (dbRoot source : CString) (s : State)
    (hshort : ∀ line ∈ sourceLines source, line.length < interactiveLineMax)
    (hcommands : NoCommands true (sourceLines source)) (hterminated : StatementsTerminated source)
    (hrun : (executeSourceText uninit dbRoot source s).error = none) :
    ((runInteractive uninit dbRoot source s).executed =
          (executeSourceText uninit dbRoot source s).executed ∧
        (runInteractive uninit dbRoot source s).reported = [] ↔
      ∀ chunk ∈ chunks source, (parseSqlScript chunk).1 = none) ∧
    ((∀ chunk ∈ chunks source, (parseSqlScript chunk).1 = none) →
      (runInteractive uninit dbRoot source s).state = (executeSourceText uninit dbRoot source s).state) := by
  have haccepted := accepted_of_no_error hrun
  rw [executeSourceText_accepted uninit dbRoot haccepted] at hrun ⊢
  rw [runInteractive_eq uninit dbRoot hshort hcommands]
  have hsession : (∀ chunk ∈ chunks source, (parseSqlScript chunk).1 = none) →
      runChunks uninit dbRoot (chunks source) s =
        ⟨(executeStatements uninit dbRoot (parseSqlScript source).2 s).executed, [],
          (executeStatements uninit dbRoot (parseSqlScript source).2 s).state⟩ := by
    intro hchunks
    have heq := chunks_statements (parseSqlScript_accepted haccepted) hterminated hchunks
    rw [← heq] at hrun ⊢
    rw [runChunks_eq uninit dbRoot hrun, rejections_accepted hchunks]
  refine ⟨⟨fun ⟨_, hreported⟩ => runChunks_reported uninit dbRoot hreported, fun hchunks => ?_⟩,
    fun hchunks => ?_⟩
  · rw [hsession hchunks]
    exact ⟨rfl, rfl⟩
  · rw [hsession hchunks]

/-- The tokens of `SELECT * FROM t;`, in front of a script. -/
theorem TerminatedScript.selectAll {keyword star from_ table t : Token} {tokens : List Token}
    (hkeyword : keyword.type = .select) (hstar : star.type = .star) (hfrom : from_.type = .from_)
    (htable : table.type = .identifier) (ht : t.type = .semicolon) (h : TerminatedScript tokens) :
    TerminatedScript (keyword :: star :: from_ :: table :: t :: tokens) := by
  have hselect : SelectGrammar [star, from_, table] _ :=
    .mk (.all hstar) hfrom (.table htable) .absent
  exact .statement (.select hkeyword hselect) ht h

theorem runInteractive_iff_lines :
    (∀ line ∈ sourceLines (lit "SELECT *\nFROM t;\n"), line.length < interactiveLineMax) ∧
    NoCommands true (sourceLines (lit "SELECT *\nFROM t;\n")) ∧
    StatementsTerminated (lit "SELECT *\nFROM t;\n") ∧
    (executeSourceText (fun _ => 0) (lit "db") (lit "SELECT *\nFROM t;\n") (nameState [])).error =
      none ∧
    (runInteractive (fun _ => 0) (lit "db") (lit "SELECT *\nFROM t;\n") (nameState [])).executed =
      (executeSourceText (fun _ => 0) (lit "db") (lit "SELECT *\nFROM t;\n") (nameState [])).executed ∧
    (runInteractive (fun _ => 0) (lit "db") (lit "SELECT *\nFROM t;\n") (nameState [])).reported = [] := by
  have hshort : ∀ line ∈ sourceLines (lit "SELECT *\nFROM t;\n"),
      line.length < interactiveLineMax := by decide +kernel
  have hcommands : NoCommands true (sourceLines (lit "SELECT *\nFROM t;\n")) := by decide +kernel
  have hterminated : StatementsTerminated (lit "SELECT *\nFROM t;\n") := by
    refine ⟨[⟨.select, lit "SELECT", 1, 1⟩, ⟨.star, lit "*", 1, 8⟩,
      ⟨.from_, lit "FROM", 2, 1⟩, ⟨.identifier, lit "t", 2, 6⟩, ⟨.semicolon, lit ";", 2, 7⟩],
      ⟨.end_, CString.empty, 3, 1⟩, by decide +kernel, ?_⟩
    exact .selectAll rfl rfl rfl rfl rfl .nil
  have hrun : (executeSourceText (fun _ => 0) (lit "db") (lit "SELECT *\nFROM t;\n")
      (nameState [])).error = none := by
    have hnone : (executeSourceText (fun _ => 0) (lit "db") (lit "SELECT *\nFROM t;\n")
      (nameState [])).error.isNone = true := by decide +kernel
    exact Option.isNone_iff_eq_none.mp hnone
  exact ⟨hshort, hcommands, hterminated, hrun,
    (runInteractive_iff _ _ _ _ hshort hcommands hterminated hrun).1.mpr (by decide +kernel)⟩

/-- The second statement of a line that goes on in the next line is cut in two. -/
theorem runInteractive_cut_statement :
    ¬∀ (uninit : ℕ → UInt32) (dbRoot source : CString) (s : State),
      (∀ line ∈ sourceLines source, line.length < interactiveLineMax) →
      NoCommands true (sourceLines source) → StatementsTerminated source →
      (executeSourceText uninit dbRoot source s).error = none →
      (runInteractive uninit dbRoot source s).executed =
        (executeSourceText uninit dbRoot source s).executed := by
  intro h
  have hterminated : StatementsTerminated (lit "SELECT * FROM t; SELECT *\nFROM t;\n") := by
    refine ⟨[⟨.select, lit "SELECT", 1, 1⟩, ⟨.star, lit "*", 1, 8⟩,
      ⟨.from_, lit "FROM", 1, 10⟩, ⟨.identifier, lit "t", 1, 15⟩,
      ⟨.semicolon, lit ";", 1, 16⟩, ⟨.select, lit "SELECT", 1, 18⟩, ⟨.star, lit "*", 1, 25⟩,
      ⟨.from_, lit "FROM", 2, 1⟩, ⟨.identifier, lit "t", 2, 6⟩, ⟨.semicolon, lit ";", 2, 7⟩],
      ⟨.end_, CString.empty, 3, 1⟩, by decide +kernel, ?_⟩
    exact .selectAll rfl rfl rfl rfl rfl (.selectAll rfl rfl rfl rfl rfl .nil)
  have hnone : (executeSourceText (fun _ => 0) (lit "db")
      (lit "SELECT * FROM t; SELECT *\nFROM t;\n") (nameState [])).error.isNone = true := by
    decide +kernel
  have heq := h (fun _ => 0) (lit "db") (lit "SELECT * FROM t; SELECT *\nFROM t;\n") (nameState [])
    (by decide +kernel) (by decide +kernel) hterminated (Option.isNone_iff_eq_none.mp hnone)
  have hlengths : (runInteractive (fun _ => 0) (lit "db")
        (lit "SELECT * FROM t; SELECT *\nFROM t;\n") (nameState [])).executed.length ≠
      (executeSourceText (fun _ => 0) (lit "db")
        (lit "SELECT * FROM t; SELECT *\nFROM t;\n") (nameState [])).executed.length := by
    decide +kernel
  exact hlengths (congrArg List.length heq)

end MiniSql
