import MiniSql.CommandHistory
import MiniSql.Library.CBuffer

/-!
# The line editor of interactive mode

`read_key_event` and `read_line_with_history` of `main.c`, and the lines `run_interactive` reads with them one
after the other, each put into the history.

* `readKeyEvent` takes the bytes of a key off the terminal, and every sequence of key events can come from a
  terminal (`keyEvents_keyBytes`).
* `EditState` are the locals of `read_line_with_history`, `editKey` is one round of its loop, and
  `readLineWithHistory` the call.
* `readLines` reads one line for each prompt.

An access outside the line buffer or to an item that is not stored is `none`.

* `Editing` is what holds inside a line: `len` is the length of the line, which leaves room for a newline;
  `ItemsFit` is what holds of the history between two lines.
* `editKey_ok`: what a round leads to from inside a line.
* `readLines_safe`: no run of key events over any number of lines gets to `none`.
-/

namespace MiniSql

open CBuffer

/-! ### Key events -/

/-- `isprint`. -/
def isprint (c : UInt8) : Bool := 32 ≤ c && c ≤ 126

/-- A character the editor takes: printable, or a tab. -/
abbrev TypedByte := { c : UInt8 // isprint c || c = 9 }

/-- `KeyEvent`: the type, with `ch` where it is a character. -/
inductive KeyEvent where
  | none
  | char (ch : TypedByte)
  | enter
  | backspace
  | up
  | down
  | eof
  deriving DecidableEq

/-- `read(STDIN_FILENO, &ch, 1)`: `none` for an end of input or an error, and for good at the end. -/
def readByte : List (Option UInt8) → Option UInt8 × List (Option UInt8)
  | [] => (none, [])
  | r :: reads => (r, reads)

/-- The two bytes behind an escape character. -/
def readEscape (reads : List (Option UInt8)) : KeyEvent × List (Option UInt8) :=
  match readByte reads with
  | (none, reads) => (.none, reads)
  | (some first, reads) =>
      match readByte reads with
      | (none, reads) => (.none, reads)
      | (some second, reads) =>
          if first = 91 ∧ second = 65 then (.up, reads)
          else if first = 91 ∧ second = 66 then (.down, reads)
          else (.none, reads)

/-- `read_key_event`. -/
def readKeyEvent (reads : List (Option UInt8)) : KeyEvent × List (Option UInt8) :=
  match readByte reads with
  | (none, reads) => (.eof, reads)
  | (some ch, reads) =>
      if ch = 13 ∨ ch = 10 then (.enter, reads)
      else if ch = 127 ∨ ch = 8 then (.backspace, reads)
      else if ch = 4 then (.eof, reads)
      else if ch = 27 then readEscape reads
      else if h : isprint ch || ch = 9 then (.char ⟨ch, h⟩, reads)
      else (.none, reads)

/-- The first `n` key events of a terminal. -/
def keyEvents : ℕ → List (Option UInt8) → List KeyEvent
  | 0, _ => []
  | n + 1, reads =>
      let (ev, reads) := readKeyEvent reads
      ev :: keyEvents n reads

/-- The bytes a terminal sends for a key. -/
def keyBytes : KeyEvent → List (Option UInt8)
  | .none => [some 0]
  | .char ch => [some ch.val]
  | .enter => [some 13]
  | .backspace => [some 127]
  | .up => [some 27, some 91, some 65]
  | .down => [some 27, some 91, some 66]
  | .eof => [some 4]

/-- A character the editor takes is no control key. -/
theorem TypedByte.ne_control (ch : TypedByte) :
    ¬ (ch.val = 13 ∨ ch.val = 10) ∧ ¬ (ch.val = 127 ∨ ch.val = 8) ∧ ch.val ≠ 4 ∧ ch.val ≠ 27 := by
  have hne : ∀ b : UInt8, (isprint b || b = 9) = false → ch.val ≠ b := by
    intro b hb h
    have htyped := ch.property
    rw [h, hb] at htyped
    cases htyped
  simp [hne 13 (by decide), hne 10 (by decide), hne 127 (by decide), hne 8 (by decide),
    hne 4 (by decide), hne 27 (by decide)]

theorem readKeyEvent_keyBytes (ev : KeyEvent) (reads : List (Option UInt8)) :
    readKeyEvent (keyBytes ev ++ reads) = (ev, reads) := by
  cases ev with
  | char ch =>
    obtain ⟨henter, hback, heof, hescape⟩ := ch.ne_control
    show readKeyEvent (some ch.val :: reads) = (.char ch, reads)
    simp only [readKeyEvent, readByte, if_neg henter, if_neg hback, if_neg heof, if_neg hescape]
    exact dif_pos ch.property
  | none => rfl
  | enter => rfl
  | backspace => rfl
  | up => rfl
  | down => rfl
  | eof => rfl

/-- Every sequence of key events can come from a terminal. -/
theorem keyEvents_keyBytes (events : List KeyEvent) :
    keyEvents events.length (events.flatMap keyBytes) = events := by
  induction events with
  | nil => rfl
  | cons ev events ih =>
    rw [List.flatMap_cons, List.length_cons, keyEvents, readKeyEvent_keyBytes]
    show ev :: keyEvents events.length (events.flatMap keyBytes) = ev :: events
    rw [ih]

/-! ### One line -/

/-- The locals of `read_line_with_history`, and what it has printed. -/
structure EditState where
  line : Bytes
  len : ℕ
  previousLength : ℕ
  historyCursor : ℕ
  output : Bytes

inductive ReadLineStatus where
  | ok
  | eof
  | error (message : CString)

/-- What a round of the loop leads to. -/
inductive Round where
  | editing (st : EditState)
  | returned (status : ReadLineStatus) (st : EditState)

/-- `render_line_prompt`. -/
def renderLinePrompt (prompt : CString) (st : EditState) : Option EditState := do
  let lineLen ← strlen st.line
  let shown := 13 :: prompt.bytes ++ st.line.take lineLen
  let output := if lineLen < st.previousLength
    then shown ++ List.replicate (st.previousLength - lineLen) 32 ++ shown else shown
  some { st with previousLength := lineLen, output := st.output ++ output }

/-- The history item at the cursor, copied over the line. -/
def recallItem (prompt : CString) (lineSize : ℕ) (history : InputHistory) (st : EditState) :
    Option Round := do
  let item ← history.items[st.historyCursor]?
  let line ← strncpy st.line item.bytes (lineSize - 1)
  let line ← setByte line (lineSize - 1) 0
  let len ← strlen line
  let st ← renderLinePrompt prompt { st with line := line, len := len }
  some (.editing st)

/-- The branches for `KEY_ENTER`, and for `KEY_EOF` behind a character. -/
def acceptLine (lineSize : ℕ) (st : EditState) : Option Round :=
  let st := { st with output := st.output ++ [10] }
  if lineSize ≤ st.len + 1 then some (.returned (.error (lit "input line too long")) st)
  else do
    let line ← setByte st.line st.len 10
    let line ← setByte line (st.len + 1) 0
    some (.returned .ok { st with line := line, len := st.len + 1 })

/-- One round of the loop of `read_line_with_history`. -/
def editKey (prompt : CString) (lineSize : ℕ) (history : InputHistory) (st : EditState) :
    KeyEvent → Option Round
  | .eof =>
      if st.len = 0 then some (.returned .eof { st with output := st.output ++ [10] })
      else acceptLine lineSize st
  | .enter => acceptLine lineSize st
  | .backspace =>
      if 0 < st.len then do
        let line ← setByte st.line (st.len - 1) 0
        let st ← renderLinePrompt prompt { st with line := line, len := st.len - 1 }
        some (.editing st)
      else some (.editing st)
  | .up =>
      if 0 < st.historyCursor then
        recallItem prompt lineSize history { st with historyCursor := st.historyCursor - 1 }
      else some (.editing st)
  | .down =>
      if st.historyCursor < history.count then
        if st.historyCursor + 1 = history.count then do
          let line ← setByte st.line 0 0
          let st ← renderLinePrompt prompt
            { st with line := line, len := 0, historyCursor := st.historyCursor + 1 }
          some (.editing st)
        else recallItem prompt lineSize history { st with historyCursor := st.historyCursor + 1 }
      else some (.editing st)
  | .char ch =>
      if st.len + 2 < lineSize then do
        let line ← setByte st.line st.len ch.val
        let line ← setByte line (st.len + 1) 0
        let st ← renderLinePrompt prompt { st with line := line, len := st.len + 1 }
        some (.editing st)
      else some (.editing st)
  | .none => some (.editing st)

/-- The loop of `read_line_with_history`: where it is when the key events run out or it returns, and the
key events left. -/
def editLoop (prompt : CString) (lineSize : ℕ) (history : InputHistory) :
    EditState → List KeyEvent → Option (Round × List KeyEvent)
  | st, [] => some (.editing st, [])
  | st, ev :: events =>
      match editKey prompt lineSize history st ev with
      | none => none
      | some (.editing st) => editLoop prompt lineSize history st events
      | some (.returned status st) => some (.returned status st, events)

/-- `read_line_with_history` with the terminal in raw mode. -/
def readLineWithHistory (prompt : CString) (line : Bytes) (lineSize : ℕ) (history : InputHistory)
    (events : List KeyEvent) : Option (Round × List KeyEvent) := do
  let line ← setByte line 0 0
  let st ← renderLinePrompt prompt ⟨line, 0, 0, history.count, []⟩
  editLoop prompt lineSize history st events

/-! ### Line after line -/

/-- How a session of the editor stands: inside a line, behind all lines, or ended. -/
inductive SessionEnd where
  | editing (history : InputHistory) (st : EditState)
  | allRead (history : InputHistory)
  | eof
  | error (message : CString)

/-- `run_interactive` reads one line for each prompt and puts it into the history. -/
def readLines (lineSize : ℕ) : List CString → Bytes → InputHistory → List KeyEvent →
    Option (List CString × SessionEnd)
  | [], _, history, _ => some ([], .allRead history)
  | prompt :: prompts, line, history, events => do
      let (round, events) ← readLineWithHistory prompt line lineSize history events
      match round with
      | .editing st => some ([], .editing history st)
      | .returned .eof _ => some ([], .eof)
      | .returned (.error message) _ => some ([], .error message)
      | .returned .ok st =>
          let returned := CString.ofBuffer st.line
          match historyAdd true history returned with
          | .error message => some ([returned], .error message)
          | .ok history => do
              let (lines, last) ← readLines lineSize prompts st.line history events
              some (returned :: lines, last)

/-! ### Invariants -/

section Invariant

variable {prompt : CString} {history : InputHistory} {st : EditState} {line : Bytes}

/-- Every item fits a line that can still take its newline. -/
def ItemsFit (history : InputHistory) : Prop :=
  ∀ s ∈ history.items, s.length + 1 < interactiveLineMax

/-- The state while editing: `len` is the length of the line, which leaves room for a newline. -/
structure Editing (history : InputHistory) (st : EditState) : Prop where
  size : st.line.length = interactiveLineMax
  len_eq : strlen st.line = some st.len
  len_lt : st.len + 1 < interactiveLineMax
  cursor_le : st.historyCursor ≤ history.count

theorem strlen_holds {buffer : Bytes} {n : ℕ} (h : strlen buffer = some n) :
    ∃ text, Holds buffer text ∧ text.length = n := by
  obtain ⟨hn, hzero, hbefore⟩ := List.findIdx?_eq_some_iff_getElem.mp h
  have hget : buffer[n] = 0 := of_decide_eq_true hzero
  refine ⟨buffer.take n, ⟨fun hmem => ?_, buffer.drop (n + 1), ?_⟩, by simp; omega⟩
  · obtain ⟨i, hi, hget⟩ := List.getElem_of_mem hmem
    rw [List.length_take] at hi
    rw [List.getElem_take] at hget
    exact hbefore i (by omega) (by simpa using hget)
  · rw [← hget, List.getElem_cons_drop, List.take_append_drop]

/-- Rendering reads the line and changes nothing but what is printed. -/
theorem renderLinePrompt_ok {text : Bytes} (h : Holds st.line text) :
    ∃ st', renderLinePrompt prompt st = some st' ∧ st'.line = st.line ∧ st'.len = st.len ∧
      st'.historyCursor = st.historyCursor := by
  rw [renderLinePrompt, h.strlen]
  exact ⟨_, rfl, rfl, rfl, rfl⟩

/-- A round may show any text that leaves room for its newline. -/
theorem editing_of_render {text : Bytes} (hsize : st.line.length = interactiveLineMax)
    (hholds : Holds st.line text) (hlen : st.len = text.length)
    (hlt : text.length + 1 < interactiveLineMax) (hcursor : st.historyCursor ≤ history.count) :
    ∃ st', renderLinePrompt prompt st = some st' ∧ Editing history st' := by
  obtain ⟨st', hrender, hline, hlen', hcursor'⟩ := @renderLinePrompt_ok prompt st text hholds
  refine ⟨st', hrender, ?_, ?_, ?_, ?_⟩
  · rw [hline, hsize]
  · rw [hline, hholds.strlen, hlen', hlen]
  · rw [hlen', hlen]
    exact hlt
  · rw [hcursor']
    exact hcursor

/-! ### One round -/

/-- A recalled item fits, as every item does. -/
theorem recallItem_editing (hitems : ItemsFit history) (hsize : st.line.length = interactiveLineMax)
    (hcursor : st.historyCursor < history.count) :
    ∃ st', recallItem prompt interactiveLineMax history st = some (.editing st') ∧
      Editing history st' := by
  have hitem : history.items[st.historyCursor]? = some history.items[st.historyCursor] :=
    List.getElem?_eq_getElem hcursor
  have hfit := hitems _ (List.getElem_mem hcursor)
  generalize history.items[st.historyCursor] = item at hitem hfit
  obtain ⟨mid, line', hcopy, hzero, hlength, hholds⟩ :=
    @Holds.strncpy st.line item.bytes (interactiveLineMax - 1) item.nul_free
      (by simp only [CString.length] at hfit; omega) (by rw [hsize]; decide)
  obtain ⟨st', hrender, hediting⟩ :=
    @editing_of_render prompt history { st with line := line', len := item.bytes.length } item.bytes
      (hlength.trans hsize) hholds rfl hfit hcursor.le
  refine ⟨st', ?_, hediting⟩
  simp [recallItem, hitem, hcopy, hzero, hholds.strlen, hrender]

/-- An accepted line is the text with a newline, and fits the buffer. -/
theorem acceptLine_ok (hediting : Editing history st) :
    ∃ st' text, acceptLine interactiveLineMax st = some (.returned .ok st') ∧
      st'.line.length = interactiveLineMax ∧ Holds st'.line (text ++ [10]) ∧
      text.length + 1 < interactiveLineMax := by
  obtain ⟨text, hholds, hlen⟩ := strlen_holds hediting.len_eq
  have hlt := hediting.len_lt
  have hsize := hediting.size
  obtain ⟨mid, line', hnewline, hzero, hlength, hholds'⟩ :=
    @Holds.type st.line text 10 hholds (by omega) (by decide)
  rw [hlen] at hnewline hzero
  refine ⟨{ st with output := st.output ++ [10], line := line', len := st.len + 1 }, text, ?_,
    hlength.trans hsize, hholds', by omega⟩
  have hroom : ¬ interactiveLineMax ≤ st.len + 1 := by omega
  simp [acceptLine, hroom, hnewline, hzero]

/-- What a round leads to from inside a line: inside the line again, the line with its newline, or the end
of the input at an empty line. -/
theorem editKey_ok (hitems : ItemsFit history) (hediting : Editing history st) (ev : KeyEvent) :
    (∃ st', editKey prompt interactiveLineMax history st ev = some (.editing st') ∧
      Editing history st') ∨
    (∃ st' text, editKey prompt interactiveLineMax history st ev = some (.returned .ok st') ∧
      st'.line.length = interactiveLineMax ∧ Holds st'.line (text ++ [10]) ∧
      text.length + 1 < interactiveLineMax) ∨
    (ev = .eof ∧ ∃ st', editKey prompt interactiveLineMax history st ev =
      some (.returned .eof st')) := by
  obtain ⟨text, hholds, hlen⟩ := strlen_holds hediting.len_eq
  have hlt := hediting.len_lt
  have hsize := hediting.size
  have hcursor := hediting.cursor_le
  cases ev with
  | none => exact Or.inl ⟨st, rfl, hediting⟩
  | enter => exact Or.inr (Or.inl (acceptLine_ok hediting))
  | eof =>
    by_cases hempty : st.len = 0
    · exact Or.inr (Or.inr ⟨rfl, _, by rw [editKey, if_pos hempty]⟩)
    · rw [editKey, if_neg hempty]
      exact Or.inr (Or.inl (acceptLine_ok hediting))
  | char ch =>
    left
    by_cases hroom : st.len + 2 < interactiveLineMax
    · have hch : ch.val ≠ 0 := by
        intro h
        have htyped := ch.property
        rw [h] at htyped
        exact absurd htyped (by decide)
      obtain ⟨mid, line', hchar, hzero, hlength, hholds'⟩ := hholds.type (by omega) hch
      rw [hlen] at hchar hzero
      obtain ⟨st', hrender, hediting'⟩ :=
        @editing_of_render prompt history { st with line := line', len := st.len + 1 }
          (text ++ [ch.val]) (hlength.trans hsize) hholds' (by simp [hlen]) (by simp; omega) hcursor
      refine ⟨st', ?_, hediting'⟩
      simp [editKey, hroom, hchar, hzero, hrender]
    · exact ⟨st, by rw [editKey, if_neg hroom], hediting⟩
  | backspace =>
    left
    by_cases hpos : 0 < st.len
    · obtain ⟨text', c, rfl⟩ : ∃ text' c, text = text' ++ [c] := by
        cases text using List.reverseRecOn with
        | nil => simp at hlen; omega
        | append_singleton text' c => exact ⟨text', c, rfl⟩
      have hlen' : st.len - 1 = text'.length := by
        rw [← hlen, List.length_append, List.length_singleton]
        omega
      obtain ⟨line', hzero, hlength, hholds'⟩ := hholds.backspace
      obtain ⟨st', hrender, hediting'⟩ :=
        @editing_of_render prompt history { st with line := line', len := st.len - 1 }
          text' (hlength.trans hsize) hholds' hlen' (by omega) hcursor
      refine ⟨st', ?_, hediting'⟩
      rw [← hlen'] at hzero
      simp [editKey, hpos, hzero, hrender]
    · exact ⟨st, by rw [editKey, if_neg hpos], hediting⟩
  | up =>
    left
    by_cases hpos : 0 < st.historyCursor
    · rw [editKey, if_pos hpos]
      exact recallItem_editing hitems hsize (by simp only; omega)
    · exact ⟨st, by rw [editKey, if_neg hpos], hediting⟩
  | down =>
    left
    by_cases hmore : st.historyCursor < history.count
    · by_cases hend : st.historyCursor + 1 = history.count
      · obtain ⟨line', hzero, hlength, hholds'⟩ := setByte_empty (by rw [hsize]; decide)
        obtain ⟨st', hrender, hediting'⟩ :=
          @editing_of_render prompt history
            { st with line := line', len := 0, historyCursor := st.historyCursor + 1 }
            [] (hlength.trans hsize) hholds' rfl (by decide) hend.le
        refine ⟨st', ?_, hediting'⟩
        simp only [editKey, if_pos hmore, if_pos hend, hzero, Option.bind_eq_bind, Option.bind_some,
          hrender]
      · rw [editKey, if_pos hmore, if_neg hend]
        exact recallItem_editing hitems hsize (by simp only; omega)
    · exact ⟨st, by rw [editKey, if_neg hmore], hediting⟩

/-! ### One call -/

/-- What a call leads to: it waits for a key, returns a line that fits, or met the end of the input. -/
def CallSafe (history : InputHistory) (events : List KeyEvent) : Round → Prop
  | .editing st => Editing history st
  | .returned .ok st => st.line.length = interactiveLineMax ∧
      ∃ text, Holds st.line (text ++ [10]) ∧ text.length + 1 < interactiveLineMax
  | .returned .eof _ => .eof ∈ events
  | .returned (.error _) _ => False

theorem editLoop_ok (hitems : ItemsFit history) (hediting : Editing history st)
    (events : List KeyEvent) :
    ∃ round rest, editLoop prompt interactiveLineMax history st events = some (round, rest) ∧
      CallSafe history events round ∧ rest <:+ events := by
  induction events generalizing st with
  | nil => exact ⟨_, _, rfl, hediting, List.suffix_refl _⟩
  | cons ev events ih =>
    rcases @editKey_ok prompt history st hitems hediting ev with
      ⟨st', hkey, hediting'⟩ | ⟨st', text, hkey, hsize, hholds, hlt⟩ | ⟨rfl, st', hkey⟩
    · obtain ⟨round, rest, hloop, hsafe, hrest⟩ := ih hediting'
      refine ⟨round, rest, by rw [editLoop, hkey]; exact hloop, ?_, hrest.trans (List.suffix_cons _ _)⟩
      cases round with
      | editing st' => exact hsafe
      | returned status st' =>
        cases status with
        | ok => exact hsafe
        | eof => exact List.mem_cons_of_mem _ hsafe
        | error message => exact hsafe
    · refine ⟨.returned .ok st', events, by rw [editLoop, hkey], ?_, List.suffix_cons _ _⟩
      exact ⟨hsize, text, hholds, hlt⟩
    · refine ⟨.returned .eof st', events, by rw [editLoop, hkey], ?_, List.suffix_cons _ _⟩
      exact List.mem_cons_self

theorem readLineWithHistory_ok (hitems : ItemsFit history) (hsize : line.length = interactiveLineMax)
    (events : List KeyEvent) :
    ∃ round rest, readLineWithHistory prompt line interactiveLineMax history events =
        some (round, rest) ∧ CallSafe history events round ∧ rest <:+ events := by
  obtain ⟨line', hzero, hlength, hholds⟩ := setByte_empty (by rw [hsize]; decide)
  obtain ⟨st, hrender, hediting⟩ :=
    @editing_of_render prompt history ⟨line', 0, 0, history.count, []⟩ [] (hlength.trans hsize)
      hholds rfl (by decide) le_rfl
  obtain ⟨round, rest, hloop, hsafe⟩ := @editLoop_ok prompt history st hitems hediting events
  refine ⟨round, rest, ?_, hsafe⟩
  rw [readLineWithHistory, hzero, Option.bind_eq_bind, Option.bind_some, hrender]
  exact hloop

/-! ### The history of returned lines -/

theorem takeWhile_newline_length (text : Bytes) :
    ((text ++ [10]).takeWhile fun c => !isLineEnd c).length ≤ text.length := by
  induction text with
  | nil => decide
  | cons c text ih =>
    rw [List.cons_append, List.takeWhile_cons]
    split
    · simpa using ih
    · simp

/-- A returned line leaves its text in the history, which fits a line again. -/
theorem ItemsFit.add {history' : InputHistory} {text : Bytes} {returned : CString}
    (hitems : ItemsFit history) (hreturned : returned.bytes = text ++ [10])
    (hlt : text.length + 1 < interactiveLineMax)
    (hadd : historyAdd true history returned = .ok history') : ItemsFit history' := by
  have hshort : (normalized returned).length ≤ text.length := by
    show (normalizeFrom returned.bytes 0).length ≤ text.length
    rw [normalizeFrom_eq, hreturned, List.length_take]
    exact (min_le_right _ _).trans (takeWhile_newline_length text)
  obtain ⟨history'', hadd', hitems'⟩ := historyAdd_ok history returned
  obtain rfl := Except.ok.inj (hadd.symm.trans hadd')
  intro s hs
  rw [hitems'] at hs
  split at hs
  · exact hitems s hs
  · rw [RecentEntries.push] at hs
    split at hs
    · exact hitems s hs
    · have hmem := (RecentEntries.rtake_suffix _ _).subset hs
      rcases List.mem_append.mp hmem with hold | hnew
      · exact hitems s hold
      · obtain rfl := List.mem_singleton.mp hnew
        omega

/-! ### Runs -/

/-- How a session may stand: it never ends by an error, and only ends at a `KEY_EOF`. -/
def SessionEnd.Safe (events : List KeyEvent) : SessionEnd → Prop
  | .editing history st => Editing history st
  | .allRead _ => True
  | .eof => .eof ∈ events
  | .error _ => False

theorem readLines_ok (prompts : List CString) (hitems : ItemsFit history)
    (hsize : line.length = interactiveLineMax) (events : List KeyEvent) :
    ∃ lines last, readLines interactiveLineMax prompts line history events = some (lines, last) ∧
      (∀ s ∈ lines, s.length + 1 ≤ interactiveLineMax ∧ s.bytes.getLast? = some 10) ∧
      last.Safe events := by
  induction prompts generalizing line history events with
  | nil => exact ⟨[], .allRead history, rfl, by simp, trivial⟩
  | cons prompt prompts ih =>
    obtain ⟨round, rest, hread, hsafe, hrest⟩ :=
      @readLineWithHistory_ok prompt history line hitems hsize events
    cases round with
    | editing st =>
      exact ⟨[], .editing history st, by rw [readLines, hread]; rfl, by simp, hsafe⟩
    | returned status st =>
      cases status with
      | eof => exact ⟨[], .eof, by rw [readLines, hread]; rfl, by simp, hsafe⟩
      | error message => exact hsafe.elim
      | ok =>
        obtain ⟨hsize', text, hholds, hlt⟩ := hsafe
        have hbytes : (CString.ofBuffer st.line).bytes = text ++ [10] := hholds.takeWhile
        obtain ⟨history', hadd, -⟩ := historyAdd_ok history (CString.ofBuffer st.line)
        obtain ⟨lines, last, hlines, hfit, hlast⟩ := ih (hitems.add hbytes hlt hadd) hsize' rest
        refine ⟨CString.ofBuffer st.line :: lines, last, ?_, ?_, ?_⟩
        · rw [readLines, hread]
          simp only [Option.bind_eq_bind, Option.bind_some, hadd, hlines]
        · intro s hs
          rcases List.mem_cons.mp hs with rfl | hs
          · rw [CString.length, hbytes]
            refine ⟨?_, by simp⟩
            rw [List.length_append, List.length_singleton]
            omega
          · exact hfit s hs
        · cases last with
          | editing history st => exact hlast
          | allRead history => trivial
          | eof => exact hrest.subset hlast
          | error message => exact hlast

end Invariant

/-- From an empty history and any line buffer, no run of key events over any number of lines leaves the
buffer or the stored items, and none ends in an error. -/
theorem readLines_safe (prompts : List CString) (line : Bytes)
    (hsize : line.length = interactiveLineMax) (events : List KeyEvent) :
    ∃ lines last, readLines interactiveLineMax prompts line historyInit events =
        some (lines, last) ∧
      (∀ s ∈ lines, s.length + 1 ≤ interactiveLineMax ∧ s.bytes.getLast? = some 10) ∧
      last.Safe events := by
  have hitems : ItemsFit historyInit := fun s hs => absurd hs List.not_mem_nil
  exact readLines_ok prompts hitems hsize events

theorem readLines_safe_semicolon :
    (List.replicate 2048 (0 : UInt8)).length = interactiveLineMax ∧
    ∃ lines last, readLines interactiveLineMax [lit "mini_sql> "] (List.replicate 2048 0) historyInit
        [.char ⟨59, by decide⟩, .up, .enter] = some (lines, last) ∧
      (∀ s ∈ lines, s.length + 1 ≤ interactiveLineMax ∧ s.bytes.getLast? = some 10) ∧
      last.Safe [.char ⟨59, by decide⟩, .up, .enter] :=
  ⟨List.length_replicate, readLines_safe [lit "mini_sql> "] (List.replicate 2048 0)
    List.length_replicate [.char ⟨59, by decide⟩, .up, .enter]⟩

end MiniSql
