import MiniSql.CommandLine
import MiniSql.ErrorHints
import MiniSql.ResultPrinting

/-!
# The main program

`main`, `execute_source_text` and `run_interactive` of `main.c` with what they write to `stdout` and `stderr`
and the exit code.  Standard input is a file or a pipe.

* `Output` is what is seen of a process: both streams and the exit code.
* `Environment` is what a process finds besides its arguments and its input: `MINI_SQL_BENCH_TIMING`, the time
  each statement takes, and the files that can be opened but not read to their end.
* `readTextFile` and `readStreamText` read the source text, with the errors of a file that is missing or fails
  under the hand.  Memory is never refused.
* `printOutcome` is what a statement prints, with the line for its time if it is asked for.
* `mainWith` is `main` over any way to run a source text (`TextRunner`), and `executeSource` is the way of
  `execute_source_text`.

Two programs that run source texts alike (`Simulates`) behave alike as processes, in batch mode and in a
session: `Simulates.interactive`, `Simulates.source` and `Simulates.mainWith`.
-/

namespace MiniSql

/-! ### Effects -/

/-- What a run of a source text prints, the text in the error buffer if it fails, and the state. -/
structure TextEffect (σ : Type*) where
  stdout : Bytes
  error : Option CString
  state : σ

/-- What is seen of a process. -/
structure Output where
  exitCode : ℕ
  stdout : Bytes
  stderr : Bytes
  deriving DecidableEq

/-- The output of a process and the state it leaves. -/
structure ProcessRun (σ : Type*) where
  output : Output
  state : σ

/-- A process that has written something before. -/
def ProcessRun.behind {σ : Type*} (stdout stderr : Bytes) (run : ProcessRun σ) : ProcessRun σ :=
  ⟨⟨run.output.exitCode, stdout ++ run.output.stdout, stderr ++ run.output.stderr⟩, run.state⟩

/-- How a program runs a source text on a database root; `none` is a fault. -/
abbrev TextRunner (σ : Type*) := CString → CString → σ → Option (TextEffect σ)

/-! ### The environment -/

/-- What a process finds: `MINI_SQL_BENCH_TIMING`, the milliseconds between the two looks at the clock for
each statement of each text, and the paths that `fopen` opens and that cannot be read to the end, such as
directories. -/
structure Environment where
  benchTiming : Option CString
  elapsed : ℕ → ℕ → ℤ
  readFault : CString → Option ReadFault

/-- No times are asked for, and all that can be opened can be read. -/
def Environment.plain : Environment := ⟨none, fun _ _ => 0, fun _ => none⟩

/-- `emit_timing`: the variable is set, not empty and not `0`. -/
def Environment.emitTiming (env : Environment) : Bool :=
  match env.benchTiming with
  | none => false
  | some value => value.bytes ≠ [] ∧ value.bytes ≠ (lit "0").bytes

/-- The line with the time of a statement. -/
def timingLine (ms : ℤ) : Bytes := (lit "__BENCH_STMT_MS__=").bytes ++ intBytes ms ++ [10]

/-- What is printed about the time of each statement of a text. -/
def Environment.times (env : Environment) (text statement : ℕ) : Bytes :=
  if env.emitTiming then timingLine (env.elapsed text statement) else []

/-- Nothing is printed about the times. -/
def noTimes : ℕ → Bytes := fun _ => []

theorem Environment.plain_times (text : ℕ) : Environment.plain.times text = noTimes := rfl

/-! ### `execute_source_text` -/

/-- The line behind a SELECT without rows. -/
def emptyNotice : Bytes :=
  (lit "안내: 조회 결과가 0건입니다. 조건값(특히 id 범위) 또는 데이터 존재 여부를 확인해 주세요.\n").bytes

/-- What is printed for the outcome of a statement, with its time; `none` is a fault. -/
def printOutcome (time : Bytes) : Outcome → Option Bytes
  | .inserted (.ok result) => (printExecutionResult true (.insert result)).map fun text => text ++ time
  | .inserted (.error _) => some []
  | .selected (.ok result) =>
      (printExecutionResult true (.select result)).map fun text =>
        text ++ time ++ if result.rows.length = 0 then emptyNotice else []
  | .selected (.error _) => some []
  | .selected .fault => none

def printOutcomes (times : ℕ → Bytes) : List (Statement × Outcome) → Option Bytes
  | [] => some []
  | e :: rest =>
      (printOutcome (times 0) e.2).bind fun text =>
        (printOutcomes (fun n => times (n + 1)) rest).map fun more => text ++ more

/-- The statements of a source text that were executed, and the error at the end, as seen from outside. -/
def textEffect {σ : Type*} (times : ℕ → Bytes) (executed : List (Statement × Outcome))
    (error : Option RunError) (state : σ) : Option (TextEffect σ) :=
  (printOutcomes times executed).map fun text =>
    ⟨text, (error.bind RunError.message).map errorBuffer, state⟩

/-- `execute_source_text` with its output. -/
def executeSource (times : ℕ → Bytes) (uninit : ℕ → UInt32) : TextRunner State := fun dbRoot source s =>
  let run := executeSourceText uninit dbRoot source s
  textEffect times run.executed run.error run.state

/-! ### Texts of `main.c` -/

def puts (s : CString) : Bytes := s.bytes ++ [10]

/-- `print_usage`. -/
def printUsage : Bytes :=
  [lit "Usage:",
    lit "  mini_sql <db_root> <sql_file>",
    lit "  mini_sql -d <db_root> -f <sql_file>",
    lit "  mini_sql --db <db_root> --file <sql_file>",
    lit "  mini_sql -d <db_root> -i",
    lit "  mini_sql --db <db_root> --interactive",
    lit "  mini_sql <db_root>",
    lit "  mini_sql <db_root> < input.sql",
    lit "",
    lit "Options:",
    lit "  -d, --db <path>         Database root directory",
    lit "  -f, --file <path>       SQL file to execute",
    lit "  -i, --interactive       Force interactive mode",
    lit "  -h, --help              Show this help message"].flatMap puts

def interactiveBanner : Bytes :=
  [lit "Mini SQL interactive mode",
    lit "Type SQL and end each statement with ';'",
    lit "Type 'exit' or 'quit' to leave."].flatMap puts

def interactiveHelp : Bytes :=
  [lit "Interactive commands:",
    lit "  help          Show this message",
    lit "  exit | quit   Leave interactive mode",
    lit "Tip: end SQL with ';' to execute."].flatMap puts

/-! ### Reading -/

/-- `read_text_file`. -/
def readTextFile (openFile : CString → Option Bytes) (readFault : CString → Option ReadFault)
    (path : CString) : Except CString CString :=
  match readFault path with
  | some fault => .error (errorBuffer (fault.message path))
  | none =>
      match openFile path with
      | none => .error (errorBuffer (lit "failed to open file: " ++ path))
      | some content => .ok (CString.ofBuffer content)

/-- `read_stream_text` for a stream without read errors; memory is never refused. -/
def readStreamText (stdin : Bytes) : Except CString CString :=
  if stdin.length = 0 then .error (lit "no SQL input provided") else .ok (CString.ofBuffer stdin)

theorem readTextFile_congr {openFile openFile' : CString → Option Bytes} {path : CString}
    (readFault : CString → Option ReadFault) (h : openFile path = openFile' path) :
    readTextFile openFile readFault path = readTextFile openFile' readFault path := by
  rw [readTextFile, readTextFile, h]

theorem readTextFile_length {openFile : CString → Option Bytes} {readFault : CString → Option ReadFault}
    {path text : CString} (h : readTextFile openFile readFault path = .ok text) :
    text.length ≤ ((openFile path).getD []).length := by
  rw [readTextFile] at h
  split at h
  · cases h
  · split at h
    · cases h
    · rename_i content hcontent
      obtain rfl := Except.ok.inj h
      rw [hcontent]
      exact CString.length_ofBuffer_le content

theorem readStreamText_length {stdin : Bytes} {text : CString} (h : readStreamText stdin = .ok text) :
    text.length ≤ stdin.length := by
  rw [readStreamText] at h
  split at h
  · cases h
  · obtain rfl := Except.ok.inj h
    exact CString.length_ofBuffer_le stdin

/-! ### The processes of a way to run source texts -/

section Processes

variable {σ : Type*} (run : ℕ → TextRunner σ)

/-- The loop of `run_interactive` on the lines it reads with `fgets`, with its output.  `text` is the number
of texts that the process has run. -/
def interactiveWith (dbRoot : CString) :
    List CString → InputHistory → CString → ℕ → σ → Option (ProcessRun σ)
  | [], _, _, _, s => some ⟨⟨0, [], []⟩, s⟩
  | line :: lines, history, buffer, text, s =>
      match historyAdd true history line with
      | .error message => some ⟨⟨1, [], printErrorKo (lit "오류") message false⟩, s⟩
      | .ok history =>
          if buffer.length = 0 ∧ isExitCommand line then some ⟨⟨0, [], []⟩, s⟩
          else if buffer.length = 0 ∧ isHelpCommand line then
            (interactiveWith dbRoot lines history buffer text s).map
              (ProcessRun.behind interactiveHelp [])
          else if 59 ∉ line.bytes then interactiveWith dbRoot lines history (buffer ++ line) text s
          else
            (run text dbRoot (buffer ++ line) s).bind fun effect =>
              let complaint := effect.error.map fun error => printErrorKo (lit "오류") error true
              (interactiveWith dbRoot lines history CString.empty (text + 1) effect.state).map
                (ProcessRun.behind effect.stdout (complaint.getD []))

/-- `main` behind the reading of the source text. -/
def runSource (dbRoot : CString) (label : CString) (source : Except CString CString) (s : σ) :
    Option (ProcessRun σ) :=
  match source with
  | .error error => some ⟨⟨1, [], printErrorKo label error false⟩, s⟩
  | .ok source =>
      (run 0 dbRoot source s).map fun effect =>
        match effect.error with
        | some error => ⟨⟨1, effect.stdout, printErrorKo (lit "실행 오류") error false⟩, effect.state⟩
        | none => ⟨⟨0, effect.stdout, []⟩, effect.state⟩

/-- `main`.  A database root is missing only where `parse_cli_options` fails. -/
def mainWith (openFile : CString → Option Bytes) (readFault : CString → Option ReadFault)
    (argv : List CString) (stdin : Bytes) (s : σ) : Option (ProcessRun σ) :=
  let outcome := parseCliOptions argv
  match outcome.result, outcome.options.dbRoot with
  | .help, _ => some ⟨⟨0, printUsage, []⟩, s⟩
  | .error, _ =>
      let error := (outcome.error.map fun e => errorBuffer e.message).getD CString.empty
      some ⟨⟨2, printUsage, printErrorKo (lit "사용법 오류") error false ++ [10]⟩, s⟩
  | .ok, none => none
  | .ok, some dbRoot =>
      if outcome.options.interactiveRequested then
        (interactiveWith run dbRoot (readLinesFrom stdin.length stdin) historyInit CString.empty 0 s).map
          (ProcessRun.behind interactiveBanner [])
      else
        match outcome.options.sqlFile with
        | some path => runSource run dbRoot (lit "파일 오류") (readTextFile openFile readFault path) s
        | none => runSource run dbRoot (lit "입력 오류") (readStreamText stdin) s

end Processes

theorem executeSource_state {times : ℕ → Bytes} {uninit : ℕ → UInt32} {dbRoot source : CString}
    {s : State} {effect : TextEffect State} (h : executeSource times uninit dbRoot source s = some effect) :
    effect.state = (executeSourceText uninit dbRoot source s).state := by
  obtain ⟨text, -, rfl⟩ := Option.map_eq_some_iff.mp h
  rfl

/-- A session that does not fault leaves the state that `interactiveLoop` describes. -/
theorem interactiveWith_session (env : Environment) (uninit : ℕ → UInt32) (dbRoot : CString)
    {lines : List CString} {history : InputHistory} {buffer : CString} {text : ℕ} {s : State}
    {run : ProcessRun State}
    (h : interactiveWith (fun n => executeSource (env.times n) uninit) dbRoot lines history buffer text s =
      some run) :
    run.output.exitCode = 0 ∧
      run.state = (interactiveLoop uninit dbRoot lines history buffer s).state := by
  induction lines generalizing history buffer text s run with
  | nil =>
    obtain rfl := Option.some.inj h
    exact ⟨rfl, rfl⟩
  | cons line lines ih =>
    obtain ⟨history', hhistory, -⟩ := historyAdd_ok history line
    rw [interactiveWith, hhistory] at h
    rw [interactiveLoop, hhistory]
    dsimp only at h ⊢
    by_cases hexit : buffer.length = 0 ∧ isExitCommand line
    · rw [if_pos hexit] at h ⊢
      obtain rfl := Option.some.inj h
      exact ⟨rfl, rfl⟩
    rw [if_neg hexit] at h ⊢
    by_cases hhelp : buffer.length = 0 ∧ isHelpCommand line
    · rw [if_pos hhelp] at h ⊢
      obtain ⟨rest, hrest, rfl⟩ := Option.map_eq_some_iff.mp h
      obtain ⟨hcode, hstate⟩ := ih hrest
      exact ⟨hcode, hstate⟩
    rw [if_neg hhelp] at h ⊢
    by_cases hmore : 59 ∉ line.bytes
    · rw [if_pos hmore] at h ⊢
      exact ih h
    · rw [if_neg hmore] at h ⊢
      obtain ⟨effect, heffect, h⟩ := Option.bind_eq_some_iff.mp h
      obtain ⟨rest, hrest, rfl⟩ := Option.map_eq_some_iff.mp h
      rw [executeSource_state heffect] at hrest
      obtain ⟨hcode, hstate⟩ := ih hrest
      exact ⟨hcode, hstate⟩

/-! ### Programs that run source texts alike -/

/-- Both runs print the same and end with the same error, in related states. -/
inductive SameEffect {σ τ : Type*} (R : σ → τ → Prop) :
    Option (TextEffect σ) → Option (TextEffect τ) → Prop
  | mk {stdout : Bytes} {error : Option CString} {s : σ} {t : τ} : R s t →
      SameEffect R (some ⟨stdout, error, s⟩) (some ⟨stdout, error, t⟩)

/-- Both processes write the same and exit alike, in related states. -/
inductive SameProcess {σ τ : Type*} (R : σ → τ → Prop) :
    Option (ProcessRun σ) → Option (ProcessRun τ) → Prop
  | mk {output : Output} {s : σ} {t : τ} : R s t →
      SameProcess R (some ⟨output, s⟩) (some ⟨output, t⟩)

/-- The bytes of some lines. -/
def lineBytes (lines : List CString) : ℕ := (lines.map CString.length).sum

@[simp] theorem lineBytes_cons (line : CString) (lines : List CString) :
    lineBytes (line :: lines) = line.length + lineBytes lines := by
  simp [lineBytes]

theorem readLinesFrom_bytes (fuel : ℕ) (stream : Bytes) :
    lineBytes (readLinesFrom fuel stream) ≤ stream.length := by
  induction fuel generalizing stream with
  | zero => exact Nat.zero_le _
  | succ fuel ih =>
    cases stream with
    | nil => exact le_refl _
    | cons c rest =>
      rw [readLinesFrom, fgets]
      · generalize lineLength (interactiveLineMax - 1) (c :: rest) = n
        have hline : (CString.ofBuffer ((c :: rest).take n)).length ≤ ((c :: rest).take n).length :=
          CString.length_ofBuffer_le _
        have hrest := ih ((c :: rest).drop n)
        have hsum := congrArg List.length (List.take_append_drop n (c :: rest))
        rw [List.length_append] at hsum
        dsimp only
        rw [lineBytes_cons]
        omega
      · exact List.cons_ne_nil c rest

section Simulation

variable {σ τ : Type*} {R : σ → τ → Prop}

theorem SameProcess.imp {R' : σ → τ → Prop} {a : Option (ProcessRun σ)} {b : Option (ProcessRun τ)}
    (h : SameProcess R a b) (hR : ∀ s t, R s t → R' s t) : SameProcess R' a b := by
  cases h with
  | mk hstate => exact .mk (hR _ _ hstate)

theorem SameProcess.of_right {a : Option (ProcessRun σ)} {output : Output} {t : τ}
    (h : SameProcess R a (some ⟨output, t⟩)) : ∃ s, a = some ⟨output, s⟩ ∧ R s t := by
  cases h with
  | mk hstate => exact ⟨_, rfl, hstate⟩

theorem SameProcess.behind {a : Option (ProcessRun σ)} {b : Option (ProcessRun τ)}
    (h : SameProcess R a b) (stdout stderr : Bytes) :
    SameProcess R (a.map (ProcessRun.behind stdout stderr)) (b.map (ProcessRun.behind stdout stderr)) := by
  cases h with
  | mk hstate => exact .mk hstate

/-- Both programs run every source text of at most `limit` bytes alike.  A number goes with the states that a
text may use up, at most one for each byte. -/
structure Simulates (run : TextRunner σ) (run' : TextRunner τ) (dbRoot : CString) (limit : ℕ)
    (R : ℕ → σ → τ → Prop) : Prop where
  mono : ∀ {m n : ℕ} {s : σ} {t : τ}, m ≤ n → R n s t → R m s t
  text : ∀ {source : CString} {n : ℕ} {s : σ} {t : τ}, source.length ≤ limit →
    R (n + source.length) s t → SameEffect (R n) (run dbRoot source s) (run' dbRoot source t)

variable {runs : ℕ → TextRunner σ} {runs' : ℕ → TextRunner τ} {dbRoot : CString} {limit : ℕ}
  {R : ℕ → σ → τ → Prop}

/-- A session, whatever is in the buffer. -/
theorem Simulates.interactive (h : ∀ k, Simulates (runs k) (runs' k) dbRoot limit R)
    {lines : List CString} {history : InputHistory} {buffer : CString} {text n : ℕ} {s : σ} {t : τ}
    (hlimit : buffer.length + lineBytes lines ≤ limit)
    (hstate : R (n + (buffer.length + lineBytes lines)) s t) :
    SameProcess (R n) (interactiveWith runs dbRoot lines history buffer text s)
      (interactiveWith runs' dbRoot lines history buffer text t) := by
  induction lines generalizing history buffer text s t with
  | nil => exact .mk ((h 0).mono (Nat.le_add_right _ _) hstate)
  | cons line lines ih =>
    obtain ⟨history', hhistory, -⟩ := historyAdd_ok history line
    rw [lineBytes_cons] at hlimit hstate
    have hjoin : (buffer ++ line).length = buffer.length + line.length := by
      simp [CString.length]
    rw [interactiveWith, interactiveWith, hhistory]
    dsimp only
    split
    · exact .mk ((h 0).mono (Nat.le_add_right _ _) hstate)
    split
    · exact (ih (by omega) ((h 0).mono (by omega) hstate)).behind _ _
    split
    · exact ih (by omega) ((h 0).mono (by omega) hstate)
    · -- the buffer with the line is run and forgotten
      have htext : R (n + lineBytes lines + (buffer ++ line).length) s t :=
        (h 0).mono (by omega) hstate
      have hempty : CString.empty.length = 0 := rfl
      have heffect := (h text).text (by omega) htext
      generalize runs text dbRoot (buffer ++ line) s = effect at heffect ⊢
      generalize runs' text dbRoot (buffer ++ line) t = effect' at heffect ⊢
      cases heffect with
      | mk hnext => exact (ih (by omega) (by rwa [hempty, Nat.zero_add])).behind _ _

/-- `main` behind the reading of the source text. -/
theorem Simulates.source (h : Simulates (runs 0) (runs' 0) dbRoot limit R) {label : CString}
    {source : Except CString CString} {n : ℕ} {s : σ} {t : τ} {size : ℕ}
    (hsource : ∀ text, source = .ok text → text.length ≤ size) (hlimit : size ≤ limit)
    (hstate : R (n + size) s t) :
    SameProcess (R n) (runSource runs dbRoot label source s) (runSource runs' dbRoot label source t) := by
  cases source with
  | error e => exact .mk (h.mono (Nat.le_add_right _ _) hstate)
  | ok text =>
    have hsize := hsource text rfl
    have htext : R (n + text.length) s t := h.mono (by omega) hstate
    have heffect := h.text (hsize.trans hlimit) htext
    rw [runSource, runSource]
    generalize runs 0 dbRoot text s = effect at heffect ⊢
    generalize runs' 0 dbRoot text t = effect' at heffect ⊢
    cases heffect with
    | @mk _ error _ _ hnext =>
      cases error with
      | none => exact .mk hnext
      | some e => exact .mk hnext

/-- The text that a process reads: its SQL file or its standard input. -/
def inputOf (openFile : CString → Option Bytes) (argv : List CString) (stdin : Bytes) : Bytes :=
  match (parseCliOptions argv).options.sqlFile with
  | some path => (openFile path).getD []
  | none => stdin

/-- **Processes.**  Programs that run source texts alike are alike as processes. -/
theorem Simulates.mainWith (h : ∀ k, Simulates (runs k) (runs' k) dbRoot limit R)
    {openFile openFile' : CString → Option Bytes} (readFault : CString → Option ReadFault)
    {argv : List CString} {stdin : Bytes} {n : ℕ} {s : σ} {t : τ}
    (hroot : (parseCliOptions argv).result = .ok → (parseCliOptions argv).options.dbRoot = some dbRoot)
    (hfile : ∀ path ∈ (parseCliOptions argv).options.sqlFile, openFile path = openFile' path)
    (hlimit : (inputOf openFile argv stdin).length ≤ limit)
    (hstate : R (n + (inputOf openFile argv stdin).length) s t) :
    SameProcess (R n) (mainWith runs openFile readFault argv stdin s)
      (mainWith runs' openFile' readFault argv stdin t) := by
  have hrest : R n s t := (h 0).mono (Nat.le_add_right _ _) hstate
  unfold MiniSql.mainWith
  dsimp only
  cases hresult : (parseCliOptions argv).result with
  | help => exact .mk hrest
  | error => exact .mk hrest
  | ok =>
    have haccepted : (parseCliOptions (CString.empty :: argv.tail)).result = .ok := hresult
    have hinteractive := (parseCliOptions_ok haccepted).2
    rw [hroot hresult]
    dsimp only
    split
    · rename_i hflag
      have hnone : (parseCliOptions argv).options.sqlFile = none := hinteractive hflag
      have hinput : inputOf openFile argv stdin = stdin := by
        rw [inputOf, hnone]
      have hbytes := readLinesFrom_bytes stdin.length stdin
      have hempty : CString.empty.length = 0 := rfl
      rw [hinput] at hlimit hstate
      exact (Simulates.interactive h (by omega) ((h 0).mono (by omega) hstate)).behind _ _
    · cases hsql : (parseCliOptions argv).options.sqlFile with
      | some path =>
        have hinput : inputOf openFile argv stdin = (openFile path).getD [] := by
          rw [inputOf, hsql]
        rw [hinput] at hlimit hstate
        dsimp only
        rw [← readTextFile_congr readFault (hfile path (by rw [hsql]; rfl))]
        exact (h 0).source (fun text htext => readTextFile_length htext) hlimit hstate
      | none =>
        have hinput : inputOf openFile argv stdin = stdin := by
          rw [inputOf, hsql]
        rw [hinput] at hlimit hstate
        exact (h 0).source (fun text htext => readStreamText_length htext) hlimit hstate

end Simulation

end MiniSql
