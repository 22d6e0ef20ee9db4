import MiniSql.Common
import MiniSql.Library.Quotas

/-!
# The command line

`parse_cli_options`.  An argument list is a row of groups: an option with its value, a flag, an unknown
option, or a positional argument.

* `CliScan` are the local variables of the loop, `scanArguments` is the loop and `finishOptions` what comes
  behind it.
* `CliOutcome` is all that the caller sees: the result, `*options`, and the text in the error buffer.
* `ArgumentGroup` and `commandLine` write an argument list as a row of groups; `limit` is how many of a kind
  the scan lets through.

The scan over the groups stops at the first one too many of its kind, so whether it gets to the end does not
depend on their order, and neither does what it has collected by then.

* `scanArguments_within`, `parseCliOptions_not_within`: groups within the limits are scanned to their end, and
  any others are an error.
* `scanned_perm`: the variables behind the loop do not depend on the order.
* `parseCliOptions_reordered`: so the groups may be put in any order that keeps the positional arguments in
  theirs.

The code of `-` is 45.
-/

namespace MiniSql

open Quotas

/-! ### Results -/

inductive CliParseResult where
  | ok
  | help
  | error
  deriving DecidableEq, Repr

structure CliOptions where
  dbRoot : Option CString
  sqlFile : Option CString
  interactiveRequested : Bool
  deriving DecidableEq

inductive CliError where
  | missingValue (arg : CString)
  | databaseTwice
  | fileTwice
  | unknownOption (arg : CString)
  | tooManyPositionals
  | mixedDatabase
  | mixedFile
  | missingDatabase
  | interactiveFile
  deriving DecidableEq

def CliError.message : CliError → CString
  | missingValue arg => lit "missing value for " ++ arg
  | databaseTwice => lit "database root specified more than once"
  | fileTwice => lit "SQL file specified more than once"
  | unknownOption arg => lit "unknown option: " ++ arg
  | tooManyPositionals => lit "too many positional arguments"
  | mixedDatabase => lit "cannot mix --db/-d with positional <db_root>"
  | mixedFile => lit "cannot mix --file/-f with positional <sql_file>"
  | missingDatabase => lit "missing <db_root>"
  | interactiveFile => lit "cannot use --interactive/-i with --file/-f"

/-- What `parse_cli_options` returns, `*options`, and what it leaves in its error buffer. -/
structure CliOutcome where
  result : CliParseResult
  options : CliOptions
  error : Option CliError
  deriving DecidableEq

/-! ### The scan -/

/-- The local variables of `parse_cli_options`, and `options->interactive_requested`. -/
structure CliScan where
  dbOption : Option CString
  fileOption : Option CString
  positionals : List CString
  showHelp : Bool
  interactiveRequested : Bool
  deriving DecidableEq

def CliScan.start : CliScan := ⟨none, none, [], false, false⟩

/-- `*options` during the scan. -/
def CliScan.options (scan : CliScan) : CliOptions := ⟨none, none, scan.interactiveRequested⟩

/-- `return CLI_PARSE_ERROR` -/
def CliOptions.fail (options : CliOptions) (e : CliError) : CliOutcome := ⟨.error, options, some e⟩

/-- One of the two spellings of an option. -/
def isOption (long short arg : CString) : Bool :=
  decide (strcmp arg long = 0) || decide (strcmp arg short = 0)

def isHelp : CString → Bool := isOption (lit "--help") (lit "-h")

def isInteractive : CString → Bool := isOption (lit "--interactive") (lit "-i")

def isDb : CString → Bool := isOption (lit "--db") (lit "-d")

def isFile : CString → Bool := isOption (lit "--file") (lit "-f")

/-- `arg[0] == '-'` -/
def startsWithDash (arg : CString) : Bool := decide (arg.bytes.head? = some 45)

/-- The loop of `parse_cli_options` from an argument on.  An early return ends it with the outcome of the
whole function. -/
def scanArguments : List CString → CliScan → Except CliOutcome CliScan
  | [], scan => .ok scan
  | arg :: rest, scan =>
      if isHelp arg then scanArguments rest { scan with showHelp := true }
      else if isInteractive arg then scanArguments rest { scan with interactiveRequested := true }
      else if isDb arg then
        match rest with
        | [] => .error (scan.options.fail (.missingValue arg))
        | value :: rest =>
            if scan.dbOption.isSome then .error (scan.options.fail .databaseTwice)
            else scanArguments rest { scan with dbOption := some value }
      else if isFile arg then
        match rest with
        | [] => .error (scan.options.fail (.missingValue arg))
        | value :: rest =>
            if scan.fileOption.isSome then .error (scan.options.fail .fileTwice)
            else scanArguments rest { scan with fileOption := some value }
      else if startsWithDash arg then .error (scan.options.fail (.unknownOption arg))
      else if 2 ≤ scan.positionals.length then .error (scan.options.fail .tooManyPositionals)
      else scanArguments rest { scan with positionals := scan.positionals ++ [arg] }
  termination_by structural args => args

/-- `parse_cli_options` behind its loop. -/
def finishOptions (scan : CliScan) : CliOutcome :=
  if scan.showHelp then ⟨.help, scan.options, none⟩
  else if scan.dbOption.isSome ∧ 1 ≤ scan.positionals.length then scan.options.fail .mixedDatabase
  else if scan.fileOption.isSome ∧ scan.positionals.length = 2 then scan.options.fail .mixedFile
  else
    let options : CliOptions :=
      { dbRoot := scan.dbOption.or scan.positionals[0]?
        sqlFile := scan.fileOption.or scan.positionals[1]?
        interactiveRequested := scan.interactiveRequested }
    if options.dbRoot = none then options.fail .missingDatabase
    else if options.interactiveRequested ∧ options.sqlFile ≠ none then options.fail .interactiveFile
    else ⟨.ok, options, none⟩

/-- `parse_cli_options`; the first argument is the name of the program. -/
def parseCliOptions (argv : List CString) : CliOutcome :=
  match scanArguments argv.tail CliScan.start with
  | .error outcome => outcome
  | .ok scan => finishOptions scan

/-! ### Groups -/

/-- A complete group of arguments. -/
inductive ArgumentGroup where
  | help (arg : CString) (spelled : isHelp arg = true)
  | interactive (arg : CString) (spelled : isInteractive arg = true)
  | db (arg value : CString) (spelled : isDb arg = true)
  | file (arg value : CString) (spelled : isFile arg = true)
  | unknown (arg : CString) (dash : startsWithDash arg = true) (not_help : isHelp arg = false)
      (not_interactive : isInteractive arg = false) (not_db : isDb arg = false)
      (not_file : isFile arg = false)
  | positional (arg : CString) (no_dash : startsWithDash arg = false)

namespace ArgumentGroup

def arguments : ArgumentGroup → List CString
  | help arg _ => [arg]
  | interactive arg _ => [arg]
  | db arg value _ => [arg, value]
  | file arg value _ => [arg, value]
  | unknown arg _ _ _ _ _ => [arg]
  | positional arg _ => [arg]

inductive Kind where
  | help
  | interactive
  | db
  | file
  | unknown
  | positional
  deriving DecidableEq

@[simp] def kind : ArgumentGroup → Kind
  | help _ _ => .help
  | interactive _ _ => .interactive
  | db _ _ _ => .db
  | file _ _ _ => .file
  | unknown _ _ _ _ _ _ => .unknown
  | positional _ _ => .positional

/-- How many groups of a kind the scan lets through. -/
def limit : Kind → Option ℕ
  | .help => none
  | .interactive => none
  | .db => some 1
  | .file => some 1
  | .unknown => some 0
  | .positional => some 2

@[simp] def dbValue : ArgumentGroup → Option CString
  | db _ value _ => some value
  | _ => none

@[simp] def fileValue : ArgumentGroup → Option CString
  | file _ value _ => some value
  | _ => none

@[simp] def positionalValue : ArgumentGroup → Option CString
  | positional arg _ => some arg
  | _ => none

end ArgumentGroup

open ArgumentGroup (kind limit)

/-- The arguments of a row of groups. -/
def commandLine (groups : List ArgumentGroup) : List CString := groups.flatMap ArgumentGroup.arguments

/-- The positional arguments in their order. -/
def positionals (groups : List ArgumentGroup) : List CString :=
  groups.filterMap ArgumentGroup.positionalValue

/-- A round of the scan over a whole group. -/
def scanGroup (scan : CliScan) : ArgumentGroup → Except CliOutcome CliScan
  | .help _ _ => .ok { scan with showHelp := true }
  | .interactive _ _ => .ok { scan with interactiveRequested := true }
  | .db _ value _ =>
      if scan.dbOption.isSome then .error (scan.options.fail .databaseTwice)
      else .ok { scan with dbOption := some value }
  | .file _ value _ =>
      if scan.fileOption.isSome then .error (scan.options.fail .fileTwice)
      else .ok { scan with fileOption := some value }
  | .unknown arg _ _ _ _ _ => .error (scan.options.fail (.unknownOption arg))
  | .positional arg _ =>
      if 2 ≤ scan.positionals.length then .error (scan.options.fail .tooManyPositionals)
      else .ok { scan with positionals := scan.positionals ++ [arg] }

theorem isOption_iff {long short arg : CString} :
    isOption long short arg = true ↔ arg = long ∨ arg = short := by
  simp [isOption]

/-- The options the loop looks for later are not taken for earlier ones. -/
theorem isInteractive_cases {arg : CString} (h : isInteractive arg = true) : isHelp arg = false := by
  rcases isOption_iff.mp h with rfl | rfl <;> decide

theorem isDb_cases {arg : CString} (h : isDb arg = true) :
    isHelp arg = false ∧ isInteractive arg = false := by
  rcases isOption_iff.mp h with rfl | rfl <;> decide

theorem isFile_cases {arg : CString} (h : isFile arg = true) :
    isHelp arg = false ∧ isInteractive arg = false ∧ isDb arg = false := by
  rcases isOption_iff.mp h with rfl | rfl <;> decide

/-- Every known option starts with a dash. -/
theorem not_isOption {long short arg : CString} (hlong : startsWithDash long = true)
    (hshort : startsWithDash short = true) (h : startsWithDash arg = false) :
    isOption long short arg = false := by
  rw [Bool.eq_false_iff]
  intro hoption
  rcases isOption_iff.mp hoption with rfl | rfl
  · rw [hlong] at h
    cases h
  · rw [hshort] at h
    cases h

/-- The scan at an option with a value. -/
theorem scanArguments_db {arg : CString} (h : isDb arg = true) (rest : List CString) (scan : CliScan) :
    scanArguments (arg :: rest) scan =
      match rest with
      | [] => .error (scan.options.fail (.missingValue arg))
      | value :: rest =>
          if scan.dbOption.isSome then .error (scan.options.fail .databaseTwice)
          else scanArguments rest { scan with dbOption := some value } := by
  obtain ⟨hhelp, hinteractive⟩ := isDb_cases h
  rw [scanArguments.eq_def]
  dsimp only
  rw [hhelp, hinteractive, if_neg (by decide), if_neg (by decide), if_pos h]

theorem scanArguments_file {arg : CString} (h : isFile arg = true) (rest : List CString) (scan : CliScan) :
    scanArguments (arg :: rest) scan =
      match rest with
      | [] => .error (scan.options.fail (.missingValue arg))
      | value :: rest =>
          if scan.fileOption.isSome then .error (scan.options.fail .fileTwice)
          else scanArguments rest { scan with fileOption := some value } := by
  obtain ⟨hhelp, hinteractive, hdb⟩ := isFile_cases h
  rw [scanArguments.eq_def]
  dsimp only
  rw [hhelp, hinteractive, hdb, if_neg (by decide), if_neg (by decide), if_neg (by decide), if_pos h]

/-- The scan takes one group at a time. -/
theorem scanArguments_group (g : ArgumentGroup) (rest : List CString) (scan : CliScan) :
    scanArguments (g.arguments ++ rest) scan = scanGroup scan g >>= scanArguments rest := by
  cases g with
  | help arg h =>
    show scanArguments (arg :: rest) scan = _
    rw [scanArguments.eq_def]
    dsimp only
    rw [if_pos h]
    rfl
  | interactive arg h =>
    show scanArguments (arg :: rest) scan = _
    rw [scanArguments.eq_def]
    dsimp only
    rw [isInteractive_cases h, if_neg (by decide), if_pos h]
    rfl
  | db arg value h =>
    show scanArguments (arg :: value :: rest) scan = _
    rw [scanArguments_db h, scanGroup]
    dsimp only
    split <;> rfl
  | file arg value h =>
    show scanArguments (arg :: value :: rest) scan = _
    rw [scanArguments_file h, scanGroup]
    dsimp only
    split <;> rfl
  | unknown arg hdash hhelp hinteractive hdb hfile =>
    show scanArguments (arg :: rest) scan = _
    rw [scanArguments.eq_def]
    dsimp only
    rw [hhelp, hinteractive, hdb, hfile, if_neg (by decide), if_neg (by decide), if_neg (by decide),
      if_neg (by decide), if_pos hdash]
    rfl
  | positional arg hdash =>
    show scanArguments (arg :: rest) scan = _
    have hhelp : isHelp arg = false := not_isOption (by decide) (by decide) hdash
    have hinteractive : isInteractive arg = false := not_isOption (by decide) (by decide) hdash
    have hdb : isDb arg = false := not_isOption (by decide) (by decide) hdash
    have hfile : isFile arg = false := not_isOption (by decide) (by decide) hdash
    rw [scanArguments.eq_def]
    dsimp only
    rw [hhelp, hinteractive, hdb, hfile, hdash, if_neg (by decide), if_neg (by decide),
      if_neg (by decide), if_neg (by decide), if_neg (by decide), scanGroup]
    split <;> rfl

theorem scanArguments_groups (groups : List ArgumentGroup) (rest : List CString) (scan : CliScan) :
    scanArguments (commandLine groups ++ rest) scan =
      groups.foldlM scanGroup scan >>= scanArguments rest := by
  induction groups generalizing scan with
  | nil => rfl
  | cons g groups ih =>
    have hsplit : commandLine (g :: groups) ++ rest = g.arguments ++ (commandLine groups ++ rest) := by
      rw [commandLine, List.flatMap_cons, List.append_assoc, commandLine]
    rw [hsplit, scanArguments_group, List.foldlM_cons, bind_assoc]
    congr
    funext scan'
    exact ih scan'

/-! ### What the scan collects -/

/-- The variables behind a row of groups. -/
def scanned (groups : List ArgumentGroup) : CliScan where
  dbOption := (groups.filterMap ArgumentGroup.dbValue).getLast?
  fileOption := (groups.filterMap ArgumentGroup.fileValue).getLast?
  positionals := positionals groups
  showHelp := groups.any fun g => decide (g.kind = .help)
  interactiveRequested := groups.any fun g => decide (g.kind = .interactive)

theorem dbValue_isSome (g : ArgumentGroup) : g.dbValue.isSome = decide (g.kind = .db) := by
  cases g <;> rfl

theorem fileValue_isSome (g : ArgumentGroup) : g.fileValue.isSome = decide (g.kind = .file) := by
  cases g <;> rfl

theorem positionalValue_isSome (g : ArgumentGroup) :
    g.positionalValue.isSome = decide (g.kind = .positional) := by
  cases g <;> rfl

/-- Room for a value that is taken once. -/
theorem room_once {k : ArgumentGroup.Kind} {f : ArgumentGroup → Option CString}
    (hf : ∀ g, (f g).isSome = decide (g.kind = k)) (hlimit : limit k = some 1)
    {before : List ArgumentGroup} {g : ArgumentGroup} (hg : g.kind = k) :
    Room kind limit before g ↔ (before.filterMap f).getLast? = none := by
  rw [Room, hg, hlimit, number_eq_length hf, List.getLast?_eq_none_iff, ← List.length_eq_zero_iff]
  simp

theorem room_positional {before : List ArgumentGroup} {g : ArgumentGroup} (hg : g.kind = .positional) :
    Room kind limit before g ↔ (positionals before).length < 2 := by
  rw [Room, hg, number_eq_length positionalValue_isSome]
  simp [limit, positionals]

theorem scanned_snoc (before : List ArgumentGroup) (g : ArgumentGroup) :
    scanned (before ++ [g]) =
      { dbOption := g.dbValue.or (scanned before).dbOption
        fileOption := g.fileValue.or (scanned before).fileOption
        positionals := (scanned before).positionals ++ g.positionalValue.toList
        showHelp := (scanned before).showHelp || decide (g.kind = .help)
        interactiveRequested := (scanned before).interactiveRequested || decide (g.kind = .interactive) } := by
  have hcollect : ∀ f : ArgumentGroup → Option CString,
      (before ++ [g]).filterMap f = before.filterMap f ++ (f g).toList := by
    intro f
    rw [List.filterMap_append]
    cases hg : f g <;> simp [hg]
  have hlast : ∀ (values : List CString) (value : Option CString),
      (values ++ value.toList).getLast? = value.or values.getLast? := by
    intro values value
    rw [List.getLast?_append]
    cases value <;> rfl
  simp only [scanned, positionals, hcollect, hlast, List.any_append, List.any_cons, List.any_nil,
    Bool.or_false]

/-- A group that there is room for is collected. -/
theorem scanGroup_room {before : List ArgumentGroup} {g : ArgumentGroup} (h : Room kind limit before g) :
    scanGroup (scanned before) g = .ok (scanned (before ++ [g])) := by
  rw [scanned_snoc]
  cases g with
  | help arg spelled => simp [scanGroup]
  | interactive arg spelled => simp [scanGroup]
  | db arg value spelled =>
    have hnone : (scanned before).dbOption = none := (room_once dbValue_isSome rfl rfl).mp h
    simp [scanGroup, hnone]
  | file arg value spelled =>
    have hnone : (scanned before).fileOption = none := (room_once fileValue_isSome rfl rfl).mp h
    simp [scanGroup, hnone]
  | unknown arg hdash _ _ _ _ => exact absurd (h 0 rfl) (Nat.not_lt_zero _)
  | positional arg hdash =>
    have hlength : ¬2 ≤ (scanned before).positionals.length := not_le.mpr ((room_positional rfl).mp h)
    simp [scanGroup, hlength]

/-- Any other group ends the scan. -/
theorem scanGroup_full {before : List ArgumentGroup} {g : ArgumentGroup} (h : ¬Room kind limit before g) :
    ∃ outcome, scanGroup (scanned before) g = .error outcome ∧ outcome.result = .error := by
  cases g with
  | help arg spelled => exact absurd (fun n hn => (by cases hn)) h
  | interactive arg spelled => exact absurd (fun n hn => (by cases hn)) h
  | db arg value spelled =>
    rw [room_once dbValue_isSome rfl rfl, ← ne_eq, ← Option.isSome_iff_ne_none] at h
    exact ⟨_, if_pos h, rfl⟩
  | file arg value spelled =>
    rw [room_once fileValue_isSome rfl rfl, ← ne_eq, ← Option.isSome_iff_ne_none] at h
    exact ⟨_, if_pos h, rfl⟩
  | unknown arg hdash _ _ _ _ => exact ⟨_, rfl, rfl⟩
  | positional arg hdash =>
    rw [room_positional rfl, not_lt] at h
    exact ⟨_, if_pos h, rfl⟩

/-! ### Argument lists -/

/-- Groups within the limits are scanned to their end. -/
theorem scanArguments_within {groups : List ArgumentGroup} (h : Within kind limit groups)
    (rest : List CString) :
    scanArguments (commandLine groups ++ rest) CliScan.start = scanArguments rest (scanned groups) := by
  have hfold : groups.foldlM scanGroup (scanned []) = .ok (scanned groups) :=
    foldlM_within (fun _ _ => scanGroup_room) h
  show scanArguments (commandLine groups ++ rest) (scanned []) = _
  rw [scanArguments_groups, hfold]
  rfl

theorem parseCliOptions_within {groups : List ArgumentGroup} (h : Within kind limit groups)
    (program : CString) :
    parseCliOptions (program :: commandLine groups) = finishOptions (scanned groups) := by
  have hscan := scanArguments_within h []
  rw [List.append_nil] at hscan
  rw [parseCliOptions, List.tail_cons, hscan]
  rfl

/-- One group too many is an error, whatever comes behind it. -/
theorem parseCliOptions_not_within {groups : List ArgumentGroup} (h : ¬Within kind limit groups)
    (program : CString) (rest : List CString) :
    (parseCliOptions (program :: (commandLine groups ++ rest))).result = .error := by
  obtain ⟨outcome, hfold, herror⟩ := foldlM_not_within (P := fun outcome => outcome.result = .error)
    (fun _ _ => scanGroup_room) (fun _ _ => scanGroup_full) within_nil (List.nil_append groups ▸ h)
  have hscan : scanArguments (commandLine groups ++ rest) CliScan.start = .error outcome := by
    show scanArguments (commandLine groups ++ rest) (scanned []) = _
    rw [scanArguments_groups, hfold]
    rfl
  rw [parseCliOptions, List.tail_cons, hscan]
  exact herror

/-- An option without its value at the end is an error. -/
theorem parseCliOptions_incomplete (program : CString) (groups : List ArgumentGroup) {arg : CString}
    (h : isDb arg = true ∨ isFile arg = true) :
    (parseCliOptions (program :: (commandLine groups ++ [arg]))).result = .error := by
  by_cases hwithin : Within kind limit groups
  · have hlast : scanArguments [arg] (scanned groups) =
        .error ((scanned groups).options.fail (.missingValue arg)) := by
      rcases h with hdb | hfile
      · exact scanArguments_db hdb [] _
      · exact scanArguments_file hfile [] _
    rw [parseCliOptions, List.tail_cons, scanArguments_within hwithin, hlast]
    rfl
  · exact parseCliOptions_not_within hwithin program [arg]

/-- Every argument list is a row of groups, but for an option at its end that misses its value. -/
theorem exists_groups : ∀ args : List CString, ∃ groups, args = commandLine groups ∨
    ∃ arg, (isDb arg = true ∨ isFile arg = true) ∧ args = commandLine groups ++ [arg]
  | [] => ⟨[], Or.inl rfl⟩
  | arg :: rest => by
    have hcons : ∀ (g : ArgumentGroup) (tail : List CString),
        (∃ groups, tail = commandLine groups ∨
          ∃ arg, (isDb arg = true ∨ isFile arg = true) ∧ tail = commandLine groups ++ [arg]) →
        ∃ groups, g.arguments ++ tail = commandLine groups ∨
          ∃ arg, (isDb arg = true ∨ isFile arg = true) ∧
            g.arguments ++ tail = commandLine groups ++ [arg] := by
      rintro g tail ⟨groups, rfl | ⟨last, hlast, rfl⟩⟩
      · exact ⟨g :: groups, Or.inl rfl⟩
      · refine ⟨g :: groups, Or.inr ⟨last, hlast, ?_⟩⟩
        rw [commandLine, commandLine, List.flatMap_cons, List.append_assoc]
    cases hhelp : isHelp arg with
    | true => exact hcons (.help arg hhelp) rest (exists_groups rest)
    | false =>
      cases hinteractive : isInteractive arg with
      | true => exact hcons (.interactive arg hinteractive) rest (exists_groups rest)
      | false =>
        cases hdb : isDb arg with
        | true =>
          match rest with
          | [] => exact ⟨[], Or.inr ⟨arg, Or.inl hdb, rfl⟩⟩
          | value :: rest => exact hcons (.db arg value hdb) rest (exists_groups rest)
        | false =>
          cases hfile : isFile arg with
          | true =>
            match rest with
            | [] => exact ⟨[], Or.inr ⟨arg, Or.inr hfile, rfl⟩⟩
            | value :: rest => exact hcons (.file arg value hfile) rest (exists_groups rest)
          | false =>
            cases hdash : startsWithDash arg with
            | true =>
              exact hcons (.unknown arg hdash hhelp hinteractive hdb hfile) rest (exists_groups rest)
            | false => exact hcons (.positional arg hdash) rest (exists_groups rest)

/-- An argument list that is not an error is made of complete groups within the limits. -/
theorem parseCliOptions_no_error {program : CString} {args : List CString}
    (h : (parseCliOptions (program :: args)).result ≠ .error) :
    ∃ groups, args = commandLine groups ∧ Within kind limit groups ∧
      parseCliOptions (program :: args) = finishOptions (scanned groups) := by
  obtain ⟨groups, rfl | ⟨arg, harg, rfl⟩⟩ := exists_groups args
  · by_cases hwithin : Within kind limit groups
    · exact ⟨groups, rfl, hwithin, parseCliOptions_within hwithin program⟩
    · have herror := parseCliOptions_not_within hwithin program []
      rw [List.append_nil] at herror
      exact absurd herror h
  · exact absurd (parseCliOptions_incomplete program groups harg) h

/-- Accepted options name a database, and no SQL file beside the interactive mode. -/
theorem parseCliOptions_ok {program : CString} {args : List CString}
    (h : (parseCliOptions (program :: args)).result = .ok) :
    (parseCliOptions (program :: args)).options.dbRoot ≠ none ∧
      ((parseCliOptions (program :: args)).options.interactiveRequested = true →
        (parseCliOptions (program :: args)).options.sqlFile = none) := by
  have hne : (parseCliOptions (program :: args)).result ≠ .error := by
    rw [h]
    decide
  obtain ⟨groups, -, -, heq⟩ := parseCliOptions_no_error hne
  rw [heq] at h ⊢
  rw [finishOptions] at h ⊢
  split at h
  · cases h
  split at h
  · cases h
  split at h
  · cases h
  dsimp only at h
  split at h
  · cases h
  split at h
  · cases h
  rename_i hhelp hdatabase hfile hroot hinteractive
  rw [if_neg hhelp, if_neg hdatabase, if_neg hfile]
  dsimp only
  rw [if_neg hroot, if_neg hinteractive]
  exact ⟨hroot, fun hflag => not_not.mp fun hsql => hinteractive ⟨hflag, hsql⟩⟩

/-! ### The order of the groups -/

/-- The variables behind the loop do not depend on the order of the groups. -/
theorem scanned_perm {groups groups' : List ArgumentGroup} (h : Within kind limit groups)
    (hperm : groups.Perm groups') (hpositionals : positionals groups = positionals groups') :
    scanned groups = scanned groups' := by
  have hdb := filterMap_eq_of_perm dbValue_isSome rfl h hperm
  have hfile := filterMap_eq_of_perm fileValue_isSome rfl h hperm
  simp only [scanned, hdb, hfile, hpositionals, hperm.any_eq]

/-- Groups in another order that keeps the order of the positional arguments have the same result, and, if
they are accepted, the same options. -/
theorem parseCliOptions_reordered (program : CString) {groups groups' : List ArgumentGroup}
    (hperm : groups.Perm groups') (hpositionals : positionals groups = positionals groups') :
    (parseCliOptions (program :: commandLine groups)).result =
        (parseCliOptions (program :: commandLine groups')).result ∧
      ((parseCliOptions (program :: commandLine groups)).result = .ok →
        (parseCliOptions (program :: commandLine groups)).options =
          (parseCliOptions (program :: commandLine groups')).options) := by
  by_cases h : Within kind limit groups
  · -- the loop ends, with the same variables in both orders
    have hwithin := parseCliOptions_within h program
    have hwithin' := parseCliOptions_within (h.perm hperm) program
    have hscanned := scanned_perm h hperm hpositionals
    have hsame : parseCliOptions (program :: commandLine groups) =
        parseCliOptions (program :: commandLine groups') := by
      rw [hwithin, hwithin', hscanned]
    exact ⟨congrArg CliOutcome.result hsame, fun _ => congrArg CliOutcome.options hsame⟩
  · -- both loops return early, perhaps at groups of different kinds
    have h' : ¬Within kind limit groups' := fun hwithin => h (hwithin.perm hperm.symm)
    have herror := parseCliOptions_not_within h program []
    have herror' := parseCliOptions_not_within h' program []
    rw [List.append_nil] at herror herror'
    refine ⟨herror.trans herror'.symm, fun hok => ?_⟩
    rw [herror] at hok
    cases hok

/-- `-f a.sql -d db` and `-d db -f a.sql`. -/
theorem parseCliOptions_reordered_two :
    (parseCliOptions [lit "mini_sql", lit "-f", lit "a.sql", lit "-d", lit "db"]).options =
      (parseCliOptions [lit "mini_sql", lit "-d", lit "db", lit "-f", lit "a.sql"]).options := by
  have hfile : isFile (lit "-f") = true := by decide
  have hdb : isDb (lit "-d") = true := by decide
  have hperm : List.Perm [ArgumentGroup.file (lit "-f") (lit "a.sql") hfile,
      .db (lit "-d") (lit "db") hdb] [.db (lit "-d") (lit "db") hdb, .file (lit "-f") (lit "a.sql") hfile] :=
    List.Perm.swap _ _ _
  have hok : (parseCliOptions [lit "mini_sql", lit "-f", lit "a.sql", lit "-d", lit "db"]).result = .ok := by
    decide +kernel
  exact (parseCliOptions_reordered (lit "mini_sql") hperm rfl).2 hok

end MiniSql
