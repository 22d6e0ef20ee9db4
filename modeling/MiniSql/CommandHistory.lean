import MiniSql.Common
import MiniSql.Library.RecentEntries

/-!
# Command history

`InputHistory` and `history_add` of `main.c`.

* A line is cut at its first line end and to the size of the buffer `normalized` (`normalizeFrom`).
* It is kept unless it is blank or repeats the last item.
* At `HISTORY_MAX_ENTRIES` items the first one makes room.
* Without the memory for `sql_strndup_local` the call fails.

`historyAdd_ok` is one call: a line worth keeping is pushed into the log of the last items, which is the
general notion the module instantiates.  `historyAdd_run` is a run: the items are the end of the cut lines
without blanks and consecutive repeats.
-/

namespace MiniSql

open RecentEntries

/-- `INTERACTIVE_LINE_MAX`. -/
def interactiveLineMax : ℕ := 2048

/-- `HISTORY_MAX_ENTRIES`. -/
def historyMaxEntries : ℕ := 200

/-- `InputHistory`: the items up to `count`. -/
structure InputHistory where
  items : StringList
  count_le : items.length ≤ historyMaxEntries

def InputHistory.count (history : InputHistory) : ℕ := history.items.length

def historyInit : InputHistory := ⟨[], Nat.zero_le _⟩

/-- `is_blank_line_no_newline`. -/
def isBlankLine (text : CString) : Bool := text.bytes.all isspace

/-- Where the copying loop of `history_add` stops. -/
def isLineEnd (c : UInt8) : Bool := c = 10 || c = 13

/-- The copying loop of `history_add`, with `len` bytes of `normalized` already written. -/
def normalizeFrom : Bytes → ℕ → Bytes
  | [], _ => []
  | c :: rest, len =>
      if isLineEnd c then []
      else if interactiveLineMax ≤ len + 1 then []
      else c :: normalizeFrom rest (len + 1)

theorem normalizeFrom_eq (line : Bytes) (len : ℕ) :
    normalizeFrom line len =
      (line.takeWhile fun c => !isLineEnd c).take (interactiveLineMax - 1 - len) := by
  induction line generalizing len with
  | nil => simp [normalizeFrom]
  | cons c rest ih =>
    rw [normalizeFrom]
    cases hc : isLineEnd c with
    | true => simp [hc]
    | false =>
      by_cases hlen : interactiveLineMax ≤ len + 1
      · have hzero : interactiveLineMax - 1 - len = 0 := by omega
        simp [hlen, hzero]
      · have hsucc : interactiveLineMax - 1 - len = interactiveLineMax - 1 - (len + 1) + 1 := by
          omega
        simp [hc, hlen, hsucc, ih (len + 1)]

/-- `normalized`. -/
def normalized (line : CString) : CString where
  bytes := normalizeFrom line.bytes 0
  nul_free := by
    rw [normalizeFrom_eq]
    exact fun h => line.nul_free ((List.takeWhile_prefix _).subset (List.mem_of_mem_take h))

/-- `history_add`; `allocated` says whether `sql_strndup_local` gets its memory. -/
def historyAdd (allocated : Bool) (history : InputHistory) (line : CString) :
    Except CString InputHistory :=
  if isBlankLine (normalized line) then .ok history
  else if ∃ last ∈ history.items.getLast?, strcmp last (normalized line) = 0 then .ok history
  else if !allocated then .error (lit "out of memory while storing command history")
  else if h : history.count = historyMaxEntries then
    .ok ⟨history.items.tail ++ [normalized line], by
      simp only [InputHistory.count, historyMaxEntries] at h ⊢
      simp [h]⟩
  else
    .ok ⟨history.items ++ [normalized line], by
      have hle := history.count_le
      simp only [InputHistory.count, historyMaxEntries] at h hle ⊢
      simp
      omega⟩

/-! ### What one call does -/

theorem rtake_concat_of_full {items : StringList} (h : items.length = historyMaxEntries)
    (s : CString) : (items ++ [s]).rtake historyMaxEntries = items.tail ++ [s] := by
  cases items with
  | nil => cases h
  | cons a items => simp [List.rtake, ← h]

theorem rtake_concat_of_room {items : StringList} (h : items.length < historyMaxEntries)
    (s : CString) : (items ++ [s]).rtake historyMaxEntries = items ++ [s] := by
  have hzero : (items ++ [s]).length - historyMaxEntries = 0 := by simp; omega
  rw [List.rtake, hzero, List.drop_zero]

/-- A blank line is dropped, any other one is pushed into the log of the last items. -/
theorem historyAdd_ok (history : InputHistory) (line : CString) :
    ∃ history', historyAdd true history line = .ok history' ∧
      history'.items = if isBlankLine (normalized line) then history.items
        else push historyMaxEntries history.items (normalized line) := by
  have hrepeat : (∃ last ∈ history.items.getLast?, strcmp last (normalized line) = 0) ↔
      history.items.getLast? = some (normalized line) := by
    simp
  rw [historyAdd]
  by_cases hblank : isBlankLine (normalized line) = true
  · simp [hblank]
  · by_cases hlast : history.items.getLast? = some (normalized line)
    · simp [hblank, hlast, push]
    · by_cases hfull : history.count = historyMaxEntries
      · have hpush := rtake_concat_of_full hfull (normalized line)
        simp [hblank, hlast, hfull, push, hpush]
      · have hroom : history.items.length < historyMaxEntries :=
          lt_of_le_of_ne history.count_le hfull
        have hpush := rtake_concat_of_room hroom (normalized line)
        simp [hblank, hlast, hfull, push, hpush]

/-! ### Runs -/

/-- What a line leaves to keep: up to its first CR or LF, and 2047 bytes at most. -/
def cutLine (line : CString) : CString where
  bytes := (line.bytes.takeWhile fun c => !isLineEnd c).take 2047
  nul_free := fun h =>
    line.nul_free ((List.takeWhile_prefix _).subset (List.mem_of_mem_take h))

theorem normalized_eq (line : CString) : normalized line = cutLine line :=
  CString.ext (normalizeFrom_eq line.bytes 0)

/-- The lines worth keeping, cut. -/
def keptLines (lines : List CString) : List CString :=
  (lines.map cutLine).filter fun s => !isBlankLine s

/-- A run pushes the lines worth keeping. -/
theorem historyAdd_foldlM (lines : List CString) (history : InputHistory) :
    ∃ history', lines.foldlM (historyAdd true) history = .ok history' ∧
      history'.items = (keptLines lines).foldl (push historyMaxEntries) history.items := by
  induction lines generalizing history with
  | nil => exact ⟨history, rfl, rfl⟩
  | cons line lines ih =>
    obtain ⟨next, hnext, hitems⟩ := historyAdd_ok history line
    obtain ⟨last, hlast, hrun⟩ := ih next
    refine ⟨last, ?_, ?_⟩
    · rw [List.foldlM_cons, hnext]
      exact hlast
    · rw [hrun, hitems, normalized_eq]
      by_cases hblank : isBlankLine (cutLine line) = true
      · simp [keptLines, hblank]
      · simp [keptLines, hblank]

/-- From an empty history, the items are the last 200 of the cut lines without blanks and consecutive
repeats. -/
theorem historyAdd_run (lines : List CString) :
    ∃ history, lines.foldlM (historyAdd true) historyInit = .ok history ∧
      history.items =
        (((lines.map cutLine).filter fun s => !isBlankLine s).destutter (· ≠ ·)).rtake 200 ∧
      history.items.IsChain (· ≠ ·) ∧ ∀ s ∈ history.items, isBlankLine s = false := by
  obtain ⟨history, hrun, hitems⟩ := historyAdd_foldlM lines historyInit
  have hlog : history.items = ((keptLines lines).destutter (· ≠ ·)).rtake historyMaxEntries := by
    rw [hitems]
    exact foldl_push (by decide) (keptLines lines)
  refine ⟨history, hrun, hlog, ?_, fun s hs => ?_⟩
  · rw [hlog]
    exact isChain_rtake_destutter historyMaxEntries (keptLines lines)
  · rw [hlog] at hs
    have hkept := List.of_mem_filter (mem_of_mem_rtake_destutter hs)
    simpa using hkept

end MiniSql
