import Mathlib

/-!
# Tables drawn in text

A table is drawn with a rule above it, one line for its header, a rule, one line for each row, and a rule.

* `Signs` are the characters it is drawn with; `rule signs widths` and `line signs widths cells` are its two
  kinds of lines, `draw` is the whole.
* `Fits widths cells`: every cell is as wide as its column at most.
* `rule_length`, `line_length`: all rules and all lines of a table have one length.

The rules show how wide the columns are, so the drawing can be read whatever the cells contain:

* `read signs text` takes the widths from the first rule and cuts the lines at them.
* `read_draw`: it gets back the header and the rows, without the blanks at the end of the cells (`trimEnd`).
-/

namespace TextTables

/-- The signs a table is drawn with. -/
structure Signs (α : Type*) where
  dash : α
  corner : α
  bar : α
  blank : α
  newline : α

/-- What a reader needs: a rule ends where its dashes and corners end, and a line does not begin like a
rule. -/
structure Signs.Distinct {α : Type*} (signs : Signs α) : Prop where
  corner_dash : signs.corner ≠ signs.dash
  newline_dash : signs.newline ≠ signs.dash
  newline_corner : signs.newline ≠ signs.corner
  corner_bar : signs.corner ≠ signs.bar

variable {α : Type*} (signs : Signs α)

/-! ### Drawing -/

/-- A text in a field of this width. -/
def pad (width : ℕ) (cell : List α) : List α :=
  cell ++ List.replicate (width - cell.length) signs.blank

def rule (widths : List ℕ) : List α :=
  signs.corner :: (widths.flatMap (fun w => List.replicate (w + 2) signs.dash ++ [signs.corner]) ++
    [signs.newline])

/-- The fields of a line, each with a bar behind it. -/
def fields (widths : List ℕ) (cells : List (List α)) : List α :=
  (List.zipWith (fun w cell => signs.blank :: pad signs w cell ++ [signs.blank, signs.bar]) widths
    cells).flatten

def line (widths : List ℕ) (cells : List (List α)) : List α :=
  signs.bar :: (fields signs widths cells ++ [signs.newline])

def draw (widths : List ℕ) (header : List (List α)) (rows : List (List (List α))) : List α :=
  rule signs widths ++ line signs widths header ++ rule signs widths ++
    rows.flatMap (line signs widths) ++ rule signs widths

/-! ### Lengths -/

/-- How long each rule and each line is. -/
def lineLength (widths : List ℕ) : ℕ := (widths.map (· + 3)).sum + 2

/-- The cells fit into the columns. -/
def Fits (widths : List ℕ) (cells : List (List α)) : Prop :=
  List.Forall₂ (fun w cell => cell.length ≤ w) widths cells

section Lengths

variable {signs} {widths : List ℕ} {cells : List (List α)}

theorem pad_length {width : ℕ} {cell : List α} (h : cell.length ≤ width) :
    (pad signs width cell).length = width := by
  rw [pad, List.length_append, List.length_replicate]
  omega

theorem rule_length (widths : List ℕ) : (rule signs widths).length = lineLength widths := by
  have hsum : (widths.flatMap fun w =>
      List.replicate (w + 2) signs.dash ++ [signs.corner]).length = (widths.map (· + 3)).sum := by
    induction widths with
    | nil => rfl
    | cons w widths ih =>
      rw [List.flatMap_cons, List.length_append, ih, List.length_append, List.length_replicate,
        List.map_cons, List.sum_cons]
      rfl
  rw [rule, List.length_cons, List.length_append, hsum, lineLength]
  rfl

theorem fields_cons (w : ℕ) (widths : List ℕ) (cell : List α) (cells : List (List α)) :
    fields signs (w :: widths) (cell :: cells) = signs.blank ::
      (pad signs w cell ++ signs.blank :: signs.bar :: fields signs widths cells) := by
  simp [fields]

theorem fields_length (h : Fits widths cells) :
    (fields signs widths cells).length = (widths.map (· + 3)).sum := by
  induction h with
  | nil => rfl
  | @cons w cell widths cells hcell _ ih =>
    rw [fields_cons, List.length_cons, List.length_append, List.length_cons, List.length_cons, ih,
      pad_length hcell, List.map_cons, List.sum_cons]
    omega

/-- Every line is as long as the rules. -/
theorem line_length (h : Fits widths cells) :
    (line signs widths cells).length = lineLength widths := by
  rw [line, List.length_cons, List.length_append, fields_length h, lineLength]
  rfl

theorem lines_length {rows : List (List (List α))} (h : ∀ cells ∈ rows, Fits widths cells) :
    (rows.flatMap (line signs widths)).length = rows.length * lineLength widths := by
  induction rows with
  | nil => simp
  | cons cells rows ih =>
    obtain ⟨hcells, hrows⟩ := List.forall_mem_cons.mp h
    rw [List.flatMap_cons, List.length_append, line_length hcells, ih hrows, List.length_cons,
      Nat.add_one_mul, Nat.add_comm]

theorem draw_length {header : List (List α)} {rows : List (List (List α))} (hheader : Fits widths header)
    (hrows : ∀ cells ∈ rows, Fits widths cells) :
    (draw signs widths header rows).length = (rows.length + 4) * lineLength widths := by
  simp only [draw, List.length_append, rule_length, line_length hheader, lines_length hrows]
  ring

theorem drop_field {w : ℕ} {cell : List α} (h : cell.length = w) (text : List α) :
    (signs.blank :: (cell ++ signs.blank :: signs.bar :: text)).drop (w + 3) = text := by
  show (cell ++ signs.blank :: signs.bar :: text).drop (w + 2) = text
  rw [← List.drop_drop, List.drop_left' h]
  rfl

end Lengths

/-! ### Reading -/

variable [DecidableEq α]

/-- A cell without the blanks at its end. -/
def trimEnd (cell : List α) : List α := cell.rdropWhile fun a => decide (a = signs.blank)

/-- The widths of the columns behind a corner of a rule, where `n` dashes have been read, and what comes
behind the rule. -/
def readRule : ℕ → List α → List ℕ × List α
  | _, [] => ([], [])
  | n, a :: text =>
      if a = signs.dash then readRule (n + 1) text
      else if a = signs.corner then
        let r := readRule 0 text
        ((n - 2) :: r.1, r.2)
      else ([], text)

/-- The cells of a line, behind its first bar. -/
def readCells : List ℕ → List α → List (List α)
  | [], _ => []
  | w :: widths, text =>
      trimEnd signs ((text.drop 1).take w) :: readCells widths (text.drop (w + 3))

/-- The lines up to the next rule. -/
def readLines (widths : List ℕ) : ℕ → List α → List (List (List α))
  | 0, _ => []
  | fuel + 1, text =>
      if text.head? = some signs.bar then
        readCells signs widths text.tail :: readLines widths fuel (text.drop (lineLength widths))
      else []

/-- The header and the rows of a table at the front of a text. -/
def read (text : List α) : List (List α) × List (List (List α)) :=
  let r := readRule signs 0 text.tail
  (readCells signs r.1 r.2.tail,
    readLines signs r.1 text.length (r.2.drop (lineLength r.1 + lineLength r.1)))

section Reading

variable {signs} {widths : List ℕ} {cells : List (List α)}

/-- Padding is taken off again. -/
theorem trimEnd_pad (width : ℕ) (cell : List α) :
    trimEnd signs (pad signs width cell) = trimEnd signs cell := by
  rw [pad]
  induction width - cell.length with
  | zero => rw [List.replicate_zero, List.append_nil]
  | succ n ih =>
    rw [List.replicate_succ', ← List.append_assoc, trimEnd, List.rdropWhile_concat_pos]
    · exact ih
    · simp

theorem readRule_dashes (h : signs.Distinct) (n m : ℕ) (text : List α) :
    readRule signs n (List.replicate m signs.dash ++ signs.corner :: text) =
      ((n + m - 2) :: (readRule signs 0 text).1, (readRule signs 0 text).2) := by
  induction m generalizing n with
  | zero => rw [List.replicate_zero, List.nil_append, readRule, if_neg h.corner_dash, if_pos rfl]; rfl
  | succ m ih =>
    rw [List.replicate_succ, List.cons_append, readRule, if_pos rfl, ih, Nat.add_right_comm,
      Nat.add_assoc]

theorem readRule_rule (h : signs.Distinct) (widths : List ℕ) (text : List α) :
    readRule signs 0 ((rule signs widths).tail ++ text) = (widths, text) := by
  rw [rule, List.tail_cons]
  induction widths with
  | nil =>
    show readRule signs 0 (signs.newline :: text) = _
    rw [readRule, if_neg h.newline_dash, if_neg h.newline_corner]
  | cons w widths ih =>
    rw [List.flatMap_cons, List.append_assoc, List.append_assoc, List.append_assoc,
      List.singleton_append, readRule_dashes h, ← List.append_assoc, ih]
    simp

theorem readCells_fields (h : Fits widths cells) (text : List α) :
    readCells signs widths (fields signs widths cells ++ text) = cells.map (trimEnd signs) := by
  induction h with
  | nil => rfl
  | @cons w cell widths cells hcell _ ih =>
    have hlength : (pad signs w cell).length = w := pad_length hcell
    have hfields : fields signs (w :: widths) (cell :: cells) ++ text =
        signs.blank :: (pad signs w cell ++
          signs.blank :: signs.bar :: (fields signs widths cells ++ text)) := by
      simp [fields_cons]
    rw [hfields, readCells, drop_field hlength, ih, List.drop_one, List.tail_cons,
      List.take_left' hlength, trimEnd_pad, List.map_cons]

theorem readLines_rows {rows : List (List (List α))} (h : ∀ cells ∈ rows, Fits widths cells)
    {fuel : ℕ} (hfuel : rows.length ≤ fuel) {text : List α} (htext : text.head? ≠ some signs.bar) :
    readLines signs widths fuel (rows.flatMap (line signs widths) ++ text) =
      rows.map fun cells => cells.map (trimEnd signs) := by
  induction rows generalizing fuel with
  | nil =>
    cases fuel with
    | zero => rfl
    | succ fuel => exact if_neg htext
  | cons cells rows ih =>
    obtain ⟨hcells, hrows⟩ := List.forall_mem_cons.mp h
    obtain ⟨fuel, rfl⟩ := Nat.exists_eq_add_one_of_ne_zero
      (Nat.ne_of_gt (lt_of_lt_of_le (Nat.succ_pos rows.length) hfuel))
    have hlength : (line signs widths cells).length = lineLength widths := line_length hcells
    rw [List.flatMap_cons, List.append_assoc, readLines, List.drop_left' hlength,
      ih hrows (Nat.le_of_succ_le_succ hfuel)]
    rw [line, List.cons_append, List.head?_cons, if_pos rfl, List.tail_cons, List.append_assoc,
      readCells_fields hcells, List.map_cons]

/-- **Reading a drawing.**  Whatever is behind it, the header and the rows are read back without the blanks
at the end of their cells. -/
theorem read_draw (h : signs.Distinct) {header : List (List α)} {rows : List (List (List α))}
    (hheader : Fits widths header) (hrows : ∀ cells ∈ rows, Fits widths cells) (text : List α) :
    read signs (draw signs widths header rows ++ text) =
      (header.map (trimEnd signs), rows.map fun cells => cells.map (trimEnd signs)) := by
  have hdraw : draw signs widths header rows ++ text = rule signs widths ++
      (line signs widths header ++ (rule signs widths ++
        (rows.flatMap (line signs widths) ++ (rule signs widths ++ text)))) := by
    simp only [draw, List.append_assoc]
  have hfuel : rows.length ≤ (draw signs widths header rows ++ text).length := by
    have hone : 1 ≤ lineLength widths := Nat.le_add_left _ _
    have hlines := Nat.le_mul_of_pos_right (rows.length + 4) hone
    rw [List.length_append, draw_length hheader hrows]
    omega
  have htail : (draw signs widths header rows ++ text).tail = (rule signs widths).tail ++
      (line signs widths header ++ (rule signs widths ++
        (rows.flatMap (line signs widths) ++ (rule signs widths ++ text)))) := by
    rw [hdraw]
    rfl
  have hbehind : (rule signs widths ++ text).head? ≠ some signs.bar := fun heq =>
    h.corner_bar (Option.some.inj heq)
  rw [read, htail, readRule_rule h]
  dsimp only
  rw [← List.drop_drop, List.drop_left' (line_length hheader), List.drop_left' (rule_length widths),
    readLines_rows hrows hfuel hbehind]
  rw [line, List.cons_append, List.tail_cons, List.append_assoc, readCells_fields hheader]

end Reading

end TextTables
