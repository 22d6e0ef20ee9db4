import Mathlib

/-!
# C strings, string lists and `common.c`

The text layer below the store, over bytes.

* `CString` is a NUL-terminated string: a byte list without a zero byte, so that a list of bytes that no C
  string holds cannot be one.  `CString.ofBuffer` is the string that a byte buffer holds; it is also what a
  copy made by `string_list_append` or `sql_strdup` keeps of its source.  `lit` is a literal of the source.
* `StringList` is a list of C strings; its capacity is left out.
* `tolower`, `isspace` and `isdigit` are those of the C locale, `strcmp` and `sqlStricmp` return the sign of
  the first difference.
* `toCInt` is the `int` that holds a count, for the counters of the source that are `int`s.
* `findColumnIndex` looks a column up by its name, `ReadFault` are the ways `read_text_file` can fail.

The facts that the other modules use of these: `strcmp_eq_zero` (equal bytes), `sqlStricmp_eq_zero` (equal
bytes after `tolower`), `findColumnIndex_exists` and `findColumnIndex_congr` (up to case, a name that is there
is found), and the linear order on 64-bit words.
-/

namespace MiniSql

abbrev Bytes := List UInt8

/-- The bytes of a C string, without the terminating NUL. -/
structure CString where
  bytes : Bytes
  nul_free : (0 : UInt8) ∉ bytes
  deriving DecidableEq

namespace CString

@[ext] theorem ext {s t : CString} (h : s.bytes = t.bytes) : s = t := by
  cases s
  cases t
  simpa using h

/-- The C string a byte buffer holds: everything before its first NUL. -/
def ofBuffer (buffer : Bytes) : CString where
  bytes := buffer.takeWhile (fun b => decide (b ≠ 0))
  nul_free := fun h => by simpa using List.mem_takeWhile_imp h

theorem ofBuffer_bytes {buffer : Bytes} (h : (0 : UInt8) ∉ buffer) :
    (ofBuffer buffer).bytes = buffer := by
  refine List.takeWhile_eq_self_iff.mpr fun b hb => ?_
  simpa using ne_of_mem_of_not_mem hb h

@[simp] theorem ofBuffer_of_bytes (s : CString) : ofBuffer s.bytes = s :=
  ext (ofBuffer_bytes s.nul_free)

theorem length_ofBuffer_le (buffer : Bytes) : (ofBuffer buffer).bytes.length ≤ buffer.length :=
  (List.takeWhile_sublist _).length_le

/-- The empty string `""`. -/
def empty : CString := ⟨[], by simp⟩

instance : Inhabited CString := ⟨empty⟩

/-- Concatenation, as `snprintf` with consecutive `%s` does it. -/
def append (s t : CString) : CString where
  bytes := s.bytes ++ t.bytes
  nul_free := fun h => (List.mem_append.mp h).elim s.nul_free t.nul_free

instance : Append CString := ⟨append⟩

@[simp] theorem append_bytes (s t : CString) : (s ++ t).bytes = s.bytes ++ t.bytes := rfl

@[simp] theorem empty_bytes : empty.bytes = [] := rfl

/-- `strlen`. -/
def length (s : CString) : ℕ := s.bytes.length

end CString

/-- A string literal of the source, in the encoding of the source files. -/
def lit (s : String) : CString := CString.ofBuffer s.toUTF8.data.toList

/-- `StringList`: the items up to `count`. -/
abbrev StringList := List CString

/-! ### Characters of the C locale -/

/-- `tolower`. -/
def tolower (c : UInt8) : UInt8 := if 65 ≤ c ∧ c ≤ 90 then c + 32 else c

/-- `isspace`: blank, tab, newline, vertical tab, form feed, carriage return. -/
def isspace (c : UInt8) : Bool := c = 32 || (9 ≤ c && c ≤ 13)

/-- `isdigit`. -/
def isdigit (c : UInt8) : Bool := 48 ≤ c && c ≤ 57

/-- `tolower` keeps the terminator and everything else apart. -/
theorem tolower_eq_zero {c : UInt8} : tolower c = 0 ↔ c = 0 := by
  unfold tolower
  split
  · rename_i h
    constructor
    · intro h0
      have h1 := congrArg UInt8.toNat h0
      have h2 := UInt8.le_iff_toNat_le.mp h.1
      have h3 := UInt8.le_iff_toNat_le.mp h.2
      simp [UInt8.toNat_add] at h1 h2 h3
      omega
    · rintro rfl
      exact absurd h.1 (by decide)
  · rfl

/-! ### `int` -/

/-- `INT_MAX`. -/
def intMax : ℕ := 2 ^ 31 - 1

/-- The `int` of 32 bits that holds a count: a `size_t` converted, or a counter that has gone up to it. -/
def toCInt (n : ℕ) : ℤ := (n : ℤ).bmod (2 ^ 32)

theorem toCInt_of_le {n : ℕ} (h : n ≤ intMax) : toCInt n = n := by
  rw [intMax] at h
  apply Int.bmod_eq_of_le
  · omega
  · omega

theorem toCInt_le (n : ℕ) : toCInt n ≤ intMax := by
  have h : toCInt n < ((2 ^ 32 : ℕ) + 1) / 2 := Int.bmod_lt (Nat.two_pow_pos 32)
  rw [intMax]
  omega

/-! ### Comparison -/

/-- `strcmp`, as the sign of the first difference of unsigned bytes. -/
def strcmpBytes : Bytes → Bytes → ℤ
  | [], [] => 0
  | [], _ :: _ => -1
  | _ :: _, [] => 1
  | a :: as, b :: bs => if a < b then -1 else if b < a then 1 else strcmpBytes as bs

def strcmp (s t : CString) : ℤ := strcmpBytes s.bytes t.bytes

theorem strcmpBytes_eq_zero {s t : Bytes} : strcmpBytes s t = 0 ↔ s = t := by
  induction s generalizing t with
  | nil => cases t <;> simp [strcmpBytes]
  | cons a as ih =>
    cases t with
    | nil => simp [strcmpBytes]
    | cons b bs =>
      rw [strcmpBytes]
      by_cases hab : a < b
      · have hne : a ≠ b := fun h => UInt8.lt_irrefl b (h ▸ hab)
        simp [hab, hne]
      · by_cases hba : b < a
        · have hne : a ≠ b := fun h => UInt8.lt_irrefl b (h ▸ hba)
          simp [hab, hba, hne]
        · have heq : a = b := UInt8.le_antisymm (UInt8.not_lt.mp hba) (UInt8.not_lt.mp hab)
          simp [heq, ih]

/-- Two C strings compare equal exactly when they are the same bytes. -/
@[simp] theorem strcmp_eq_zero {s t : CString} : strcmp s t = 0 ↔ s = t := by
  rw [strcmp, strcmpBytes_eq_zero]
  exact ⟨CString.ext, fun h => h ▸ rfl⟩

/-- `sql_stricmp` walks both strings while neither has ended and compares what it stops at. -/
def sqlStricmpBytes : Bytes → Bytes → ℤ
  | a :: as, b :: bs =>
      if tolower a ≠ tolower b then (tolower a).toNat - (tolower b).toNat
      else sqlStricmpBytes as bs
  | [], [] => 0
  | a :: _, [] => (tolower a).toNat
  | [], b :: _ => - (tolower b).toNat

def sqlStricmp (left right : CString) : ℤ := sqlStricmpBytes left.bytes right.bytes

theorem sqlStricmpBytes_eq_zero {s t : Bytes} (hs : (0 : UInt8) ∉ s) (ht : (0 : UInt8) ∉ t) :
    sqlStricmpBytes s t = 0 ↔ s.map tolower = t.map tolower := by
  have hpos : ∀ c : UInt8, c ≠ 0 → (tolower c).toNat ≠ 0 := by
    intro c hc h0
    exact hc (tolower_eq_zero.mp (UInt8.toNat_inj.mp (by simpa using h0)))
  induction s generalizing t with
  | nil =>
    cases t with
    | nil => simp [sqlStricmpBytes]
    | cons b bs =>
      have hb := hpos b (fun h => ht (by simp [h]))
      simp [sqlStricmpBytes]
      simpa using hb
  | cons a as ih =>
    cases t with
    | nil =>
      have ha := hpos a (fun h => hs (by simp [h]))
      simp [sqlStricmpBytes]
      simpa using ha
    | cons b bs =>
      rw [sqlStricmpBytes]
      have ih' := ih (fun h => hs (List.mem_cons_of_mem a h)) (fun h => ht (List.mem_cons_of_mem b h))
      by_cases hab : tolower a = tolower b
      · simp [hab, ih']
      · have hne : (tolower a).toNat ≠ (tolower b).toNat := fun h => hab (UInt8.toNat_inj.mp h)
        simp [hab]
        omega

/-- Case-insensitive equality is equality after `tolower`. -/
theorem sqlStricmp_eq_zero {s t : CString} :
    sqlStricmp s t = 0 ↔ s.bytes.map tolower = t.bytes.map tolower :=
  sqlStricmpBytes_eq_zero s.nul_free t.nul_free

/-! ### Column lookup -/

/-- `find_column_index`: the first column with the given name; `none` is the `-1` of the source.  The cast
`(int) i` keeps the index of a schema with at most `INT_MAX` columns. -/
def findColumnIndex (columns : StringList) (name : CString) : Option ℕ :=
  columns.findIdx? fun c => decide (sqlStricmp c name = 0)

theorem findColumnIndex_lt {columns : StringList} {name : CString} {i : ℕ}
    (h : findColumnIndex columns name = some i) : i < columns.length := by
  obtain ⟨hi, -⟩ := List.findIdx?_eq_some_iff_getElem.mp h
  exact hi

/-- The name is one of the columns, up to case. -/
def ColumnExists (columns : StringList) (name : CString) : Prop :=
  ∃ c ∈ columns, sqlStricmp c name = 0

theorem findColumnIndex_ne_none {columns : StringList} {name : CString} :
    findColumnIndex columns name ≠ none ↔ ColumnExists columns name := by
  rw [findColumnIndex, ne_eq, List.findIdx?_eq_none_iff, ColumnExists]
  simp

theorem findColumnIndex_congr {a b : CString} (h : sqlStricmp a b = 0) (columns : StringList) :
    findColumnIndex columns a = findColumnIndex columns b := by
  rw [sqlStricmp_eq_zero] at h
  have hsame : (fun c => decide (sqlStricmp c a = 0)) = fun c => decide (sqlStricmp c b = 0) := by
    funext c
    rw [decide_eq_decide, sqlStricmp_eq_zero, sqlStricmp_eq_zero, h]
  rw [findColumnIndex, findColumnIndex, hsame]

theorem findColumnIndex_exists {columns : StringList} {name : CString}
    (h : ColumnExists columns name) :
    ∃ i, findColumnIndex columns name = some i ∧ i < columns.length := by
  obtain ⟨i, hi⟩ := Option.ne_none_iff_exists'.mp (findColumnIndex_ne_none.mpr h)
  exact ⟨i, hi, findColumnIndex_lt hi⟩

/-! ### Reading files -/

/-- How `read_text_file` can fail behind `fopen`: `fseek`, `ftell`, the second `fseek`, `malloc`, `fread`. -/
inductive ReadFault where
  | seek
  | size
  | rewind
  | memory
  | short
  deriving DecidableEq

def ReadFault.message (path : CString) : ReadFault → CString
  | seek => lit "failed to seek file: " ++ path
  | size => lit "failed to determine file size: " ++ path
  | rewind => lit "failed to rewind file: " ++ path
  | memory => lit "out of memory while reading: " ++ path
  | short => lit "failed to read complete file: " ++ path

/-! ### The order on 64-bit words -/

instance uint64LinearOrder : LinearOrder UInt64 where
  le_refl := UInt64.le_refl
  le_trans := fun _ _ _ => UInt64.le_trans
  le_antisymm := fun _ _ => UInt64.le_antisymm
  le_total := UInt64.le_total
  lt_iff_le_not_ge := fun a b => by
    rw [UInt64.lt_iff_toNat_lt, UInt64.le_iff_toNat_le, UInt64.le_iff_toNat_le]
    omega
  toDecidableLE := fun a b => inferInstance
  toDecidableEq := fun a b => inferInstance
  toDecidableLT := fun a b => inferInstance

end MiniSql
