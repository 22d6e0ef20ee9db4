import Mathlib.Data.List.Basic
import Mathlib.Data.List.TakeWhile

/-!
# Texts in fixed buffers

A character array of C is a list whose length never changes.

* `setByte`, `strlen`, `strncpy` and `snprintf` are `none` where the C operation leaves the array.
* `Holds buffer text` says that `buffer` holds the zero-terminated `text`; `Holds.strlen`, `Holds.type`,
  `Holds.backspace` and `Holds.strncpy` say what each operation does to a buffer that holds a text.
* `snprintf_exact`: a text that the result of the call can count fills a buffer of its own size with its zero.
* `snprintf_stored`: of a longer text only a part is stored, and which part is up to the library.
-/

namespace MiniSql.CBuffer

variable {buffer text src tail : List UInt8} {b c : UInt8} {i n : ℕ}

/-- `buffer[i] = b`. -/
def setByte (buffer : List UInt8) (i : ℕ) (b : UInt8) : Option (List UInt8) :=
  if i < buffer.length then some (buffer.set i b) else none

/-- `strlen`, which reads past the array if nothing ends the text. -/
def strlen (buffer : List UInt8) : Option ℕ := buffer.findIdx? fun b => decide (b = 0)

/-- `strncpy(buffer, src, n)`: at most `n` bytes of the text `src`, padded with zeros to `n`. -/
def strncpy (buffer src : List UInt8) (n : ℕ) : Option (List UInt8) :=
  if n ≤ buffer.length then
    some (src.take n ++ List.replicate (n - src.length) 0 ++ buffer.drop n)
  else none

/-- What `snprintf` stores of a formatted text.  Its result cannot count more than `limit` bytes: for a longer
text the call fails, with the first `kept text` bytes stored. -/
def stored (limit : ℕ) (kept : List UInt8 → ℕ) (text : List UInt8) : List UInt8 :=
  if text.length ≤ limit then text else text.take (kept text)

/-- `snprintf(buffer, n, ...)` with the formatted `text`: at most `n` bytes with the zero behind them. -/
def snprintf (limit : ℕ) (kept : List UInt8 → ℕ) (buffer : List UInt8) (n : ℕ) (text : List UInt8) :
    Option (List UInt8) :=
  let written := (stored limit kept text).take (n - 1) ++ [0]
  if n = 0 then some buffer
  else if written.length ≤ buffer.length then some (written ++ buffer.drop written.length)
  else none

/-- The buffer starts with `text` and a zero, and `text` has no zero. -/
def Holds (buffer text : List UInt8) : Prop :=
  (0 : UInt8) ∉ text ∧ ∃ tail, buffer = text ++ 0 :: tail

theorem Holds.strlen (h : Holds buffer text) : strlen buffer = some text.length := by
  obtain ⟨hzero, tail, rfl⟩ := h
  have hnone : text.findIdx? (fun b => decide (b = 0)) = none := by
    rw [List.findIdx?_eq_none_iff]
    intro b hb
    simpa using ne_of_mem_of_not_mem hb hzero
  simp [CBuffer.strlen, List.findIdx?_append, hnone, List.findIdx?_cons]

/-- The bytes before the first zero are the text. -/
theorem Holds.takeWhile (h : Holds buffer text) :
    buffer.takeWhile (fun b => decide (b ≠ 0)) = text := by
  obtain ⟨hzero, tail, rfl⟩ := h
  rw [List.takeWhile_append_of_pos]
  · simp
  · intro b hb
    simpa using ne_of_mem_of_not_mem hb hzero

theorem setByte_append (text : List UInt8) (c b : UInt8) (tail : List UInt8) :
    setByte (text ++ c :: tail) text.length b = some (text ++ b :: tail) := by
  rw [setByte, if_pos (by simp)]
  simp

/-- A zero at the start empties the buffer. -/
theorem setByte_empty (h : 0 < buffer.length) :
    ∃ buffer', setByte buffer 0 0 = some buffer' ∧ buffer'.length = buffer.length ∧
      Holds buffer' [] := by
  cases buffer with
  | nil => cases h
  | cons c buffer => exact ⟨0 :: buffer, setByte_append [] c 0 buffer, by simp, by simp, buffer, rfl⟩

/-- A zero over the last character shortens the text by it. -/
theorem Holds.backspace (h : Holds buffer (text ++ [c])) :
    ∃ buffer', setByte buffer text.length 0 = some buffer' ∧ buffer'.length = buffer.length ∧
      Holds buffer' text := by
  obtain ⟨hzero, tail, rfl⟩ := h
  refine ⟨text ++ 0 :: 0 :: tail, ?_, by simp, fun hmem => hzero (by simp [hmem]), 0 :: tail, rfl⟩
  rw [List.append_assoc, List.singleton_append]
  exact setByte_append text c 0 (0 :: tail)

/-- A character and a new zero behind the text lengthen it by that character. -/
theorem Holds.type (h : Holds buffer text) (hroom : text.length + 1 < buffer.length)
    (hc : c ≠ 0) :
    ∃ mid buffer', setByte buffer text.length c = some mid ∧
      setByte mid (text.length + 1) 0 = some buffer' ∧ buffer'.length = buffer.length ∧
      Holds buffer' (text ++ [c]) := by
  obtain ⟨hzero, tail, rfl⟩ := h
  cases tail with
  | nil => simp at hroom
  | cons d tail =>
    refine ⟨text ++ c :: d :: tail, (text ++ [c]) ++ 0 :: tail, setByte_append text 0 c _, ?_,
      by simp, ?_, tail, rfl⟩
    · have hset := setByte_append (text ++ [c]) d 0 tail
      simpa using hset
    · simp [hzero, hc.symm]

/-- A text shorter than the copied range is copied whole, with its zero. -/
theorem Holds.strncpy (hsrc : (0 : UInt8) ∉ src) (hlen : src.length < n) (hn : n < buffer.length) :
    ∃ mid buffer', strncpy buffer src n = some mid ∧ setByte mid n 0 = some buffer' ∧
      buffer'.length = buffer.length ∧ Holds buffer' src := by
  obtain ⟨k, hk⟩ : ∃ k, n - src.length = k + 1 := ⟨n - src.length - 1, by omega⟩
  obtain ⟨d, rest, hdrop⟩ : ∃ d rest, buffer.drop n = d :: rest := by
    cases h : buffer.drop n with
    | nil =>
      rw [List.drop_eq_nil_iff] at h
      omega
    | cons d rest => exact ⟨d, rest, rfl⟩
  have hrest : rest.length + 1 + n = buffer.length := by
    have h := congrArg List.length hdrop
    simp only [List.length_drop, List.length_cons] at h
    omega
  have hcopied : (src ++ List.replicate (k + 1) 0).length = n := by
    simp
    omega
  refine ⟨src ++ List.replicate (k + 1) 0 ++ d :: rest, src ++ List.replicate (k + 1) 0 ++ 0 :: rest,
    ?_, ?_, ?_, hsrc, List.replicate k 0 ++ 0 :: rest, ?_⟩
  · rw [CBuffer.strncpy, if_pos hn.le, hk, hdrop, List.take_of_length_le hlen.le]
  · have hset := setByte_append (src ++ List.replicate (k + 1) 0) d 0 rest
    rwa [hcopied] at hset
  · rw [List.length_append, hcopied, List.length_cons]
    omega
  · simp [List.replicate_succ]

section Formatting

variable {limit : ℕ} {kept : List UInt8 → ℕ}

theorem stored_length_le (limit : ℕ) (kept : List UInt8 → ℕ) (text : List UInt8) :
    (stored limit kept text).length ≤ text.length := by
  rw [stored]
  split
  · exact le_rfl
  · exact List.length_take_le' _ _

/-- A buffer of one byte more than the text has room for what is stored of it and a zero. -/
theorem snprintf_stored (h : buffer.length = text.length + 1) :
    snprintf limit kept buffer (text.length + 1) text =
      some (stored limit kept text ++ 0 :: buffer.drop ((stored limit kept text).length + 1)) := by
  have hshort := stored_length_le limit kept text
  have htake : (stored limit kept text).take (text.length + 1 - 1) = stored limit kept text :=
    List.take_of_length_le hshort
  have hwritten : (stored limit kept text ++ [0]).length ≤ buffer.length := by
    rw [h, List.length_append, List.length_singleton]
    exact Nat.succ_le_succ hshort
  rw [snprintf, htake, if_neg (Nat.succ_ne_zero _), if_pos hwritten, List.length_append,
    List.length_singleton, List.append_assoc, List.singleton_append]

/-- A text that can be counted fills the buffer to its last byte. -/
theorem snprintf_exact (kept : List UInt8 → ℕ) (hlimit : text.length ≤ limit)
    (h : buffer.length = text.length + 1) :
    snprintf limit kept buffer (text.length + 1) text = some (text ++ [0]) := by
  have hstored : stored limit kept text = text := if_pos hlimit
  have hdrop : buffer.drop (text.length + 1) = [] := by rw [← h, List.drop_length]
  rw [snprintf_stored h, hstored, hdrop]

end Formatting

end MiniSql.CBuffer
