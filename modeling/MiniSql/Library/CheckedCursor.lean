import MiniSql.Library.PrefixParsing

/-!
# Checked cursors

Programs that walk over an array with an index, such as tokenizers and parsers written in C.  What must not
happen is a result of its own, so that it can be shown not to happen:

* `Checked ε α` is a result, an error of the program, or a `Fault`: a read outside the array, a step past the
  last item, or a loop that needs more rounds than it is given.
* `itemAt`, `advance` and `scanWhile` are the reads, the steps and the loops of such programs.

Against them stand parsers, which take items off the front of a list and know of no index:

* `Mirrors`: a checked program, started at an index, does what the parser does on the items from there on, and
  ends at the index of what the parser leaves; so it does not fault.  `Mirrors.pure`, `Mirrors.bind` and
  `MirrorsStep.bind` put such programs together, `Refines` says it of every index.
* `sepListAt_mirrors`: a loop over items with separators mirrors the parser of the list, if its rounds either
  fail or consume something (`FailsOrConsumes`).
* `IsSentinel`: an array that ends with an item no loop goes past, as the zero of a text or the last token.
-/

namespace CheckedCursor

open PrefixParsing

variable {T E A B : Type}

inductive Fault where
  | outside
  | passed
  | rounds
  deriving DecidableEq

/-- A program that may fail with an error of its own, or do what it must not. -/
abbrev Checked (E : Type) := ExceptT E (Except Fault)

def fault (f : Fault) : Checked E A := ExceptT.mk (.error f)

/-- A result without a fault. -/
def ofResult (r : Except E A) : Checked E A := ExceptT.mk (.ok r)

/-- `items[i]` -/
def itemAt (items : List T) (i : ℕ) : Checked E T :=
  match items[i]? with
  | none => fault .outside
  | some t => pure t

/-- `i++`, which must not pass the last item. -/
def advance (items : List T) (i : ℕ) : Checked E ℕ :=
  if i + 1 < items.length then pure (i + 1) else fault .passed

/-- `while (p(items[i])) i++;` -/
def scanWhile (p : T → Bool) (items : List T) : ℕ → ℕ → Checked E ℕ
  | 0, _ => fault .rounds
  | rounds + 1, i => do
      let t ← itemAt items i
      if p t then scanWhile p items rounds (i + 1) else pure i

/-- The items from `i` on, at least one. -/
def At (items : List T) (i : ℕ) (rest : List T) : Prop := items.drop i = rest ∧ rest ≠ []

section At

variable {items rest : List T} {i : ℕ} {t : T}

theorem At.lt (h : At items i rest) : i < items.length := by
  by_contra hle
  exact h.2 (h.1.symm.trans (List.drop_of_length_le (Nat.le_of_not_lt hle)))

theorem At.length (h : At items i rest) : i + rest.length = items.length := by
  have hlt := h.lt
  rw [← h.1, List.length_drop]
  omega

theorem At.item (h : At items i (t :: rest)) : (itemAt items i : Checked E T) = pure t := by
  have hget : items[i]? = some t := by
    rw [← List.head?_drop, h.1]
    rfl
  rw [itemAt, hget]

theorem At.add {front : List T} (h : At items i (front ++ rest)) (hrest : rest ≠ []) :
    At items (i + front.length) rest := by
  refine ⟨?_, hrest⟩
  rw [← List.drop_drop, h.1, List.drop_left]

theorem At.succ (h : At items i (t :: rest)) (hrest : rest ≠ []) : At items (i + 1) rest :=
  @At.add T items rest i [t] h hrest

theorem At.advance (h : At items i (t :: rest)) (hrest : rest ≠ []) :
    (CheckedCursor.advance items i : Checked E ℕ) = pure (i + 1) :=
  if_pos (h.succ hrest).lt

theorem scanWhile_eq {p : T → Bool} {front : List T} (h : At items i (front ++ t :: rest))
    (hfront : ∀ u ∈ front, p u = true) (ht : p t = false) {rounds : ℕ}
    (hrounds : front.length < rounds) :
    (scanWhile p items rounds i : Checked E ℕ) = pure (i + front.length) := by
  induction front generalizing i rounds with
  | nil =>
    obtain ⟨rounds, rfl⟩ := Nat.exists_eq_succ_of_ne_zero (Nat.ne_of_gt hrounds)
    rw [scanWhile, h.item, pure_bind, ht]
    rfl
  | cons u front ih =>
    obtain ⟨rounds, rfl⟩ := Nat.exists_eq_succ_of_ne_zero (Nat.ne_of_gt (Nat.zero_lt_of_lt hrounds))
    have hne : front ++ t :: rest ≠ [] := by simp
    have hrest := ih (h.succ hne) (fun v hv => hfront v (List.mem_cons_of_mem u hv))
      (Nat.lt_of_succ_lt_succ hrounds)
    have hsum : i + 1 + front.length = i + (u :: front).length := by
      rw [List.length_cons]
      omega
    rw [scanWhile, h.item, pure_bind, hfront u List.mem_cons_self, if_pos rfl, hrest, hsum]

end At

/-! ### Refinement -/

/-- The program ends as the parser does, with the cursor at what the parser leaves. -/
def Mirrors (items : List T) (i : ℕ) (r : Checked E (A × ℕ)) : Except E (A × List T) → Prop
  | .error e => r = throw e
  | .ok (a, rest) => ∃ j, r = pure (a, j) ∧ i ≤ j ∧ At items j rest

/-- The same for a program that has no result but the cursor, which it moves on. -/
def MirrorsStep (items : List T) (i : ℕ) (r : Checked E ℕ) : Except E (List T) → Prop
  | .error e => r = throw e
  | .ok rest => ∃ j, r = pure j ∧ i < j ∧ At items j rest

/-- The program does on the array, from any item on, what the parser does on the list. -/
def Refines (items : List T) (p : ℕ → Checked E (A × ℕ)) (q : Parser T E A) : Prop :=
  ∀ i rest, At items i rest → Mirrors items i (p i) (q rest)

section Refines

variable {items rest : List T} {i : ℕ}

theorem Mirrors.pure (a : A) (h : At items i rest) :
    Mirrors items i (Pure.pure (a, i) : Checked E (A × ℕ)) (.ok (a, rest)) :=
  ⟨i, rfl, le_refl i, h⟩

theorem Mirrors.throw (e : E) :
    Mirrors items i (MonadExcept.throw e : Checked E (A × ℕ)) (.error e) := rfl

theorem Mirrors.mono {j : ℕ} {r : Checked E (A × ℕ)} {e : Except E (A × List T)}
    (h : Mirrors items j r e) (hij : i ≤ j) : Mirrors items i r e := by
  cases e with
  | error e => exact h
  | ok ok =>
    obtain ⟨k, hr, hjk, hk⟩ := h
    exact ⟨k, hr, le_trans hij hjk, hk⟩

theorem Mirrors.bind {r : Checked E (A × ℕ)} {e : Except E (A × List T)}
    {f : A × ℕ → Checked E (B × ℕ)} {k : A × List T → Except E (B × List T)}
    (h : Mirrors items i r e)
    (hf : ∀ a j rest, At items j rest → Mirrors items j (f (a, j)) (k (a, rest))) :
    Mirrors items i (r >>= f) (e >>= k) := by
  cases e with
  | error e =>
    obtain rfl : r = MonadExcept.throw e := h
    rfl
  | ok ok =>
    obtain ⟨a, rest⟩ := ok
    obtain ⟨j, rfl, hij, hj⟩ := h
    rw [pure_bind]
    exact (hf a j rest hj).mono hij

theorem MirrorsStep.bind {r : Checked E ℕ} {e : Except E (List T)} {f : ℕ → Checked E (B × ℕ)}
    {k : List T → Except E (B × List T)} (h : MirrorsStep items i r e)
    (hf : ∀ j rest, At items j rest → Mirrors items j (f j) (k rest)) :
    Mirrors items i (r >>= f) (e >>= k) := by
  cases e with
  | error e =>
    obtain rfl : r = MonadExcept.throw e := h
    rfl
  | ok rest =>
    obtain ⟨j, rfl, hij, hj⟩ := h
    rw [pure_bind]
    exact (hf j rest hj).mono (le_of_lt hij)

end Refines

/-! ### Loops over lists -/

/-- A round fails, or moves the cursor on, and never faults. -/
def FailsOrConsumes (items : List T) (i : ℕ) (r : Checked E (A × ℕ)) : Prop :=
  (∃ e, r = throw e) ∨ ∃ a j, r = pure (a, j) ∧ i < j ∧ j < items.length

/-- A round of the loop that reads an item and a separator, if there is one: the item, and whether it
goes on. -/
def sepListRound (item : T → Option A) (sep : T → Bool) (expected : T → E) (items : List T) (i : ℕ) :
    Checked E ((A × Bool) × ℕ) := do
  let t ← itemAt items i
  match item t with
  | none => throw (expected t)
  | some a =>
      let i ← advance items i
      let s ← itemAt items i
      if sep s then
        let i ← advance items i
        pure ((a, true), i)
      else pure ((a, false), i)

/-- The loop, with the items it has read. -/
def sepListAt (item : T → Option A) (sep : T → Bool) (expected : T → E) (items : List T) :
    ℕ → List A → ℕ → Checked E (List A × ℕ)
  | 0, _, _ => fault .rounds
  | rounds + 1, list, i => do
      let ((a, more), i) ← sepListRound item sep expected items i
      if more then sepListAt item sep expected items rounds (list ++ [a]) i
      else pure (list ++ [a], i)

section Loops

variable {item : T → Option A} {sep : T → Bool} {expected : T → E} {items : List T}

/-- Neither an item nor a separator. -/
def IsSentinel (item : T → Option A) (sep : T → Bool) (t : T) : Prop := item t = none ∧ sep t = false

theorem At.last {i : ℕ} {t : T} (h : At items i [t]) : items.getLast? = some t := by
  rw [← List.take_append_drop i items, h.1]
  exact List.getLast?_concat

/-- What is no sentinel has an item behind it. -/
theorem At.behind (hlast : ∀ t ∈ items.getLast?, IsSentinel item sep t) {i : ℕ} {t : T} {rest : List T}
    (h : At items i (t :: rest)) (ht : ¬IsSentinel item sep t) : rest ≠ [] := by
  rintro rfl
  exact ht (hlast t h.last)

theorem sepListRound_cases (hlast : ∀ t ∈ items.getLast?, IsSentinel item sep t) {i : ℕ} {t : T}
    {rest : List T} (h : At items i (t :: rest)) :
    (item t = none ∧ sepListRound item sep expected items i = throw (expected t)) ∨
      ∃ a s tail, rest = s :: tail ∧ item t = some a ∧
        (sep s = true ∧ tail ≠ [] ∧
            sepListRound item sep expected items i = pure ((a, true), i + 2) ∨
          sep s = false ∧ sepListRound item sep expected items i = pure ((a, false), i + 1)) := by
  rw [sepListRound, h.item, pure_bind]
  cases hitem : item t with
  | none => exact Or.inl ⟨rfl, rfl⟩
  | some a =>
    have hrest : rest ≠ [] := by
      apply h.behind hlast
      rintro ⟨hnone, -⟩
      rw [hitem] at hnone
      cases hnone
    obtain ⟨s, tail, rfl⟩ := List.exists_cons_of_ne_nil hrest
    refine Or.inr ⟨a, s, tail, rfl, rfl, ?_⟩
    dsimp only
    rw [h.advance hrest, pure_bind, (h.succ hrest).item, pure_bind]
    cases hsep : sep s with
    | false => exact Or.inr ⟨rfl, rfl⟩
    | true =>
      have htail : tail ≠ [] := by
        apply (h.succ hrest).behind hlast
        rintro ⟨-, hfalse⟩
        rw [hsep] at hfalse
        cases hfalse
      rw [if_pos rfl, (h.succ hrest).advance htail]
      exact Or.inl ⟨rfl, htail, rfl⟩

/-- Every round of the loop fails or consumes an item. -/
theorem sepListRound_consumes (hlast : ∀ t ∈ items.getLast?, IsSentinel item sep t) {i : ℕ}
    (hi : i < items.length) : FailsOrConsumes items i (sepListRound item sep expected items i) := by
  have hne : items.drop i ≠ [] := by simpa using hi
  obtain ⟨t, rest, hdrop⟩ := List.exists_cons_of_ne_nil hne
  have h : At items i (t :: rest) := ⟨hdrop, List.cons_ne_nil t rest⟩
  rcases sepListRound_cases hlast h with ⟨-, hround⟩ | ⟨a, s, tail, rfl, -, hround⟩
  · exact Or.inl ⟨_, hround⟩
  · have hlength := h.length
    simp only [List.length_cons] at hlength
    rcases hround with ⟨-, htail, hround⟩ | ⟨-, hround⟩
    · have hpos := List.length_pos_of_ne_nil htail
      exact Or.inr ⟨_, _, hround, by omega, by omega⟩
    · exact Or.inr ⟨_, _, hround, by omega, by omega⟩

/-- The loop does what the parser of the list does. -/
theorem sepListAt_mirrors (hlast : ∀ t ∈ items.getLast?, IsSentinel item sep t) {error : List T → E}
    (herror : ∀ t rest, error (t :: rest) = expected t) {rounds i : ℕ} {rest : List T}
    (h : At items i rest) (hrounds : rest.length ≤ rounds) (list : List A) :
    Mirrors items i (sepListAt item sep expected items rounds list i)
      ((sepList item sep error rest).map fun r => (list ++ r.1, r.2)) := by
  induction rest using List.twoStepInduction generalizing i rounds list with
  | nil => exact absurd rfl h.2
  | singleton t =>
    obtain ⟨rounds, rfl⟩ := Nat.exists_eq_succ_of_ne_zero (Nat.one_le_iff_ne_zero.mp hrounds)
    rcases @sepListRound_cases T E A item sep expected items hlast i t [] h with
      ⟨hitem, hround⟩ | ⟨_, _, _, hnil, -⟩
    · rw [sepListAt, hround, sepList, hitem]
      show (throw (expected t) : Checked E (List A × ℕ)) = throw (error [t])
      rw [herror]
    · cases hnil
  | cons_cons t s tail ih _ =>
    rw [List.length_cons] at hrounds
    obtain ⟨rounds, rfl⟩ := Nat.exists_eq_succ_of_ne_zero (Nat.ne_of_gt (Nat.zero_lt_of_lt hrounds))
    rw [sepListAt, sepList]
    rcases @sepListRound_cases T E A item sep expected items hlast i t (s :: tail) h with
      ⟨hitem, hround⟩ | ⟨a, _, _, hrest, hitem, hround⟩
    · rw [hround, hitem]
      show (throw (expected t) : Checked E (List A × ℕ)) = throw (error (t :: s :: tail))
      rw [herror]
    · obtain ⟨rfl, rfl⟩ := List.cons.inj hrest
      rw [hitem]
      dsimp only
      rcases hround with ⟨hsep, htail, hround⟩ | ⟨hsep, hround⟩
      · rw [hround, pure_bind, hsep, if_pos rfl, if_pos rfl]
        have hnext := @At.add T items tail i [t, s] h htail
        have hle : tail.length ≤ rounds := by
          rw [List.length_cons] at hrounds
          omega
        have hmono := (ih hnext hle (list ++ [a])).mono (Nat.le_add_right i 2)
        cases hrec : sepList item sep error tail with
        | error e =>
          rw [hrec] at hmono
          exact hmono
        | ok r =>
          rw [hrec] at hmono
          obtain ⟨j, hr, hij, hj⟩ := hmono
          refine ⟨j, hr.trans ?_, hij, hj⟩
          rw [List.append_assoc]
          rfl
      · rw [hround, pure_bind, hsep]
        exact ⟨i + 1, rfl, Nat.le_succ i, h.succ (List.cons_ne_nil s tail)⟩

end Loops

end CheckedCursor
