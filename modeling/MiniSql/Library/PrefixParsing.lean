import Mathlib

/-!
# Parsers that read from the front

A parser takes a phrase off the front of a list of tokens and hands on what is behind it.

* `Parser τ ε α` is such a function, with an error of type `ε`; `Language τ α` relates a phrase to its
  meaning.
* `Recognizes p L Follow`: whatever `p` takes is a phrase of `L`, and it takes such a phrase whenever what
  follows is in `Follow`.  The follow condition is what one token of lookahead needs.

The rules:

* `Recognizes.unique`: a phrase is the only one that can be read.
* `Recognizes.pure`, `Recognizes.bind`, `Skips.bind`: parsers in sequence recognize phrases in sequence
  (`Language.seq`, `Language.after`).
* `SepList`, `sepList` and `sepList_recognizes`: items with a separator between them, and the loop that reads
  them; `SepList.alike` is for tokens that are read alike.
-/

namespace PrefixParsing

variable {T E A B : Type}

theorem bind_eq_ok {x : Except E A} {f : A → Except E B} {b : B} :
    (x >>= f) = .ok b ↔ ∃ a, x = .ok a ∧ f a = .ok b := by
  cases x with
  | error e =>
    refine ⟨fun h => (by cases h), ?_⟩
    rintro ⟨a, ha, -⟩
    cases ha
  | ok a =>
    refine ⟨fun h => ⟨a, rfl, h⟩, ?_⟩
    rintro ⟨a', ha, h⟩
    obtain rfl := Except.ok.inj ha
    exact h

/-- The value of the phrase at the front and the tokens behind it, or an error. -/
abbrev Parser (T E A : Type) := List T → Except E (A × List T)

/-- Phrases with their values. -/
abbrev Language (T A : Type) := List T → A → Prop

structure Recognizes (p : Parser T E A) (L : Language T A) (Follow : List T → Prop) : Prop where
  sound : ∀ {tokens : List T} {a : A} {rest : List T}, p tokens = .ok (a, rest) →
    ∃ phrase, tokens = phrase ++ rest ∧ L phrase a
  complete : ∀ {phrase : List T} {a : A} {rest : List T}, L phrase a → Follow rest →
    p (phrase ++ rest) = .ok (a, rest)

/-- One phrase after the other; the second one may depend on the value of the first. -/
def Language.seq (L : Language T A) (M : A → Language T B) : Language T B := fun tokens b =>
  ∃ front a back, tokens = front ++ back ∧ L front a ∧ M a back b

/-- A token that `accepts` holds of, and a phrase behind it. -/
def Language.after (accepts : T → Prop) (L : Language T A) : Language T A := fun tokens a =>
  ∃ t phrase, tokens = t :: phrase ∧ accepts t ∧ L phrase a

section Rules

variable {p : Parser T E A} {L L' : Language T A} {F G : List T → Prop}

/-- Two phrases at the front of the same tokens are the same phrase. -/
theorem Recognizes.unique (h : Recognizes p L F) {phrase phrase' rest rest' : List T} {a a' : A}
    (hL : L phrase a) (hL' : L phrase' a') (hF : F rest) (hF' : F rest')
    (heq : phrase ++ rest = phrase' ++ rest') : phrase = phrase' ∧ a = a' ∧ rest = rest' := by
  have h₁ := h.complete hL hF
  rw [heq, h.complete hL' hF'] at h₁
  obtain ⟨ha, hrest⟩ := Prod.mk.inj (Except.ok.inj h₁)
  refine ⟨?_, ha.symm, hrest.symm⟩
  rw [← hrest] at heq
  exact List.append_cancel_right heq

theorem Recognizes.follow (h : Recognizes p L F) (hGF : ∀ rest, G rest → F rest) :
    Recognizes p L G :=
  ⟨h.sound, fun hL hG => h.complete hL (hGF _ hG)⟩

theorem Recognizes.congr (h : Recognizes p L F) (hL : ∀ phrase a, L phrase a ↔ L' phrase a) :
    Recognizes p L' F where
  sound := by
    intro tokens a rest hp
    obtain ⟨phrase, heq, hphrase⟩ := h.sound hp
    exact ⟨phrase, heq, (hL phrase a).mp hphrase⟩
  complete := fun hL' hF => h.complete ((hL _ _).mpr hL') hF

/-- A parser that reads nothing. -/
theorem Recognizes.pure (a : A) :
    Recognizes (E := E) (fun tokens => .ok (a, tokens)) (fun phrase b => phrase = [] ∧ b = a) F where
  sound := by
    intro tokens b rest h
    obtain ⟨rfl, rfl⟩ := Prod.mk.inj (Except.ok.inj h)
    exact ⟨[], rfl, rfl, rfl⟩
  complete := by
    rintro phrase b rest ⟨rfl, rfl⟩ -
    rfl

/-- Reading two phrases, where the second one with what follows it may follow the first one. -/
theorem Recognizes.bind {q : A → Parser T E B} {M : A → Language T B} (hp : Recognizes p L F)
    (hq : ∀ a, Recognizes (q a) (M a) G)
    (hF : ∀ a phrase b rest, M a phrase b → G rest → F (phrase ++ rest)) :
    Recognizes (fun tokens => p tokens >>= fun r => q r.1 r.2) (L.seq M) G where
  sound := by
    intro tokens b rest h
    obtain ⟨⟨a, tokens'⟩, hpa, hqb⟩ := bind_eq_ok.mp h
    obtain ⟨front, rfl, hfront⟩ := hp.sound hpa
    obtain ⟨back, hback, hM⟩ := (hq a).sound hqb
    refine ⟨front ++ back, ?_, front, a, back, rfl, hfront, hM⟩
    rw [List.append_assoc, ← hback]
  complete := by
    rintro phrase b rest ⟨front, a, back, rfl, hL, hM⟩ hG
    rw [List.append_assoc]
    show (p (front ++ (back ++ rest)) >>= fun r => q r.1 r.2) = _
    rw [hp.complete hL (hF a back b rest hM hG)]
    exact (hq a).complete hM hG

end Rules

/-! ### Tokens -/

/-- A check of the next token, which is then skipped. -/
structure Skips (skip : List T → Except E (List T)) (accepts : T → Prop) : Prop where
  sound : ∀ {tokens rest : List T}, skip tokens = .ok rest → ∃ t, tokens = t :: rest ∧ accepts t
  complete : ∀ {t : T} {rest : List T}, accepts t → skip (t :: rest) = .ok rest

theorem Skips.bind {skip : List T → Except E (List T)} {accepts : T → Prop} {q : Parser T E B}
    {M : Language T B} {G : List T → Prop} (hskip : Skips skip accepts) (hq : Recognizes q M G) :
    Recognizes (fun tokens => skip tokens >>= q) (M.after accepts) G where
  sound := by
    intro tokens b rest h
    obtain ⟨tokens', hs, hqb⟩ := bind_eq_ok.mp h
    obtain ⟨t, rfl, ht⟩ := hskip.sound hs
    obtain ⟨phrase, rfl, hM⟩ := hq.sound hqb
    exact ⟨t :: phrase, rfl, t, phrase, rfl, ht, hM⟩
  complete := by
    rintro phrase b rest ⟨t, back, rfl, ht, hM⟩ hG
    rw [List.cons_append]
    show (skip (t :: (back ++ rest)) >>= q) = _
    rw [hskip.complete ht]
    exact hq.complete hM hG

/-! ### Lists with separators -/

/-- Items with a separator between each two of them. -/
inductive SepList (item : T → Option A) (sep : T → Prop) : Language T (List A)
  | one {t : T} {a : A} : item t = some a → SepList item sep [t] [a]
  | cons {t s : T} {a : A} {tokens : List T} {as : List A} : item t = some a → sep s →
      SepList item sep tokens as → SepList item sep (t :: s :: tokens) (a :: as)

theorem SepList.forall_mem {item : T → Option A} {sep P : T → Prop} {tokens : List T} {as : List A}
    (h : SepList item sep tokens as) (hitem : ∀ t a, item t = some a → P t) (hsep : ∀ t, sep t → P t) :
    ∀ t ∈ tokens, P t := by
  induction h with
  | one ht =>
    intro t hmem
    obtain rfl := List.mem_singleton.mp hmem
    exact hitem t _ ht
  | cons ht hs _ ih =>
    intro t hmem
    rcases List.mem_cons.mp hmem with rfl | hmem
    · exact hitem t _ ht
    · rcases List.mem_cons.mp hmem with rfl | hmem
      · exact hsep t hs
      · exact ih t hmem

/-- A list of items that are read alike. -/
theorem SepList.alike {item : T → Option A} {sep : T → Prop} {R : T → T → Prop}
    (hitem : ∀ {t t' : T} {a : A}, R t t' → item t = some a → item t' = some a)
    (hsep : ∀ {t t' : T}, R t t' → sep t → sep t') {tokens tokens' : List T} {as : List A}
    (h : SepList item sep tokens as) (ha : List.Forall₂ R tokens tokens') :
    SepList item sep tokens' as := by
  induction h generalizing tokens' with
  | one ht =>
    cases ha with
    | cons hR hnil =>
      cases hnil
      exact .one (hitem hR ht)
  | cons ht hs _ ih =>
    cases ha with
    | cons hR hrest =>
      cases hrest with
      | cons hR' htail => exact .cons (hitem hR ht) (hsep hR' hs) (ih htail)

/-- Reading an item, and again after every separator. -/
def sepList (item : T → Option A) (sep : T → Bool) (expected : List T → E) : Parser T E (List A)
  | [] => .error (expected [])
  | [t] =>
      match item t with
      | none => .error (expected [t])
      | some a => .ok ([a], [])
  | t :: s :: rest =>
      match item t with
      | none => .error (expected (t :: s :: rest))
      | some a =>
          if sep s then
            match sepList item sep expected rest with
            | .error e => .error e
            | .ok (as, tail) => .ok (a :: as, tail)
          else .ok ([a], s :: rest)

theorem sepList_recognizes (item : T → Option A) (sep : T → Bool) (expected : List T → E) :
    Recognizes (sepList item sep expected) (SepList item fun t => sep t = true)
      (fun rest => ∀ t ∈ rest.head?, sep t = false) where
  sound := by
    intro tokens
    induction tokens using List.twoStepInduction with
    | nil =>
      intro as rest h
      cases h
    | singleton t =>
      intro as rest h
      rw [sepList] at h
      cases hitem : item t with
      | none => rw [hitem] at h; cases h
      | some a =>
        rw [hitem] at h
        obtain ⟨rfl, rfl⟩ := Prod.mk.inj (Except.ok.inj h)
        exact ⟨[t], rfl, .one hitem⟩
    | cons_cons t s tail ih _ =>
      intro as rest h
      rw [sepList] at h
      cases hitem : item t with
      | none => rw [hitem] at h; cases h
      | some a =>
        rw [hitem] at h
        dsimp only at h
        by_cases hsep : sep s = true
        · rw [if_pos hsep] at h
          cases hrec : sepList item sep expected tail with
          | error e => rw [hrec] at h; cases h
          | ok r =>
            obtain ⟨as', tail'⟩ := r
            rw [hrec] at h
            obtain ⟨rfl, rfl⟩ := Prod.mk.inj (Except.ok.inj h)
            obtain ⟨phrase, rfl, hphrase⟩ := ih hrec
            exact ⟨t :: s :: phrase, rfl, .cons hitem hsep hphrase⟩
        · rw [if_neg hsep] at h
          obtain ⟨rfl, rfl⟩ := Prod.mk.inj (Except.ok.inj h)
          exact ⟨[t], rfl, .one hitem⟩
  complete := by
    intro phrase as rest hL hF
    induction hL with
    | @one t a hitem =>
      cases rest with
      | nil =>
        rw [List.append_nil, sepList, hitem]
      | cons s rest =>
        rw [List.singleton_append, sepList, hitem]
        dsimp only
        rw [if_neg (by rw [hF s rfl]; decide)]
    | @cons t s a tokens as hitem hsep htokens ih =>
      rw [List.cons_append, List.cons_append, sepList, hitem]
      dsimp only
      rw [if_pos hsep, ih]

end PrefixParsing
