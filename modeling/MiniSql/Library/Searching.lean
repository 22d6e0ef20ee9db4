import Mathlib.Data.List.Basic
import Mathlib.Data.List.Infix

/-!
# Searching texts

The search for a pattern in a text by trying one position after the other, with characters compared after
`fold`.

* `startsWith fold text pattern` and `contains fold text pattern` are the two loops.
* `contains_iff`: the pattern is found if and only if it is an infix of the text when both are folded.

The other lemmas say where a pattern can be in a text that is put together from parts: `infix_around`, on one
side of a character it does not contain, and `infix_behind`, not across the front of a part that does not have
its first character.  `infix_map_iff_of_injective` is for maps that keep characters apart.
-/

namespace Searching

variable {α β : Type*}

/-! ### The search -/

section Search

variable [DecidableEq β] (fold : α → β)

/-- The text starts with the pattern. -/
def startsWith : List α → List α → Bool
  | _, [] => true
  | [], _ :: _ => false
  | a :: text, b :: pattern => if fold a ≠ fold b then false else startsWith text pattern

/-- The pattern is somewhere in the text, before its end. -/
def contains : List α → List α → Bool
  | [], _ => false
  | a :: text, pattern => if startsWith fold (a :: text) pattern then true else contains text pattern

variable {fold}

theorem startsWith_iff {text pattern : List α} :
    startsWith fold text pattern = true ↔ pattern.map fold <+: text.map fold := by
  induction text generalizing pattern with
  | nil => cases pattern <;> simp [startsWith]
  | cons a text ih =>
    cases pattern with
    | nil => simp [startsWith]
    | cons b pattern =>
      rw [startsWith, List.map_cons, List.map_cons, List.cons_prefix_cons]
      by_cases h : fold a = fold b
      · rw [if_neg (not_not.mpr h), ih]
        exact (and_iff_right h.symm).symm
      · rw [if_pos h]
        exact ⟨fun hfalse => absurd hfalse Bool.false_ne_true, fun hprefix => absurd hprefix.1.symm h⟩

/-- A pattern is found if and only if it is an infix up to `fold`. -/
theorem contains_iff {text pattern : List α} (hpattern : pattern ≠ []) :
    contains fold text pattern = true ↔ pattern.map fold <:+: text.map fold := by
  induction text with
  | nil => simp [contains, hpattern]
  | cons a text ih =>
    rw [contains, List.map_cons, List.infix_cons_iff, ← List.map_cons, ← startsWith_iff, ← ih]
    cases startsWith fold (a :: text) pattern <;> simp

end Search

/-! ### Infixes -/

section Infixes

variable {pattern before after : List α} {c : α}

/-- A pattern without `c` is on one side of `c`. -/
theorem infix_around (hc : c ∉ pattern) (hpattern : pattern ≠ []) :
    pattern <:+: before ++ c :: after ↔ pattern <:+: before ∨ pattern <:+: after := by
  rw [List.infix_append_iff_ne_nil]
  constructor
  · rintro (h | h | ⟨front, back, hfront, hback, rfl, -, hprefix⟩)
    · exact Or.inl h
    · rcases List.infix_cons_iff.mp h with hprefix | h
      · obtain ⟨b, pattern, rfl⟩ := List.exists_cons_of_ne_nil hpattern
        obtain ⟨rfl, -⟩ := List.cons_prefix_cons.mp hprefix
        exact absurd List.mem_cons_self hc
      · exact Or.inr h
    · obtain ⟨b, back, rfl⟩ := List.exists_cons_of_ne_nil hback
      obtain ⟨rfl, -⟩ := List.cons_prefix_cons.mp hprefix
      exact absurd (List.mem_append_right _ List.mem_cons_self) hc
  · rintro (h | h)
    · exact Or.inl h
    · exact Or.inr (Or.inl (List.infix_cons h))

/-- A pattern that starts with something else is not at the front. -/
theorem infix_behind (hhead : pattern.head? ≠ some c) (hpattern : pattern ≠ []) :
    pattern <:+: c :: after ↔ pattern <:+: after := by
  obtain ⟨b, pattern, rfl⟩ := List.exists_cons_of_ne_nil hpattern
  rw [List.infix_cons_iff, List.cons_prefix_cons]
  refine or_iff_right fun h => hhead ?_
  rw [h.1]
  rfl

theorem infix_map_iff_of_injective {f : α → β} (hf : Function.Injective f) {text : List α} :
    pattern.map f <:+: text.map f ↔ pattern <:+: text := by
  rw [List.infix_map_iff]
  constructor
  · rintro ⟨other, hother, heq⟩
    rwa [List.map_injective_iff.mpr hf heq]
  · exact fun h => ⟨pattern, h, rfl⟩

end Infixes

end Searching
