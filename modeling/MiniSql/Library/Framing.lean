import Mathlib

/-!
# Records one after the other

A file that consists of encoded records, one behind the other, over any encoding `enc`.

* `stream enc xs` is the concatenation of the encodings of `xs`.
* `located enc base xs` pairs each record with the offset its encoding starts at, the first one at `base`.

The rules:

* `stream_append`, `located_append`: both are homomorphisms, the second one up to the offset.
* `drop_located`: what stands at the offset of a located record begins with its encoding, whatever follows the
  stream.
* `mem_located`, `exists_mem_located`, `zip_located`: the located records are the records.
* `exists_cut`: a prefix of the stream that does not end between two records is some whole records and a part
  of the next one.
-/

namespace Framing

variable {A B : Type}

/-- The encodings of the records, concatenated. -/
def stream (enc : A → List B) (xs : List A) : List B := xs.flatMap enc

/-- The records with the offsets of their encodings, the first one at `base`. -/
def located (enc : A → List B) : ℕ → List A → List (ℕ × A)
  | _, [] => []
  | base, x :: xs => (base, x) :: located enc (base + (enc x).length) xs

@[simp] theorem stream_nil (enc : A → List B) : stream enc [] = [] := rfl

@[simp] theorem stream_cons (enc : A → List B) (x : A) (xs : List A) :
    stream enc (x :: xs) = enc x ++ stream enc xs := rfl

theorem stream_append (enc : A → List B) (xs ys : List A) :
    stream enc (xs ++ ys) = stream enc xs ++ stream enc ys := List.flatMap_append

@[simp] theorem located_nil (enc : A → List B) (base : ℕ) : located enc base [] = [] := rfl

theorem located_append (enc : A → List B) (base : ℕ) (xs ys : List A) :
    located enc base (xs ++ ys) =
      located enc base xs ++ located enc (base + (stream enc xs).length) ys := by
  induction xs generalizing base with
  | nil => simp
  | cons x xs ih =>
    rw [List.cons_append, located, located, ih, stream_cons, List.length_append, List.cons_append,
      Nat.add_assoc]

@[simp] theorem located_map_snd (enc : A → List B) (base : ℕ) (xs : List A) :
    (located enc base xs).map Prod.snd = xs := by
  induction xs generalizing base with
  | nil => rfl
  | cons x xs ih => rw [located, List.map_cons, ih]

theorem mem_of_mem_located {enc : A → List B} {base : ℕ} {xs : List A} {e : ℕ × A}
    (h : e ∈ located enc base xs) : e.2 ∈ xs := by
  rw [← located_map_snd enc base xs]
  exact List.mem_map_of_mem h

theorem exists_mem_located (enc : A → List B) (base : ℕ) {xs : List A} {x : A} (h : x ∈ xs) :
    ∃ off, (off, x) ∈ located enc base xs := by
  rw [← located_map_snd enc base xs] at h
  obtain ⟨⟨off, y⟩, hmem, rfl⟩ := List.mem_map.mp h
  exact ⟨off, hmem⟩

theorem zip_located (enc : A → List B) (base : ℕ) (xs : List A) :
    ((located enc base xs).map Prod.fst).zip xs = located enc base xs := by
  induction xs generalizing base with
  | nil => rfl
  | cons x xs ih => rw [located, List.map_cons, List.zip_cons_cons, ih]

theorem mem_located {enc : A → List B} {base off : ℕ} {xs : List A} {x : A}
    (h : (off, x) ∈ located enc base xs) :
    ∃ before after, xs = before ++ x :: after ∧ off = base + (stream enc before).length := by
  induction xs generalizing base with
  | nil => simp at h
  | cons y ys ih =>
    rw [located] at h
    rcases List.mem_cons.mp h with h | h
    · obtain ⟨rfl, rfl⟩ := Prod.mk.inj h
      exact ⟨[], ys, rfl, by simp⟩
    · obtain ⟨before, after, rfl, rfl⟩ := ih h
      refine ⟨y :: before, after, rfl, ?_⟩
      rw [stream_cons, List.length_append]
      omega

/-- At the offset of a record the stream continues with its encoding. -/
theorem drop_located {enc : A → List B} {off : ℕ} {xs : List A} {x : A}
    (h : (off, x) ∈ located enc 0 xs) (tail : List B) :
    ∃ rest, (stream enc xs ++ tail).drop off = enc x ++ rest := by
  obtain ⟨before, after, rfl, rfl⟩ := mem_located h
  refine ⟨stream enc after ++ tail, ?_⟩
  rw [Nat.zero_add, stream_append, stream_cons, List.append_assoc, List.append_assoc]
  exact List.drop_left

/-- A prefix of a stream that does not end between two records ends inside one. -/
theorem exists_cut {enc : A → List B} {xs : List A} {part : List B} (hpart : part <+: stream enc xs)
    (hcut : ∀ front, front <+: xs → part ≠ stream enc front) :
    ∃ front x back k, xs = front ++ x :: back ∧ 0 < k ∧ k < (enc x).length ∧
      part = stream enc front ++ (enc x).take k := by
  induction xs generalizing part with
  | nil => exact absurd (List.prefix_nil.mp hpart) (hcut [] List.nil_prefix)
  | cons x xs ih =>
    rw [stream_cons] at hpart
    by_cases hlen : part.length < (enc x).length
    · have htake : part = (enc x).take part.length := by
        have h := List.prefix_iff_eq_take.mp hpart
        rwa [List.take_append_of_le_length hlen.le] at h
      have hne : part ≠ [] := hcut [] List.nil_prefix
      exact ⟨[], x, xs, part.length, rfl, List.length_pos_iff.mpr hne, hlen, htake⟩
    · obtain ⟨part', rfl⟩ : enc x <+: part :=
        List.prefix_of_prefix_length_le (List.prefix_append _ _) hpart (not_lt.mp hlen)
      have hcut' : ∀ front, front <+: xs → part' ≠ stream enc front := by
        rintro front hfront rfl
        exact hcut (x :: front) (List.cons_prefix_cons.mpr ⟨rfl, hfront⟩) rfl
      obtain ⟨front, y, back, k, rfl, hpos, hk, rfl⟩ :=
        ih ((List.prefix_append_right_inj _).mp hpart) hcut'
      exact ⟨x :: front, y, back, k, rfl, hpos, hk, by rw [stream_cons, List.append_assoc]⟩

end Framing
