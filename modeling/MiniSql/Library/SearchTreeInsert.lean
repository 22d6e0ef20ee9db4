import MiniSql.Library.SearchTree

/-!
# Insertion keeps B+ trees B+ trees

What `insert` makes of a B+ tree, by one induction over the height (`insert_spec`).

* `Inserted` is what the induction carries: the one or two trees that are left are a separated run over the
  range of the old one, their leaves hold the old bindings and the new one, they respect the occupancy, and
  every address is an old one or new.
* `AddsBinding` is the part about the bindings; `AddsBinding.frame`, `AddsBinding.mem_iff` and
  `AddsBinding.perm` say what it means for the rest of a list.

A branch is handled by focusing on the child the key belongs to (`Separators.separated_focus`): the one or two
trees the insertion leaves there are a separated run over the child's range, so the branch with that run
spliced in is separated again, and `packBranch` cuts it at its middle key if it has become too wide.
`packLeaf_ordered`, `packLeaf_sized_split` and the lemmas next to them say what the two cuts preserve;
`insert_of_mem` covers the key that is present.
-/

namespace SearchTree

open Separators

variable {K V : Type} [LinearOrder K] {o : Occupancy} {d : ℕ}

/-- `l'` is the sorted list `l` with the binding `(k, v)` put where `k` belongs. -/
def AddsBinding (k : K) (v : V) (l l' : List (K × V)) : Prop :=
  ∃ A B, l = A ++ B ∧ l' = A ++ (k, v) :: B ∧ (∀ a ∈ A, a.1 < k) ∧ ∀ b ∈ B, k < b.1

/-- What one insertion of an absent key leaves of a subtree over `[lo, hi)`: the tree `res.1` in
place of `t`, the separated right half `res.2.1` if the root split, and the next free address. -/
structure Inserted (o : Occupancy) (d : ℕ) (lo hi : Option K) (lm bm : ℕ) (t : Tree K V d)
    (k : K) (v : V) (fresh : ℕ) (res : Tree K V d × Option (K × Tree K V d) × ℕ) : Prop where
  ordered : Separated (Ordered d) lo hi (fragKeys res.2.1) (fragTrees res.1 res.2.1)
  sized_whole : res.2.1 = none → Sized o d lm bm res.1
  sized_split : ∀ q ∈ res.2.1,
    Sized o d o.minLeaf o.minBranch res.1 ∧ Sized o d o.minLeaf o.minBranch q.2
  binding : AddsBinding k v (entries d t) ((fragTrees res.1 res.2.1).flatMap (entries d))
  root : ptr d res.1 = ptr d t
  addresses : ∃ new, ((fragTrees res.1 res.2.1).flatMap (ptrs d)).Perm (ptrs d t ++ new) ∧
    new.Nodup ∧ (∀ q ∈ new, fresh ≤ q ∧ q < res.2.2) ∧ fresh ≤ res.2.2
  first_leaf : ((fragTrees res.1 res.2.1).flatMap (leaves d)).head? = (leaves d t).head?

theorem AddsBinding.frame {k : K} {v : V} {l l' A B : List (K × V)} (h : AddsBinding k v l l')
    (hA : ∀ a ∈ A, a.1 < k) (hB : ∀ b ∈ B, k < b.1) :
    AddsBinding k v (A ++ (l ++ B)) (A ++ (l' ++ B)) := by
  obtain ⟨X, Y, rfl, rfl, hX, hY⟩ := h
  refine ⟨A ++ X, Y ++ B, by simp, by simp, ?_, ?_⟩
  · intro a ha
    rcases List.mem_append.mp ha with ha | ha
    · exact hA a ha
    · exact hX a ha
  · intro b hb
    rcases List.mem_append.mp hb with hb | hb
    · exact hY b hb
    · exact hB b hb

theorem AddsBinding.mem_iff {k : K} {v : V} {l l' : List (K × V)} (h : AddsBinding k v l l')
    (e : K × V) : e ∈ l' ↔ e = (k, v) ∨ e ∈ l := by
  obtain ⟨A, B, rfl, rfl, -, -⟩ := h
  simp only [List.mem_append, List.mem_cons]
  tauto

theorem AddsBinding.perm {k : K} {v : V} {l l' : List (K × V)} (h : AddsBinding k v l l') :
    l'.Perm (l ++ [(k, v)]) := by
  obtain ⟨A, B, rfl, rfl, -, -⟩ := h
  exact List.perm_middle.trans (List.perm_append_singleton (k, v) (A ++ B)).symm

/-! ### Packing a leaf -/

section PackLeaf

variable {p : ℕ} {k : K} {merged : List (K × V)} {fresh : ℕ} {lo hi : Option K}

theorem packLeaf_ordered (hs : merged.Pairwise (fun a b => a.1 < b.1))
    (hr : ∀ e ∈ merged, InRange lo hi e.1) :
    Separated (Ordered 0) lo hi (fragKeys (packLeaf o.cap p k merged fresh).2.1)
      (fragTrees (packLeaf o.cap p k merged fresh).1 (packLeaf o.cap p k merged fresh).2.1) := by
  unfold packLeaf
  split
  · exact ⟨hs, hr⟩
  · rename_i hlen
    have hcap := o.cap_pos
    have hcut : merged = merged.take (merged.length / 2) ++ merged.drop (merged.length / 2) :=
      (List.take_append_drop _ _).symm
    generalize hL : merged.take (merged.length / 2) = L at hcut
    generalize hR : merged.drop (merged.length / 2) = R at hcut
    have hLlen : L.length = merged.length / 2 := by rw [← hL, List.length_take]; omega
    have hRlen : R.length = merged.length - merged.length / 2 := by rw [← hR, List.length_drop]
    cases R with
    | nil => simp at hRlen; omega
    | cons e R =>
      cases L with
      | nil => simp at hLlen; omega
      | cons a L =>
        rw [hcut, List.pairwise_append] at hs
        obtain ⟨hsL, hsR, hLR⟩ := hs
        have hhead : (((e :: R).head?.map Prod.fst).getD k) = e.1 := rfl
        simp only [hL, hR, hhead, fragKeys_some, fragTrees_some, separated_cons_cons,
          separated_nil_singleton]
        have hin : ∀ x ∈ a :: L ++ e :: R, InRange lo hi x.1 := hcut ▸ hr
        refine ⟨⟨fun b hb => ?_, fun b hb => ?_⟩, ⟨hsL, fun x hx => ⟨?_, ?_⟩⟩,
          ⟨hsR, fun x hx => ⟨?_, ?_⟩⟩⟩
        · exact ((hin a (by simp)).1 b hb).trans_lt (hLR a (by simp) e (by simp))
        · exact (hin e (by simp)).2 b hb
        · exact (hin x (List.mem_append_left _ hx)).1
        · intro b hb
          obtain rfl : e.1 = b := Option.some.inj hb
          exact hLR x hx e (by simp)
        · intro b hb
          obtain rfl : e.1 = b := Option.some.inj hb
          rcases List.mem_cons.mp hx with rfl | hx
          · exact le_refl _
          · exact ((List.pairwise_cons.mp hsR).1 x hx).le
        · exact (hin x (List.mem_append_right _ hx)).2

omit [LinearOrder K] in
theorem packLeaf_entries :
    (fragTrees (packLeaf o.cap p k merged fresh).1
      (packLeaf o.cap p k merged fresh).2.1).flatMap (entries 0) = merged := by
  unfold packLeaf
  split
  · simp
  · simp

omit [LinearOrder K] in
theorem packLeaf_sized_whole {lm bm : ℕ} (hlm : lm ≤ merged.length)
    (h : (packLeaf o.cap p k merged fresh).2.1 = none) :
    Sized o 0 lm bm (packLeaf o.cap p k merged fresh).1 := by
  unfold packLeaf at h ⊢
  split
  · rename_i hlen
    exact ⟨hlm, hlen⟩
  · rename_i hlen
    simp [hlen] at h

omit [LinearOrder K] in
theorem packLeaf_sized_split (hcap : merged.length ≤ o.cap + 1) :
    ∀ q ∈ (packLeaf o.cap p k merged fresh).2.1,
      Sized o 0 o.minLeaf o.minBranch (packLeaf o.cap p k merged fresh).1 ∧
        Sized o 0 o.minLeaf o.minBranch q.2 := by
  have h1 := o.cap_pos
  have h2 := o.leaf_half
  unfold packLeaf
  split
  · simp
  · intro q hq
    obtain rfl := Option.some.inj hq
    simp only [sized_leaf, List.length_take, List.length_drop]
    omega

omit [LinearOrder K] in
theorem packLeaf_addresses :
    ∃ new, ((fragTrees (packLeaf o.cap p k merged fresh).1
        (packLeaf o.cap p k merged fresh).2.1).flatMap (ptrs 0)).Perm ([p] ++ new) ∧ new.Nodup ∧
      (∀ q ∈ new, fresh ≤ q ∧ q < (packLeaf o.cap p k merged fresh).2.2) ∧
      fresh ≤ (packLeaf o.cap p k merged fresh).2.2 := by
  unfold packLeaf
  split
  · exact ⟨[], by simp, by simp, by simp, le_rfl⟩
  · exact ⟨[fresh], by simp, by simp, by simp, Nat.le_succ _⟩

omit [LinearOrder K] in
theorem packLeaf_root : ptr 0 (packLeaf o.cap p k merged fresh).1 = p := by
  unfold packLeaf
  split <;> rfl

omit [LinearOrder K] in
theorem packLeaf_first_leaf :
    ((fragTrees (packLeaf o.cap p k merged fresh).1
      (packLeaf o.cap p k merged fresh).2.1).flatMap (leaves 0)).head? = some p := by
  unfold packLeaf
  split <;> simp

end PackLeaf

/-! ### Packing a branch -/

section PackBranch

variable {p : ℕ} {k : K} {ks : List K} {cs : List (Tree K V d)} {fresh : ℕ} {lo hi : Option K}

theorem packBranch_ordered (h : Separated (Ordered d) lo hi ks cs) :
    Separated (Ordered (d + 1)) lo hi (fragKeys (packBranch o.cap p k ks cs fresh).2.1)
      (fragTrees (packBranch o.cap p k ks cs fresh).1 (packBranch o.cap p k ks cs fresh).2.1) := by
  unfold packBranch
  split
  · exact h
  · rename_i hlen
    have hcap := o.cap_pos
    have hcs := h.length_eq
    have hmid : ks.length / 2 < ks.length := by omega
    have hks : ks = ks.take (ks.length / 2) ++
        ks.getD (ks.length / 2) k :: ks.drop (ks.length / 2 + 1) := by
      rw [List.getD_eq_getElem _ _ hmid, List.getElem_cons_drop, List.take_append_drop]
    have hcut : cs = cs.take (ks.length / 2 + 1) ++ cs.drop (ks.length / 2 + 1) :=
      (List.take_append_drop _ _).symm
    have hlen' : (cs.take (ks.length / 2 + 1)).length = (ks.take (ks.length / 2)).length + 1 := by
      rw [List.length_take, List.length_take]; omega
    have h' := h
    rw [hks, hcut] at h'
    obtain ⟨hm, hl, hr⟩ := (separated_append_cons hlen').mp h'
    simp only [fragKeys_some, fragTrees_some, separated_cons_cons, separated_nil_singleton,
      ordered_branch]
    exact ⟨hm, hl, hr⟩

omit [LinearOrder K] in
theorem packBranch_flatMap {β : Type} (f : Tree K V (d + 1) → List β) (g : Tree K V d → List β)
    (hfg : ∀ q ks cs, f (branch q ks cs) = cs.flatMap g) :
    (fragTrees (packBranch o.cap p k ks cs fresh).1
      (packBranch o.cap p k ks cs fresh).2.1).flatMap f = cs.flatMap g := by
  unfold packBranch
  split
  · simp [hfg]
  · rw [fragTrees_some]
    simp only [List.flatMap_cons, List.flatMap_nil, hfg, List.append_nil]
    rw [← List.flatMap_append, List.take_append_drop]

omit [LinearOrder K] in
theorem packBranch_sized_whole {lm bm : ℕ} (hbm : bm ≤ ks.length)
    (hcs : ∀ c ∈ cs, Sized o d o.minLeaf o.minBranch c)
    (h : (packBranch o.cap p k ks cs fresh).2.1 = none) :
    Sized o (d + 1) lm bm (packBranch o.cap p k ks cs fresh).1 := by
  unfold packBranch at h ⊢
  split
  · rename_i hlen
    exact ⟨hbm, hlen, hcs⟩
  · rename_i hlen
    simp [hlen] at h

omit [LinearOrder K] in
theorem packBranch_sized_split (hcap : ks.length ≤ o.cap + 1)
    (hcs : ∀ c ∈ cs, Sized o d o.minLeaf o.minBranch c) :
    ∀ q ∈ (packBranch o.cap p k ks cs fresh).2.1,
      Sized o (d + 1) o.minLeaf o.minBranch (packBranch o.cap p k ks cs fresh).1 ∧
        Sized o (d + 1) o.minLeaf o.minBranch q.2 := by
  have h1 := o.cap_pos
  have h2 := o.branch_half
  unfold packBranch
  split
  · simp
  · rename_i hlen
    intro q hq
    obtain rfl := Option.some.inj hq
    have hl : ks.length = o.cap + 1 := by omega
    simp only [sized_branch, List.length_take, List.length_drop, hl]
    exact ⟨⟨by omega, by omega, fun c hc => hcs c (List.mem_of_mem_take hc)⟩,
      ⟨by omega, by omega, fun c hc => hcs c (List.mem_of_mem_drop hc)⟩⟩

omit [LinearOrder K] in
theorem packBranch_addresses (o : Occupancy) (p : ℕ) (k : K) (ks : List K)
    (cs : List (Tree K V d)) (fresh : ℕ) :
    ∃ new, ((fragTrees (packBranch o.cap p k ks cs fresh).1
        (packBranch o.cap p k ks cs fresh).2.1).flatMap (ptrs (d + 1))).Perm
          ((p :: cs.flatMap (ptrs d)) ++ new) ∧ new.Nodup ∧
      (∀ q ∈ new, fresh ≤ q ∧ q < (packBranch o.cap p k ks cs fresh).2.2) ∧
      fresh ≤ (packBranch o.cap p k ks cs fresh).2.2 := by
  unfold packBranch
  split
  · exact ⟨[], by simp, by simp, by simp, le_rfl⟩
  · refine ⟨[fresh], ?_, by simp, by simp, Nat.le_succ _⟩
    rw [fragTrees_some]
    simp only [List.flatMap_cons, List.flatMap_nil, ptrs_branch, List.append_nil, List.cons_append]
    refine List.Perm.cons _ ?_
    conv_rhs => rw [← List.take_append_drop (ks.length / 2 + 1) cs, List.flatMap_append]
    refine List.perm_middle.trans ?_
    exact (List.perm_append_singleton fresh _).symm

omit [LinearOrder K] in
theorem packBranch_root : ptr (d + 1) (packBranch o.cap p k ks cs fresh).1 = p := by
  unfold packBranch
  split <;> rfl

end PackBranch

/-! ### The induction over the height -/

/-- Inserting an absent key into a leaf. -/
theorem insert_leaf {lo hi : Option K} {lm bm p : ℕ} {es : List (K × V)} {k : K} {v : V}
    {fresh : ℕ} (ho : Ordered 0 lo hi (leaf p es)) (hk : InRange lo hi k)
    (hs : Sized o 0 lm bm (leaf p es)) (hnew : k ∉ keysOf 0 (leaf p es)) :
    ∃ res, insert o.cap 0 (leaf p es) k v fresh = some res ∧
      Inserted o 0 lo hi lm bm (leaf p es) k v fresh res := by
  obtain ⟨hsort, hrange⟩ := ordered_leaf.mp ho
  have hkeys : (es.map Prod.fst).Pairwise (· < ·) := List.pairwise_map.mpr hsort
  have hslot : (es.map Prod.fst)[lowerSlot (es.map Prod.fst) k]? ≠ some k :=
    fun h => hnew (List.mem_of_getElem? h)
  have hle : lowerSlot (es.map Prod.fst) k ≤ es.length := by
    simpa using lowerSlot_le (es.map Prod.fst) k
  refine ⟨_, insert_leaf_of_not_mem hslot, ?_⟩
  generalize hi' : lowerSlot (es.map Prod.fst) k = i at *
  have hbefore : ∀ a ∈ es.take i, a.1 < k := by
    intro a ha
    have hmem : a.1 ∈ (es.map Prod.fst).take (lowerSlot (es.map Prod.fst) k) := by
      rw [hi', ← List.map_take]
      exact List.mem_map_of_mem ha
    exact lt_of_mem_take_lowerSlot hmem
  have hafter : ∀ b ∈ es.drop i, k < b.1 := by
    intro b hb
    have hle : k ≤ b.1 := le_of_mem_drop_lowerSlot hkeys
      (by rw [hi', ← List.map_drop]; exact List.mem_map_of_mem hb)
    refine lt_of_le_of_ne hle fun heq => hnew ?_
    exact List.mem_map.mpr ⟨b, List.mem_of_mem_drop hb, heq.symm⟩
  generalize hm : es.take i ++ (k, v) :: es.drop i = merged
  have hlen : merged.length = es.length + 1 := by
    rw [← hm, List.length_append, List.length_cons, List.length_take, List.length_drop]
    omega
  have hmsorted : merged.Pairwise (fun a b => a.1 < b.1) := by
    rw [← List.take_append_drop i es, List.pairwise_append] at hsort
    rw [← hm]
    refine List.pairwise_append.mpr ⟨hsort.1, List.pairwise_cons.mpr ⟨hafter, hsort.2.1⟩, ?_⟩
    intro a ha b hb
    rcases List.mem_cons.mp hb with rfl | hb
    · exact hbefore a ha
    · exact (hbefore a ha).trans (hafter b hb)
  have hmrange : ∀ e ∈ merged, InRange lo hi e.1 := by
    intro e he
    rw [← hm] at he
    rcases List.mem_append.mp he with he | he
    · exact hrange e (List.mem_of_mem_take he)
    · rcases List.mem_cons.mp he with rfl | he
      · exact hk
      · exact hrange e (List.mem_of_mem_drop he)
  obtain ⟨hlm, hcap⟩ := sized_leaf.mp hs
  have hlm' : lm ≤ merged.length := by omega
  have hcap' : merged.length ≤ o.cap + 1 := by omega
  exact {
    ordered := packLeaf_ordered hmsorted hmrange
    sized_whole := packLeaf_sized_whole hlm'
    sized_split := packLeaf_sized_split hcap'
    binding := by
      rw [packLeaf_entries, ← hm]
      exact ⟨es.take i, es.drop i, (List.take_append_drop i es).symm, rfl, hbefore, hafter⟩
    root := packLeaf_root
    addresses := packLeaf_addresses
    first_leaf := packLeaf_first_leaf }

/-- Inserting into a branch, given what the insertion does to the child the key belongs to. -/
theorem insert_branch {lo hi : Option K} {lm bm p : ℕ} {ks : List K} {cs : List (Tree K V d)}
    {k : K} {v : V} {fresh : ℕ} {c : Tree K V d}
    {res : Tree K V d × Option (K × Tree K V d) × ℕ}
    (ho : Ordered (d + 1) lo hi (branch p ks cs)) (hs : Sized o (d + 1) lm bm (branch p ks cs))
    (hc : cs[upperSlot ks k]? = some c)
    (hcs : cs = cs.take (upperSlot ks k) ++ c :: cs.drop (upperSlot ks k + 1))
    (hlen : (cs.take (upperSlot ks k)).length = (ks.take (upperSlot ks k)).length)
    (hres : insert o.cap d c k v fresh = some res)
    (hi' : Inserted o d ((ks.take (upperSlot ks k)).getLast?.or lo)
      ((ks.drop (upperSlot ks k)).head?.or hi) o.minLeaf o.minBranch c k v fresh res) :
    ∃ res', insert o.cap (d + 1) (branch p ks cs) k v fresh = some res' ∧
      Inserted o (d + 1) lo hi lm bm (branch p ks cs) k v fresh res' := by
  obtain ⟨l, r, fresh'⟩ := res
  have hsep := ordered_branch.mp ho
  obtain ⟨hbm, hcap, hsz⟩ := sized_branch.mp hs
  have hks : ks = ks.take (upperSlot ks k) ++ ks.drop (upperSlot ks k) :=
    (List.take_append_drop _ _).symm
  refine ⟨_, insert_branch_some hc hres, ?_⟩
  have hsep' := hsep
  have hbefore : ∀ s ∈ ks.take (upperSlot ks k), s ≤ k := fun s hs => le_of_mem_take_upperSlot hs
  have hafter : ∀ s ∈ ks.drop (upperSlot ks k), k < s :=
    fun s hs => lt_of_mem_drop_upperSlot hsep.sorted hs
  generalize ks.take (upperSlot ks k) = ks₁ at *
  generalize ks.drop (upperSlot ks k) = ks₂ at *
  generalize cs.take (upperSlot ks k) = cs₁ at *
  generalize cs.drop (upperSlot ks k + 1) = cs₂ at *
  subst hcs hks
  -- the branch with the result spliced in is separated
  have hsplice := (separated_focus hlen hsep).2 _ _ hi'.ordered
  have hfl : (fragKeys r).length ≤ 1 := by
    rcases r with _ | ⟨s, t⟩ <;> simp
  rw [List.length_append] at hbm hcap
  have hkeys : (ks₁ ++ (fragKeys r ++ ks₂)).length ≤ o.cap + 1 := by
    rw [List.length_append, List.length_append]
    omega
  have hkeys' : bm ≤ (ks₁ ++ (fragKeys r ++ ks₂)).length := by
    rw [List.length_append, List.length_append]
    omega
  have hsized : ∀ x ∈ cs₁ ++ (fragTrees l r ++ cs₂), Sized o d o.minLeaf o.minBranch x := by
    intro x hx
    simp only [List.mem_append] at hx
    rcases hx with hx | hx | hx
    · exact hsz x (by simp [hx])
    · cases r with
      | none =>
        obtain rfl : x = l := by simpa using hx
        exact hi'.sized_whole rfl
      | some q =>
        have hq := hi'.sized_split q rfl
        rcases (by simpa [fragTrees] using hx : x = l ∨ x = q.2) with rfl | rfl
        · exact hq.1
        · exact hq.2
    · exact hsz x (by simp [hx])
  have hcontents : ∀ lo hi (x : Tree K V d), Ordered d lo hi x →
      ∀ y ∈ keysOf d x, InRange lo hi y := fun lo hi x hx => hx.inRange
  exact {
    ordered := packBranch_ordered hsplice
    sized_whole := packBranch_sized_whole hkeys' hsized
    sized_split := packBranch_sized_split hkeys hsized
    binding := by
      rw [packBranch_flatMap _ (entries d) (fun _ _ _ => rfl), entries_branch]
      simp only [List.flatMap_append, List.flatMap_cons]
      refine hi'.binding.frame ?_ ?_
      · intro a ha
        refine hsep.lt_of_before hcontents hlen hbefore a.1 ?_
        obtain ⟨x, hx, ha⟩ := List.mem_flatMap.mp ha
        exact List.mem_flatMap.mpr ⟨x, hx, List.mem_map_of_mem ha⟩
      · intro b hb
        refine hsep.gt_of_after hcontents hlen hafter b.1 ?_
        obtain ⟨x, hx, hb⟩ := List.mem_flatMap.mp hb
        exact List.mem_flatMap.mpr ⟨x, hx, List.mem_map_of_mem hb⟩
    root := packBranch_root
    addresses := by
      obtain ⟨new₁, hperm₁, hnd₁, hlt₁, hle₁⟩ := hi'.addresses
      obtain ⟨new₂, hperm₂, hnd₂, hlt₂, hle₂⟩ := packBranch_addresses o p k
        (ks₁ ++ (fragKeys r ++ ks₂)) (cs₁ ++ (fragTrees l r ++ cs₂)) fresh'
      refine ⟨new₁ ++ new₂, ?_, ?_, ?_, hle₁.trans hle₂⟩
      · refine hperm₂.trans ?_
        rw [ptrs_branch]
        simp only [List.flatMap_append, List.flatMap_cons, List.cons_append, List.append_assoc]
        refine List.Perm.cons _ (List.Perm.append_left _ ?_)
        refine (hperm₁.append_right _).trans ?_
        simp only [List.append_assoc]
        refine List.Perm.append_left _ ?_
        rw [← List.append_assoc, ← List.append_assoc]
        exact List.perm_append_comm.append_right _
      · refine List.nodup_append.mpr ⟨hnd₁, hnd₂, fun a ha b hb hab => ?_⟩
        have ha' : a < fresh' := (hlt₁ a ha).2
        have hb' : fresh' ≤ b := (hlt₂ b hb).1
        omega
      · intro q hq
        rcases List.mem_append.mp hq with hq | hq
        · exact ⟨(hlt₁ q hq).1, (hlt₁ q hq).2.trans_le hle₂⟩
        · exact ⟨hle₁.trans (hlt₂ q hq).1, (hlt₂ q hq).2⟩
    first_leaf := by
      rw [packBranch_flatMap _ (leaves d) (fun _ _ _ => rfl), leaves_branch]
      simp only [List.flatMap_append, List.flatMap_cons, List.head?_append, hi'.first_leaf] }

/-- **Insertion.**  An absent key is added, in order, within capacity, and at fresh addresses. -/
theorem insert_spec {lo hi : Option K} {lm bm : ℕ} {t : Tree K V d} {k : K} {v : V} {fresh : ℕ}
    (ho : Ordered d lo hi t) (hk : InRange lo hi k) (hs : Sized o d lm bm t)
    (hnew : k ∉ keysOf d t) :
    ∃ res, insert o.cap d t k v fresh = some res ∧ Inserted o d lo hi lm bm t k v fresh res := by
  induction d generalizing lo hi lm bm with
  | zero =>
    obtain ⟨p, es, rfl⟩ := eq_leaf t
    exact insert_leaf ho hk hs hnew
  | succ d ih =>
    obtain ⟨p, ks, cs, rfl⟩ := eq_branch t
    have hsep := ordered_branch.mp ho
    obtain ⟨c, hc, hcs, hlen, hsep'⟩ := hsep.exists_child k
    have hmem : c ∈ cs := List.mem_of_getElem? hc
    have hkc : k ∉ keysOf d c := by
      intro h
      refine hnew ?_
      rw [keysOf_branch]
      exact List.mem_flatMap.mpr ⟨c, hmem, h⟩
    obtain ⟨res, hres, hins⟩ := ih (separated_focus hlen hsep').1
      (inRange_focus hk (fun s hs => le_of_mem_take_upperSlot hs)
        (fun s hs => lt_of_mem_drop_upperSlot hsep.sorted hs))
      ((sized_branch.mp hs).2.2 c hmem) hkc
    exact insert_branch ho hs hc hcs hlen hres hins

/-- Inserting a key that is present does nothing. -/
theorem insert_of_mem {lo hi : Option K} {t : Tree K V d} {k : K} {v : V} {fresh cap : ℕ}
    (ho : Ordered d lo hi t) (hmem : k ∈ keysOf d t) : insert cap d t k v fresh = none := by
  induction d generalizing lo hi with
  | zero =>
    obtain ⟨p, es, rfl⟩ := eq_leaf t
    exact insert_leaf_of_mem (getElem?_lowerSlot_of_mem ho.sorted hmem)
  | succ d ih =>
    obtain ⟨p, ks, cs, rfl⟩ := eq_branch t
    have hsep := ordered_branch.mp ho
    obtain ⟨c, hc, hcs, hlen, hsep'⟩ := hsep.exists_child k
    refine insert_branch_none hc (ih (separated_focus hlen hsep').1 ?_)
    exact hsep'.mem_child (fun lo hi x hx => Ordered.inRange hx) hlen
      (fun s hs => le_of_mem_take_upperSlot hs)
      (fun s hs => lt_of_mem_drop_upperSlot hsep.sorted hs)
      (by rwa [← hcs, ← keysOf_branch])

end SearchTree
