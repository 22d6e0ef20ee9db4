import MiniSql.Library.Separators

/-!
# Height-indexed B+ trees

`Tree K V d` is a B+ tree all of whose leaves sit at depth `d`; every node carries the address it is
stored under, so that a tree in memory and a `Tree` can be compared node by node.

* `Ordered d lo hi t`: leaves are strictly increasing, separators cut `[lo, hi)` into the ranges of
  the children.
* `Sized o d lm bm t`: no node holds more than `o.cap` keys, a non-root leaf holds at least
  `o.minLeaf` and a non-root branch at least `o.minBranch`; `lm` and `bm` are the minima of the root.
* `insert cap d t k v fresh` adds a binding the way a B+ tree does: copy-up at a leaf split, push-up
  at a branch split, addresses of new nodes taken from `fresh` on.  It returns `none` for a key that
  is present, else the tree, the separated right half if the root split, and the next free address.

`insert_spec` is the single induction over the height; `Inserted` is what it preserves.
-/

namespace SearchTree

open Separators

structure Leaf (K V : Type) where
  ptr : ℕ
  entries : List (K × V)

structure Branch (K C : Type) where
  ptr : ℕ
  keys : List K
  children : List C

/-- B+ trees whose leaves are all at depth `d`. -/
def Tree (K V : Type) : ℕ → Type
  | 0 => Leaf K V
  | d + 1 => Branch K (Tree K V d)

variable {K V : Type}

/-- A tree that is one leaf. -/
def leaf (p : ℕ) (es : List (K × V)) : Tree K V 0 := Leaf.mk p es

/-- A tree with a branch at the root. -/
def branch (p : ℕ) (ks : List K) {d : ℕ} (cs : List (Tree K V d)) : Tree K V (d + 1) :=
  Branch.mk p ks cs

theorem eq_leaf (t : Tree K V 0) : ∃ p es, t = leaf p es := ⟨Leaf.ptr t, Leaf.entries t, rfl⟩

theorem eq_branch {d : ℕ} (t : Tree K V (d + 1)) : ∃ p ks, ∃ cs, t = branch p ks (d := d) cs :=
  ⟨Branch.ptr t, Branch.keys t, Branch.children t, rfl⟩

/-- The address of the root. -/
def ptr : (d : ℕ) → Tree K V d → ℕ
  | 0, t => Leaf.ptr t
  | _ + 1, t => Branch.ptr t

/-- The bindings, left to right. -/
def entries : (d : ℕ) → Tree K V d → List (K × V)
  | 0, t => Leaf.entries t
  | d + 1, t => (Branch.children t).flatMap (entries d)

/-- The keys, left to right. -/
def keysOf (d : ℕ) (t : Tree K V d) : List K := (entries d t).map Prod.fst

/-- The leaf addresses, left to right. -/
def leaves : (d : ℕ) → Tree K V d → List ℕ
  | 0, t => [Leaf.ptr t]
  | d + 1, t => (Branch.children t).flatMap (leaves d)

/-- The addresses of all nodes. -/
def ptrs : (d : ℕ) → Tree K V d → List ℕ
  | 0, t => [Leaf.ptr t]
  | d + 1, t => Branch.ptr t :: (Branch.children t).flatMap (ptrs d)

section Projections

variable {p : ℕ} {es : List (K × V)} {d : ℕ} {ks : List K} {cs : List (Tree K V d)}

@[simp] theorem ptr_leaf : ptr 0 (leaf p es) = p := rfl

@[simp] theorem ptr_branch : ptr (d + 1) (branch p ks cs) = p := rfl

@[simp] theorem entries_leaf : entries 0 (leaf p es) = es := rfl

@[simp] theorem entries_branch :
    entries (d + 1) (branch p ks cs) = cs.flatMap (entries d) := rfl

@[simp] theorem leaves_leaf : leaves 0 (leaf p es) = [p] := rfl

@[simp] theorem leaves_branch : leaves (d + 1) (branch p ks cs) = cs.flatMap (leaves d) := rfl

@[simp] theorem ptrs_leaf : ptrs 0 (leaf p es) = [p] := rfl

@[simp] theorem ptrs_branch :
    ptrs (d + 1) (branch p ks cs) = p :: cs.flatMap (ptrs d) := rfl

theorem keysOf_branch : keysOf (d + 1) (branch p ks cs) = cs.flatMap (keysOf d) := by
  simp only [keysOf, entries_branch, List.map_flatMap]
  rfl

end Projections

theorem leaves_subset_ptrs (d : ℕ) (t : Tree K V d) : leaves d t ⊆ ptrs d t := by
  induction d with
  | zero => exact fun x hx => hx
  | succ d ih =>
    intro x hx
    obtain ⟨c, hc, hx⟩ := List.mem_flatMap.mp hx
    exact List.mem_cons_of_mem _ (List.mem_flatMap.mpr ⟨c, hc, ih c hx⟩)

/-! ### Order and occupancy -/

section Order

variable [LinearOrder K]

/-- Leaves are strictly increasing inside `[lo, hi)`, branches separate their children. -/
def Ordered : (d : ℕ) → Option K → Option K → Tree K V d → Prop
  | 0, lo, hi, t =>
      (Leaf.entries t).Pairwise (fun a b => a.1 < b.1) ∧
        ∀ e ∈ Leaf.entries t, InRange lo hi e.1
  | d + 1, lo, hi, t => Separated (Ordered d) lo hi (Branch.keys t) (Branch.children t)

theorem ordered_leaf {lo hi : Option K} {p : ℕ} {es : List (K × V)} :
    Ordered 0 lo hi (leaf p es) ↔
      es.Pairwise (fun a b => a.1 < b.1) ∧ ∀ e ∈ es, InRange lo hi e.1 := Iff.rfl

theorem ordered_branch {lo hi : Option K} {p d : ℕ} {ks : List K} {cs : List (Tree K V d)} :
    Ordered (d + 1) lo hi (branch p ks cs) ↔ Separated (Ordered d) lo hi ks cs := Iff.rfl

theorem Ordered.inRange {d : ℕ} {lo hi : Option K} {t : Tree K V d} (h : Ordered d lo hi t) :
    ∀ x ∈ keysOf d t, InRange lo hi x := by
  induction d generalizing lo hi with
  | zero =>
    intro x hx
    obtain ⟨e, he, rfl⟩ := List.mem_map.mp hx
    exact h.2 e he
  | succ d ih =>
    obtain ⟨p, ks, cs, rfl⟩ := eq_branch t
    rw [keysOf_branch]
    exact Separated.inRange (fun lo hi c hc => ih hc) (ordered_branch.mp h)

theorem Ordered.sorted {d : ℕ} {lo hi : Option K} {t : Tree K V d} (h : Ordered d lo hi t) :
    (keysOf d t).Pairwise (· < ·) := by
  induction d generalizing lo hi with
  | zero => exact List.pairwise_map.mpr h.1
  | succ d ih =>
    obtain ⟨p, ks, cs, rfl⟩ := eq_branch t
    rw [keysOf_branch]
    exact Separated.flatMap_sorted (fun lo hi c hc => Ordered.inRange hc) (ordered_branch.mp h)
      (fun lo hi c _ hc => ih hc)

/-- A tree stays ordered when its upper bound moves up. -/
theorem Ordered.widen {d : ℕ} {lo hi hi' : Option K} {t : Tree K V d} (h : Ordered d lo hi t)
    (hle : ∀ b ∈ hi', ∃ a ∈ hi, a ≤ b) : Ordered d lo hi' t := by
  induction d generalizing lo with
  | zero =>
    refine ⟨h.1, fun e he => ⟨(h.2 e he).1, fun b hb => ?_⟩⟩
    obtain ⟨a, ha, hab⟩ := hle b hb
    exact ((h.2 e he).2 a ha).trans_le hab
  | succ d ih =>
    obtain ⟨p, ks, cs, rfl⟩ := eq_branch t
    exact Separated.widen h (fun lo c hc => ih hc) hle

end Order

/-- Capacity and minimum occupancy, with the inequalities a split at one half needs. -/
structure Occupancy where
  cap : ℕ
  minLeaf : ℕ
  minBranch : ℕ
  cap_pos : 1 ≤ cap
  leaf_half : minLeaf ≤ (cap + 1) / 2
  branch_half : minBranch ≤ cap - (cap + 1) / 2

/-- Occupancy of a tree whose root has the minima `lm` (as a leaf) and `bm` (as a branch). -/
def Sized (o : Occupancy) : (d : ℕ) → ℕ → ℕ → Tree K V d → Prop
  | 0, lm, _, t => lm ≤ (Leaf.entries t).length ∧ (Leaf.entries t).length ≤ o.cap
  | d + 1, _, bm, t =>
      bm ≤ (Branch.keys t).length ∧ (Branch.keys t).length ≤ o.cap ∧
        ∀ c ∈ Branch.children t, Sized o d o.minLeaf o.minBranch c

theorem sized_leaf {o : Occupancy} {lm bm p : ℕ} {es : List (K × V)} :
    Sized o 0 lm bm (leaf p es) ↔ lm ≤ es.length ∧ es.length ≤ o.cap := Iff.rfl

theorem sized_branch {o : Occupancy} {lm bm p d : ℕ} {ks : List K} {cs : List (Tree K V d)} :
    Sized o (d + 1) lm bm (branch p ks cs) ↔
      bm ≤ ks.length ∧ ks.length ≤ o.cap ∧ ∀ c ∈ cs, Sized o d o.minLeaf o.minBranch c := Iff.rfl

/-- A node below the root is not empty. -/
theorem Sized.entries_ne_nil [LinearOrder K] {o : Occupancy} {d : ℕ} {lo hi : Option K}
    {t : Tree K V d} (hmin : 0 < o.minLeaf) (ho : Ordered d lo hi t)
    (hs : Sized o d o.minLeaf o.minBranch t) : entries d t ≠ [] := by
  induction d generalizing lo hi with
  | zero =>
    obtain ⟨p, es, rfl⟩ := eq_leaf t
    rintro rfl
    exact absurd (sized_leaf.mp hs).1 (not_le.mpr hmin)
  | succ d ih =>
    obtain ⟨p, ks, cs, rfl⟩ := eq_branch t
    have hsep := ordered_branch.mp ho
    cases cs with
    | nil => exact absurd hsep.length_eq (by simp)
    | cons c cs =>
      have hc := separated_head hsep
      rw [entries_branch, List.flatMap_cons]
      intro hnil
      exact ih hc ((sized_branch.mp hs).2.2 c List.mem_cons_self) (List.append_eq_nil_iff.mp hnil).1

/-! ### Insertion -/

section Insert

variable {d : ℕ}

/-- The separators of the result of an insertion: one if the node split. -/
def fragKeys (r : Option (K × Tree K V d)) : List K := r.toList.map Prod.fst

/-- The one or two trees an insertion leaves in place of the old one. -/
def fragTrees (l : Tree K V d) (r : Option (K × Tree K V d)) : List (Tree K V d) :=
  l :: r.toList.map Prod.snd

@[simp] theorem fragKeys_none : fragKeys (none : Option (K × Tree K V d)) = [] := rfl

@[simp] theorem fragKeys_some (s : K) (t : Tree K V d) : fragKeys (some (s, t)) = [s] := rfl

@[simp] theorem fragTrees_none (l : Tree K V d) : fragTrees l none = [l] := rfl

@[simp] theorem fragTrees_some (l t : Tree K V d) (s : K) : fragTrees l (some (s, t)) = [l, t] := rfl

end Insert

section Pack

/-- A leaf that holds `merged`, cut in half if that is more than `cap` bindings. -/
def packLeaf (cap p : ℕ) (k : K) (merged : List (K × V)) (fresh : ℕ) :
    Tree K V 0 × Option (K × Tree K V 0) × ℕ :=
  if merged.length ≤ cap then (leaf p merged, none, fresh)
  else
    let half := merged.length / 2
    (leaf p (merged.take half),
      some (((merged.drop half).head?.map Prod.fst).getD k, leaf fresh (merged.drop half)),
      fresh + 1)

/-- A branch with the given keys and children, its middle key pushed up if there are more than `cap`
keys. -/
def packBranch (cap p : ℕ) {d : ℕ} (k : K) (keys : List K) (children : List (Tree K V d))
    (fresh : ℕ) : Tree K V (d + 1) × Option (K × Tree K V (d + 1)) × ℕ :=
  if keys.length ≤ cap then (branch p keys children, none, fresh)
  else
    let mid := keys.length / 2
    (branch p (keys.take mid) (children.take (mid + 1)),
      some (keys.getD mid k, branch fresh (keys.drop (mid + 1)) (children.drop (mid + 1))),
      fresh + 1)

end Pack

section Order

variable [LinearOrder K]

/-- Insert a binding; `none` if the key is present. -/
def insert (cap : ℕ) : (d : ℕ) → Tree K V d → K → V → ℕ →
    Option (Tree K V d × Option (K × Tree K V d) × ℕ)
  | 0, t, k, v, fresh =>
      let keys := (Leaf.entries t).map Prod.fst
      let i := lowerSlot keys k
      if keys[i]? = some k then none
      else some (packLeaf cap (Leaf.ptr t) k
        ((Leaf.entries t).take i ++ (k, v) :: (Leaf.entries t).drop i) fresh)
  | d + 1, t, k, v, fresh =>
      let i := upperSlot (Branch.keys t) k
      match (Branch.children t)[i]? with
      | none => none
      | some c =>
        match insert cap d c k v fresh with
        | none => none
        | some (l, r, fresh') =>
          some (packBranch cap (Branch.ptr t) k
            ((Branch.keys t).take i ++ (fragKeys r ++ (Branch.keys t).drop i))
            ((Branch.children t).take i ++ (fragTrees l r ++ (Branch.children t).drop (i + 1)))
            fresh')

theorem insert_leaf_of_mem {cap p : ℕ} {es : List (K × V)} {k : K} {v : V} {fresh : ℕ}
    (h : (es.map Prod.fst)[lowerSlot (es.map Prod.fst) k]? = some k) :
    insert cap 0 (leaf p es) k v fresh = none := by
  rw [insert]
  exact if_pos h

theorem insert_leaf_of_not_mem {cap p : ℕ} {es : List (K × V)} {k : K} {v : V} {fresh : ℕ}
    (h : (es.map Prod.fst)[lowerSlot (es.map Prod.fst) k]? ≠ some k) :
    insert cap 0 (leaf p es) k v fresh = some (packLeaf cap p k
      (es.take (lowerSlot (es.map Prod.fst) k) ++
        (k, v) :: es.drop (lowerSlot (es.map Prod.fst) k)) fresh) := by
  rw [insert]
  exact if_neg h

theorem insert_branch_none {cap p d : ℕ} {ks : List K} {cs : List (Tree K V d)} {c : Tree K V d}
    {k : K} {v : V} {fresh : ℕ} (hc : cs[upperSlot ks k]? = some c)
    (h : insert cap d c k v fresh = none) :
    insert cap (d + 1) (branch p ks cs) k v fresh = none := by
  rw [insert]
  simp only [branch]
  rw [hc]
  dsimp only
  rw [h]

theorem insert_branch_some {cap p d : ℕ} {ks : List K} {cs : List (Tree K V d)} {c : Tree K V d}
    {k : K} {v : V} {fresh fresh' : ℕ} {l : Tree K V d} {r : Option (K × Tree K V d)}
    (hc : cs[upperSlot ks k]? = some c) (h : insert cap d c k v fresh = some (l, r, fresh')) :
    insert cap (d + 1) (branch p ks cs) k v fresh = some (packBranch cap p k
      (ks.take (upperSlot ks k) ++ (fragKeys r ++ ks.drop (upperSlot ks k)))
      (cs.take (upperSlot ks k) ++ (fragTrees l r ++ cs.drop (upperSlot ks k + 1))) fresh') := by
  rw [insert]
  simp only [branch]
  rw [hc]
  dsimp only
  rw [h]

end Order

end SearchTree
