import MiniSql.BPlusTreeRefinement

/-!
# The id index is a finite map

* `TreeInvariant idx d t` ties `g_index_root` to a B+ tree of height `d`: shape, occupancy and leaf chain.
* `IndexModel idx es` is the view the storage code has of it: the index holds the bindings `es`, sorted by id.
* `WalkFrom h p i es`: from slot `i` of leaf `p` on, a walk along the chain visits exactly `es`.

The operations against this view:

* `IndexModel.insert` and `IndexModel.insert_of_mem`: a new id is added in its place, a known one is reported
  and changes nothing.
* `indexFind_of_rep`: `index_find` answers from the bindings.
* `IndexModel.lowerBound` and `IndexModel.leftmost`: where the walks of a range scan start.

* `indexInsert_refines_map`: after `index_init` and any sequence of `index_insert` calls the index is the map
  of the first insert of every id, in all its return codes and answers, and its nodes are those of a B+ tree.
-/

namespace MiniSql

open Separators SearchTree

/-- `g_index_root` points to the B+ tree `t`: `Ordered` and `Sized` are its shape, `chain` says that
the `next` pointers visit exactly the leaves, in tree order. -/
structure TreeInvariant (idx : IdIndex) (d : ℕ) (t : IdTree d) : Prop where
  ready : idx.ready = true
  root : idx.root = some (ptr d t)
  no_fail : idx.heap.callocFails = []
  rep : Rep idx.heap d t
  nodup : (ptrs d t).Nodup
  ordered : Ordered d none none t
  sized : Sized indexShape d 0 1 t
  chain : Chain idx.heap (leaves d t) none

/-- The index holds exactly the bindings `es`, in ascending order of ids. -/
def IndexModel (idx : IdIndex) (es : List (UInt64 × RowRef)) : Prop :=
  ∃ d t, TreeInvariant idx d t ∧ entries d t = es

/-! ### Height and fuel -/

theorem height_lt_length_ptrs {d : ℕ} {lo hi : Option UInt64} {t : IdTree d}
    (ho : Ordered d lo hi t) : d < (ptrs d t).length := by
  induction d generalizing lo hi with
  | zero =>
    obtain ⟨p, es, rfl⟩ := eq_leaf t
    simp
  | succ d ih =>
    obtain ⟨p, ks, cs, rfl⟩ := eq_branch t
    obtain ⟨c, hc, hcs, hlen, hsep⟩ := (ordered_branch.mp ho).exists_child 0
    have hlt := ih (separated_focus hlen hsep).1
    have hle : (ptrs d c).length ≤ (cs.flatMap (ptrs d)).length := by
      rw [hcs, List.flatMap_append, List.flatMap_cons, List.length_append, List.length_append]
      omega
    rw [ptrs_branch, List.length_cons]
    omega

/-- A path through the tree is no longer than the heap. -/
theorem TreeInvariant.fuel {idx : IdIndex} {d : ℕ} {t : IdTree d} (hi : TreeInvariant idx d t) :
    d < idx.heap.nodes.length := by
  have hsub : (ptrs d t).Subperm (List.range idx.heap.nodes.length) :=
    List.Nodup.subperm hi.nodup fun q hq => List.mem_range.mpr (hi.rep.lt q hq)
  have hle := hsub.length_le
  rw [List.length_range] at hle
  have hlt := height_lt_length_ptrs hi.ordered
  omega

/-! ### `index_init` and `index_insert` -/

theorem indexInit_spec {idx : IdIndex} (hf : idx.heap.callocFails = []) :
    (indexInit idx).1 = 0 ∧ IndexModel (indexInit idx).2 [] := by
  have hinit : indexInit idx = (0, ⟨⟨[.leaf [] none], []⟩, some 0, true⟩) := by
    rw [indexInit, bptCreateNode, hf]
    rfl
  rw [hinit]
  refine ⟨rfl, 0, leaf 0 [], ?_, rfl⟩
  exact {
    ready := rfl
    root := rfl
    no_fail := rfl
    rep := rep_leaf.mpr ⟨none, rfl⟩
    nodup := List.nodup_singleton 0
    ordered := ordered_leaf.mpr ⟨List.Pairwise.nil, by simp⟩
    sized := sized_leaf.mpr ⟨by simp, by simp⟩
    chain := ⟨rfl, trivial⟩ }

theorem Inserted.nodup {d : ℕ} {lo hi : Option UInt64} {lm bm : ℕ} {t : IdTree d} {id : UInt64}
    {ref : RowRef} {h : BptHeap} {res : IdTree d × Option (UInt64 × IdTree d) × ℕ}
    (hins : Inserted indexShape d lo hi lm bm t id ref h.nodes.length res) (hr : Rep h d t)
    (hnd : (ptrs d t).Nodup) : ((fragTrees res.1 res.2.1).flatMap (ptrs d)).Nodup := by
  obtain ⟨new, hperm, hnew, hbound, -⟩ := hins.addresses
  refine hperm.nodup_iff.mpr (List.nodup_append.mpr ⟨hnd, hnew, fun a ha b hb hab => ?_⟩)
  have h1 := hr.lt a ha
  have h2 := (hbound b hb).1
  omega

/-- The two halves of a split root under a new root node. -/
theorem TreeInvariant.grow {h h' : BptHeap} {d : ℕ} {l r : IdTree d} {s : UInt64}
    (hnode : h'.nodes[h.nodes.length]? = some (.internal [s] [ptr d l, ptr d r]))
    (hag : ∀ q, q < h.nodes.length → h'.nodes[q]? = h.nodes[q]?) (hf : h'.callocFails = [])
    (hrep : ∀ x ∈ [l, r], Rep h d x) (hnd : ([l, r].flatMap (ptrs d)).Nodup)
    (ho : Separated (Ordered d) none none [s] [l, r])
    (hs : ∀ x ∈ [l, r], Sized indexShape d indexShape.minLeaf indexShape.minBranch x)
    (hc : Chain h ([l, r].flatMap (leaves d)) none) :
    TreeInvariant ⟨h', some h.nodes.length, true⟩ (d + 1) (branch h.nodes.length [s] [l, r]) where
  ready := rfl
  root := rfl
  no_fail := hf
  rep := rep_branch.mpr ⟨hnode, fun c hc =>
    (hrep c hc).congr fun q hq => hag q ((hrep c hc).lt q hq)⟩
  nodup := by
    rw [ptrs_branch, List.nodup_cons]
    refine ⟨fun hmem => ?_, hnd⟩
    obtain ⟨x, hx, hq⟩ := List.mem_flatMap.mp hmem
    exact lt_irrefl _ ((hrep x hx).lt _ hq)
  ordered := ordered_branch.mpr ho
  sized := sized_branch.mpr ⟨by simp, by simp [indexShape, bptreeMaxKeys], hs⟩
  chain := by
    rw [leaves_branch]
    refine hc.congr fun q hq => ?_
    obtain ⟨x, hx, hq⟩ := List.mem_flatMap.mp hq
    exact hag q ((hrep x hx).lt q (leaves_subset_ptrs d x hq))

theorem TreeInvariant.insert {idx : IdIndex} {d : ℕ} {t : IdTree d} (hi : TreeInvariant idx d t)
    {id : UInt64} (hnew : id ∉ keysOf d t) (ref : RowRef) :
    ∃ idx' d', ∃ t' : IdTree d', indexInsert idx id ref = (0, idx') ∧ TreeInvariant idx' d' t' ∧
      AddsBinding id ref (entries d t) (entries d' t') := by
  obtain ⟨⟨l, r, fresh⟩, hres, hins⟩ : ∃ res,
      SearchTree.insert bptreeMaxKeys d t id ref idx.heap.nodes.length = some res ∧
        Inserted indexShape d none none 0 1 t id ref idx.heap.nodes.length res :=
    insert_spec hi.ordered (inRange_none id) hi.sized hnew
  obtain ⟨h', hcode, hsim⟩ := bptInsertRecursive_spec ref hi.no_fail hi.rep hi.nodup hi.ordered
    (inRange_none id) hi.sized hi.fuel hnew hres
  have hnd := Inserted.nodup hins hi.rep hi.nodup
  have hchain := hsim.chain none hi.chain
  rw [indexInsert, hi.ready, hi.root]
  dsimp only
  rw [hcode]
  simp only [ne_eq, not_true_eq_false, if_false]
  cases r with
  | none =>
    -- the root did not split
    have hroot : ptr d l = ptr d t := hins.root
    refine ⟨_, d, l, rfl, ?_, by simpa using hins.binding⟩
    exact {
      ready := rfl
      root := by rw [hroot]
      no_fail := hsim.no_fail
      rep := hsim.rep l (by simp)
      nodup := by simpa using hnd
      ordered := hins.ordered
      sized := hins.sized_whole rfl
      chain := by simpa using hchain }
  | some q =>
    -- the root split: a new root over the two halves
    obtain ⟨s, r⟩ := q
    obtain ⟨n, hcreate⟩ := bptCreateNode_ok hsim.no_fail false
    simp only [splitOf, Option.map_some]
    rw [hcreate]
    dsimp only
    have hroot : ptr d l = ptr d t := hins.root
    set h₂ : BptHeap := ⟨h'.nodes ++ [n], []⟩ with hh₂
    have hlen₂ : h₂.nodes.length = h'.nodes.length + 1 := by simp [hh₂]
    refine ⟨_, d + 1, branch h'.nodes.length [s] [l, r], rfl, TreeInvariant.grow ?_ ?_ rfl hsim.rep
      hnd hins.ordered ?_ hchain, by simpa using hins.binding⟩
    · rw [store_self (by omega), hroot]
    · intro q hq
      rw [store_of_ne hq.ne]
      exact push_of_lt hq n
    · intro x hx
      have hsz := hins.sized_split (s, r) rfl
      rcases (by simpa using hx : x = l ∨ x = r) with rfl | rfl
      · exact hsz.1
      · exact hsz.2

theorem indexInsert_no_fail {idx : IdIndex} (hf : idx.heap.callocFails = []) (id : UInt64)
    (ref : RowRef) : (indexInsert idx id ref).2.heap.callocFails = [] := by
  rw [indexInsert]
  split
  · rename_i root hready hroot
    split
    · exact hf
    · rename_i h rc split hrec
      have hf₁ := bptInsertRecursive_no_fail hf hrec
      split
      · exact hf₁
      · split
        · exact hf₁
        · obtain ⟨n, hcreate⟩ := bptCreateNode_ok hf₁ false
          rw [hcreate]
          rfl
  · exact hf

theorem TreeInvariant.insert_of_mem {idx : IdIndex} {d : ℕ} {t : IdTree d}
    (hi : TreeInvariant idx d t) {id : UInt64} (hmem : id ∈ keysOf d t) (ref : RowRef) :
    indexInsert idx id ref = (1, idx) := by
  have hnone : SearchTree.insert bptreeMaxKeys d t id ref idx.heap.nodes.length = none :=
    SearchTree.insert_of_mem hi.ordered hmem
  have hrec := bptInsertRecursive_none ref hi.rep hi.ordered hi.fuel hnone
  obtain ⟨heap, root, ready⟩ := idx
  obtain rfl : ready = true := hi.ready
  obtain rfl : root = some (ptr d t) := hi.root
  rw [indexInsert]
  dsimp only at hrec ⊢
  rw [hrec]
  rfl

/-! ### Leaves and their contents -/

/-- The entries of the leaves `ps`, in this order. -/
def leafData (h : BptHeap) (ps : List ℕ) : List (UInt64 × RowRef) :=
  ps.flatMap fun p => ((leafAt h p).map Prod.fst).getD []

theorem leafData_append (h : BptHeap) (ps qs : List ℕ) :
    leafData h (ps ++ qs) = leafData h ps ++ leafData h qs := List.flatMap_append

theorem leafData_cons {h : BptHeap} {p : ℕ} {es : List (UInt64 × RowRef)} {next : Option ℕ}
    (hp : leafAt h p = some (es, next)) (ps : List ℕ) :
    leafData h (p :: ps) = es ++ leafData h ps := by
  rw [leafData, List.flatMap_cons, hp]
  rfl

theorem leafAt_of_node {h : BptHeap} {p : ℕ} {es : List (UInt64 × RowRef)} {next : Option ℕ}
    (hn : h.nodes[p]? = some (.leaf es next)) : leafAt h p = some (es, next) := by
  rw [leafAt, hn]

/-- The leaf level holds the bindings of the tree. -/
theorem leafData_leaves {h : BptHeap} {d : ℕ} {t : IdTree d} (hr : Rep h d t) :
    leafData h (leaves d t) = entries d t := by
  induction d with
  | zero =>
    obtain ⟨p, es, rfl⟩ := eq_leaf t
    obtain ⟨next, hn⟩ := rep_leaf.mp hr
    rw [leaves_leaf, leafData_cons (leafAt_of_node hn)]
    exact List.append_nil es
  | succ d ih =>
    obtain ⟨p, ks, cs, rfl⟩ := eq_branch t
    obtain ⟨-, hcs⟩ := rep_branch.mp hr
    rw [leaves_branch, entries_branch, leafData, List.flatMap_assoc]
    refine List.flatMap_congr fun c hc => ?_
    exact ih (hcs c hc)

/-- The leaf an id belongs to: everything to its left is below the id, everything to its right is
above. -/
structure LeafFor (h : BptHeap) (d : ℕ) (t : IdTree d) (id : UInt64) (p : ℕ) : Prop where
  split : ∃ before after, leaves d t = before ++ p :: after ∧
    (∀ e ∈ leafData h before, e.1 < id) ∧ ∀ e ∈ leafData h after, id < e.1
  is_leaf : ∃ es next, leafAt h p = some (es, next)

theorem bptDescend_spec {h : BptHeap} {d fuel : ℕ} {lo hi : Option UInt64} {t : IdTree d}
    (hr : Rep h d t) (ho : Ordered d lo hi t) (hfuel : d < fuel) (id : UInt64) :
    ∃ p, bptDescend fuel h (ptr d t) id = some p ∧ LeafFor h d t id p := by
  induction d generalizing fuel lo hi with
  | zero =>
    obtain ⟨fuel, rfl⟩ : ∃ f, fuel = f + 1 := ⟨fuel - 1, by omega⟩
    obtain ⟨p, es, rfl⟩ := eq_leaf t
    obtain ⟨next, hn⟩ := rep_leaf.mp hr
    refine ⟨p, ?_, ⟨[], [], rfl, by simp [leafData], by simp [leafData]⟩, es, next,
      leafAt_of_node hn⟩
    rw [ptr_leaf, bptDescend, hn]
  | succ d ih =>
    obtain ⟨fuel, rfl⟩ : ∃ f, fuel = f + 1 := ⟨fuel - 1, by omega⟩
    obtain ⟨p, ks, cs, rfl⟩ := eq_branch t
    have hsep := ordered_branch.mp ho
    obtain ⟨c, hc, hcs, hlen, hsep'⟩ := hsep.exists_child id
    obtain ⟨hn, hreps⟩ := rep_branch.mp hr
    obtain ⟨q, hq, ⟨before, after, hl, hbefore, hafter⟩, hleaf⟩ :=
      ih (hreps c (List.mem_of_getElem? hc)) (separated_focus hlen hsep').1 (show d < fuel by omega)
    have hcontents : ∀ lo hi (x : IdTree d), Ordered d lo hi x →
        ∀ y ∈ keysOf d x, InRange lo hi y := fun lo hi x hx => hx.inRange
    have hdata : ∀ X : List (IdTree d), (∀ x ∈ X, x ∈ cs) →
        ∀ e ∈ leafData h (X.flatMap (leaves d)), e.1 ∈ X.flatMap (keysOf d) := by
      intro X hX e he
      rw [leafData, List.flatMap_assoc] at he
      obtain ⟨x, hx, he⟩ := List.mem_flatMap.mp he
      have he : e ∈ leafData h (leaves d x) := he
      rw [leafData_leaves (hreps x (hX x hx))] at he
      exact List.mem_flatMap.mpr ⟨x, hx, List.mem_map_of_mem he⟩
    refine ⟨q, ?_, ⟨(cs.take (upperSlot ks id)).flatMap (leaves d) ++ before,
      after ++ (cs.drop (upperSlot ks id + 1)).flatMap (leaves d), ?_, ?_, ?_⟩, hleaf⟩
    · rw [ptr_branch, bptDescend, hn]
      dsimp only
      rw [List.getElem?_map, hc]
      exact hq
    · conv_lhs => rw [leaves_branch, hcs]
      rw [List.flatMap_append, List.flatMap_cons, hl]
      simp only [List.append_assoc, List.cons_append]
    · intro e he
      rw [leafData_append] at he
      rcases List.mem_append.mp he with he | he
      · exact hsep'.lt_of_before hcontents hlen (fun s hs => le_of_mem_take_upperSlot hs) e.1
          (hdata _ (fun x hx => List.mem_of_mem_take hx) e he)
      · exact hbefore e he
    · intro e he
      rw [leafData_append] at he
      rcases List.mem_append.mp he with he | he
      · exact hafter e he
      · exact hsep'.gt_of_after hcontents hlen
          (fun s hs => lt_of_mem_drop_upperSlot hsep.sorted hs) e.1
          (hdata _ (fun x hx => List.mem_of_mem_drop hx) e he)

theorem bptLeftmostLeafFrom_spec {h : BptHeap} {d fuel : ℕ} {lo hi : Option UInt64} {t : IdTree d}
    (hr : Rep h d t) (ho : Ordered d lo hi t) (hfuel : d < fuel) :
    bptLeftmostLeafFrom fuel h (ptr d t) = (leaves d t).head? ∧ leaves d t ≠ [] := by
  induction d generalizing fuel lo hi with
  | zero =>
    obtain ⟨fuel, rfl⟩ : ∃ f, fuel = f + 1 := ⟨fuel - 1, by omega⟩
    obtain ⟨p, es, rfl⟩ := eq_leaf t
    obtain ⟨next, hn⟩ := rep_leaf.mp hr
    rw [ptr_leaf, bptLeftmostLeafFrom, hn]
    exact ⟨rfl, by simp⟩
  | succ d ih =>
    obtain ⟨fuel, rfl⟩ : ∃ f, fuel = f + 1 := ⟨fuel - 1, by omega⟩
    obtain ⟨p, ks, cs, rfl⟩ := eq_branch t
    have hsep := ordered_branch.mp ho
    obtain ⟨hn, hreps⟩ := rep_branch.mp hr
    cases cs with
    | nil => exact absurd hsep.length_eq (by simp)
    | cons c cs =>
      have hc : ∃ lo' hi', Ordered d lo' hi' c := by
        cases ks with
        | nil =>
          cases cs with
          | nil => exact ⟨lo, hi, hsep⟩
          | cons _ _ => exact absurd hsep.length_eq (by simp)
        | cons s ks => exact ⟨lo, some s, (separated_cons_cons.mp hsep).2.1⟩
      obtain ⟨lo', hi', hc⟩ := hc
      obtain ⟨heq, hne⟩ := ih (hreps c (by simp)) hc (show d < fuel by omega)
      rw [ptr_branch, bptLeftmostLeafFrom, hn, leaves_branch, List.flatMap_cons]
      refine ⟨?_, fun hnil => hne (List.append_eq_nil_iff.mp hnil).1⟩
      show bptLeftmostLeafFrom fuel h (ptr d c) = _
      rw [heq, List.head?_append_of_ne_nil _ hne]

theorem mem_leaves_leafAt {h : BptHeap} {d : ℕ} {t : IdTree d} (hr : Rep h d t) :
    ∀ p ∈ leaves d t, ∃ es next, leafAt h p = some (es, next) := by
  induction d with
  | zero =>
    obtain ⟨q, es, rfl⟩ := eq_leaf t
    obtain ⟨next, hn⟩ := rep_leaf.mp hr
    intro p hp
    obtain rfl : p = q := by simpa using hp
    exact ⟨es, next, leafAt_of_node hn⟩
  | succ d ih =>
    obtain ⟨q, ks, cs, rfl⟩ := eq_branch t
    intro p hp
    rw [leaves_branch] at hp
    obtain ⟨c, hc, hp⟩ := List.mem_flatMap.mp hp
    exact ih ((rep_branch.mp hr).2 c hc) p hp

/-- A subtree below the root has no empty leaf. -/
theorem leaf_ne_nil {h : BptHeap} {d : ℕ} {lo hi : Option UInt64} {t : IdTree d} (hr : Rep h d t)
    (ho : Ordered d lo hi t) (hs : Sized indexShape d indexShape.minLeaf indexShape.minBranch t) :
    ∀ p ∈ leaves d t, ∃ les next, leafAt h p = some (les, next) ∧ les ≠ [] := by
  induction d generalizing lo hi with
  | zero =>
    obtain ⟨q, es, rfl⟩ := eq_leaf t
    obtain ⟨next, hn⟩ := rep_leaf.mp hr
    intro p hp
    obtain rfl : p = q := by simpa using hp
    exact ⟨es, next, leafAt_of_node hn, hs.entries_ne_nil (by decide) ho⟩
  | succ d ih =>
    obtain ⟨q, ks, cs, rfl⟩ := eq_branch t
    intro p hp
    rw [leaves_branch] at hp
    obtain ⟨c, hc, hp⟩ := List.mem_flatMap.mp hp
    obtain ⟨lo', hi', hoc⟩ := (ordered_branch.mp ho).child hc
    exact ih ((rep_branch.mp hr).2 c hc) hoc ((sized_branch.mp hs).2.2 c hc) p hp

/-- Only the first leaf of the chain may be empty. -/
theorem TreeInvariant.later_leaf_ne_nil {idx : IdIndex} {d : ℕ} {t : IdTree d}
    (hi : TreeInvariant idx d t) {before after : List ℕ} {p q : ℕ}
    (hl : leaves d t = before ++ p :: q :: after) :
    ∃ les next, leafAt idx.heap q = some (les, next) ∧ les ≠ [] := by
  cases d with
  | zero =>
    have hlen := congrArg List.length hl
    rw [List.length_append, List.length_cons, List.length_cons] at hlen
    have hone : (leaves 0 t).length = 1 := rfl
    omega
  | succ d =>
    obtain ⟨r, ks, cs, rfl⟩ := eq_branch t
    have hq : q ∈ leaves (d + 1) (branch r ks cs) := by simp [hl]
    rw [leaves_branch] at hq
    obtain ⟨c, hc, hq⟩ := List.mem_flatMap.mp hq
    obtain ⟨lo', hi', hoc⟩ := (ordered_branch.mp hi.ordered).child hc
    exact leaf_ne_nil ((rep_branch.mp hi.rep).2 c hc) hoc ((sized_branch.mp hi.sized).2.2 c hc) q hq

/-! ### The finite map -/

section Map

variable {idx : IdIndex} {es : List (UInt64 × RowRef)}

theorem IndexModel.sorted (hm : IndexModel idx es) : (es.map Prod.fst).Pairwise (· < ·) := by
  obtain ⟨d, t, hi, rfl⟩ := hm
  exact hi.ordered.sorted

theorem IndexModel.no_fail (hm : IndexModel idx es) : idx.heap.callocFails = [] := by
  obtain ⟨d, t, hi, rfl⟩ := hm
  exact hi.no_fail

theorem IndexModel.ready (hm : IndexModel idx es) : idx.ready = true := by
  obtain ⟨d, t, hi, rfl⟩ := hm
  exact hi.ready

/-- A new id is added in its place. -/
theorem IndexModel.insert (hm : IndexModel idx es) {id : UInt64} (hnew : id ∉ es.map Prod.fst)
    (ref : RowRef) : ∃ idx' es', indexInsert idx id ref = (0, idx') ∧ IndexModel idx' es' ∧
      AddsBinding id ref es es' := by
  obtain ⟨d, t, hi, rfl⟩ := hm
  obtain ⟨idx', d', t', heq, hi', hadd⟩ := hi.insert hnew ref
  exact ⟨idx', entries d' t', heq, ⟨d', t', hi', rfl⟩, hadd⟩

/-- An id that is there is reported and changes nothing. -/
theorem IndexModel.insert_of_mem (hm : IndexModel idx es) {id : UInt64}
    (hmem : id ∈ es.map Prod.fst) (ref : RowRef) : indexInsert idx id ref = (1, idx) := by
  obtain ⟨d, t, hi, rfl⟩ := hm
  exact hi.insert_of_mem hmem ref

/-- The value an association list holds for a key. -/
def valueOf (es : List (UInt64 × RowRef)) (id : UInt64) : Option RowRef :=
  (es.find? fun e => decide (e.1 = id)).map Prod.snd

theorem valueOf_append {l₁ l₂ : List (UInt64 × RowRef)} {id : UInt64} :
    valueOf (l₁ ++ l₂) id = (valueOf l₁ id).or (valueOf l₂ id) := by
  rw [valueOf, List.find?_append, Option.map_or]
  rfl

theorem valueOf_cons {k id : UInt64} {v : RowRef} {l : List (UInt64 × RowRef)} :
    valueOf ((k, v) :: l) id = if k = id then some v else valueOf l id := by
  rw [valueOf, List.find?_cons]
  by_cases hk : k = id
  · simp [hk]
  · simp [hk, valueOf]

theorem valueOf_eq_none {l : List (UInt64 × RowRef)} {id : UInt64} :
    valueOf l id = none ↔ id ∉ l.map Prod.fst := by
  rw [valueOf, Option.map_eq_none_iff, List.find?_eq_none]
  simp only [decide_eq_true_eq, List.mem_map, not_exists, not_and]

theorem valueOf_addsBinding {l l' : List (UInt64 × RowRef)} {k : UInt64} {v : RowRef}
    (h : AddsBinding k v l l') (hk : k ∉ l.map Prod.fst) (id : UInt64) :
    valueOf l' id = if k = id then some v else valueOf l id := by
  obtain ⟨A, B, rfl, rfl, -, -⟩ := h
  rw [List.map_append, List.mem_append, not_or] at hk
  rw [valueOf_append, valueOf_append, valueOf_cons]
  by_cases hid : k = id
  · subst hid
    rw [if_pos rfl, if_pos rfl, valueOf_eq_none.mpr hk.1]
    rfl
  · rw [if_neg hid, if_neg hid]

/-- `index_find` on a represented tree answers from its bindings. -/
theorem indexFind_of_rep {d : ℕ} {lo hi : Option UInt64} {t : IdTree d} (hready : idx.ready = true)
    (hroot : idx.root = some (ptr d t)) (hr : Rep idx.heap d t) (ho : Ordered d lo hi t)
    (hfuel : d < idx.heap.nodes.length) (id : UInt64) :
    indexFind idx id = match valueOf (entries d t) id with
      | some ref => (0, some ref)
      | none => (1, none) := by
  obtain ⟨p, hp, ⟨before, after, hl, hbefore, hafter⟩, les, next, hleaf⟩ :=
    bptDescend_spec hr ho hfuel id
  have hes : entries d t = leafData idx.heap before ++ (les ++ leafData idx.heap after) := by
    rw [← leafData_leaves hr, hl, leafData_append, leafData_cons hleaf]
  have hb : valueOf (leafData idx.heap before) id = none := by
    refine valueOf_eq_none.mpr fun hmem => ?_
    obtain ⟨e, he, heq⟩ := List.mem_map.mp hmem
    exact absurd (hbefore e he) (by rw [heq]; exact lt_irrefl id)
  have ha : valueOf (leafData idx.heap after) id = none := by
    refine valueOf_eq_none.mpr fun hmem => ?_
    obtain ⟨e, he, heq⟩ := List.mem_map.mp hmem
    exact absurd (hafter e he) (by rw [heq]; exact lt_irrefl id)
  have hval : valueOf (entries d t) id = valueOf les id := by
    rw [hes, valueOf_append, valueOf_append, hb, ha, Option.none_or, Option.or_none]
  rw [hval, indexFind, hready, hroot]
  dsimp only
  rw [bptFind, hp]
  dsimp only
  rw [hleaf]
  dsimp only
  rw [valueOf]
  cases les.find? fun e => decide (e.1 = id) <;> rfl

theorem IndexModel.find (hm : IndexModel idx es) (id : UInt64) :
    indexFind idx id = match valueOf es id with
      | some ref => (0, some ref)
      | none => (1, none) := by
  obtain ⟨d, t, hi, rfl⟩ := hm
  exact indexFind_of_rep hi.ready hi.root hi.rep hi.ordered hi.fuel id

/-! ### Positions on the leaf level -/

/-- A position `(p, i)` on the leaf level from which a walk along the `next` pointers visits exactly
the bindings `es`. -/
def WalkFrom (h : BptHeap) (p i : ℕ) (es : List (UInt64 × RowRef)) : Prop :=
  ∃ ps les next, Chain h (p :: ps) none ∧ (∀ q ∈ ps, ∃ les next, leafAt h q = some (les, next)) ∧
    leafAt h p = some (les, next) ∧ es = les.drop i ++ leafData h ps

/-- `bpt_leftmost_leaf`: a walk from there visits every binding. -/
theorem IndexModel.leftmost (hm : IndexModel idx es) : ∃ root p, idx.root = some root ∧
    bptLeftmostLeaf idx.heap root = some p ∧ WalkFrom idx.heap p 0 es := by
  obtain ⟨d, t, hi, rfl⟩ := hm
  obtain ⟨heq, hne⟩ := bptLeftmostLeafFrom_spec hi.rep hi.ordered hi.fuel
  have hchain := hi.chain
  have hdata := leafData_leaves hi.rep
  have hleaf := mem_leaves_leafAt hi.rep
  cases hl : leaves d t with
  | nil => exact absurd hl hne
  | cons p ps =>
    rw [hl] at heq hchain hdata hleaf
    obtain ⟨les, next, hp⟩ := hleaf p List.mem_cons_self
    rw [leafData_cons hp] at hdata
    exact ⟨ptr d t, p, hi.root, heq, ps, les, next, hchain,
      fun q hq => hleaf q (List.mem_cons_of_mem p hq), hp, hdata.symm⟩

/-- `bpt_lower_bound`: the bindings before the position are below the key, a walk from there visits
those at or above it, the first of them at the position itself; `false` if there are none. -/
theorem IndexModel.lowerBound (hm : IndexModel idx es) (key : UInt64) :
    ∃ root, idx.root = some root ∧
      ((bptLowerBound idx.heap root key = none ∧ ∀ e ∈ es, e.1 < key) ∨
        ∃ p i lower upper, bptLowerBound idx.heap root key = some (p, i) ∧ es = lower ++ upper ∧
          WalkFrom idx.heap p i upper ∧ (∀ e ∈ lower, e.1 < key) ∧ (∀ e ∈ upper, key ≤ e.1) ∧
          ∃ slots next e rest, leafAt idx.heap p = some (slots, next) ∧ slots[i]? = some e ∧
            upper = e :: rest) := by
  obtain ⟨d, t, hi, rfl⟩ := hm
  refine ⟨ptr d t, hi.root, ?_⟩
  obtain ⟨p, hp, ⟨before, after, hl, hbefore, hafter⟩, les, next, hleaf⟩ :=
    bptDescend_spec hi.rep hi.ordered hi.fuel key
  have hleaves := mem_leaves_leafAt hi.rep
  have hes : entries d t = leafData idx.heap before ++ (les ++ leafData idx.heap after) := by
    rw [← leafData_leaves hi.rep, hl, leafData_append, leafData_cons hleaf]
  have hchain := hi.chain
  rw [hl, chain_append] at hchain
  have hsorted : (les.map Prod.fst).Pairwise (· < ·) := by
    have hall : ((entries d t).map Prod.fst).Pairwise (· < ·) := hi.ordered.sorted
    rw [hes, List.map_append, List.map_append, List.pairwise_append, List.pairwise_append] at hall
    exact hall.2.1.1
  have hnext : next = after.head? := by
    have h1 := hchain.2.1
    rw [nextOf, hleaf] at h1
    simpa using h1
  have hlow : ∀ e ∈ les.take (lowerSlot (les.map Prod.fst) key), e.1 < key := by
    intro e he
    have hmem : e.1 ∈ (les.map Prod.fst).take (lowerSlot (les.map Prod.fst) key) := by
      rw [← List.map_take]
      exact List.mem_map_of_mem he
    exact lt_of_mem_take_lowerSlot hmem
  have hhigh : ∀ e ∈ les.drop (lowerSlot (les.map Prod.fst) key), key ≤ e.1 := by
    intro e he
    have hmem : e.1 ∈ (les.map Prod.fst).drop (lowerSlot (les.map Prod.fst) key) := by
      rw [← List.map_drop]
      exact List.mem_map_of_mem he
    exact le_of_mem_drop_lowerSlot hsorted hmem
  have hbound : bptLowerBound idx.heap (ptr d t) key =
      if les.length ≤ lowerSlot (les.map Prod.fst) key then next.map fun q => (q, 0)
      else some (p, lowerSlot (les.map Prod.fst) key) := by
    rw [bptLowerBound, hp]
    dsimp only
    rw [hleaf]
  rw [hbound]
  generalize lowerSlot (les.map Prod.fst) key = i at *
  by_cases hi' : les.length ≤ i
  · -- the whole leaf is below the key: the position is the start of the next leaf
    rw [if_pos hi']
    rw [List.take_of_length_le hi'] at hlow
    have hlower : ∀ e ∈ leafData idx.heap before ++ les, e.1 < key := by
      intro e he
      rcases List.mem_append.mp he with he | he
      · exact hbefore e he
      · exact hlow e he
    cases after with
    | nil =>
      left
      refine ⟨by rw [hnext]; rfl, fun e he => hlower e ?_⟩
      rw [hes] at he
      simpa [leafData] using he
    | cons q after =>
      right
      obtain ⟨les', next', hq, hne⟩ := hi.later_leaf_ne_nil hl
      refine ⟨q, 0, leafData idx.heap before ++ les, leafData idx.heap (q :: after),
        by rw [hnext]; rfl, by rw [hes, List.append_assoc], ?_, hlower,
        fun e he => (hafter e he).le, ?_⟩
      · exact ⟨after, les', next', hchain.2.2, fun r hr => hleaves r (by rw [hl]; simp [hr]), hq,
          leafData_cons hq after⟩
      · obtain ⟨e, rest, rfl⟩ := List.exists_cons_of_ne_nil hne
        exact ⟨e :: rest, next', e, _, hq, rfl, leafData_cons hq after⟩
  · rw [if_neg hi']
    right
    refine ⟨p, i, leafData idx.heap before ++ les.take i, les.drop i ++ leafData idx.heap after,
      rfl, ?_, ?_, ?_, ?_, ?_⟩
    · rw [hes, List.append_assoc, ← List.append_assoc (les.take i), List.take_append_drop]
    · exact ⟨after, les, next, hchain.2, fun r hr => hleaves r (by rw [hl]; simp [hr]), hleaf, rfl⟩
    · intro e he
      rcases List.mem_append.mp he with he | he
      · exact hbefore e he
      · exact hlow e he
    · intro e he
      rcases List.mem_append.mp he with he | he
      · exact hhigh e he
      · exact (hafter e he).le
    · have hlt := not_le.mp hi'
      refine ⟨les, next, les[i], les.drop (i + 1) ++ leafData idx.heap after, hleaf,
        List.getElem?_eq_getElem hlt, ?_⟩
      rw [List.drop_eq_getElem_cons hlt, List.cons_append]

end Map

/-! ### Runs -/

/-- The index after a sequence of `index_insert` calls. -/
def indexRun (idx : IdIndex) (calls : List (UInt64 × RowRef)) : IdIndex :=
  calls.foldl (fun idx c => (indexInsert idx c.1 c.2).2) idx

/-- The index represents the first insert of every id. -/
def Represents (idx : IdIndex) (calls : List (UInt64 × RowRef)) : Prop :=
  ∃ es, IndexModel idx es ∧ ∀ id, valueOf es id = valueOf calls id

theorem Represents.insert {idx : IdIndex} {calls : List (UInt64 × RowRef)}
    (hr : Represents idx calls) (id : UInt64) (ref : RowRef) :
    Represents (indexInsert idx id ref).2 (calls ++ [(id, ref)]) := by
  obtain ⟨es, hm, hval⟩ := hr
  by_cases hmem : id ∈ es.map Prod.fst
  · rw [hm.insert_of_mem hmem]
    refine ⟨es, hm, fun x => ?_⟩
    rw [valueOf_append, ← hval x]
    by_cases hx : id = x
    · subst hx
      obtain ⟨ref', href⟩ := Option.ne_none_iff_exists'.mp
        (fun hnone => valueOf_eq_none.mp hnone hmem)
      rw [href]
      rfl
    · rw [valueOf_cons, if_neg hx]
      exact (Option.or_none ..).symm
  · obtain ⟨idx', es', heq, hm', hadd⟩ := hm.insert hmem ref
    rw [heq]
    refine ⟨es', hm', fun x => ?_⟩
    rw [valueOf_addsBinding hadd hmem, valueOf_append, ← hval x, valueOf_cons]
    by_cases hx : id = x
    · subst hx
      rw [if_pos rfl, if_pos rfl, valueOf_eq_none.mpr hmem]
      rfl
    · rw [if_neg hx, if_neg hx]
      exact (Option.or_none ..).symm

theorem represents_indexRun {idx : IdIndex} {done : List (UInt64 × RowRef)}
    (hr : Represents idx done) (calls : List (UInt64 × RowRef)) :
    Represents (indexRun idx calls) (done ++ calls) := by
  induction calls generalizing idx done with
  | nil => simpa [indexRun] using hr
  | cons c calls ih =>
    have h1 := ih (hr.insert c.1 c.2)
    rw [List.append_assoc] at h1
    exact h1

/-- **The index refines a finite map.**  After `index_init` and any sequence of `index_insert` calls:
`index_insert` of a known id returns 1 and changes nothing, of a new one returns 0; `index_find`
returns the ref of the first insert of the id, or 1; and the nodes form a B+ tree of one height whose
leaf chain, from the leftmost leaf on, visits exactly the leaves in tree order. -/
theorem indexInsert_refines_map (idx : IdIndex) (hf : idx.heap.callocFails = [])
    (calls : List (UInt64 × RowRef)) :
    (indexInit idx).1 = 0 ∧
    (∀ id ref, id ∈ calls.map Prod.fst →
      indexInsert (indexRun (indexInit idx).2 calls) id ref =
        (1, indexRun (indexInit idx).2 calls)) ∧
    (∀ id ref, id ∉ calls.map Prod.fst →
      (indexInsert (indexRun (indexInit idx).2 calls) id ref).1 = 0) ∧
    (∀ id, indexFind (indexRun (indexInit idx).2 calls) id =
      match calls.find? fun c => decide (c.1 = id) with
      | some c => (0, some c.2)
      | none => (1, none)) ∧
    ∃ d t, TreeInvariant (indexRun (indexInit idx).2 calls) d t ∧
      bptLeftmostLeaf (indexRun (indexInit idx).2 calls).heap (ptr d t) = (leaves d t).head? := by
  obtain ⟨hinit, hempty⟩ := indexInit_spec hf
  have hstart : Represents (indexInit idx).2 [] := ⟨[], hempty, fun _ => rfl⟩
  obtain ⟨es, hm, hval⟩ := represents_indexRun hstart calls
  rw [List.nil_append] at hval
  generalize indexRun (indexInit idx).2 calls = run at *
  have hkeys : ∀ id, id ∈ es.map Prod.fst ↔ id ∈ calls.map Prod.fst := by
    intro id
    rw [← not_iff_not, ← valueOf_eq_none, ← valueOf_eq_none, hval id]
  refine ⟨hinit, ?_, ?_, ?_, ?_⟩
  · intro id ref hmem
    exact hm.insert_of_mem ((hkeys id).mpr hmem) ref
  · intro id ref hnew
    obtain ⟨idx', es', heq, -, -⟩ := hm.insert (fun h => hnew ((hkeys id).mp h)) ref
    rw [heq]
  · intro id
    rw [hm.find id, hval id, valueOf]
    cases calls.find? fun c => decide (c.1 = id) <;> rfl
  · obtain ⟨d, t, hi, -⟩ := hm
    exact ⟨d, t, hi, (bptLeftmostLeafFrom_spec hi.rep hi.ordered hi.fuel).1⟩

theorem indexInsert_refines_map_three :
    (indexFind (indexRun (indexInit IdIndex.initial).2 [(7, 0), (3, 40), (7, 80)]) 7) = (0, some 0) :=
  (indexInsert_refines_map IdIndex.initial rfl [(7, 0), (3, 40), (7, 80)]).2.2.2.1 7

end MiniSql
