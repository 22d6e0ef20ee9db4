import MiniSql.BPlusTree
import MiniSql.Library.SearchTreeInsert

/-!
# The heap index refines the B+ trees of the library

The nodes in the heap against the trees of `SearchTree`, whose nodes carry the addresses they are stored
under.

* `Rep h d t`: the heap holds the tree `t` at its addresses.
* `Chain h ps nx`: the `next` pointers of the leaves `ps` run through `ps` and end in `nx`.
* `Simulated` is what an insertion leaves: the resulting trees are held, the heap has changed only inside the
  old subtree and at new addresses, and the new leaves are chained where the old ones were.
* `Spliced` is the same for the children of a branch while it is being rebuilt.

Main results:

* `bptInsertRecursive_spec`: on a represented subtree the recursive insertion of the code does what
  `SearchTree.insert` does, node for node.  The induction is over the height; `bptInsertRecursive_branch` says
  what the code does with the outcome of the call on the child.
* `bptInsertRecursive_none`: where the insertion into the tree does nothing, the code reports a duplicate.
* `bptInsertRecursive_no_fail`: while allocations succeed, an insertion leaves it at that.
-/

namespace MiniSql

open Separators SearchTree

/-- The shape parameters of the index: 31 keys, splits 16/16 at a leaf and 16/15 at a branch. -/
def indexShape : Occupancy where
  cap := bptreeMaxKeys
  minLeaf := 16
  minBranch := 15
  cap_pos := by decide
  leaf_half := by decide
  branch_half := by decide

abbrev IdTree (d : ℕ) := Tree UInt64 RowRef d

/-- The heap holds the nodes of `t` at their addresses. -/
def Rep (h : BptHeap) : (d : ℕ) → IdTree d → Prop
  | 0, t => ∃ next, h.nodes[Leaf.ptr t]? = some (.leaf (Leaf.entries t) next)
  | d + 1, t =>
      h.nodes[Branch.ptr t]? =
          some (.internal (Branch.keys t) ((Branch.children t).map (ptr d))) ∧
        ∀ c ∈ Branch.children t, Rep h d c

/-- The `next` pointer of the leaf at `p`. -/
def nextOf (h : BptHeap) (p : ℕ) : Option (Option ℕ) := (leafAt h p).map Prod.snd

/-- The leaves `ps` are chained in this order, the last one to `nx`. -/
def Chain (h : BptHeap) : List ℕ → Option ℕ → Prop
  | [], _ => True
  | p :: ps, nx => nextOf h p = some (ps.head?.or nx) ∧ Chain h ps nx

theorem rep_leaf {h : BptHeap} {p : ℕ} {es : List (UInt64 × RowRef)} :
    Rep h 0 (leaf p es) ↔ ∃ next, h.nodes[p]? = some (.leaf es next) := Iff.rfl

theorem rep_branch {h : BptHeap} {p d : ℕ} {ks : List UInt64} {cs : List (IdTree d)} :
    Rep h (d + 1) (branch p ks cs) ↔
      h.nodes[p]? = some (.internal ks (cs.map (ptr d))) ∧ ∀ c ∈ cs, Rep h d c := Iff.rfl

/-! ### Frames -/

theorem Rep.lt {h : BptHeap} {d : ℕ} {t : IdTree d} (hr : Rep h d t) :
    ∀ q ∈ ptrs d t, q < h.nodes.length := by
  induction d with
  | zero =>
    obtain ⟨p, es, rfl⟩ := eq_leaf t
    obtain ⟨next, hn⟩ := rep_leaf.mp hr
    intro q hq
    obtain rfl : q = p := by simpa using hq
    exact (List.getElem?_eq_some_iff.mp hn).1
  | succ d ih =>
    obtain ⟨p, ks, cs, rfl⟩ := eq_branch t
    obtain ⟨hn, hcs⟩ := rep_branch.mp hr
    intro q hq
    rw [ptrs_branch] at hq
    rcases List.mem_cons.mp hq with rfl | hq
    · exact (List.getElem?_eq_some_iff.mp hn).1
    · obtain ⟨c, hc, hq⟩ := List.mem_flatMap.mp hq
      exact ih (hcs c hc) q hq

/-- A tree stays represented while its own nodes do not change. -/
theorem Rep.congr {h h' : BptHeap} {d : ℕ} {t : IdTree d} (hr : Rep h d t)
    (hag : ∀ q ∈ ptrs d t, h'.nodes[q]? = h.nodes[q]?) : Rep h' d t := by
  induction d with
  | zero =>
    obtain ⟨p, es, rfl⟩ := eq_leaf t
    obtain ⟨next, hn⟩ := rep_leaf.mp hr
    exact rep_leaf.mpr ⟨next, by rw [hag p (by simp)]; exact hn⟩
  | succ d ih =>
    obtain ⟨p, ks, cs, rfl⟩ := eq_branch t
    obtain ⟨hn, hcs⟩ := rep_branch.mp hr
    refine rep_branch.mpr ⟨by rw [hag p (by simp)]; exact hn, fun c hc => ?_⟩
    refine ih (hcs c hc) fun q hq => hag q ?_
    rw [ptrs_branch]
    exact List.mem_cons_of_mem _ (List.mem_flatMap.mpr ⟨c, hc, hq⟩)

theorem nextOf_congr {h h' : BptHeap} {p : ℕ} (hag : h'.nodes[p]? = h.nodes[p]?) :
    nextOf h' p = nextOf h p := by
  rw [nextOf, nextOf, leafAt, leafAt, hag]

theorem Chain.congr {h h' : BptHeap} {ps : List ℕ} {nx : Option ℕ} (hc : Chain h ps nx)
    (hag : ∀ q ∈ ps, h'.nodes[q]? = h.nodes[q]?) : Chain h' ps nx := by
  induction ps with
  | nil => trivial
  | cons p ps ih =>
    refine ⟨?_, ih hc.2 fun q hq => hag q (List.mem_cons_of_mem _ hq)⟩
    rw [nextOf_congr (hag p List.mem_cons_self)]
    exact hc.1

theorem chain_append {h : BptHeap} {ps qs : List ℕ} {nx : Option ℕ} :
    Chain h (ps ++ qs) nx ↔ Chain h ps (qs.head?.or nx) ∧ Chain h qs nx := by
  induction ps with
  | nil => simp [Chain]
  | cons p ps ih =>
    simp only [List.cons_append, Chain, ih, List.head?_append, Option.or_assoc, and_assoc]

/-! ### Stores and allocations -/

@[simp] theorem store_length (h : BptHeap) (p : ℕ) (n : BptNode) :
    (h.store p n).nodes.length = h.nodes.length := List.length_set ..

theorem store_self {h : BptHeap} {p : ℕ} (hp : p < h.nodes.length) (n : BptNode) :
    (h.store p n).nodes[p]? = some n := by
  rw [BptHeap.store]
  exact List.getElem?_set_self hp

theorem store_of_ne {h : BptHeap} {p q : ℕ} (hpq : q ≠ p) (n : BptNode) :
    (h.store p n).nodes[q]? = h.nodes[q]? := by
  rw [BptHeap.store]
  exact List.getElem?_set_ne hpq.symm

theorem bptCreateNode_ok {h : BptHeap} (hf : h.callocFails = []) (isLeaf : Bool) :
    ∃ n, bptCreateNode h isLeaf = (⟨h.nodes ++ [n], []⟩, some h.nodes.length) := by
  rw [bptCreateNode, hf]
  exact ⟨_, rfl⟩

/-- While allocations succeed, an insertion leaves it at that. -/
theorem bptInsertRecursive_no_fail {fuel : ℕ} {h h' : BptHeap} {p : ℕ} {id : UInt64} {ref : RowRef}
    {rc : ℤ} {split : Option BptSplit} (hf : h.callocFails = [])
    (hr : bptInsertRecursive fuel h p id ref = some (h', rc, split)) : h'.callocFails = [] := by
  induction fuel generalizing h h' p rc split with
  | zero => cases hr
  | succ fuel ih =>
    rw [bptInsertRecursive] at hr
    split at hr
    · cases hr
    · rename_i es next hn
      dsimp only at hr
      split at hr
      · obtain ⟨rfl, -⟩ := Prod.mk.inj (Option.some.inj hr)
        exact hf
      · split at hr
        · obtain ⟨rfl, -⟩ := Prod.mk.inj (Option.some.inj hr)
          exact hf
        · obtain ⟨n, hcreate⟩ := bptCreateNode_ok hf true
          rw [hcreate] at hr
          obtain ⟨rfl, -⟩ := Prod.mk.inj (Option.some.inj hr)
          rfl
    · rename_i keys children hn
      dsimp only at hr
      split at hr
      · cases hr
      · rename_i child hchild
        split at hr
        · cases hr
        · rename_i h₁ rc₁ split₁ hrec
          have hf₁ := ih hf hrec
          split at hr
          · obtain ⟨rfl, -⟩ := Prod.mk.inj (Option.some.inj hr)
            exact hf₁
          · split at hr
            · obtain ⟨rfl, -⟩ := Prod.mk.inj (Option.some.inj hr)
              exact hf₁
            · split at hr
              · obtain ⟨rfl, -⟩ := Prod.mk.inj (Option.some.inj hr)
                exact hf₁
              · obtain ⟨n, hcreate⟩ := bptCreateNode_ok hf₁ false
                rw [hcreate] at hr
                obtain ⟨rfl, -⟩ := Prod.mk.inj (Option.some.inj hr)
                rfl

theorem push_of_lt {h : BptHeap} {q : ℕ} (hq : q < h.nodes.length) (n : BptNode) :
    (h.nodes ++ [n])[q]? = h.nodes[q]? := List.getElem?_append_left hq

/-! ### What the recursive insertion does to the heap -/

/-- The heap `h'` an insertion leaves: it holds the resulting trees, differs from `h` only inside the
old subtree and at new addresses, and chains the new leaves where the old ones were. -/
structure Simulated (h : BptHeap) (d : ℕ) (t : IdTree d) (h' : BptHeap)
    (res : IdTree d × Option (UInt64 × IdTree d) × ℕ) : Prop where
  no_fail : h'.callocFails = []
  size : h'.nodes.length = res.2.2
  rep : ∀ x ∈ fragTrees res.1 res.2.1, Rep h' d x
  frame : ∀ q, q ∉ ptrs d t → q < h.nodes.length → h'.nodes[q]? = h.nodes[q]?
  chain : ∀ nx, Chain h (leaves d t) nx →
    Chain h' ((fragTrees res.1 res.2.1).flatMap (leaves d)) nx

/-- `*out_split` for the result of an insertion. -/
def splitOf {d : ℕ} (r : Option (UInt64 × IdTree d)) : Option BptSplit :=
  r.map fun q => (q.1, ptr d q.2)

theorem bptInsertRecursive_leaf {h : BptHeap} {p : ℕ} {es : List (UInt64 × RowRef)} (fuel : ℕ)
    {id : UInt64} (ref : RowRef) (hf : h.callocFails = []) (hr : Rep h 0 (leaf p es))
    (hslot : (es.map Prod.fst)[lowerSlot (es.map Prod.fst) id]? ≠ some id) :
    ∃ h', bptInsertRecursive (fuel + 1) h p id ref = some (h', 0, splitOf (packLeaf bptreeMaxKeys p id
        (es.take (lowerSlot (es.map Prod.fst) id) ++
          (id, ref) :: es.drop (lowerSlot (es.map Prod.fst) id)) h.nodes.length).2.1) ∧
      Simulated h 0 (leaf p es) h' (packLeaf bptreeMaxKeys p id
        (es.take (lowerSlot (es.map Prod.fst) id) ++
          (id, ref) :: es.drop (lowerSlot (es.map Prod.fst) id)) h.nodes.length) := by
  obtain ⟨next, hn⟩ := rep_leaf.mp hr
  have hp : p < h.nodes.length := (List.getElem?_eq_some_iff.mp hn).1
  have hle : lowerSlot (es.map Prod.fst) id ≤ es.length := by
    simpa using lowerSlot_le (es.map Prod.fst) id
  rw [bptInsertRecursive, hn]
  dsimp only
  rw [if_neg hslot]
  generalize hm : es.take (lowerSlot (es.map Prod.fst) id) ++
    (id, ref) :: es.drop (lowerSlot (es.map Prod.fst) id) = merged
  have hlen : merged.length = es.length + 1 := by
    rw [← hm, List.length_append, List.length_cons, List.length_take, List.length_drop]
    omega
  have hnext : ∀ nx, Chain h [p] nx → next = nx := by
    intro nx hc
    have h1 := hc.1
    rw [nextOf, leafAt, hn] at h1
    simpa using h1
  by_cases hlt : es.length < bptreeMaxKeys
  · -- room in the leaf: one store
    have hpack : packLeaf bptreeMaxKeys p id merged h.nodes.length =
        (leaf p merged, none, h.nodes.length) := by
      rw [packLeaf, if_pos (by omega)]
    rw [if_pos hlt, hpack]
    refine ⟨_, rfl, hf, store_length .., ?_, ?_, ?_⟩
    · intro x hx
      obtain rfl : x = leaf p merged := by simpa using hx
      exact rep_leaf.mpr ⟨next, store_self hp _⟩
    · intro q hq _
      exact store_of_ne (by simpa using hq) _
    · intro nx hc
      obtain rfl := hnext nx hc
      simp only [fragTrees_none, List.flatMap_cons, List.flatMap_nil, List.append_nil, leaves_leaf]
      refine ⟨?_, trivial⟩
      simp [nextOf, leafAt, store_self hp]
  · -- full leaf: a new right leaf is linked in behind the old one
    have hpack : packLeaf bptreeMaxKeys p id merged h.nodes.length =
        (leaf p (merged.take (merged.length / 2)),
          some (((merged.drop (merged.length / 2)).head?.map Prod.fst).getD id,
            leaf h.nodes.length (merged.drop (merged.length / 2))), h.nodes.length + 1) := by
      rw [packLeaf, if_neg (by omega)]
    obtain ⟨n, hcreate⟩ := bptCreateNode_ok hf true
    rw [if_neg hlt, hcreate, hpack, hlen]
    dsimp only
    set h1 : BptHeap := ⟨h.nodes ++ [n], []⟩ with hh1
    have hlen1 : h1.nodes.length = h.nodes.length + 1 := by simp [hh1]
    set left := BptNode.leaf (merged.take ((es.length + 1) / 2)) (some h.nodes.length) with hleft
    set right := BptNode.leaf (merged.drop ((es.length + 1) / 2)) next with hright
    have hne : p ≠ h.nodes.length := hp.ne
    have hgetp : ((h1.store p left).store h.nodes.length right).nodes[p]? = some left := by
      rw [store_of_ne hne, store_self (by omega)]
    have hgetr : ((h1.store p left).store h.nodes.length right).nodes[h.nodes.length]? =
        some right := store_self (by rw [store_length]; omega) _
    refine ⟨_, rfl, rfl, by simp [hh1], ?_, ?_, ?_⟩
    · intro x hx
      rw [fragTrees_some] at hx
      rcases List.mem_cons.mp hx with rfl | hx
      · exact rep_leaf.mpr ⟨_, hgetp⟩
      · obtain rfl := List.mem_singleton.mp hx
        exact rep_leaf.mpr ⟨_, hgetr⟩
    · intro q hq hlt
      rw [store_of_ne hlt.ne, store_of_ne (by simpa using hq)]
      exact push_of_lt hlt n
    · intro nx hc
      obtain rfl := hnext nx hc
      simp only [fragTrees_some, List.flatMap_cons, List.flatMap_nil, List.append_nil,
        leaves_leaf, List.singleton_append]
      refine ⟨?_, ?_, trivial⟩
      · rw [nextOf, leafAt, hgetp]
        rfl
      · rw [nextOf, leafAt, hgetr]
        rfl

/-! ### The branch case

`Spliced` collects what the recursive call on the child `c` leaves of the whole branch, before the
branch node itself is written. -/

section Branch

variable {d p : ℕ} {ks : List UInt64} {cs : List (IdTree d)} {h h₁ : BptHeap}

/-- The heap `h₁` holds the children `kids` that replace those of the branch, and differs from `h`
only inside the old branch and at new addresses. -/
structure Spliced (h : BptHeap) (p : ℕ) (ks : List UInt64) (cs : List (IdTree d)) (h₁ : BptHeap)
    (kids : List (IdTree d)) : Prop where
  no_fail : h₁.callocFails = []
  node : h₁.nodes[p]? = some (.internal ks (cs.map (ptr d)))
  rep : ∀ x ∈ kids, Rep h₁ d x
  apart : ∀ x ∈ kids, p ∉ ptrs d x
  frame : ∀ q, q ∉ ptrs (d + 1) (branch p ks cs) → q < h.nodes.length → h₁.nodes[q]? = h.nodes[q]?
  chain : ∀ nx, Chain h (cs.flatMap (leaves d)) nx → Chain h₁ (kids.flatMap (leaves d)) nx
  grows : h.nodes.length ≤ h₁.nodes.length

theorem Spliced.lt {kids : List (IdTree d)} (hs : Spliced h p ks cs h₁ kids) :
    p < h₁.nodes.length := (List.getElem?_eq_some_iff.mp hs.node).1

/-- Writing nodes that no child uses turns the spliced children into the result of the insertion. -/
theorem Spliced.simulated {kids : List (IdTree d)} (hs : Spliced h p ks cs h₁ kids) {h' : BptHeap}
    {keys : List UInt64} {k : UInt64} {fresh : ℕ} (hf : h'.callocFails = [])
    (hsize : h'.nodes.length = (packBranch bptreeMaxKeys p k keys kids fresh).2.2)
    (hsame : ∀ q, q ≠ p → q < h₁.nodes.length → h'.nodes[q]? = h₁.nodes[q]?)
    (hnodes : ∀ x ∈ fragTrees (packBranch bptreeMaxKeys p k keys kids fresh).1
        (packBranch bptreeMaxKeys p k keys kids fresh).2.1,
      ∃ q ks' cs', x = branch q ks' cs' ∧
        h'.nodes[q]? = some (.internal ks' (cs'.map (ptr d))) ∧ ∀ c ∈ cs', c ∈ kids) :
    Simulated h (d + 1) (branch p ks cs) h' (packBranch bptreeMaxKeys p k keys kids fresh) where
  no_fail := hf
  size := hsize
  rep := by
    intro x hx
    obtain ⟨q, ks', cs', rfl, hnode, hkids⟩ := hnodes x hx
    refine rep_branch.mpr ⟨hnode, fun c hc => ?_⟩
    have hc := hkids c hc
    refine (hs.rep c hc).congr fun q hq => hsame q ?_ ((hs.rep c hc).lt q hq)
    rintro rfl
    exact hs.apart c hc hq
  frame := by
    intro q hq hlt
    have hqp : q ≠ p := by
      rintro rfl
      exact hq (by simp)
    rw [hsame q hqp (hlt.trans_le hs.grows)]
    exact hs.frame q hq hlt
  chain := by
    intro nx hc
    have hpack : (fragTrees (packBranch bptreeMaxKeys p k keys kids fresh).1
        (packBranch bptreeMaxKeys p k keys kids fresh).2.1).flatMap (leaves (d + 1)) =
          kids.flatMap (leaves d) :=
      packBranch_flatMap (o := indexShape) _ _ (fun _ _ _ => rfl)
    rw [hpack]
    refine (hs.chain nx hc).congr fun q hq => ?_
    obtain ⟨x, hx, hq⟩ := List.mem_flatMap.mp hq
    have hq := leaves_subset_ptrs d x hq
    refine hsame q ?_ ((hs.rep x hx).lt q hq)
    rintro rfl
    exact hs.apart x hx hq

/-- After the call on a child the branch is spliced. -/
theorem Simulated.spliced {i : ℕ} {c : IdTree d} {lo hi : Option UInt64} {lm bm : ℕ} {id : UInt64}
    {ref : RowRef} {res : IdTree d × Option (UInt64 × IdTree d) × ℕ}
    (hr : Rep h (d + 1) (branch p ks cs)) (hnd : (ptrs (d + 1) (branch p ks cs)).Nodup)
    (hcs : cs = cs.take i ++ c :: cs.drop (i + 1))
    (hins : Inserted indexShape d lo hi lm bm c id ref h.nodes.length res)
    (hsim : Simulated h d c h₁ res) :
    Spliced h p ks cs h₁ (cs.take i ++ (fragTrees res.1 res.2.1 ++ cs.drop (i + 1))) := by
  obtain ⟨hnode, hrep⟩ := rep_branch.mp hr
  have hpc : p < h.nodes.length := hr.lt p (by simp)
  rw [ptrs_branch, List.nodup_cons] at hnd
  obtain ⟨hp, hnd⟩ := hnd
  generalize hA : cs.take i = A at *
  generalize hB : cs.drop (i + 1) = B at *
  subst hcs
  simp only [List.flatMap_append, List.flatMap_cons, List.nodup_append, List.mem_append,
    not_or] at hnd hp
  obtain ⟨-, ⟨-, -, hcB⟩, hAc⟩ := hnd
  obtain ⟨hpA, hpC, hpB⟩ := hp
  -- a sibling shares no node with the child
  have hsib : ∀ x, x ∈ A ∨ x ∈ B → ∀ q ∈ ptrs d x, h₁.nodes[q]? = h.nodes[q]? := by
    intro x hx q hq
    refine hsim.frame q ?_ ?_
    · intro hqc
      rcases hx with hx | hx
      · exact hAc q (List.mem_flatMap.mpr ⟨x, hx, hq⟩) q (Or.inl hqc) rfl
      · exact hcB q hqc q (List.mem_flatMap.mpr ⟨x, hx, hq⟩) rfl
    · exact (hrep x (by rcases hx with hx | hx <;> simp [hx])).lt q hq
  obtain ⟨new, hperm, -, hnew, hfresh⟩ := hins.addresses
  have happart : ∀ x ∈ fragTrees res.1 res.2.1, p ∉ ptrs d x := by
    intro x hx hpx
    have hmem := hperm.mem_iff.mp (List.mem_flatMap.mpr ⟨x, hx, hpx⟩)
    rcases List.mem_append.mp hmem with hmem | hmem
    · exact hpC hmem
    · exact absurd (hnew p hmem).1 (by omega)
  refine ⟨hsim.no_fail, ?_, ?_, ?_, ?_, ?_, ?_⟩
  · rw [hsim.frame p hpC hpc]
    exact hnode
  · intro x hx
    simp only [List.mem_append] at hx
    rcases hx with hx | hx | hx
    · exact (hrep x (by simp [hx])).congr (hsib x (Or.inl hx))
    · exact hsim.rep x hx
    · exact (hrep x (by simp [hx])).congr (hsib x (Or.inr hx))
  · intro x hx hpx
    simp only [List.mem_append] at hx
    rcases hx with hx | hx | hx
    · exact hpA (List.mem_flatMap.mpr ⟨x, hx, hpx⟩)
    · exact happart x hx hpx
    · exact hpB (List.mem_flatMap.mpr ⟨x, hx, hpx⟩)
  · intro q hq hlt
    refine hsim.frame q (fun hqc => hq ?_) hlt
    rw [ptrs_branch]
    exact List.mem_cons_of_mem _ (List.mem_flatMap.mpr ⟨c, by simp, hqc⟩)
  · intro nx hc
    simp only [List.flatMap_append, List.flatMap_cons] at hc ⊢
    have hleaf : ∀ X : List (IdTree d), (∀ x ∈ X, x ∈ A ∨ x ∈ B) → ∀ q ∈ X.flatMap (leaves d),
        h₁.nodes[q]? = h.nodes[q]? := by
      intro X hX q hq
      obtain ⟨x, hx, hq⟩ := List.mem_flatMap.mp hq
      exact hsib x (hX x hx) q (leaves_subset_ptrs d x hq)
    rw [chain_append, chain_append] at hc ⊢
    rw [List.head?_append] at hc ⊢
    rw [hins.first_leaf]
    exact ⟨hc.1.congr (hleaf A fun x hx => Or.inl hx), hsim.chain _ hc.2.1,
      hc.2.2.congr (hleaf B fun x hx => Or.inr hx)⟩
  · rw [hsim.size]
    exact hfresh

/-- What the code does with the outcome of the call on the child: nothing, one store, or a new right
node and two stores. -/
theorem bptInsertRecursive_branch {fuel : ℕ} {id : UInt64} {ref : RowRef} {c l : IdTree d}
    {r : Option (UInt64 × IdTree d)} (hr : Rep h (d + 1) (branch p ks cs))
    (hcap : ks.length ≤ bptreeMaxKeys) (hc : cs[upperSlot ks id]? = some c) (hl : ptr d l = ptr d c)
    (hrec : bptInsertRecursive fuel h (ptr d c) id ref = some (h₁, 0, splitOf r))
    (hs : Spliced h p ks cs h₁ (cs.take (upperSlot ks id) ++
      (fragTrees l r ++ cs.drop (upperSlot ks id + 1)))) :
    ∃ h', bptInsertRecursive (fuel + 1) h p id ref = some (h', 0, splitOf
        (packBranch bptreeMaxKeys p id
          (ks.take (upperSlot ks id) ++ (fragKeys r ++ ks.drop (upperSlot ks id)))
          (cs.take (upperSlot ks id) ++ (fragTrees l r ++ cs.drop (upperSlot ks id + 1)))
          h₁.nodes.length).2.1) ∧
      Simulated h (d + 1) (branch p ks cs) h' (packBranch bptreeMaxKeys p id
        (ks.take (upperSlot ks id) ++ (fragKeys r ++ ks.drop (upperSlot ks id)))
        (cs.take (upperSlot ks id) ++ (fragTrees l r ++ cs.drop (upperSlot ks id + 1)))
        h₁.nodes.length) := by
  obtain ⟨hn, -⟩ := rep_branch.mp hr
  have hi : upperSlot ks id ≤ ks.length := upperSlot_le ks id
  have hp := hs.lt
  have hchild : (cs.map (ptr d))[upperSlot ks id]? = some (ptr d c) := by
    rw [List.getElem?_map, hc]
    rfl
  rw [bptInsertRecursive, hn]
  dsimp only
  rw [hchild]
  dsimp only
  rw [hrec]
  simp only [ne_eq, not_true_eq_false, if_false]
  cases r with
  | none =>
    -- the child did not split: the branch node is left as it is
    simp only [splitOf, Option.map_none, fragKeys_none, List.nil_append, List.take_append_drop,
      fragTrees_none]
    simp only [fragTrees_none] at hs
    have hmap : ((cs.take (upperSlot ks id) ++ ([l] ++ cs.drop (upperSlot ks id + 1))).map (ptr d)) =
        cs.map (ptr d) := by
      have hcs : cs = cs.take (upperSlot ks id) ++ c :: cs.drop (upperSlot ks id + 1) := by
        obtain ⟨hlt, heq⟩ := List.getElem?_eq_some_iff.mp hc
        rw [← heq, List.getElem_cons_drop, List.take_append_drop]
      conv_rhs => rw [hcs]
      simp [hl]
    have hpack (kids : List (IdTree d)) : packBranch bptreeMaxKeys p id ks kids h₁.nodes.length =
        (branch p ks kids, none, h₁.nodes.length) := by
      rw [packBranch, if_pos hcap]
    refine ⟨h₁, by rw [hpack]; rfl, hs.simulated hs.no_fail (by rw [hpack]) (fun _ _ _ => rfl) ?_⟩
    rw [hpack]
    intro x hx
    refine ⟨p, ks, _, List.mem_singleton.mp hx, ?_, fun y hy => hy⟩
    rw [hs.node, hmap]
  | some q =>
    obtain ⟨s, t⟩ := q
    have hkeys : (ks.take (upperSlot ks id) ++ s :: ks.drop (upperSlot ks id)).length =
        ks.length + 1 := by
      rw [List.length_append, List.length_cons, List.length_take, List.length_drop]
      omega
    have hchildren : (cs.map (ptr d)).take (upperSlot ks id + 1) ++
        ptr d t :: (cs.map (ptr d)).drop (upperSlot ks id + 1) =
        (cs.take (upperSlot ks id) ++ ([l, t] ++ cs.drop (upperSlot ks id + 1))).map (ptr d) := by
      rw [List.take_add_one, hchild, ← List.map_take, ← List.map_drop]
      simp [hl]
    simp only [splitOf, Option.map_some, fragKeys_some, fragTrees_some, List.singleton_append]
    simp only [fragTrees_some] at hs
    rw [hchildren]
    generalize hmk : ks.take (upperSlot ks id) ++ s :: ks.drop (upperSlot ks id) = keys at *
    generalize cs.take (upperSlot ks id) ++ ([l, t] ++ cs.drop (upperSlot ks id + 1)) = kids at *
    by_cases hroom : ks.length < bptreeMaxKeys
    · -- room for the new separator: one store
      have hpack : packBranch bptreeMaxKeys p id keys kids h₁.nodes.length =
          (branch p keys kids, none, h₁.nodes.length) := by
        rw [packBranch, if_pos (by omega)]
      rw [if_pos hroom]
      refine ⟨h₁.store p (.internal keys (kids.map (ptr d))), by rw [hpack]; rfl,
        hs.simulated hs.no_fail (by rw [hpack, store_length]) (fun q hq _ => store_of_ne hq _) ?_⟩
      rw [hpack]
      intro x hx
      exact ⟨p, keys, kids, List.mem_singleton.mp hx, store_self hp _, fun y hy => hy⟩
    · -- full branch: the middle key moves up, the upper part goes to a new node
      have hpack : packBranch bptreeMaxKeys p id keys kids h₁.nodes.length =
          (branch p (keys.take (keys.length / 2)) (kids.take (keys.length / 2 + 1)),
            some (keys.getD (keys.length / 2) id, branch h₁.nodes.length
              (keys.drop (keys.length / 2 + 1)) (kids.drop (keys.length / 2 + 1))),
            h₁.nodes.length + 1) := by
        rw [packBranch, if_neg (by omega)]
      obtain ⟨n, hcreate⟩ := bptCreateNode_ok hs.no_fail false
      rw [if_neg hroom, hcreate]
      dsimp only
      rw [← hkeys, ← List.map_take, ← List.map_drop]
      set h₂ : BptHeap := ⟨h₁.nodes ++ [n], []⟩ with hh₂
      have hlen₂ : h₂.nodes.length = h₁.nodes.length + 1 := by simp [hh₂]
      refine ⟨_, by rw [hpack]; rfl, hs.simulated (by rfl) ?_ ?_ ?_⟩
      · rw [hpack, store_length, store_length, hlen₂]
      · intro q hq hlt
        rw [store_of_ne hlt.ne, store_of_ne hq]
        exact push_of_lt hlt n
      · rw [hpack]
        intro x hx
        rcases List.mem_cons.mp hx with rfl | hx
        · refine ⟨p, _, _, rfl, ?_, fun y hy => List.mem_of_mem_take hy⟩
          rw [store_of_ne hp.ne, store_self (by omega)]
        · refine ⟨h₁.nodes.length, _, _, List.mem_singleton.mp hx, ?_,
            fun y hy => List.mem_of_mem_drop hy⟩
          rw [store_self (by rw [store_length]; omega)]

end Branch

/-! ### The induction over the height -/

section Induction

variable {d fuel : ℕ} {lo hi : Option UInt64} {lm bm : ℕ} {t : IdTree d} {h : BptHeap}
  {id : UInt64} (ref : RowRef)

/-- The child an absent id belongs to, with what the branch passes on to it. -/
theorem branch_child {p : ℕ} {ks : List UInt64} {cs : List (IdTree d)}
    (hr : Rep h (d + 1) (branch p ks cs)) (hnd : (ptrs (d + 1) (branch p ks cs)).Nodup)
    (ho : Ordered (d + 1) lo hi (branch p ks cs)) (hk : InRange lo hi id)
    (hs : Sized indexShape (d + 1) lm bm (branch p ks cs))
    (hnew : id ∉ keysOf (d + 1) (branch p ks cs)) :
    ∃ c, cs[upperSlot ks id]? = some c ∧
      cs = cs.take (upperSlot ks id) ++ c :: cs.drop (upperSlot ks id + 1) ∧
      (cs.take (upperSlot ks id)).length = (ks.take (upperSlot ks id)).length ∧
      Separated (Ordered d) lo hi (ks.take (upperSlot ks id) ++ ks.drop (upperSlot ks id))
        (cs.take (upperSlot ks id) ++ c :: cs.drop (upperSlot ks id + 1)) ∧
      Rep h d c ∧ (ptrs d c).Nodup ∧
      Ordered d ((ks.take (upperSlot ks id)).getLast?.or lo)
        ((ks.drop (upperSlot ks id)).head?.or hi) c ∧
      InRange ((ks.take (upperSlot ks id)).getLast?.or lo)
        ((ks.drop (upperSlot ks id)).head?.or hi) id ∧
      Sized indexShape d indexShape.minLeaf indexShape.minBranch c ∧ id ∉ keysOf d c := by
  have hsep := ordered_branch.mp ho
  obtain ⟨c, hc, hcs, hlen, hsep'⟩ := hsep.exists_child id
  have hmem : c ∈ cs := List.mem_of_getElem? hc
  refine ⟨c, hc, hcs, hlen, hsep', (rep_branch.mp hr).2 c hmem, ?_, (separated_focus hlen hsep').1,
    ?_, (sized_branch.mp hs).2.2 c hmem, fun hin => hnew ?_⟩
  · rw [ptrs_branch, List.nodup_cons] at hnd
    exact (List.nodup_flatMap.mp hnd.2).1 c hmem
  · exact inRange_focus hk (fun s hs => le_of_mem_take_upperSlot hs)
      (fun s hs => lt_of_mem_drop_upperSlot hsep.sorted hs)
  · rw [keysOf_branch]
    exact List.mem_flatMap.mpr ⟨c, hmem, hin⟩

/-- **Simulation.**  Inserting an absent id into a represented subtree does what the insertion into
the tree does. -/
theorem bptInsertRecursive_spec (hf : h.callocFails = []) (hr : Rep h d t)
    (hnd : (ptrs d t).Nodup) (ho : Ordered d lo hi t) (hk : InRange lo hi id)
    (hs : Sized indexShape d lm bm t) (hfuel : d < fuel) (hnew : id ∉ keysOf d t)
    {res : IdTree d × Option (UInt64 × IdTree d) × ℕ}
    (hres : insert bptreeMaxKeys d t id ref h.nodes.length = some res) :
    ∃ h', bptInsertRecursive fuel h (ptr d t) id ref = some (h', 0, splitOf res.2.1) ∧
      Simulated h d t h' res := by
  induction d generalizing fuel lo hi lm bm with
  | zero =>
    obtain ⟨fuel, rfl⟩ : ∃ f, fuel = f + 1 := ⟨fuel - 1, by omega⟩
    obtain ⟨p, es, rfl⟩ := eq_leaf t
    have hslot : (es.map Prod.fst)[lowerSlot (es.map Prod.fst) id]? ≠ some id :=
      fun heq => hnew (List.mem_of_getElem? heq)
    obtain ⟨h', hcode, hsim⟩ := bptInsertRecursive_leaf fuel ref hf hr hslot
    obtain rfl := Option.some.inj ((insert_leaf_of_not_mem hslot).symm.trans hres)
    exact ⟨h', hcode, hsim⟩
  | succ d ih =>
    obtain ⟨fuel, rfl⟩ : ∃ f, fuel = f + 1 := ⟨fuel - 1, by omega⟩
    obtain ⟨p, ks, cs, rfl⟩ := eq_branch t
    obtain ⟨c, hc, hcs, hlen, -, hrc, hndc, hoc, hkr, hsz, hkc⟩ := branch_child hr hnd ho hk hs hnew
    obtain ⟨-, hcap, -⟩ := sized_branch.mp hs
    -- what the insertion into the child leaves, in the tree and in the heap
    obtain ⟨⟨l, r, fresh'⟩, hresc, hins⟩ : ∃ resc,
        insert bptreeMaxKeys d c id ref h.nodes.length = some resc ∧
          Inserted indexShape d _ _ _ _ c id ref h.nodes.length resc :=
      insert_spec hoc hkr hsz hkc
    obtain ⟨h₁, hcode, hsim⟩ := ih hrc hndc hoc hkr hsz
      (show d < fuel by omega) hkc hresc
    obtain ⟨h', hcode', hsim'⟩ := bptInsertRecursive_branch hr hcap hc hins.root hcode
      (hsim.spliced hr hnd hcs hins)
    have heq := (insert_branch_some hc hresc).symm.trans hres
    rw [hsim.size] at hcode' hsim'
    obtain rfl := Option.some.inj heq
    exact ⟨h', hcode', hsim'⟩

/-- Where the insertion into the tree does nothing, the code reports a duplicate. -/
theorem bptInsertRecursive_none (hr : Rep h d t) (ho : Ordered d lo hi t) (hfuel : d < fuel)
    {fresh : ℕ} (hnone : insert bptreeMaxKeys d t id ref fresh = none) :
    bptInsertRecursive fuel h (ptr d t) id ref = some (h, 1, none) := by
  induction d generalizing fuel lo hi with
  | zero =>
    obtain ⟨fuel, rfl⟩ : ∃ f, fuel = f + 1 := ⟨fuel - 1, by omega⟩
    obtain ⟨p, es, rfl⟩ := eq_leaf t
    obtain ⟨next, hn⟩ := rep_leaf.mp hr
    have hslot : (es.map Prod.fst)[lowerSlot (es.map Prod.fst) id]? = some id := by
      by_contra hslot
      rw [insert_leaf_of_not_mem hslot] at hnone
      cases hnone
    rw [ptr_leaf, bptInsertRecursive, hn]
    exact if_pos hslot
  | succ d ih =>
    obtain ⟨fuel, rfl⟩ : ∃ f, fuel = f + 1 := ⟨fuel - 1, by omega⟩
    obtain ⟨p, ks, cs, rfl⟩ := eq_branch t
    obtain ⟨c, hc, -, hlen, hsep'⟩ := (ordered_branch.mp ho).exists_child id
    have hnonec : insert bptreeMaxKeys d c id ref fresh = none := by
      cases hresc : insert bptreeMaxKeys d c id ref fresh with
      | none => rfl
      | some resc =>
        rw [insert_branch_some hc hresc] at hnone
        cases hnone
    obtain ⟨hn, hreps⟩ := rep_branch.mp hr
    have hrec := ih (hreps c (List.mem_of_getElem? hc)) (separated_focus hlen hsep').1
      (show d < fuel by omega) hnonec
    rw [ptr_branch, bptInsertRecursive, hn]
    dsimp only
    rw [List.getElem?_map, hc]
    simp only [Option.map_some]
    rw [hrec]
    rfl

end Induction

end MiniSql
