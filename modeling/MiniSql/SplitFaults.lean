import MiniSql.IndexWalk

/-!
# `index_insert` when node allocations fail

A call of `index_insert` allocates one node for every full node in a row on the path from the leaf of the id
upwards, and one more for a new root if the whole path is full.

* `nodeAllocations` is their number, `indexInsertUnder fails` the call with these outcomes.
* `AllOrNothing`: the first allocation fails, or none does.
* `TornTree`: the nodes below a later failure have been cut in half already, and a key of the last right half
  is lost to `index_find`, although the leaf chain still visits it.
* `runCalls` is a run of calls, each with its outcomes; `InsertCall.Atomic` is what a call should be.

Main results:

* `bptInsertRecursive_succeeds`, `bptInsertRecursive_first_fails`, `bptInsertRecursive_later_fails`: the three
  cases of the recursion, and `indexInsertUnder_succeeds` and its two neighbours those of the call.
* `runCalls_init`: a run whose calls are all or nothing holds exactly the inserted pairs.
* `indexInsert_atomic`: after every such run, a call with a new id is atomic exactly when it is all or nothing
  too.
* `indexInsert_not_atomic`: 31 ids fill the root leaf, and the next one finds no memory for a new root.
-/

namespace MiniSql

open Separators SearchTree

/-- `index_insert` when the node allocations it makes come out as `fails` says, and later ones succeed. -/
def indexInsertUnder (fails : List Bool) (idx : IdIndex) (id : UInt64) (ref : RowRef) : ℤ × IdIndex :=
  let (rc, idx) := indexInsert { idx with heap := ⟨idx.heap.nodes, fails⟩ } id ref
  (rc, { idx with heap := ⟨idx.heap.nodes, []⟩ })

/-! ### Which nodes are full -/

/-- The full nodes in a row from the leaf of `id` upwards to `p`, and whether `p` is one of them; none for an
id that is there. -/
def fullNodes : ℕ → List BptNode → ℕ → UInt64 → ℕ × Bool
  | 0, _, _, _ => (0, false)
  | fuel + 1, nodes, p, id =>
      match nodes[p]? with
      | none => (0, false)
      | some (.leaf es _) =>
          if (es.map Prod.fst)[lowerSlot (es.map Prod.fst) id]? = some id then (0, false)
          else if es.length < bptreeMaxKeys then (0, false)
          else (1, true)
      | some (.internal keys children) =>
          match children[upperSlot keys id]? with
          | none => (0, false)
          | some child =>
              let (n, full) := fullNodes fuel nodes child id
              if full = true ∧ ¬ keys.length < bptreeMaxKeys then (n + 1, true) else (n, false)

/-- The node allocations of `index_insert` if none of them fails. -/
def nodeAllocations (idx : IdIndex) (id : UInt64) : ℕ :=
  match idx.root with
  | none => 0
  | some root =>
      let (n, full) := fullNodes idx.heap.nodes.length idx.heap.nodes root id
      if full then n + 1 else n

/-- The first node allocation fails, or none of those the call makes does. -/
def AllOrNothing (fails : List Bool) (idx : IdIndex) (id : UInt64) : Prop :=
  fails.head? = some true ∨ ∀ b ∈ fails.take (nodeAllocations idx id), b = false

instance (fails : List Bool) (idx : IdIndex) (id : UInt64) : Decidable (AllOrNothing fails idx id) := by
  unfold AllOrNothing
  infer_instance

theorem fullNodes_pos {fuel : ℕ} {nodes : List BptNode} {p : ℕ} {id : UInt64}
    (h : (fullNodes fuel nodes p id).2 = true) : 0 < (fullNodes fuel nodes p id).1 := by
  cases fuel with
  | zero => cases h
  | succ fuel =>
    rw [fullNodes] at h ⊢
    split at h
    · cases h
    · rename_i es next hnode
      by_cases hslot : (es.map Prod.fst)[lowerSlot (es.map Prod.fst) id]? = some id
      · rw [if_pos hslot] at h
        cases h
      · rw [if_neg hslot] at h ⊢
        split at h
        · cases h
        · rename_i hroom
          rw [if_neg hroom]
          exact one_pos
    · split at h
      · cases h
      · dsimp only at h ⊢
        split at h
        · rename_i hfull
          rw [if_pos hfull]
          exact Nat.succ_pos _
        · cases h

/-! ### The allocations of the recursion -/

theorem bptCreateNode_succeeds {nodes : List BptNode} {fails : List Bool}
    (h : fails.head? ≠ some true) (isLeaf : Bool) :
    ∃ n, bptCreateNode ⟨nodes, fails⟩ isLeaf = (⟨nodes ++ [n], fails.tail⟩, some nodes.length) ∧
      bptCreateNode ⟨nodes, []⟩ isLeaf = (⟨nodes ++ [n], []⟩, some nodes.length) := by
  cases fails with
  | nil => exact ⟨_, rfl, rfl⟩
  | cons b fails =>
    cases b with
    | true => simp at h
    | false => exact ⟨_, rfl, rfl⟩

theorem bptCreateNode_fails {nodes : List BptNode} {fails : List Bool} (isLeaf : Bool) :
    bptCreateNode ⟨nodes, true :: fails⟩ isLeaf = (⟨nodes, fails⟩, none) := rfl

/-- The outcome of a recursion under other allocation outcomes. -/
def withFails (fails : List Bool) (r : BptHeap × ℤ × Option BptSplit) :
    BptHeap × ℤ × Option BptSplit := (⟨r.1.nodes, fails⟩, r.2)

theorem head?_drop_take {fails : List Bool} {n : ℕ} (h : ∀ b ∈ fails.take (n + 1), b = false) :
    (fails.drop n).head? ≠ some true := by
  rw [List.head?_drop]
  intro hn
  obtain ⟨hlt, hget⟩ := List.getElem?_eq_some_iff.mp hn
  have hmem : fails[n] ∈ fails.take (n + 1) := by
    rw [List.mem_take_iff_getElem]
    exact ⟨n, by omega, rfl⟩
  rw [h _ hmem] at hget
  cases hget

/-- The outcome of a recursion that returns, with the allocations it leaves, and whether it splits. -/
theorem recursion_outcome {heap : BptHeap} {rc : ℤ} {split : Option BptSplit} {full : Bool}
    (hfails : heap.callocFails = []) (hfull : split.isSome = full) (hrc : rc ≠ 0 → split = none) :
    ∀ h rc' split', some (heap, rc, split) = some (h, rc', split') →
      h.callocFails = [] ∧ split'.isSome = full ∧ (rc' ≠ 0 → split' = none) := by
  intro h rc' split' heq
  cases heq
  exact ⟨hfails, hfull, hrc⟩

/-- While the allocations it needs succeed, the recursion does what it does when all allocations succeed, and
it splits its node exactly when that node is full. -/
theorem bptInsertRecursive_succeeds {fuel : ℕ} {nodes : List BptNode} {fails : List Bool} {p : ℕ}
    {id : UInt64} (ref : RowRef) (hok : ∀ b ∈ fails.take (fullNodes fuel nodes p id).1, b = false) :
    bptInsertRecursive fuel ⟨nodes, fails⟩ p id ref =
        (bptInsertRecursive fuel ⟨nodes, []⟩ p id ref).map
          (withFails (fails.drop (fullNodes fuel nodes p id).1)) ∧
      ∀ h rc split, bptInsertRecursive fuel ⟨nodes, []⟩ p id ref = some (h, rc, split) →
        h.callocFails = [] ∧ split.isSome = (fullNodes fuel nodes p id).2 ∧
          (rc ≠ 0 → split = none) := by
  induction fuel generalizing fails p with
  | zero => exact ⟨rfl, fun h rc split heq => by cases heq⟩
  | succ fuel ih =>
    rw [fullNodes] at hok ⊢
    rw [bptInsertRecursive, bptInsertRecursive]
    cases hnode : nodes[p]? with
    | none => exact ⟨rfl, fun h rc split heq => by cases heq⟩
    | some node =>
      cases node with
      | leaf es next =>
        rw [hnode] at hok
        dsimp only at hok ⊢
        by_cases hslot : (es.map Prod.fst)[lowerSlot (es.map Prod.fst) id]? = some id
        · simp only [if_pos hslot]
          exact ⟨rfl, recursion_outcome rfl rfl fun _ => rfl⟩
        · simp only [if_neg hslot] at hok ⊢
          by_cases hroom : es.length < bptreeMaxKeys
          · simp only [if_pos hroom]
            exact ⟨rfl, recursion_outcome rfl rfl fun hrc => absurd rfl hrc⟩
          · simp only [if_neg hroom] at hok ⊢
            have hhead : fails.head? ≠ some true := by simpa using @head?_drop_take fails 0 hok
            obtain ⟨n, hcreate, hcreate'⟩ := @bptCreateNode_succeeds nodes fails hhead true
            rw [hcreate, hcreate']
            dsimp only
            refine ⟨?_, recursion_outcome rfl rfl fun hrc => absurd rfl hrc⟩
            simp [withFails, BptHeap.store]
      | internal keys children =>
        rw [hnode] at hok
        dsimp only at hok ⊢
        cases hchild : children[upperSlot keys id]? with
        | none => exact ⟨rfl, fun h rc split heq => by cases heq⟩
        | some child =>
          rw [hchild] at hok
          dsimp only at hok ⊢
          have hokChild : ∀ b ∈ fails.take (fullNodes fuel nodes child id).1, b = false := by
            intro b hb
            apply hok b
            split
            · exact List.mem_of_mem_take (by rwa [List.take_take, min_eq_left (Nat.le_succ _)])
            · exact hb
          obtain ⟨hrec, hsplit⟩ := ih hokChild
          rw [hrec]
          cases hclean : bptInsertRecursive fuel ⟨nodes, []⟩ child id ref with
          | none => exact ⟨rfl, fun h rc split heq => by cases heq⟩
          | some r =>
            obtain ⟨h₁, rc, split⟩ := r
            obtain ⟨hf₁, hfull, hnone⟩ := hsplit _ _ _ hclean
            obtain ⟨nodes₁, fails₁⟩ := h₁
            obtain rfl : fails₁ = [] := hf₁
            simp only [Option.map_some, withFails]
            by_cases hrc : rc ≠ 0
            · obtain rfl := hnone hrc
              have hfalse : (fullNodes fuel nodes child id).2 = false := hfull.symm
              simp only [if_pos hrc, hfalse, Bool.false_eq_true, false_and, if_false, Option.map_some]
              exact ⟨rfl, recursion_outcome rfl rfl fun _ => rfl⟩
            · simp only [if_neg hrc]
              cases split with
              | none =>
                have hfalse : (fullNodes fuel nodes child id).2 = false := hfull.symm
                simp only [hfalse, Bool.false_eq_true, false_and, if_false, Option.map_some]
                exact ⟨rfl, recursion_outcome rfl rfl fun _ => rfl⟩
              | some childSplit =>
                obtain ⟨promoted, childRight⟩ := childSplit
                have htrue : (fullNodes fuel nodes child id).2 = true := hfull.symm
                simp only [htrue, true_and] at hok ⊢
                by_cases hroom : keys.length < bptreeMaxKeys
                · simp only [hroom, not_true_eq_false, if_true, if_false, Option.map_some]
                  exact ⟨rfl, recursion_outcome rfl rfl fun _ => rfl⟩
                · simp only [hroom, not_false_eq_true, if_true, if_false] at hok ⊢
                  have hhead := head?_drop_take hok
                  obtain ⟨n, hcreate, hcreate'⟩ :=
                    @bptCreateNode_succeeds nodes₁ (fails.drop (fullNodes fuel nodes child id).1) hhead
                      false
                  rw [hcreate, hcreate']
                  simp only [Option.map_some]
                  refine ⟨?_, recursion_outcome rfl rfl fun hrc => absurd rfl hrc⟩
                  simp [withFails, BptHeap.store]

/-- When the first allocation fails, the recursion changes nothing. -/
theorem bptInsertRecursive_first_fails {fuel : ℕ} {nodes : List BptNode} {fails : List Bool} {p : ℕ}
    {id : UInt64} (ref : RowRef) (hpos : 0 < (fullNodes fuel nodes p id).1) :
    bptInsertRecursive fuel ⟨nodes, true :: fails⟩ p id ref = some (⟨nodes, fails⟩, -1, none) := by
  induction fuel generalizing p with
  | zero => exact absurd hpos (lt_irrefl 0)
  | succ fuel ih =>
    rw [fullNodes] at hpos
    rw [bptInsertRecursive]
    cases hnode : nodes[p]? with
    | none =>
      rw [hnode] at hpos
      exact absurd hpos (lt_irrefl 0)
    | some node =>
      rw [hnode] at hpos
      cases node with
      | leaf es next =>
        dsimp only at hpos ⊢
        by_cases hslot : (es.map Prod.fst)[lowerSlot (es.map Prod.fst) id]? = some id
        · rw [if_pos hslot] at hpos
          exact absurd hpos (lt_irrefl 0)
        · by_cases hroom : es.length < bptreeMaxKeys
          · rw [if_neg hslot, if_pos hroom] at hpos
            exact absurd hpos (lt_irrefl 0)
          · rw [if_neg hslot, if_neg hroom, bptCreateNode_fails]
      | internal keys children =>
        dsimp only at hpos ⊢
        cases hchild : children[upperSlot keys id]? with
        | none =>
          rw [hchild] at hpos
          exact absurd hpos (lt_irrefl 0)
        | some child =>
          rw [hchild] at hpos
          dsimp only at hpos ⊢
          have hposChild : 0 < (fullNodes fuel nodes child id).1 := by
            split at hpos
            · rename_i hfull
              exact fullNodes_pos hfull.1
            · exact hpos
          rw [ih hposChild]
          rfl

/-! ### A tree that lost the right half of a split -/

/-- The heap `h'` holds the tree `t'` in place of `t`, but the key `k`, an old one or the new `id`, is not in
`t'` any more: it sits in a leaf that only the leaf chain visits. -/
structure TornTree (h : BptHeap) (d : ℕ) (lo hi : Option UInt64) (t : IdTree d) (id : UInt64)
    (h' : BptHeap) (t' : IdTree d) (k : UInt64) : Prop where
  rep : Rep h' d t'
  ordered : Ordered d lo hi t'
  root : ptr d t' = ptr d t
  frame : ∀ q, q ∉ ptrs d t → q < h.nodes.length → h'.nodes[q]? = h.nodes[q]?
  grows : h.nodes.length ≤ h'.nodes.length
  first_leaf : (leaves d t').head? = (leaves d t).head?
  known : k = id ∨ k ∈ keysOf d t
  lost : k ∉ keysOf d t'
  chain : ∃ ps, ps.head? = (leaves d t).head? ∧
    (∀ q ∈ ps, ∃ les next, leafAt h' q = some (les, next)) ∧
    k ∈ (leafData h' ps).map Prod.fst ∧ ∀ nx, Chain h (leaves d t) nx → Chain h' ps nx

section Torn

variable {h h' : BptHeap} {d : ℕ} {lo hi : Option UInt64} {lm bm : ℕ} {t : IdTree d} {id : UInt64}
  {ref : RowRef}

/-- A split subtree without its right half. -/
theorem Simulated.torn {l r : IdTree d} {s : UInt64} {fresh : ℕ}
    (hsim : Simulated h d t h' (l, some (s, r), fresh))
    (hins : Inserted indexShape d lo hi lm bm t id ref h.nodes.length (l, some (s, r), fresh)) :
    ∃ k, TornTree h d lo hi t id h' l k := by
  have hordered := hins.ordered
  simp only [fragKeys_some, fragTrees_some, separated_cons_cons, separated_nil_singleton] at hordered
  obtain ⟨hinside, hl, hr⟩ := hordered
  have hrepl : Rep h' d l := hsim.rep l (by simp)
  have hrepr : Rep h' d r := hsim.rep r (by simp)
  obtain ⟨-, -, -, -, hfresh⟩ := hins.addresses
  have hgrows : h.nodes.length ≤ h'.nodes.length := by
    rw [hsim.size]
    exact hfresh
  have hleaves : leaves d l ≠ [] := (bptLeftmostLeafFrom_spec hrepl hl (Nat.lt_succ_self d)).2
  have hfirst := hins.first_leaf
  simp only [fragTrees_some, List.flatMap_cons, List.flatMap_nil, List.append_nil] at hfirst
  obtain ⟨e, es, hentries⟩ := List.exists_cons_of_ne_nil
    ((hins.sized_split (s, r) rfl).2.entries_ne_nil (by decide) hr)
  have hmem : e ∈ entries d r := by
    rw [hentries]
    exact List.mem_cons_self
  have hkey : e.1 ∈ keysOf d r := List.mem_map_of_mem hmem
  refine ⟨e.1, hrepl, hl.widen fun b hb => ⟨s, rfl, (hinside.2 b hb).le⟩, hins.root, hsim.frame,
    hgrows, ?_, ?_, ?_, leaves d l ++ leaves d r, hfirst, ?_, ?_, ?_⟩
  · rw [← hfirst, List.head?_append_of_ne_nil _ hleaves]
  · have hadded := (hins.binding.mem_iff e).mp (by simp [hmem])
    rcases hadded with rfl | hold
    · exact Or.inl rfl
    · exact Or.inr (List.mem_map_of_mem hold)
  · intro hleft
    have hlt := (hl.inRange _ hleft).2 s rfl
    have hge := (hr.inRange _ hkey).1 s rfl
    exact absurd hlt (not_lt.mpr hge)
  · intro q hq
    rcases List.mem_append.mp hq with hq | hq
    · exact mem_leaves_leafAt hrepl q hq
    · exact mem_leaves_leafAt hrepr q hq
  · rw [leafData_append, leafData_leaves hrepr, List.map_append]
    exact List.mem_append_right _ hkey
  · intro nx hc
    simpa using hsim.chain nx hc

/-- A branch with a torn child is torn. -/
theorem TornTree.branch {p : ℕ} {ks₁ ks₂ : List UInt64} {A B : List (IdTree d)} {c c' : IdTree d}
    {k : UInt64} (hr : Rep h (d + 1) (SearchTree.branch p (ks₁ ++ ks₂) (A ++ c :: B)))
    (hnd : (ptrs (d + 1) (SearchTree.branch p (ks₁ ++ ks₂) (A ++ c :: B))).Nodup)
    (hsep : Separated (Ordered d) lo hi (ks₁ ++ ks₂) (A ++ c :: B))
    (hlen : A.length = ks₁.length)
    (hnew : id ∉ keysOf (d + 1) (SearchTree.branch p (ks₁ ++ ks₂) (A ++ c :: B)))
    (htorn : TornTree h d (ks₁.getLast?.or lo) (ks₂.head?.or hi) c id h' c' k) :
    TornTree h (d + 1) lo hi (SearchTree.branch p (ks₁ ++ ks₂) (A ++ c :: B)) id h'
      (SearchTree.branch p (ks₁ ++ ks₂) (A ++ c' :: B)) k := by
  obtain ⟨hnode, hrep⟩ := rep_branch.mp hr
  have hsorted : ((A.flatMap (keysOf d)) ++ (keysOf d c ++ B.flatMap (keysOf d))).Nodup := by
    have hall := Separated.flatMap_sorted (fun lo hi c hc => Ordered.inRange hc) hsep
      (fun lo hi c _ hc => Ordered.sorted hc)
    rw [List.flatMap_append, List.flatMap_cons] at hall
    exact hall.imp fun hlt => hlt.ne
  rw [keysOf_branch, List.flatMap_append, List.flatMap_cons] at hnew
  have hfresh : p ∉ ptrs d c ∧ (∀ x ∈ A, ∀ q ∈ ptrs d x, q ∉ ptrs d c) ∧
      ∀ x ∈ B, ∀ q ∈ ptrs d x, q ∉ ptrs d c := by
    rw [ptrs_branch, List.nodup_cons, List.flatMap_append, List.flatMap_cons, List.nodup_append,
      List.nodup_append] at hnd
    obtain ⟨hp, -, ⟨-, -, hcB⟩, hAc⟩ := hnd
    refine ⟨fun hmem => hp (by simp [hmem]), fun x hx q hq hqc => ?_, fun x hx q hq hqc => ?_⟩
    · exact hAc q (List.mem_flatMap.mpr ⟨x, hx, hq⟩) q (List.mem_append_left _ hqc) rfl
    · exact hcB q hqc q (List.mem_flatMap.mpr ⟨x, hx, hq⟩) rfl
  obtain ⟨hpc, hA, hB⟩ := hfresh
  have hsame : ∀ x, x ∈ A ∨ x ∈ B → ∀ q ∈ ptrs d x, h'.nodes[q]? = h.nodes[q]? := by
    intro x hx q hq
    have hx' : x ∈ A ++ c :: B := by rcases hx with hx | hx <;> simp [hx]
    refine htorn.frame q ?_ ((hrep x hx').lt q hq)
    rcases hx with hx | hx
    · exact hA x hx q hq
    · exact hB x hx q hq
  have hsibling : ∀ x, x ∈ A ∨ x ∈ B → Rep h' d x := by
    intro x hx
    have hx' : x ∈ A ++ c :: B := by rcases hx with hx | hx <;> simp [hx]
    exact (hrep x hx').congr (hsame x hx)
  have hleafSame : ∀ X : List (IdTree d), (∀ x ∈ X, x ∈ A ∨ x ∈ B) →
      ∀ q ∈ X.flatMap (leaves d), h'.nodes[q]? = h.nodes[q]? := by
    intro X hX q hq
    obtain ⟨x, hx, hq⟩ := List.mem_flatMap.mp hq
    exact hsame x (hX x hx) q (leaves_subset_ptrs d x hq)
  have hleafAt : ∀ X : List (IdTree d), (∀ x ∈ X, x ∈ A ∨ x ∈ B) →
      ∀ q ∈ X.flatMap (leaves d), ∃ les next, leafAt h' q = some (les, next) := by
    intro X hX q hq
    obtain ⟨x, hx, hq⟩ := List.mem_flatMap.mp hq
    exact mem_leaves_leafAt (hsibling x (hX x hx)) q hq
  obtain ⟨ps, hhead, hps, hk, hchain⟩ := htorn.chain
  refine ⟨rep_branch.mpr ⟨?_, ?_⟩, ?_, rfl, ?_, htorn.grows, ?_, ?_, ?_,
    A.flatMap (leaves d) ++ (ps ++ B.flatMap (leaves d)), ?_, ?_, ?_, ?_⟩
  · have hp : p < h.nodes.length := hr.lt p (by simp)
    rw [htorn.frame p hpc hp, hnode]
    simp [htorn.root]
  · intro x hx
    rcases List.mem_append.mp hx with hx | hx
    · exact hsibling x (Or.inl hx)
    · rcases List.mem_cons.mp hx with rfl | hx
      · exact htorn.rep
      · exact hsibling x (Or.inr hx)
  · have hfocus := (separated_focus hlen hsep).2 [] [c'] (separated_nil_singleton.mpr htorn.ordered)
    exact ordered_branch.mpr (by simpa using hfocus)
  · intro q hq hlt
    refine htorn.frame q (fun hqc => hq ?_) hlt
    rw [ptrs_branch]
    exact List.mem_cons_of_mem _ (List.mem_flatMap.mpr ⟨c, by simp, hqc⟩)
  · simp only [leaves_branch, List.flatMap_append, List.flatMap_cons, List.head?_append,
      htorn.first_leaf]
  · rw [keysOf_branch, List.flatMap_append, List.flatMap_cons]
    rcases htorn.known with hid | hold
    · exact Or.inl hid
    · exact Or.inr (List.mem_append_right _ (List.mem_append_left _ hold))
  · -- the siblings hold neither the new id nor a key of the child
    rw [keysOf_branch, List.flatMap_append, List.flatMap_cons]
    have hother : k ∉ A.flatMap (keysOf d) ∧ k ∉ B.flatMap (keysOf d) := by
      rcases htorn.known with rfl | hold
      · simp only [List.mem_append, not_or] at hnew
        exact ⟨hnew.1, hnew.2.2⟩
      · rw [List.nodup_append, List.nodup_append] at hsorted
        obtain ⟨-, ⟨-, -, hcB⟩, hAc⟩ := hsorted
        exact ⟨fun hin => hAc k hin k (List.mem_append_left _ hold) rfl,
          fun hin => hcB k hold k hin rfl⟩
    simp only [List.mem_append, not_or]
    exact ⟨hother.1, htorn.lost, hother.2⟩
  · simp only [leaves_branch, List.flatMap_append, List.flatMap_cons, List.head?_append, hhead]
  · intro q hq
    rcases List.mem_append.mp hq with hq | hq
    · exact hleafAt A (fun x hx => Or.inl hx) q hq
    · rcases List.mem_append.mp hq with hq | hq
      · exact hps q hq
      · exact hleafAt B (fun x hx => Or.inr hx) q hq
  · rw [leafData_append, leafData_append, List.map_append, List.map_append]
    exact List.mem_append_right _ (List.mem_append_left _ hk)
  · intro nx hc
    rw [leaves_branch, List.flatMap_append, List.flatMap_cons, chain_append, chain_append] at hc
    rw [chain_append, chain_append]
    rw [List.head?_append] at hc ⊢
    rw [hhead]
    exact ⟨hc.1.congr (hleafSame A fun x hx => Or.inl hx), hchain _ hc.2.1,
      hc.2.2.congr (hleafSame B fun x hx => Or.inr hx)⟩

/-- A later allocation fails: the recursion reports it and leaves a torn subtree. -/
theorem bptInsertRecursive_later_fails {fuel : ℕ} {ok : List Bool} (rest : List Bool)
    (ref : RowRef) (hf : h.callocFails = []) (hr : Rep h d t) (hnd : (ptrs d t).Nodup)
    (ho : Ordered d lo hi t) (hk : InRange lo hi id) (hs : Sized indexShape d lm bm t) (hfuel : d < fuel)
    (hnew : id ∉ keysOf d t) (hok : ∀ b ∈ ok, b = false) (hpos : 0 < ok.length)
    (hlt : ok.length < (fullNodes fuel h.nodes (ptr d t) id).1) :
    ∃ h' t' k, bptInsertRecursive fuel ⟨h.nodes, ok ++ true :: rest⟩ (ptr d t) id ref =
        some (⟨h'.nodes, rest⟩, -1, none) ∧ TornTree h d lo hi t id h' t' k := by
  induction d generalizing fuel lo hi lm bm with
  | zero =>
    obtain ⟨fuel, rfl⟩ : ∃ f, fuel = f + 1 := ⟨fuel - 1, by omega⟩
    obtain ⟨p, es, rfl⟩ := eq_leaf t
    obtain ⟨next, hn⟩ := rep_leaf.mp hr
    rw [ptr_leaf, fullNodes, hn] at hlt
    dsimp only at hlt
    split at hlt
    · simp at hlt
    · split at hlt
      · simp at hlt
      · simp only at hlt
        omega
  | succ d ih =>
    obtain ⟨fuel, rfl⟩ : ∃ f, fuel = f + 1 := ⟨fuel - 1, by omega⟩
    obtain ⟨p, ks, cs, rfl⟩ := eq_branch t
    obtain ⟨c, hc, hcs, hlen, hsep, hrc, hndc, hoc, hkr, hsz, hkc⟩ :=
      branch_child hr hnd ho hk hs hnew
    obtain ⟨hn, -⟩ := rep_branch.mp hr
    have hchild : (cs.map (ptr d))[upperSlot ks id]? = some (ptr d c) := by
      rw [List.getElem?_map, hc]
      rfl
    have hks := List.take_append_drop (upperSlot ks id) ks
    -- a torn child makes a torn branch
    have hlift : ∀ {h' c' k}, TornTree h d ((ks.take (upperSlot ks id)).getLast?.or lo)
        ((ks.drop (upperSlot ks id)).head?.or hi) c id h' c' k →
        ∃ t', TornTree h (d + 1) lo hi (SearchTree.branch p ks cs) id h' t' k := by
      intro h' c' k htorn
      have hbranch := @TornTree.branch h h' d lo hi id p _ _ _ _ c c' k (by rwa [hks, ← hcs])
        (by rwa [hks, ← hcs]) hsep hlen (by rwa [hks, ← hcs]) htorn
      rw [hks, ← hcs] at hbranch
      exact ⟨_, hbranch⟩
    rw [ptr_branch, fullNodes, hn] at hlt
    dsimp only at hlt
    rw [hchild] at hlt
    dsimp only at hlt
    rw [ptr_branch, bptInsertRecursive]
    dsimp only
    rw [hn]
    dsimp only
    rw [hchild]
    dsimp only
    by_cases hbelow : ok.length < (fullNodes fuel h.nodes (ptr d c) id).1
    · -- the failure is below
      obtain ⟨h', c', k, hrec, htorn⟩ := ih hrc hndc hoc hkr hsz (show d < fuel by omega) hkc hbelow
      obtain ⟨t', htorn'⟩ := hlift htorn
      rw [hrec]
      exact ⟨h', t', k, rfl, htorn'⟩
    · -- the child has split, and this branch finds no node for its own split
      have hfull : (fullNodes fuel h.nodes (ptr d c) id).2 = true ∧ ¬ ks.length < bptreeMaxKeys := by
        by_contra hnot
        rw [if_neg hnot] at hlt
        exact hbelow hlt
      rw [if_pos hfull] at hlt
      have hlength : ok.length = (fullNodes fuel h.nodes (ptr d c) id).1 := by
        simp only at hlt
        omega
      obtain ⟨nodes, fails⟩ := h
      obtain rfl : fails = [] := hf
      obtain ⟨hrec, hsplit⟩ := @bptInsertRecursive_succeeds fuel nodes (ok ++ true :: rest) (ptr d c)
        id ref (by rw [← hlength, List.take_left]; exact hok)
      rw [← hlength, List.drop_left] at hrec
      obtain ⟨⟨l, r, fresh⟩, hresc, hins⟩ : ∃ resc,
          insert bptreeMaxKeys d c id ref nodes.length = some resc ∧
            Inserted indexShape d _ _ _ _ c id ref nodes.length resc :=
        insert_spec hoc hkr hsz hkc
      obtain ⟨h₁, hcode, hsim⟩ := bptInsertRecursive_spec ref rfl hrc hndc hoc hkr hsz
        (show d < fuel by omega) hkc hresc
      obtain ⟨-, hsome, -⟩ := hsplit _ _ _ hcode
      rw [hfull.1] at hsome
      cases r with
      | none => cases hsome
      | some q =>
        obtain ⟨s, r⟩ := q
        obtain ⟨k, htorn⟩ := hsim.torn hins
        obtain ⟨t', htorn'⟩ := hlift htorn
        refine ⟨h₁, t', k, ?_, htorn'⟩
        rw [hrec, hcode]
        simp only [Option.map_some, withFails, splitOf, ne_eq, not_true_eq_false, if_false,
          if_neg hfull.2, bptCreateNode_fails]

end Torn

/-! ### The leaf chain -/

/-- The slots met on the way along the `next` pointers. -/
def chainSlots (heap : BptHeap) : ℕ → Option ℕ → List (UInt64 × RowRef)
  | 0, _ => []
  | _, none => []
  | fuel + 1, some leaf =>
      match leafAt heap leaf with
      | none => []
      | some (slots, next) => slots ++ chainSlots heap fuel next

/-- The keys met on the leaf chain from the leftmost leaf on. -/
def chainKeys (idx : IdIndex) : List UInt64 :=
  match idx.root with
  | none => []
  | some root =>
      (chainSlots idx.heap (idx.heap.nodes.length + 1) (bptLeftmostLeaf idx.heap root)).map Prod.fst

theorem chainSlots_eq {heap : BptHeap} {ps : List ℕ} {fuel : ℕ} (hfuel : ps.length < fuel)
    (hchain : Chain heap ps none)
    (hleaves : ∀ q ∈ ps, ∃ les next, leafAt heap q = some (les, next)) :
    chainSlots heap fuel ps.head? = leafData heap ps := by
  induction ps generalizing fuel with
  | nil =>
    obtain ⟨fuel, rfl⟩ : ∃ f, fuel = f + 1 := ⟨fuel - 1, by omega⟩
    rfl
  | cons p ps ih =>
    obtain ⟨fuel, rfl⟩ : ∃ f, fuel = f + 1 := ⟨fuel - 1, by omega⟩
    rw [List.length_cons] at hfuel
    obtain ⟨les, next, hleaf⟩ := hleaves p List.mem_cons_self
    have hnext : next = ps.head? := by
      have hlast := hchain.1
      rw [nextOf, hleaf] at hlast
      simpa using hlast
    rw [List.head?_cons, chainSlots, hleaf, leafData_cons hleaf]
    dsimp only
    rw [hnext, ih (by omega) hchain.2 fun q hq => hleaves q (List.mem_cons_of_mem p hq)]

/-- The chain that starts at the leftmost leaf of a represented tree. -/
theorem chainKeys_eq {idx : IdIndex} {d : ℕ} {lo hi : Option UInt64} {t : IdTree d} {ps : List ℕ}
    (hroot : idx.root = some (ptr d t)) (hr : Rep idx.heap d t) (ho : Ordered d lo hi t)
    (hfuel : d < idx.heap.nodes.length) (hhead : ps.head? = (leaves d t).head?)
    (hchain : Chain idx.heap ps none)
    (hleaves : ∀ q ∈ ps, ∃ les next, leafAt idx.heap q = some (les, next)) :
    chainKeys idx = (leafData idx.heap ps).map Prod.fst := by
  have hlen := hchain.length_le hleaves
  rw [chainKeys, hroot]
  dsimp only
  rw [bptLeftmostLeaf, (bptLeftmostLeafFrom_spec hr ho hfuel).1, ← hhead,
    chainSlots_eq (by omega) hchain hleaves]

theorem IndexModel.chainKeys {idx : IdIndex} {es : List (UInt64 × RowRef)} (hm : IndexModel idx es) :
    chainKeys idx = es.map Prod.fst := by
  obtain ⟨d, t, hi, rfl⟩ := hm
  rw [chainKeys_eq hi.root hi.rep hi.ordered hi.fuel rfl hi.chain (mem_leaves_leafAt hi.rep),
    leafData_leaves hi.rep]

theorem IndexModel.find_zero {idx : IdIndex} {es : List (UInt64 × RowRef)} (hm : IndexModel idx es)
    (k : UInt64) : (indexFind idx k).1 = 0 ↔ k ∈ es.map Prod.fst := by
  rw [hm.find, ← not_iff_not, ← valueOf_eq_none]
  cases valueOf es k <;> simp

/-! ### One call -/

section Call

variable {idx : IdIndex} {es : List (UInt64 × RowRef)} {fails : List Bool} {id : UInt64}

/-- While the allocations a call needs succeed, it does what it does when all allocations succeed. -/
theorem indexInsertUnder_succeeds (hf : idx.heap.callocFails = []) (ref : RowRef)
    (hok : ∀ b ∈ fails.take (nodeAllocations idx id), b = false) :
    indexInsertUnder fails idx id ref = indexInsert idx id ref := by
  obtain ⟨⟨nodes, callocFails⟩, root, ready⟩ := idx
  obtain rfl : callocFails = [] := hf
  cases ready with
  | false => rfl
  | true =>
    cases root with
    | none => rfl
    | some root =>
      rw [nodeAllocations] at hok
      dsimp only at hok
      have hokTree : ∀ b ∈ fails.take (fullNodes nodes.length nodes root id).1, b = false := by
        intro b hb
        apply hok b
        split
        · exact List.mem_of_mem_take (by rwa [List.take_take, min_eq_left (Nat.le_succ _)])
        · exact hb
      obtain ⟨hrec, hsplit⟩ := bptInsertRecursive_succeeds ref hokTree
      rw [indexInsertUnder, indexInsert, indexInsert]
      dsimp only
      rw [hrec]
      cases hclean : bptInsertRecursive nodes.length ⟨nodes, []⟩ root id ref with
      | none => rfl
      | some r =>
        obtain ⟨⟨nodes₁, fails₁⟩, rc, split⟩ := r
        obtain ⟨hf₁, hfull, -⟩ := hsplit _ _ _ hclean
        obtain rfl : fails₁ = [] := hf₁
        simp only [Option.map_some, withFails]
        by_cases hrc : rc ≠ 0
        · simp only [if_pos hrc]
        · simp only [if_neg hrc]
          cases split with
          | none => rfl
          | some rootSplit =>
            obtain ⟨promoted, right⟩ := rootSplit
            have htrue : (fullNodes nodes.length nodes root id).2 = true := hfull.symm
            rw [if_pos htrue] at hok
            obtain ⟨n, hcreate, hcreate'⟩ := @bptCreateNode_succeeds nodes₁
              (fails.drop (fullNodes nodes.length nodes root id).1) (head?_drop_take hok) false
            simp only [hcreate, hcreate', BptHeap.store]

/-- When the first allocation a call needs fails, the call changes nothing. -/
theorem indexInsertUnder_first_fails (hm : IndexModel idx es) (ref : RowRef)
    (hpos : 0 < nodeAllocations idx id) :
    indexInsertUnder (true :: fails) idx id ref = (-1, idx) := by
  have hf := hm.no_fail
  have hready := hm.ready
  obtain ⟨⟨nodes, callocFails⟩, root, ready⟩ := idx
  obtain rfl : callocFails = [] := hf
  obtain rfl : ready = true := hready
  cases root with
  | none => exact absurd hpos (lt_irrefl 0)
  | some root =>
    have hposTree : 0 < (fullNodes nodes.length nodes root id).1 := by
      rw [nodeAllocations] at hpos
      dsimp only at hpos
      split at hpos
      · rename_i hfull
        exact fullNodes_pos hfull
      · exact hpos
    rw [indexInsertUnder, indexInsert]
    dsimp only
    rw [bptInsertRecursive_first_fails ref hposTree]
    rfl

/-- A torn tree under the root pointer has a key on the leaf chain that is not found. -/
theorem TornTree.lost_key {heap h' : BptHeap} {d : ℕ} {k : UInt64} {t t' : IdTree d}
    (hi : TreeInvariant ⟨heap, some (ptr d t), true⟩ d t)
    (htorn : TornTree heap d none none t id h' t' k) :
    k ∈ chainKeys ⟨⟨h'.nodes, []⟩, some (ptr d t), true⟩ ∧
      (indexFind ⟨⟨h'.nodes, []⟩, some (ptr d t), true⟩ k).1 = 1 := by
  have hfuel : d < h'.nodes.length := hi.fuel.trans_le htorn.grows
  have hr : Rep ⟨h'.nodes, []⟩ d t' := htorn.rep.congr fun _ _ => rfl
  obtain ⟨ps, hhead, hps, hk, hchain⟩ := htorn.chain
  have hchain' : Chain ⟨h'.nodes, []⟩ ps none := (hchain none hi.chain).congr fun _ _ => rfl
  constructor
  · rw [chainKeys_eq (by rw [htorn.root]) hr htorn.ordered hfuel
      (hhead.trans htorn.first_leaf.symm) hchain' hps]
    exact hk
  · rw [indexFind_of_rep rfl (by rw [htorn.root]) hr htorn.ordered hfuel,
      valueOf_eq_none.mpr htorn.lost]

/-- When a later allocation fails, the call reports it, and a key on the leaf chain is not found. -/
theorem indexInsertUnder_later_fails {ok : List Bool} (rest : List Bool) (hm : IndexModel idx es) (ref : RowRef)
    (hnew : id ∉ es.map Prod.fst) (hok : ∀ b ∈ ok, b = false) (hpos : 0 < ok.length)
    (hlt : ok.length < nodeAllocations idx id) :
    (indexInsertUnder (ok ++ true :: rest) idx id ref).1 = -1 ∧
      ∃ k, k ∈ chainKeys (indexInsertUnder (ok ++ true :: rest) idx id ref).2 ∧
        (indexFind (indexInsertUnder (ok ++ true :: rest) idx id ref).2 k).1 = 1 := by
  obtain ⟨d, t, hi, rfl⟩ := hm
  obtain ⟨heap, root, ready⟩ := idx
  have hready : ready = true := hi.ready
  have hroot : root = some (ptr d t) := hi.root
  subst hready hroot
  rw [nodeAllocations] at hlt
  dsimp only at hlt
  by_cases hbelow : ok.length < (fullNodes heap.nodes.length heap.nodes (ptr d t) id).1
  · -- the failure is in the tree
    obtain ⟨h', t', k, hrec, htree⟩ := bptInsertRecursive_later_fails rest ref hi.no_fail
      hi.rep hi.nodup hi.ordered (inRange_none id) hi.sized hi.fuel hnew hok hpos hbelow
    have hcall : indexInsertUnder (ok ++ true :: rest) ⟨heap, some (ptr d t), true⟩ id ref =
        (-1, ⟨⟨h'.nodes, []⟩, some (ptr d t), true⟩) := by
      rw [indexInsertUnder, indexInsert]
      dsimp only
      rw [hrec]
      rfl
    rw [hcall]
    exact ⟨rfl, k, htree.lost_key hi⟩
  · -- the root has split, and there is no node for a new root
    have hfull : (fullNodes heap.nodes.length heap.nodes (ptr d t) id).2 = true := by
      by_contra hnot
      rw [if_neg hnot] at hlt
      exact hbelow hlt
    rw [if_pos hfull] at hlt
    have hlength : ok.length = (fullNodes heap.nodes.length heap.nodes (ptr d t) id).1 := by omega
    obtain ⟨nodes, callocFails⟩ := heap
    obtain rfl : callocFails = [] := hi.no_fail
    obtain ⟨hrec, hsplit⟩ := @bptInsertRecursive_succeeds nodes.length nodes (ok ++ true :: rest)
      (ptr d t) id ref (by rw [← hlength, List.take_left]; exact hok)
    rw [← hlength, List.drop_left] at hrec
    obtain ⟨⟨l, r, fresh⟩, hres, hins⟩ : ∃ res,
        SearchTree.insert bptreeMaxKeys d t id ref nodes.length = some res ∧
          Inserted indexShape d none none 0 1 t id ref nodes.length res :=
      insert_spec hi.ordered (inRange_none id) hi.sized hnew
    obtain ⟨h₁, hcode, hsim⟩ := bptInsertRecursive_spec ref rfl hi.rep hi.nodup hi.ordered
      (inRange_none id) hi.sized hi.fuel hnew hres
    obtain ⟨-, hsome, -⟩ := hsplit _ _ _ hcode
    rw [hfull] at hsome
    cases r with
    | none => cases hsome
    | some q =>
      obtain ⟨s, r⟩ := q
      obtain ⟨k, htree⟩ := hsim.torn hins
      have hcall : indexInsertUnder (ok ++ true :: rest) ⟨⟨nodes, []⟩, some (ptr d t), true⟩ id ref =
          (-1, ⟨⟨h₁.nodes, []⟩, some (ptr d t), true⟩) := by
        rw [indexInsertUnder, indexInsert]
        dsimp only
        rw [hrec, hcode]
        simp only [Option.map_some, withFails, splitOf, ne_eq, not_true_eq_false, if_false,
          bptCreateNode_fails]
      rw [hcall]
      exact ⟨rfl, k, htree.lost_key hi⟩

end Call

/-! ### Runs -/

/-- A call of `index_insert`, with the outcomes of the node allocations it makes. -/
structure InsertCall where
  fails : List Bool
  id : UInt64
  ref : RowRef

def InsertCall.run (call : InsertCall) (idx : IdIndex) : ℤ × IdIndex :=
  indexInsertUnder call.fails idx call.id call.ref

/-- The index after `index_init` and a sequence of calls. -/
def runCalls (calls : List InsertCall) (idx : IdIndex) : IdIndex :=
  calls.foldl (fun idx call => (call.run idx).2) idx

/-- Every call of the run meets the condition on its allocations. -/
def CallsAllOrNothing : List InsertCall → IdIndex → Prop
  | [], _ => True
  | call :: calls, idx => AllOrNothing call.fails idx call.id ∧ CallsAllOrNothing calls (call.run idx).2

/-- The pairs of the calls that returned 0. -/
def insertedPairs : List InsertCall → IdIndex → List (UInt64 × RowRef)
  | [], _ => []
  | call :: calls, idx =>
      (if (call.run idx).1 = 0 then [(call.id, call.ref)] else []) ++
        insertedPairs calls (call.run idx).2

/-- A call that meets the condition by its first failure changes nothing. -/
theorem InsertCall.run_first_fails {idx : IdIndex} {es : List (UInt64 × RowRef)} (call : InsertCall)
    (hm : IndexModel idx es) (hmeet : AllOrNothing call.fails idx call.id)
    (hfail : ¬ ∀ b ∈ call.fails.take (nodeAllocations idx call.id), b = false) :
    call.run idx = (-1, idx) := by
  obtain ⟨fails, id, ref⟩ := call
  have hpos : 0 < nodeAllocations idx id := by
    by_contra hzero
    rw [Nat.eq_zero_of_not_pos hzero, List.take_zero] at hfail
    exact hfail fun b hb => absurd hb List.not_mem_nil
  obtain ⟨rest, hfails⟩ : ∃ rest, fails = true :: rest := by
    rcases hmeet with hhead | hall
    · exact List.head?_eq_some_iff.mp hhead
    · exact absurd hall hfail
  subst hfails
  exact indexInsertUnder_first_fails hm ref hpos

/-- What a call that meets the condition does: it adds the pair, or changes nothing. -/
theorem InsertCall.run_model {idx : IdIndex} {es : List (UInt64 × RowRef)} (call : InsertCall)
    (hm : IndexModel idx es) (hmeet : AllOrNothing call.fails idx call.id) :
    ∃ es', IndexModel (call.run idx).2 es' ∧
      es'.Perm (es ++ if (call.run idx).1 = 0 then [(call.id, call.ref)] else []) := by
  by_cases hok : ∀ b ∈ call.fails.take (nodeAllocations idx call.id), b = false
  · rw [InsertCall.run, indexInsertUnder_succeeds hm.no_fail call.ref hok]
    by_cases hmem : call.id ∈ es.map Prod.fst
    · rw [hm.insert_of_mem hmem]
      exact ⟨es, hm, by simp⟩
    · obtain ⟨idx', es', heq, hm', hadd⟩ := hm.insert hmem call.ref
      rw [heq]
      exact ⟨es', hm', by simpa using AddsBinding.perm hadd⟩
  · rw [call.run_first_fails hm hmeet hok]
    exact ⟨es, hm, by simp⟩

theorem runCalls_model {idx : IdIndex} {es : List (UInt64 × RowRef)} (calls : List InsertCall)
    (hm : IndexModel idx es) (hmeet : CallsAllOrNothing calls idx) :
    ∃ es', IndexModel (runCalls calls idx) es' ∧ es'.Perm (es ++ insertedPairs calls idx) := by
  induction calls generalizing idx es with
  | nil => exact ⟨es, hm, by simp [insertedPairs]⟩
  | cons call calls ih =>
    obtain ⟨es₁, hm₁, hperm₁⟩ := call.run_model hm hmeet.1
    obtain ⟨es₂, hm₂, hperm₂⟩ := ih hm₁ hmeet.2
    refine ⟨es₂, hm₂, hperm₂.trans ?_⟩
    rw [insertedPairs, ← List.append_assoc]
    exact hperm₁.append_right _

/-- From `index_init` on, a run whose calls meet the condition holds exactly the inserted pairs. -/
theorem runCalls_init (calls : List InsertCall)
    (hmeet : CallsAllOrNothing calls (indexInit IdIndex.initial).2) :
    ∃ es, IndexModel (runCalls calls (indexInit IdIndex.initial).2) es ∧
      es.Perm (insertedPairs calls (indexInit IdIndex.initial).2) := by
  obtain ⟨-, hempty⟩ := @indexInit_spec IdIndex.initial rfl
  simpa using runCalls_model calls hempty hmeet

/-! ### Atomicity -/

/-- If the call returns -1, `index_find` answers as before it, and finds exactly the keys of the leaf
chain. -/
def InsertCall.Atomic (call : InsertCall) (idx : IdIndex) : Prop :=
  (call.run idx).1 = -1 →
    (∀ k, indexFind (call.run idx).2 k = indexFind idx k) ∧
      ∀ k, k ∈ chainKeys (call.run idx).2 ↔ (indexFind (call.run idx).2 k).1 = 0

/-- The first failing allocation of a call that does not meet the condition. -/
theorem exists_later_failure {fails : List Bool} {idx : IdIndex} {id : UInt64}
    (h : ¬ AllOrNothing fails idx id) :
    ∃ ok rest, fails = ok ++ true :: rest ∧ (∀ b ∈ ok, b = false) ∧ 0 < ok.length ∧
      ok.length < nodeAllocations idx id := by
  rw [AllOrNothing, not_or] at h
  obtain ⟨hhead, hlater⟩ := h
  have hok : ∀ b ∈ fails.takeWhile (fun b => !b), b = false := fun b hb => by
    simpa using List.mem_takeWhile_imp hb
  have hsplit := List.takeWhile_append_dropWhile (p := fun b => !b) (l := fails)
  cases hdrop : fails.dropWhile (fun b => !b) with
  | nil =>
    rw [hdrop, List.append_nil] at hsplit
    rw [hsplit] at hok
    exact absurd (fun b hb => hok b (List.mem_of_mem_take hb)) hlater
  | cons b rest =>
    have hb : b = true := by
      have hfirst := List.head_dropWhile_not (p := fun b => !b) (l := fails)
        (by rw [hdrop]; exact List.cons_ne_nil b rest)
      simpa [hdrop] using hfirst
    rw [hdrop, hb] at hsplit
    refine ⟨fails.takeWhile (fun b => !b), rest, hsplit.symm, hok, ?_, ?_⟩
    · cases hlist : fails.takeWhile (fun b => !b) with
      | nil =>
        rw [hlist, List.nil_append] at hsplit
        rw [← hsplit] at hhead
        exact absurd rfl hhead
      | cons c ok => exact Nat.succ_pos _
    · by_contra hge
      refine hlater fun c hc => hok c ?_
      rw [← hsplit, List.take_append_of_le_length (by omega)] at hc
      exact List.mem_of_mem_take hc

/-- After every run whose calls meet the condition, a call with a new id is atomic exactly when it meets the
condition too. -/
theorem indexInsert_atomic (calls : List InsertCall)
    (hmeet : CallsAllOrNothing calls (indexInit IdIndex.initial).2) (call : InsertCall)
    (hnew : (indexFind (runCalls calls (indexInit IdIndex.initial).2) call.id).1 ≠ 0) :
    call.Atomic (runCalls calls (indexInit IdIndex.initial).2) ↔
      AllOrNothing call.fails (runCalls calls (indexInit IdIndex.initial).2) call.id := by
  obtain ⟨es, hm, -⟩ := runCalls_init calls hmeet
  generalize runCalls calls (indexInit IdIndex.initial).2 = idx at *
  have hnew' : call.id ∉ es.map Prod.fst := fun hmem => hnew ((hm.find_zero call.id).mpr hmem)
  constructor
  · intro hatomic
    by_contra hnot
    obtain ⟨ok, rest, hfails, hok, hpos, hlt⟩ := exists_later_failure hnot
    obtain ⟨hrc, k, hchain, hfind⟩ :=
      indexInsertUnder_later_fails rest hm call.ref hnew' hok hpos hlt
    rw [← hfails] at hrc hchain hfind
    have hfound := ((hatomic hrc).2 k).mp hchain
    have hboth := hfound.symm.trans hfind
    exact absurd hboth (by decide)
  · intro hcond hrc
    by_cases hok : ∀ b ∈ call.fails.take (nodeAllocations idx call.id), b = false
    · obtain ⟨idx', es', heq, -, -⟩ := hm.insert hnew' call.ref
      rw [InsertCall.run, indexInsertUnder_succeeds hm.no_fail call.ref hok, heq] at hrc
      exact absurd hrc (show (0 : ℤ) ≠ -1 by decide)
    · rw [call.run_first_fails hm hcond hok]
      refine ⟨fun k => rfl, fun k => ?_⟩
      rw [hm.chainKeys, hm.find_zero]

/-- Calls none of whose allocations fails meet the condition. -/
theorem callsAllOrNothing_of_nil {calls : List InsertCall} (idx : IdIndex)
    (h : ∀ call ∈ calls, call.fails = []) : CallsAllOrNothing calls idx := by
  induction calls generalizing idx with
  | nil => trivial
  | cons call calls ih =>
    refine ⟨Or.inr ?_, ih _ fun c hc => h c (List.mem_cons_of_mem _ hc)⟩
    rw [h call List.mem_cons_self, List.take_nil]
    exact fun b hb => absurd hb List.not_mem_nil

theorem indexInsert_atomic_two :
    CallsAllOrNothing [⟨[], 7, 0⟩] (indexInit IdIndex.initial).2 ∧
    (indexFind (runCalls [⟨[], 7, 0⟩] (indexInit IdIndex.initial).2) 3).1 ≠ 0 ∧
    ((InsertCall.mk [true] 3 40).Atomic (runCalls [⟨[], 7, 0⟩] (indexInit IdIndex.initial).2) ↔
      AllOrNothing [true] (runCalls [⟨[], 7, 0⟩] (indexInit IdIndex.initial).2) 3) :=
  ⟨callsAllOrNothing_of_nil _ (by simp), by decide,
    indexInsert_atomic [⟨[], 7, 0⟩] (callsAllOrNothing_of_nil _ (by simp)) ⟨[true], 3, 40⟩ (by decide)⟩

/-- 31 ids fill the root leaf; the rows they refer to take nine bytes each. -/
def fullLeafCalls : List InsertCall := (List.range 31).map fun n => ⟨[], n.toUInt64, 9 * n⟩

/-- The insertion of the next id splits the leaf and finds no memory for a new root: 20 is lost. -/
theorem indexInsert_not_atomic :
    CallsAllOrNothing fullLeafCalls (indexInit IdIndex.initial).2 ∧
    (indexFind (runCalls fullLeafCalls (indexInit IdIndex.initial).2) 31).1 ≠ 0 ∧
    ¬ (InsertCall.mk [false, true] 31 279).Atomic
        (runCalls fullLeafCalls (indexInit IdIndex.initial).2) := by
  refine ⟨callsAllOrNothing_of_nil _ (by simp [fullLeafCalls]), by decide +kernel, fun h => ?_⟩
  have hsame := (h (by decide +kernel)).1 20
  exact absurd hsame (by decide +kernel)

end MiniSql
