import MiniSql.Common
import MiniSql.Library.SearchTree

/-!
# The id index of `storage.c`

`BptNode`s live in a heap and refer to each other by address: children pointers downwards, `next` pointers
along the leaf level.

* `BptHeap` holds the nodes allocated so far and, for each coming allocation, whether it fails.  The nodes
  keep the used prefixes of their arrays (`keys[0 .. size)` and so on); a leaf's `keys` and `refs` are one
  list of pairs.
* `bptCreateNode`, `bptFind`, `bptLeftmostLeaf`, `bptLowerBound` and `bptInsertRecursive` are the functions on
  nodes, `indexInit`, `indexInsert`, `indexFind` and `nextId` those the store calls.
* `IdIndex` is the root with the nodes it reaches, and `g_index_ready`.

Loops and recursion that follow pointers carry a fuel argument, `heap.nodes.length` at the entry points; a
path through a tree never has more nodes than the heap (`TreeInvariant.fuel`).  What the functions compute is
shown in `BPlusTreeRefinement` and `IdIndex` while allocations succeed, and in `SplitFaults` when they fail.
-/

namespace MiniSql

open Separators

/-- A row reference: the byte offset of the row in the data file.  Offsets come from `ftell` and are
never negative, so the casts between `long` and `uint64_t` do not change them. -/
abbrev RowRef := ℕ

/-- `BPTREE_MAX_KEYS`. -/
def bptreeMaxKeys : ℕ := 31

inductive BptNode where
  | leaf (entries : List (UInt64 × RowRef)) (next : Option ℕ)
  | internal (keys : List UInt64) (children : List ℕ)
  deriving DecidableEq, Repr

/-- The nodes allocated so far, addressed by position, and for each coming node allocation whether
`calloc` returns `NULL` (allocations past the end of the list succeed). -/
structure BptHeap where
  nodes : List BptNode
  callocFails : List Bool
  deriving DecidableEq, Repr

/-- `node->... = ...`: overwrite a node. -/
def BptHeap.store (h : BptHeap) (p : ℕ) (n : BptNode) : BptHeap :=
  { h with nodes := h.nodes.set p n }

def bptCreateNode (h : BptHeap) (isLeaf : Bool) : BptHeap × Option ℕ :=
  match h.callocFails with
  | true :: rest => ({ h with callocFails := rest }, none)
  | _ =>
      ({ nodes := h.nodes ++ [if isLeaf then .leaf [] none else .internal [] []],
         callocFails := h.callocFails.tail }, some h.nodes.length)

/-- The descent shared by `bpt_find` and `bpt_lower_bound`: the leaf `id` belongs to. -/
def bptDescend : ℕ → BptHeap → ℕ → UInt64 → Option ℕ
  | 0, _, _, _ => none
  | fuel + 1, h, p, id =>
      match h.nodes[p]? with
      | none => none
      | some (.leaf _ _) => some p
      | some (.internal keys children) =>
        match children[upperSlot keys id]? with
        | none => none
        | some child => bptDescend fuel h child id

/-- The entries and the `next` pointer of a leaf. -/
def leafAt (h : BptHeap) (p : ℕ) : Option (List (UInt64 × RowRef) × Option ℕ) :=
  match h.nodes[p]? with
  | some (.leaf es next) => some (es, next)
  | _ => none

/-- `bpt_find`: return code and `*out_ref`. -/
def bptFind (h : BptHeap) (root : ℕ) (id : UInt64) : ℤ × Option RowRef :=
  match bptDescend h.nodes.length h root id with
  | none => (-1, none)
  | some p =>
    match leafAt h p with
    | none => (-1, none)
    | some (es, _) =>
      match es.find? fun e => decide (e.1 = id) with
      | some e => (0, some e.2)
      | none => (1, none)

def bptLeftmostLeafFrom : ℕ → BptHeap → ℕ → Option ℕ
  | 0, _, _ => none
  | fuel + 1, h, p =>
      match h.nodes[p]? with
      | none => none
      | some (.leaf _ _) => some p
      | some (.internal _ children) =>
        match children[0]? with
        | none => none
        | some child => bptLeftmostLeafFrom fuel h child

def bptLeftmostLeaf (h : BptHeap) (root : ℕ) : Option ℕ :=
  bptLeftmostLeafFrom h.nodes.length h root

/-- `bpt_lower_bound`: leaf and index of the first slot with a key `≥ key`; `none` is `false`. -/
def bptLowerBound (h : BptHeap) (root : ℕ) (key : UInt64) : Option (ℕ × ℕ) :=
  match bptDescend h.nodes.length h root key with
  | none => none
  | some p =>
    match leafAt h p with
    | none => none
    | some (es, next) =>
      let i := lowerSlot (es.map Prod.fst) key
      if es.length ≤ i then next.map fun q => (q, 0) else some (p, i)

/-- `BptSplitResult` when `split` is set: the promoted key and the new right node. -/
abbrev BptSplit := UInt64 × ℕ

/-- `bpt_insert_recursive`: the heap after the call, the return code and `*out_split`.  `none` stands
for a dangling pointer or a path longer than the fuel.

The recursive call stores only into the subtree of the child and into new nodes, so the node read
before it is the node after it. -/
def bptInsertRecursive : ℕ → BptHeap → ℕ → UInt64 → RowRef →
    Option (BptHeap × ℤ × Option BptSplit)
  | 0, _, _, _, _ => none
  | fuel + 1, h, p, id, ref =>
      match h.nodes[p]? with
      | none => none
      | some (.leaf es next) =>
        let insertAt := lowerSlot (es.map Prod.fst) id
        if (es.map Prod.fst)[insertAt]? = some id then some (h, 1, none)
        else
          let merged := es.take insertAt ++ (id, ref) :: es.drop insertAt
          if es.length < bptreeMaxKeys then some (h.store p (.leaf merged next), 0, none)
          else
            let total := es.length + 1
            let leftCount := total / 2
            match bptCreateNode h true with
            | (h, none) => some (h, -1, none)
            | (h, some right) =>
              let h := h.store p (.leaf (merged.take leftCount) (some right))
              let h := h.store right (.leaf (merged.drop leftCount) next)
              -- `right->keys[0]`: the right half is never empty
              let promoted := ((merged.drop leftCount).head?.map Prod.fst).getD id
              some (h, 0, some (promoted, right))
      | some (.internal keys children) =>
        let i := upperSlot keys id
        match children[i]? with
        | none => none
        | some child =>
          match bptInsertRecursive fuel h child id ref with
          | none => none
          | some (h, rc, split) =>
            if rc ≠ 0 then some (h, rc, none)
            else
              match split with
              | none => some (h, 0, none)
              | some (promoted, childRight) =>
                let mergedKeys := keys.take i ++ promoted :: keys.drop i
                let mergedChildren := children.take (i + 1) ++ childRight :: children.drop (i + 1)
                if keys.length < bptreeMaxKeys then
                  some (h.store p (.internal mergedKeys mergedChildren), 0, none)
                else
                  let totalKeys := keys.length + 1
                  let mid := totalKeys / 2
                  match bptCreateNode h false with
                  | (h, none) => some (h, -1, none)
                  | (h, some right) =>
                    let h := h.store p
                      (.internal (mergedKeys.take mid) (mergedChildren.take (mid + 1)))
                    let h := h.store right
                      (.internal (mergedKeys.drop (mid + 1)) (mergedChildren.drop (mid + 1)))
                    some (h, 0, some (mergedKeys.getD mid id, right))

/-- `g_index_root` with the nodes it reaches, and `g_index_ready`. -/
structure IdIndex where
  heap : BptHeap
  root : Option ℕ
  ready : Bool
  deriving DecidableEq, Repr

/-- The index before the first `index_init`. -/
def IdIndex.initial : IdIndex := ⟨⟨[], []⟩, none, false⟩

/-- `index_init`: the old tree is freed, so the new heap holds the new root alone. -/
def indexInit (idx : IdIndex) : ℤ × IdIndex :=
  match bptCreateNode ⟨[], idx.heap.callocFails⟩ true with
  | (h, none) => (-1, ⟨h, none, false⟩)
  | (h, some root) => (0, ⟨h, some root, true⟩)

def indexInsert (idx : IdIndex) (id : UInt64) (ref : RowRef) : ℤ × IdIndex :=
  match idx.ready, idx.root with
  | true, some root =>
    match bptInsertRecursive idx.heap.nodes.length idx.heap root id ref with
    | none => (-1, idx)
    | some (h, rc, split) =>
      if rc ≠ 0 then (rc, { idx with heap := h })
      else
        match split with
        | none => (0, { idx with heap := h })
        | some (promoted, right) =>
          match bptCreateNode h false with
          | (h, none) => (-1, { idx with heap := h })
          | (h, some newRoot) =>
            (0, ⟨h.store newRoot (.internal [promoted] [root, right]), some newRoot, true⟩)
  | _, _ => (-1, idx)

/-- `index_find`: return code and `*out_ref`. -/
def indexFind (idx : IdIndex) (id : UInt64) : ℤ × Option RowRef :=
  match idx.ready, idx.root with
  | true, some root => bptFind idx.heap root id
  | _, _ => (-1, none)

/-- `next_id`: the incremented `g_next_id_counter`, wrapping at `2^64`. -/
def nextId (counter : UInt64) : UInt64 := counter + 1

end MiniSql
