import MiniSql.IdIndex
import MiniSql.Statements

/-!
# Walking the leaf chain

The loops of `run_select_by_id_range` follow the `next` pointers of the leaves from a position that
`bpt_lower_bound` or `bpt_leftmost_leaf` has found.

* `taken action es` are the bindings of `es` that a walk emits, up to its stop.
* `walkSlots_eq`, `walkLeaves_chain`, `walkLeaves_eq`: one leaf, a chain of leaves, and a walk from any
  position: it emits what it takes of the bindings from there on.
* `taken_filter`, `taken_stop`: without a stop a walk takes a filter, and on ascending keys so does one that
  stops at the first key out of range.
* `Chain.nodup`, `Chain.length_le`: a chain that ends visits no leaf twice, so the fuel is enough.

Main results: `runSelectByIdRange_eq`, the range path collects the rows of the ids in range, in ascending
order of the ids; and `runSelectById_eq`, the lookup collects the row of the id, if it is stored.
-/

namespace MiniSql

/-! ### The chain ends -/

theorem Chain.tail_unique {h : BptHeap} {p : ℕ} {ps qs : List ℕ} (hp : Chain h (p :: ps) none)
    (hq : Chain h (p :: qs) none) : ps = qs := by
  induction ps generalizing p qs with
  | nil =>
    have hnext := hp.1.symm.trans hq.1
    cases qs with
    | nil => rfl
    | cons q qs => simp at hnext
  | cons p' ps ih =>
    have hnext := hp.1.symm.trans hq.1
    cases qs with
    | nil => simp at hnext
    | cons q' qs =>
      have heq : p' = q' := by simpa using hnext
      subst heq
      rw [ih hp.2 hq.2]

/-- A chain that ends visits no leaf twice: the rest of the chain is determined by the leaf. -/
theorem Chain.nodup {h : BptHeap} {ps : List ℕ} (hc : Chain h ps none) : ps.Nodup := by
  induction ps with
  | nil => exact List.nodup_nil
  | cons p ps ih =>
    apply List.nodup_cons.mpr
    refine ⟨fun hmem => ?_, ih hc.2⟩
    obtain ⟨before, after, heq⟩ := List.append_of_mem hmem
    have hrest : Chain h (p :: after) none := by
      have htail := hc.2
      rw [heq, chain_append] at htail
      exact htail.2
    have hsame := hc.tail_unique hrest
    have hlen := congrArg List.length (hsame.symm.trans heq)
    rw [List.length_append, List.length_cons] at hlen
    omega

theorem leafAt_lt {h : BptHeap} {p : ℕ} (hp : ∃ les next, leafAt h p = some (les, next)) :
    p < h.nodes.length := by
  obtain ⟨les, next, hleaf⟩ := hp
  by_contra hge
  rw [leafAt, List.getElem?_eq_none (not_lt.mp hge)] at hleaf
  cases hleaf

/-- A chain of leaves that ends is no longer than the heap. -/
theorem Chain.length_le {h : BptHeap} {ps : List ℕ} (hc : Chain h ps none)
    (hleaves : ∀ p ∈ ps, ∃ les next, leafAt h p = some (les, next)) :
    ps.length ≤ h.nodes.length := by
  have hsubset : ps ⊆ List.range h.nodes.length := by
    intro p hp
    exact List.mem_range.mpr (leafAt_lt (hleaves p hp))
  have hlen := (hc.nodup.subperm hsubset).length_le
  rwa [List.length_range] at hlen

/-! ### One walk -/

/-- The bindings a walk emits. -/
def taken (action : UInt64 → SlotAction) : List (UInt64 × RowRef) → List (UInt64 × RowRef)
  | [] => []
  | (key, ref) :: slots =>
      match action key with
      | .skip => taken action slots
      | .stop => []
      | .emit => (key, ref) :: taken action slots

section Walk

variable {emit : RowRef → List StringList → ℤ × List StringList} {read : RowRef → StringList}
  {action : UInt64 → SlotAction}

/-- One leaf: the walk either goes on behind its slots or is over. -/
theorem walkSlots_eq (action : UInt64 → SlotAction) {slots : List (UInt64 × RowRef)}
    (hemit : ∀ e ∈ slots, ∀ out, emit e.2 out = (0, out ++ [read e.2])) (out : List StringList) :
    (walkSlots emit action slots out =
        (none, out ++ (taken action slots).map fun e => read e.2) ∧
      ∀ rest, taken action (slots ++ rest) = taken action slots ++ taken action rest) ∨
    (walkSlots emit action slots out =
        (some 0, out ++ (taken action slots).map fun e => read e.2) ∧
      ∀ rest, taken action (slots ++ rest) = taken action slots) := by
  induction slots generalizing out with
  | nil =>
    left
    exact ⟨by simp [walkSlots, taken], fun rest => rfl⟩
  | cons e slots ih =>
    obtain ⟨key, ref⟩ := e
    have ih' := ih fun e he => hemit e (List.mem_cons_of_mem _ he)
    have hthis := hemit (key, ref) List.mem_cons_self
    simp only [List.cons_append, walkSlots, taken]
    cases action key with
    | skip => exact ih' out
    | stop =>
      right
      exact ⟨by simp, fun rest => rfl⟩
    | emit =>
      dsimp only
      rw [hthis out]
      dsimp only
      rw [if_neg (by omega)]
      rcases ih' (out ++ [read ref]) with ⟨hwalk, htaken⟩ | ⟨hwalk, htaken⟩
      · left
        refine ⟨?_, fun rest => by rw [htaken rest, List.cons_append]⟩
        rw [hwalk, List.map_cons, List.append_assoc, List.singleton_append]
      · right
        refine ⟨?_, fun rest => by rw [htaken rest]⟩
        rw [hwalk, List.map_cons, List.append_assoc, List.singleton_append]

/-- A walk along a chain of leaves; the induction is over the leaves behind the first one. -/
theorem walkLeaves_chain {heap : BptHeap} {ps : List ℕ} {p i fuel : ℕ}
    {les : List (UInt64 × RowRef)} {next : Option ℕ} (hfuel : ps.length < fuel)
    (hchain : Chain heap (p :: ps) none)
    (hleaves : ∀ q ∈ ps, ∃ les next, leafAt heap q = some (les, next))
    (hleaf : leafAt heap p = some (les, next))
    (hemit : ∀ e ∈ les.drop i ++ leafData heap ps, ∀ out, emit e.2 out = (0, out ++ [read e.2]))
    (out : List StringList) :
    walkLeaves emit action heap fuel (some p) i out =
      (0, out ++ (taken action (les.drop i ++ leafData heap ps)).map fun e => read e.2) := by
  induction ps generalizing p i fuel les next out with
  | nil =>
    obtain ⟨fuel, rfl⟩ : ∃ f, fuel = f + 1 := ⟨fuel - 1, by omega⟩
    have hnext : next = none := by
      have hlast := hchain.1
      rw [nextOf, hleaf] at hlast
      simpa using hlast
    have hslots := walkSlots_eq action
      (fun e he => hemit e (List.mem_append_left _ he)) out
    rw [walkLeaves, hleaf]
    dsimp only
    rcases hslots with ⟨hwalk, htaken⟩ | ⟨hwalk, htaken⟩
    · rw [hwalk, hnext]
      dsimp only
      rw [walkLeaves, leafData, List.flatMap_nil, List.append_nil]
    · rw [hwalk, htaken]
  | cons q ps ih =>
    obtain ⟨fuel, rfl⟩ : ∃ f, fuel = f + 1 := ⟨fuel - 1, by omega⟩
    rw [List.length_cons] at hfuel
    have hnext : next = some q := by
      have hlast := hchain.1
      rw [nextOf, hleaf] at hlast
      simpa using hlast
    obtain ⟨les', next', hleaf'⟩ := hleaves q List.mem_cons_self
    have hslots := walkSlots_eq action
      (fun e he => hemit e (List.mem_append_left _ he)) out
    have hdata := leafData_cons hleaf' ps
    have hrest : ∀ out, walkLeaves emit action heap fuel (some q) 0 out =
        (0, out ++ (taken action (les'.drop 0 ++ leafData heap ps)).map fun e => read e.2) := by
      refine ih (by omega) hchain.2 (fun r hr => hleaves r (List.mem_cons_of_mem q hr)) hleaf' ?_
      intro e he
      apply hemit
      rw [List.drop_zero] at he
      rw [hdata]
      exact List.mem_append_right _ he
    rw [walkLeaves, hleaf]
    dsimp only
    rcases hslots with ⟨hwalk, htaken⟩ | ⟨hwalk, htaken⟩
    · rw [hwalk, hnext]
      dsimp only
      rw [hrest, List.drop_zero, ← hdata, htaken, List.map_append, List.append_assoc]
    · rw [hwalk, htaken]

/-- A walk from a position on the leaf level emits what it takes of the bindings from there on. -/
theorem walkLeaves_eq {heap : BptHeap} {p i : ℕ} {es : List (UInt64 × RowRef)}
    (hwalk : WalkFrom heap p i es)
    (hemit : ∀ e ∈ es, ∀ out, emit e.2 out = (0, out ++ [read e.2])) (out : List StringList) :
    walkLeaves emit action heap (heap.nodes.length + 1) (some p) i out =
      (0, out ++ (taken action es).map fun e => read e.2) := by
  obtain ⟨ps, les, next, hchain, hleaves, hleaf, rfl⟩ := hwalk
  have hlen := hchain.2.length_le hleaves
  exact walkLeaves_chain (by omega) hchain hleaves hleaf hemit out

end Walk

/-! ### What the range loops take -/

/-- Without a stop, a walk takes a filter. -/
theorem taken_filter {action : UInt64 → SlotAction} (p : UInt64 → Bool)
    {es : List (UInt64 × RowRef)}
    (haction : ∀ e ∈ es, action e.1 = if p e.1 then .emit else .skip) :
    taken action es = es.filter fun e => p e.1 := by
  induction es with
  | nil => rfl
  | cons e es ih =>
    obtain ⟨key, ref⟩ := e
    have hthis := haction (key, ref) List.mem_cons_self
    have hrest := ih fun e he => haction e (List.mem_cons_of_mem _ he)
    dsimp only at hthis
    rw [taken, hthis, List.filter_cons]
    cases p key <;> simp [hrest]

/-- On ascending keys, stopping at the first key that is out of range takes a filter too. -/
theorem taken_stop {action : UInt64 → SlotAction} (p : UInt64 → Bool) {es : List (UInt64 × RowRef)}
    (haction : ∀ e ∈ es, action e.1 = if p e.1 then .emit else .stop)
    (hsorted : (es.map Prod.fst).Pairwise (· < ·))
    (hdown : ∀ k k', k < k' → p k' = true → p k = true) :
    taken action es = es.filter fun e => p e.1 := by
  induction es with
  | nil => rfl
  | cons e es ih =>
    obtain ⟨key, ref⟩ := e
    rw [List.map_cons, List.pairwise_cons] at hsorted
    have hthis := haction (key, ref) List.mem_cons_self
    have hrest := ih (fun e he => haction e (List.mem_cons_of_mem _ he)) hsorted.2
    dsimp only at hthis
    rw [taken, hthis, List.filter_cons]
    cases hkey : p key with
    | true => simp [hrest]
    | false =>
      have hnone : es.filter (fun e => p e.1) = [] := by
        rw [List.filter_eq_nil_iff]
        intro e he hp
        have hlt := hsorted.1 e.1 (List.mem_map_of_mem he)
        rw [hdown key e.1 hlt hp] at hkey
        cases hkey
      simp [hnone]

section Range

variable {uninit : ℕ → UInt32} {s : State} {table : TableDefinition} {es : List (UInt64 × RowRef)}
  {read : RowRef → StringList}

/-- The range path collects the rows of the ids in range, in ascending order of the ids. -/
theorem runSelectByIdRange_eq (htable : s.globals.activeTable = some table)
    (hm : IndexModel s.globals.index es)
    (hread : ∀ e ∈ es, ∀ out, appendRowByRef uninit s table e.2 out = (0, out ++ [read e.2]))
    {op : WhereOperator} (hop : op ≠ .equal) (id : UInt64) (out : List StringList) :
    runSelectByIdRange uninit s op id out =
      (0, out ++ (es.filter fun e => idMatches op e.1 id).map fun e => read e.2) := by
  have hsorted := hm.sorted
  have hready := hm.ready
  by_cases hup : op = .greater ∨ op = .greaterEqual
  · -- from the lower bound upwards
    obtain ⟨root, hroot, hbound⟩ := hm.lowerBound id
    unfold runSelectByIdRange
    rw [htable, hready, hroot]
    dsimp only
    rw [if_pos hup]
    rcases hbound with ⟨hnone, hless⟩ | ⟨p, i, lower, upper, hsome, rfl, hwalk, hlower, hupper, -⟩
    · rw [hnone]
      have hempty : es.filter (fun e => idMatches op e.1 id) = [] := by
        rw [List.filter_eq_nil_iff]
        intro e he
        have hlt := hless e he
        rcases hup with rfl | rfl
        · simpa [idMatches] using hlt.le
        · simpa [idMatches] using hlt
      rw [hempty, List.map_nil, List.append_nil]
    · rw [hsome]
      dsimp only
      rw [walkLeaves_eq hwalk (fun e he => hread e (List.mem_append_right _ he))]
      have hfilter : taken (rangeAction op id) upper =
          (lower ++ upper).filter fun e => idMatches op e.1 id := by
        have hlow : lower.filter (fun e => idMatches op e.1 id) = [] := by
          rw [List.filter_eq_nil_iff]
          intro e he
          have hlt := hlower e he
          rcases hup with rfl | rfl
          · simpa [idMatches] using hlt.le
          · simpa [idMatches] using hlt
        rw [List.filter_append, hlow, List.nil_append]
        apply taken_filter (fun key => idMatches op key id)
        intro e he
        have hle := hupper e he
        rcases hup with rfl | rfl
        · by_cases hlt : id < e.1
          · simp [rangeAction, idMatches, hlt]
          · simp [rangeAction, idMatches, hlt, not_lt.mp hlt]
        · simp [rangeAction, idMatches, hle]
      rw [hfilter]
  · -- from the leftmost leaf up to the bound
    obtain ⟨root, p, hroot, hleft, hwalk⟩ := hm.leftmost
    unfold runSelectByIdRange
    rw [htable, hready, hroot]
    dsimp only
    rw [if_neg hup, hleft, walkLeaves_eq hwalk hread]
    have hfilter : taken (rangeAction op id) es = es.filter fun e => idMatches op e.1 id := by
      refine taken_stop (fun key => idMatches op key id) ?_ hsorted ?_
      · intro e _
        cases op with
        | less =>
          by_cases hlt : e.1 < id
          · simp [rangeAction, idMatches, hlt, not_le.mpr hlt]
          · simp [rangeAction, idMatches, hlt, not_lt.mp hlt]
        | lessEqual =>
          by_cases hle : e.1 ≤ id
          · simp [rangeAction, idMatches, hle, not_lt.mpr hle]
          · simp [rangeAction, idMatches, hle, not_le.mp hle]
        | equal => exact absurd rfl hop
        | greater => exact absurd (Or.inl rfl) hup
        | greaterEqual => exact absurd (Or.inr rfl) hup
      · intro k k' hlt hk'
        cases op with
        | less =>
          rw [idMatches, decide_eq_true_eq] at hk' ⊢
          exact hlt.trans hk'
        | lessEqual =>
          rw [idMatches, decide_eq_true_eq] at hk' ⊢
          exact hlt.le.trans hk'
        | equal => exact absurd rfl hop
        | greater => exact absurd (Or.inl rfl) hup
        | greaterEqual => exact absurd (Or.inr rfl) hup
    rw [hfilter]

/-- The lookup path collects the row of the id, if it is stored. -/
theorem runSelectById_eq (htable : s.globals.activeTable = some table)
    (hm : IndexModel s.globals.index es) (read : RowRef → StringList) {id : UInt64}
    (hread : ∀ e ∈ es, e.1 = id →
      ∀ out, appendRowByRef uninit s table e.2 out = (0, out ++ [read e.2]))
    (out : List StringList) :
    runSelectById uninit s id out =
      (0, out ++ (es.filter fun e => idMatches .equal e.1 id).map fun e => read e.2) := by
  have hnodup : (es.map Prod.fst).Nodup := hm.sorted.imp fun h => h.ne
  rw [runSelectById, htable]
  dsimp only
  rw [hm.find]
  cases hval : valueOf es id with
  | none =>
    have habsent := valueOf_eq_none.mp hval
    have hempty : es.filter (fun e => idMatches .equal e.1 id) = [] := by
      rw [List.filter_eq_nil_iff]
      intro e he heq
      rw [idMatches, decide_eq_true_eq] at heq
      exact habsent (heq ▸ List.mem_map_of_mem he)
    rw [hempty, List.map_nil, List.append_nil]
    rfl
  | some ref =>
    rw [valueOf] at hval
    obtain ⟨e, hfind, rfl⟩ := Option.map_eq_some_iff.mp hval
    have hmem := List.mem_of_find?_eq_some hfind
    have hkey : e.1 = id := by simpa using List.find?_some hfind
    have hsingle : es.filter (fun e => idMatches .equal e.1 id) = [e] := by
      obtain ⟨before, after, rfl⟩ := List.append_of_mem hmem
      rw [List.map_append, List.map_cons, List.nodup_append, List.nodup_cons] at hnodup
      obtain ⟨-, ⟨hafter, -⟩, hbefore⟩ := hnodup
      have hb : before.filter (fun e => idMatches .equal e.1 id) = [] := by
        rw [List.filter_eq_nil_iff]
        intro e' he' heq
        rw [idMatches, decide_eq_true_eq] at heq
        exact hbefore e'.1 (List.mem_map_of_mem he') e.1 List.mem_cons_self (heq.trans hkey.symm)
      have ha : after.filter (fun e => idMatches .equal e.1 id) = [] := by
        rw [List.filter_eq_nil_iff]
        intro e' he' heq
        rw [idMatches, decide_eq_true_eq] at heq
        rw [hkey, ← heq] at hafter
        exact hafter (List.mem_map_of_mem he')
      rw [List.filter_append, List.filter_cons, hb, ha]
      simp [idMatches, hkey]
    show appendRowByRef uninit s table e.2 out = _
    rw [hsingle, hread e hmem hkey]
    rfl

end Range

end MiniSql
