import Sprawling.Base.DepthFirst
import Sprawling.Kernel.Plan.Blockage
import Sprawling.Kernel.Plan.Division
import Sprawling.Kernel.Plan.Ready

/-! What a blockage lists, who is told of it, and what of the plan stays undone behind it. -/

namespace Sprawling

open List NodeId

namespace PlanTree

/-- The first node holds the other up: the other is a branch above it, or waits for it by a need of
its own or inherited. -/
def HoldsUp (tree : PlanTree) (here other : NodeId) : Prop :=
  other ∈ here.ancestors ∨ other ∈ tree.nodes ∧ here ∈ tree.needsOf other

def Behind (tree : PlanTree) : NodeId → NodeId → Prop := Relation.TransGen tree.HoldsUp

theorem mem_ancestors_of_parent {id above other : NodeId} (hangs : id.parent = some above) :
    other ∈ id.ancestors ↔ other ∈ above.ancestors ∨ other = above := by
  rw [ancestors_of_parent hangs, mem_append, mem_singleton]

/-- Induction down the table: what a node takes over from the branch it hangs under holds of it when
it holds of the branches above it. -/
theorem below_induction {other : NodeId} {motive : NodeId → Prop}
    (step : ∀ id above, id.parent = some above → above = other ∨ other ∈ above.ancestors ∧ motive above →
      motive id) {id : NodeId} (under : other ∈ id.ancestors) : motive id := by
  induction size : id.text.length using Nat.strong_induction_on generalizing id with
  | _ size ih =>
    cases hangs : id.parent with
    | none =>
      rw [ancestors_of_root hangs] at under
      cases under
    | some above =>
      have shorter := length_parent hangs
      refine step id above hangs ?_
      rcases (mem_ancestors_of_parent hangs).mp under with further | same
      · exact .inr ⟨further, ih _ (by omega) further rfl⟩
      · exact .inl same.symm

variable {id other : NodeId}

theorem mem_of_ancestor {nodes : NodeMap} (hung : Plan.Hung nodes)
    (member : id ∈ nodes) (above : other ∈ id.ancestors) : other ∈ nodes := by
  refine below_induction (motive := fun id => id ∈ nodes → other ∈ nodes) ?_ above member
  rintro id over_ hangs (rfl | ⟨-, ih⟩) inside
  · exact hung.parents id inside _ hangs
  · exact ih (hung.parents id inside over_ hangs)

theorem length_lt_of_ancestor (above : other ∈ id.ancestors) :
    other.text.length < id.text.length := by
  refine below_induction (motive := fun id => other.text.length < id.text.length) ?_ above
  rintro id over_ hangs (rfl | ⟨-, ih⟩)
  · exact length_parent hangs
  · have shorter := length_parent hangs
    omega

end PlanTree

namespace Blockage

open PlanTree

variable {edges : OrdMap NodeId (List NodeId)}

theorem mem_addEdge {node need here other : NodeId} :
    other ∈ ((addEdge node edges need)[here]?).getD [] ↔
      other ∈ (edges[here]?).getD [] ∨ (other = node ∧ here = need) := by
  rw [addEdge, Std.ExtTreeMap.getElem?_insert]
  by_cases same : need = here
  · subst same
    simp
  · simp [same, Ne.symm same]

theorem mem_foldl_addEdge {needs : List NodeId}
    {node here other : NodeId} :
    other ∈ ((needs.foldl (addEdge node) edges)[here]?).getD [] ↔
      other ∈ (edges[here]?).getD [] ∨ (other = node ∧ here ∈ needs) := by
  induction needs generalizing edges with
  | nil => simp
  | cons need needs ih =>
    rw [foldl_cons, ih, mem_addEdge, mem_cons, or_assoc, ← and_or_left]

theorem mem_reverseEdges {rows : List RoadmapRow} {tree : PlanTree} (placed : Placed rows tree.nodes)
    {here other : NodeId} :
    other ∈ ((reverseEdges tree)[here]?).getD [] ↔ other ∈ tree.nodes ∧ here ∈ tree.needsOf other := by
  have fold (nodes : List PlanNode) (edges : OrdMap NodeId (List NodeId)) :
      other ∈ ((nodes.foldl (fun edges node =>
          (tree.needsOf node.row.id).toList.foldl (addEdge node.row.id) edges) edges)[here]?).getD [] ↔
        other ∈ (edges[here]?).getD [] ∨ ∃ node ∈ nodes, other = node.row.id ∧ here ∈ tree.needsOf other := by
    induction nodes generalizing edges with
    | nil => simp
    | cons node nodes ih =>
      rw [foldl_cons, ih, mem_foldl_addEdge, Std.ExtTreeSet.mem_toList, or_assoc]
      simp only [mem_cons, exists_eq_or_imp]
      refine or_congr_right (or_congr_left (and_congr_right fun same => ?_))
      rw [same]
  rw [reverseEdges, fold]
  simp only [Std.ExtTreeMap.getElem?_empty, Option.getD_none, not_mem_nil, false_or]
  constructor
  · rintro ⟨node, listed, rfl, waits⟩
    obtain ⟨⟨id, held⟩, member, rfl⟩ := mem_map.mp listed
    have found := Std.ExtTreeMap.mem_toList_iff_getElem?_eq_some.mp member
    rw [(placed.row_of_get found).2]
    rw [(placed.row_of_get found).2] at waits
    exact ⟨(OrdMap.mem_iff_get _ _).mpr ⟨held, found⟩, waits⟩
  · rintro ⟨member, waits⟩
    obtain ⟨node, found⟩ := (OrdMap.mem_iff_get _ _).mp member
    refine ⟨node, ?_, (placed.row_of_get found).2.symm, waits⟩
    exact mem_map.mpr ⟨(other, node), Std.ExtTreeMap.mem_toList_iff_getElem?_eq_some.mpr found, rfl⟩

theorem walk_eq (dependents : OrdMap NodeId (List NodeId)) (frames : Nat) (here : NodeId)
    (seen : Std.ExtTreeSet NodeId) : walk dependents frames here seen =
      DepthFirst.walk (fun id => id.ancestors ++ (dependents[id]?).getD []) frames here seen := by
  induction frames generalizing here seen with
  | zero => rfl
  | succ frames ih =>
    rw [walk, DepthFirst.walk, foldl_append]
    simp only [ih]

section Listed

variable {rows : List RoadmapRow} {tree : PlanTree}

/-- The walk from a node of an accepted plan sees the node and what is stuck because of it. -/
theorem mem_walk (success : build rows = .ok tree) {here id : NodeId} (member : here ∈ tree.nodes) :
    id ∈ walk (reverseEdges tree) (tree.nodes.size + 1) here ∅ ↔ id = here ∨ tree.Behind here id := by
  have placed := (build_placed success).2
  have hung := (build_shared success).hung
  have edges (one other : NodeId) : other ∈ one.ancestors ++ ((reverseEdges tree)[one]?).getD [] ↔
      tree.HoldsUp one other := by
    rw [mem_append, mem_reverseEdges placed]
    rfl
  have seen := @DepthFirst.mem_walk _ _ _
    (fun id : NodeId => id.ancestors ++ ((reverseEdges tree)[id]?).getD [])
    (tree.nodes.size + 1) here _ tree.nodes.keys (by
      intro one listed other edge
      rw [Std.ExtTreeMap.mem_keys] at listed ⊢
      rcases (edges one other).mp edge with above | ⟨inside, -⟩
      · exact mem_of_ancestor hung listed above
      · exact inside) (Std.ExtTreeMap.mem_keys.mpr member)
    (by rw [Std.ExtTreeMap.length_keys]; exact Nat.lt_succ_self _) id
  have same : DepthFirst.Edge (fun id : NodeId => id.ancestors ++ ((reverseEdges tree)[id]?).getD []) =
      tree.HoldsUp := by
    funext one other
    exact propext (edges one other)
  rw [walk_eq, seen, same, Relation.reflTransGen_iff_eq_or_transGen]
  rfl

theorem mem_reaches_behind (success : build rows = .ok tree) {red : List RedNode} {held : RedNode}
    (listed : held ∈ red) (member : held.node ∈ tree.nodes) {id : NodeId} :
    id ∈ (behind tree red held).reaches ↔ id ∉ red.map RedNode.node ∧ tree.Behind held.node id := by
  rw [behind, mem_filter, Std.ExtTreeSet.mem_toList, mem_walk success member, decide_eq_true_iff]
  constructor
  · rintro ⟨seen, other, outside⟩
    exact ⟨outside, seen.resolve_left other⟩
  · rintro ⟨outside, stuck⟩
    refine ⟨.inr stuck, ?_, outside⟩
    rintro rfl
    exact outside (mem_map_of_mem listed)

/-- Every red node of the plan has one blockage, and every blockage is that of a red node of the plan. -/
theorem spread_sources (tree : PlanTree) (red : List RedNode) :
    ((spread tree red).map Blockage.source).Nodup ∧
      (∀ id, id ∈ (spread tree red).map Blockage.source ↔ id ∈ tree.nodes ∧ id ∈ red.map RedNode.node) ∧
      ∀ blockage ∈ spread tree red, ∃ held ∈ red, held.node ∈ tree.nodes ∧ blockage = behind tree red held := by
  have fold (some_red : List RedNode) (found : OrdMap NodeId Blockage)
      (ended : OrdMap NodeId Blockage) (done : some_red.foldl (fun found held =>
        if held.node ∈ tree.nodes then found.insert held.node (behind tree red held) else found) found =
          ended) :
      (∀ id, id ∈ ended ↔ id ∈ found ∨ id ∈ tree.nodes ∧ id ∈ some_red.map RedNode.node) ∧
      ∀ (id : NodeId) blockage, ended[id]? = some blockage → found[id]? = some blockage ∨
        ∃ held ∈ some_red, held.node = id ∧ held.node ∈ tree.nodes ∧ blockage = behind tree red held := by
    induction some_red generalizing found with
    | nil =>
      cases done
      exact ⟨by simp, fun id blockage here => .inl here⟩
    | cons held some_red ih =>
      rw [foldl_cons] at done
      obtain ⟨members, entries⟩ := ih _ done
      constructor
      · intro id
        rw [members]
        split
        next inside =>
          rw [Std.ExtTreeMap.mem_insert, Std.LawfulEqOrd.compare_eq_iff_eq, map_cons, mem_cons]
          constructor
          · rintro ((rfl | here) | ⟨listed, later⟩)
            · exact .inr ⟨inside, .inl rfl⟩
            · exact .inl here
            · exact .inr ⟨listed, .inr later⟩
          · rintro (here | ⟨listed, rfl | later⟩)
            · exact .inl (.inr here)
            · exact .inl (.inl rfl)
            · exact .inr ⟨listed, later⟩
        next outside =>
          rw [map_cons, mem_cons]
          constructor
          · exact fun known => known.imp_right fun both => ⟨both.1, .inr both.2⟩
          · rintro (here | ⟨listed, rfl | later⟩)
            · exact .inl here
            · exact absurd listed outside
            · exact .inr ⟨listed, later⟩
      · intro id blockage here
        rcases entries id blockage here with earlier | ⟨later, listed, rest⟩
        · split at earlier
          next inside =>
            rw [Std.ExtTreeMap.getElem?_insert] at earlier
            split at earlier
            next same =>
              rw [Std.LawfulEqOrd.compare_eq_iff_eq] at same
              cases earlier
              exact .inr ⟨held, mem_cons_self, same, inside, rfl⟩
            next => exact .inl earlier
          next => exact .inl earlier
        · exact .inr ⟨later, mem_cons_of_mem _ listed, rest⟩
  obtain ⟨members, entries⟩ := fold red ∅ _ rfl
  have own (id : NodeId) (blockage : Blockage) (here : (id, blockage) ∈ (red.foldl (fun found held =>
      if held.node ∈ tree.nodes then found.insert held.node (behind tree red held) else found)
      (∅ : OrdMap NodeId Blockage)).toList) :
      ∃ held ∈ red, held.node = id ∧ held.node ∈ tree.nodes ∧ blockage = behind tree red held :=
    (entries id blockage (Std.ExtTreeMap.mem_toList_iff_getElem?_eq_some.mp here)).resolve_left (by simp)
  have keys : (spread tree red).map Blockage.source = (red.foldl (fun found held =>
      if held.node ∈ tree.nodes then found.insert held.node (behind tree red held) else found)
      (∅ : OrdMap NodeId Blockage)).toList.map Prod.fst := by
    rw [spread, map_map]
    refine map_congr_left fun entry here => ?_
    obtain ⟨held, -, same, -, made⟩ := own entry.1 entry.2 here
    rw [Function.comp, made]
    exact same
  refine ⟨keys ▸ OrdMap.nodup_fst_toList _, fun id => ?_, fun blockage member => ?_⟩
  · rw [keys, Std.ExtTreeMap.map_fst_toList_eq_keys, Std.ExtTreeMap.mem_keys, members]
    simp
  · obtain ⟨⟨id, found⟩, here, rfl⟩ := mem_map.mp member
    obtain ⟨held, listed, -, inside, made⟩ := own id found here
    exact ⟨held, listed, inside, made⟩

end Listed

section Told

variable {holders : OrdMap NodeId String}

def notice (blockage : Blockage) (who : String) : Notice := ⟨who, blockage.source, blockage.line⟩

variable {blockage : Blockage}

theorem mem_tell {nodes : List NodeId} {told : List String} {some_notice : Notice}
    (member : some_notice ∈ blockage.tell holders nodes told) :
    some_notice = blockage.notice some_notice.to_ := by
  induction nodes generalizing told with
  | nil => cases member
  | cons node nodes ih =>
    rw [tell] at member
    split at member
    next => exact ih member
    next who held =>
      split at member
      next => exact ih member
      next fresh =>
        rcases mem_cons.mp member with rfl | later
        · rfl
        · exact ih later

theorem filter_tell (holders : OrdMap NodeId String) (blockage : Blockage) (nodes : List NodeId) (told : List String) (who : String) :
    ((blockage.tell holders nodes told).filter fun notice => notice.to_ = who) =
      if some who ≠ holders[blockage.source]? ∧ who ∉ told ∧ ∃ id ∈ nodes, holders[id]? = some who then
        [blockage.notice who] else [] := by
  induction nodes generalizing told with
  | nil => simp [tell]
  | cons node nodes ih =>
    rw [tell]
    cases held : holders[node]? with
    | none => simp [ih, held]
    | some other =>
      by_cases passed : some other = holders[blockage.source]? ∨ other ∈ told
      · simp only [passed, ↓reduceIte, ih, mem_cons, exists_eq_or_imp, held, Option.some.injEq]
        congr 1
        refine propext (and_congr_right fun apart => and_congr_right fun untold => ?_)
        constructor
        · exact .inr
        · rintro (rfl | later)
          · exact absurd passed (not_or.mpr ⟨apart, untold⟩)
          · exact later
      · simp only [passed, ↓reduceIte, filter_cons, ih, mem_cons, exists_eq_or_imp, held,
          Option.some.injEq]
        by_cases same : other = who
        · subst same
          simp [not_or.mp passed, notice]
        · simp [same, Ne.symm same]

variable {blocked : List Blockage}

theorem filter_notices (distinct : (blocked.map Blockage.source).Nodup) (member : blockage ∈ blocked) :
    ((notices blocked holders).filter fun notice => notice.about = blockage.source) =
      blockage.tell holders blockage.reaches [] := by
  induction blocked with
  | nil => cases member
  | cons first blocked ih =>
    rw [map_cons, nodup_cons] at distinct
    rw [notices, flatMap_cons, filter_append]
    rcases mem_cons.mp member with rfl | later
    · rw [filter_eq_self.mpr, filter_eq_nil_iff.mpr, append_nil]
      · intro one listed about
        obtain ⟨other, inside, pushed⟩ := mem_flatMap.mp listed
        rw [mem_tell pushed, decide_eq_true_iff] at about
        exact distinct.1 (about ▸ mem_map_of_mem inside)
      · intro one pushed
        rw [mem_tell pushed]
        exact decide_eq_true rfl
    · rw [filter_eq_nil_iff.mpr, nil_append]
      · exact ih distinct.2 later
      · intro one pushed about
        rw [mem_tell pushed, decide_eq_true_iff] at about
        have same : first.source = blockage.source := about
        exact distinct.1 (same ▸ mem_map_of_mem later)

/-- What is asked of the notices: every one is about a blockage, and of each blockage everybody who
holds a node it lists is told once, but not the one that holds its source. -/
structure Tells (blocked : List Blockage) (holders : OrdMap NodeId String) : Prop where
  known : ∀ one ∈ notices blocked holders, ∃ blockage ∈ blocked, one.about = blockage.source
  once : ∀ blockage ∈ blocked, ∀ who,
    ((notices blocked holders).filter fun one => one.about = blockage.source ∧ one.to_ = who) =
      if some who ≠ holders[blockage.source]? ∧ ∃ id ∈ blockage.reaches, holders[id]? = some who then
        [blockage.notice who] else []

theorem tells (distinct : (blocked.map Blockage.source).Nodup)
    (holders : OrdMap NodeId String) : Tells blocked holders where
  known one listed := by
    obtain ⟨blockage, inside, pushed⟩ := mem_flatMap.mp listed
    exact ⟨blockage, inside, by rw [mem_tell pushed]; rfl⟩
  once blockage member who := by
    have both := filter_tell holders blockage blockage.reaches [] who
    rw [← filter_notices distinct member, filter_filter] at both
    simp only [not_mem_nil, not_false_eq_true, true_and] at both
    rw [← both]
    refine filter_congr fun one _ => ?_
    rw [Bool.decide_and, Bool.and_comm]

end Told

end Blockage

end Sprawling
