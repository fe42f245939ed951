import Mathlib.Algebra.BigOperators.Group.Finset.Sigma
import Mathlib.Logic.Relation
import Sprawling.Kernel.Plan.Build

namespace Sprawling

open List OrdMap NodeId

namespace NodeId

/-- `top` is this node or hangs somewhere above it. -/
def Under (top id : NodeId) : Prop :=
  Relation.ReflTransGen (fun child above : NodeId => child.parent = some above) id top

variable {top id : NodeId}

theorem Under.depth_le (under : Under top id) : top.depth ≤ id.depth := by
  induction under with
  | refl => exact Nat.le_refl _
  | tail _ hangs ih =>
    have step := depth_parent hangs
    omega

theorem Under.unique {first second id : NodeId} (one : Under first id) (two : Under second id)
    (level : first.depth = second.depth) : first = second := by
  have same : ∀ {low high : NodeId}, Under high low → high.depth = low.depth → low = high := by
    intro low high under equal
    cases under with
    | refl => rfl
    | tail before hangs =>
      have deeper := Under.depth_le before
      have step := depth_parent hangs
      omega
  have functional : Relator.RightUnique
      (fun child above : NodeId => child.parent = some above) := by
    intro child above other hangs again
    rw [hangs] at again
    cases again
    rfl
  rcases Relation.ReflTransGen.total_of_right_unique functional one two with up | up
  · exact same up level.symm
  · exact (same up level).symm

theorem Under.cases_child (under : Under top id) :
    id = top ∨ ∃ child, child.parent = some top ∧ Under child id := by
  cases under with
  | refl => exact Or.inl rfl
  | tail before hangs => exact Or.inr ⟨_, hangs, before⟩

end NodeId

namespace Plan

/-- What a node is worth, in billionths. -/
def shareOf (nodes : NodeMap) (id : NodeId) : Nat :=
  (nodes[id]?.map fun node => node.share.ppb).getD 0

/-- The nodes of `among` hold what dividing `pot` by their weights gives. -/
def Divided (nodes : NodeMap) (pot : Nat) (among : List NodeId) : Prop :=
  among.map (shareOf nodes) = Share.partsOf pot (levelWeights nodes among)

/-- Every node lists what hangs under it, in key order, and no node hangs under nothing. -/
structure Hung (nodes : NodeMap) : Prop where
  children : ∀ (id : NodeId) (node : PlanNode), nodes[id]? = some node →
    node.children = nodes.keys.filter fun child => child.parent = some id
  parents : ∀ id ∈ nodes, ∀ above, id.parent = some above → above ∈ nodes

variable {before after : NodeMap}

theorem SameShape.mem (same : SameShape before after) (id : NodeId) :
    id ∈ after ↔ id ∈ before := by
  rw [Std.ExtTreeMap.mem_iff_isSome_getElem?, Std.ExtTreeMap.mem_iff_isSome_getElem?]
  have shape := congrArg Option.isSome (same id)
  rw [Option.isSome_map, Option.isSome_map] at shape
  rw [shape]

theorem SameShape.hung (same : SameShape before after)
    (hung : Hung before) : Hung after := by
  have keys : after.keys = before.keys := keys_congr same.mem
  constructor
  · intro id node held
    have shape := same id
    rw [held, Option.map_some] at shape
    obtain ⟨old, found, equal⟩ := Option.map_eq_some_iff.mp shape.symm
    simp only [Prod.mk.injEq] at equal
    rw [keys, ← equal.2]
    exact hung.children id old found
  · intro id member above hangs
    rw [same.mem] at member ⊢
    exact hung.parents id member above hangs

variable {nodes : NodeMap}

theorem Hung.childrenBelow (hung : Hung nodes) : ChildrenBelow nodes := by
  intro id node held child member
  rw [hung.children id node held] at member
  exact NodeId.depth_parent (by simpa using (mem_filter.mp member).2)

theorem Hung.mem_children (hung : Hung nodes) {id : NodeId} {node : PlanNode}
    (held : nodes[id]? = some node) {child : NodeId} :
    child ∈ node.children ↔ child ∈ nodes ∧ child.parent = some id := by
  rw [hung.children id node held, mem_filter, Std.ExtTreeMap.mem_keys]
  simp

theorem Hung.mem_of_under (hung : Hung nodes) {top id : NodeId}
    (under : NodeId.Under top id) (member : id ∈ nodes) : top ∈ nodes := by
  induction under with
  | refl => exact member
  | tail _ hangs ih => exact hung.parents _ ih _ hangs

variable {among : List NodeId}

theorem levelWeights_congr (same : ∀ id ∈ among, after[id]?.map (fun node => node.row.weight) =
      before[id]?.map fun node => node.row.weight) :
    levelWeights after among = levelWeights before among := by
  have weights : (among.map fun id => (after[id]?.map fun node => node.row.weight).getD 1) =
      among.map fun id => (before[id]?.map fun node => node.row.weight).getD 1 := by
    apply map_congr_left
    intro id member
    rw [same id member]
  simp only [levelWeights, weights]

theorem SameShape.levelWeights (same : SameShape before after)
    (among : List NodeId) : levelWeights after among = levelWeights before among := by
  apply levelWeights_congr
  intro id _
  have shape := congrArg (Option.map fun pair => pair.1.weight) (same id)
  simpa [Option.map_map, Function.comp_def] using shape

theorem Divided.congr {pot : Nat}
    (divided : Divided before pot among) (same : ∀ id ∈ among, after[id]? = before[id]?) :
    Divided after pot among := by
  have weights : levelWeights after among = levelWeights before among :=
    levelWeights_congr fun id member => by rw [same id member]
  have shares : among.map (shareOf after) = among.map (shareOf before) := by
    apply map_congr_left
    intro id member
    rw [shareOf, same id member, shareOf]
  rw [Divided, weights, shares]
  exact divided

/-- What giving out to `work` leaves: each entry has its share, everything below divides what it
holds, and nothing else moved. -/
structure Settled (before after : NodeMap) (work : List (NodeId × Share)) : Prop where
  shape : SameShape before after
  shares : ∀ entry ∈ work, shareOf after entry.1 = entry.2.ppb
  below : ∀ (id : NodeId) (node : PlanNode), after[id]? = some node →
    (∃ entry ∈ work, NodeId.Under entry.1 id) → Divided after node.share.ppb node.children
  apart : ∀ id : NodeId, (¬ ∃ entry ∈ work, NodeId.Under entry.1 id) → after[id]? = before[id]?

/-- What handing `pot` to `among` leaves. -/
structure Handed (before after : NodeMap) (pot : Nat) (among : List NodeId) : Prop where
  shape : SameShape before after
  divided : Divided after pot among
  below : ∀ (id : NodeId) (node : PlanNode), after[id]? = some node →
    (∃ top ∈ among, NodeId.Under top id) → Divided after node.share.ppb node.children
  apart : ∀ id : NodeId, (¬ ∃ top ∈ among, NodeId.Under top id) → after[id]? = before[id]?

theorem Handed.nil (nodes : NodeMap) (pot : Nat) : Handed nodes nodes pot [] := by
  refine ⟨SameShape.refl nodes, ?_, by simp, fun _ _ => rfl⟩
  simp [Divided, levelWeights, Share.partsOf, Share.exactParts, Share.handRemainder]

theorem Settled.cons {before middle after : NodeMap} {entry : NodeId × Share}
    {work : List (NodeId × Share)} {node : PlanNode} (hung : Hung before)
    (held : before[entry.1]? = some node)
    (level : ∀ other ∈ work, other.1.depth = entry.1.depth) (fresh : ∀ other ∈ work, other.1 ≠ entry.1)
    (handed : Handed (before.insert entry.1 { node with share := entry.2 }) middle entry.2.ppb
      node.children)
    (settled : Settled middle after work) : Settled before after (entry :: work) := by
  have set : SameShape before (before.insert entry.1 { node with share := entry.2 }) :=
    SameShape.setShare held
  have whole : SameShape before after := (set.trans handed.shape).trans settled.shape
  -- What hangs under this entry hangs under no later one, so the rest of the loop leaves it alone.
  have untouched : ∀ id, NodeId.Under entry.1 id → after[id]? = middle[id]? := by
    intro id under
    apply settled.apart
    rintro ⟨other, member, again⟩
    exact fresh other member (again.unique under (level other member))
  have notBelow : ¬ ∃ child ∈ node.children, NodeId.Under child entry.1 := by
    rintro ⟨child, member, under⟩
    have step := hung.childrenBelow entry.1 node held child member
    have deep := under.depth_le
    omega
  have here : after[entry.1]? = some { node with share := entry.2 } := by
    rw [untouched entry.1 .refl, handed.apart entry.1 notBelow]
    simp
  have childUnder : ∀ {id : NodeId} {other : PlanNode}, after[id]? = some other →
      NodeId.Under entry.1 id → ∀ child ∈ other.children, NodeId.Under entry.1 child := by
    intro id other found under child member
    have hangs := ((whole.hung hung).mem_children found).mp member
    exact Relation.ReflTransGen.head hangs.2 under
  refine ⟨whole, ?_, ?_, ?_⟩
  · intro other member
    rcases mem_cons.mp member with rfl | member
    · rw [shareOf, here]
      rfl
    · exact settled.shares other member
  · rintro id found heldAfter ⟨other, member, under⟩
    rcases mem_cons.mp member with rfl | member
    · have keep : ∀ child ∈ found.children, after[child]? = middle[child]? :=
        fun child inside => untouched child (childUnder heldAfter under child inside)
      refine Divided.congr ?_ keep
      rcases under.cases_child with rfl | ⟨child, hangs, deeper⟩
      · rw [here] at heldAfter
        cases heldAfter
        exact handed.divided
      · rw [untouched id under] at heldAfter
        apply handed.below id found heldAfter
        refine ⟨child, ?_, deeper⟩
        have present : id ∈ before := by
          rw [← (set.trans handed.shape).mem, OrdMap.mem_iff_get]
          exact ⟨found, heldAfter⟩
        exact (hung.mem_children held).mpr ⟨hung.mem_of_under deeper present, hangs⟩
    · exact settled.below id found heldAfter ⟨other, member, under⟩
  · intro id away
    have notHere : ¬ NodeId.Under entry.1 id :=
      fun under => away ⟨entry, mem_cons_self, under⟩
    have notLater : ¬ ∃ other ∈ work, NodeId.Under other.1 id := by
      rintro ⟨other, member, under⟩
      exact away ⟨other, mem_cons_of_mem _ member, under⟩
    have notChild : ¬ ∃ child ∈ node.children, NodeId.Under child id := by
      rintro ⟨child, member, under⟩
      exact notHere (under.tail ((hung.mem_children held).mp member).2)
    have other : entry.1 ≠ id := by
      intro same
      rw [same] at notHere
      exact notHere .refl
    rw [settled.apart id notLater, handed.apart id notChild, OrdMap.get_insert, if_neg other]

theorem map_shareOf_zip {parts : List Share}
    (length : among.length = parts.length)
    (shares : ∀ entry ∈ among.zip parts, shareOf nodes entry.1 = entry.2.ppb) :
    among.map (shareOf nodes) = parts.map Share.ppb := by
  apply ext_getElem
  · simpa using length
  · intro place first second
    simp only [getElem_map]
    rw [length_map] at first second
    have inside : (among[place], parts[place]) ∈ among.zip parts := by
      rw [mem_iff_getElem]
      exact ⟨place, by simp [first, second], by simp⟩
    exact shares _ inside

theorem handOut_handed {levels level : Nat} {nodes after : NodeMap}
    {pot : Share} (hung : Hung nodes) (same : ∀ id ∈ among, id.depth = level)
    (present : ∀ id ∈ among, id ∈ nodes) (distinct : among.Nodup)
    (success : handOut levels nodes pot among = .ok after) : Handed nodes after pot.ppb among := by
  induction levels generalizing level nodes after pot among with
  | zero =>
    cases among with
    | nil =>
      cases success
      exact Handed.nil nodes pot.ppb
    | cons id rest => simp [handOut] at success
  | succ levels ih =>
    by_cases nobody : among = []
    · rw [nobody] at success ⊢
      cases success
      exact Handed.nil nodes pot.ppb
    · rw [handOut, if_neg (by simpa using nobody)] at success
      obtain ⟨parts, divided, loop⟩ := Outcome.bind_eq_ok.mp success
      have values : parts.map Share.ppb = Share.partsOf pot.ppb (levelWeights nodes among) :=
        Share.split_parts divided
      have count : among.length = parts.length := by
        rw [← length_map Share.ppb, values, Share.partsOf_length, levelWeights_length]
      have settled : Settled nodes after (among.zip parts) := by
        have names : ∀ entry ∈ among.zip parts, entry.1 ∈ among :=
          fun entry member => (of_mem_zip member).1
        have once : ((among.zip parts).map Prod.fst).Nodup := by
          rw [map_fst_zip (Nat.le_of_eq count)]
          exact distinct
        clear divided success nobody values count
        generalize among.zip parts = work at loop names once
        induction work generalizing nodes with
        | nil =>
          cases loop
          exact ⟨SameShape.refl _, by simp, by simp, fun _ _ => rfl⟩
        | cons entry work next =>
          have member := names entry mem_cons_self
          obtain ⟨node, held⟩ := (OrdMap.mem_iff_get _ _).mp (present entry.1 member)
          rw [foldlM_cons] at loop
          obtain ⟨middle, first, rest⟩ := Outcome.bind_eq_ok.mp loop
          simp only [held] at first
          have set : SameShape nodes (nodes.insert entry.1 { node with share := entry.2 }) :=
            SameShape.setShare held
          have deeper : ∀ child ∈ node.children, child.depth = level + 1 := by
            intro child inside
            rw [hung.childrenBelow entry.1 node held child inside, same entry.1 member]
          have handed : Handed (nodes.insert entry.1 { node with share := entry.2 }) middle
              entry.2.ppb node.children := by
            refine ih (set.hung hung) deeper ?_ ?_ first
            · intro child inside
              rw [set.mem]
              exact ((hung.mem_children held).mp inside).1
            · rw [hung.children entry.1 node held]
              exact Std.ExtTreeMap.nodup_keys.filter _
          have moved : SameShape nodes middle := set.trans handed.shape
          rw [map_cons, nodup_cons] at once
          refine Settled.cons hung held ?_ ?_ handed ?_
          · intro other later
            rw [same other.1 (names other (mem_cons_of_mem _ later)), same entry.1 member]
          · intro other later equal
            exact once.1 (mem_map.mpr ⟨other, later, equal⟩)
          · refine next (moved.hung hung) ?_ rest ?_ once.2
            · intro id inside
              rw [moved.mem]
              exact present id inside
            · exact fun other later => names other (mem_cons_of_mem _ later)
      have covers : ∀ id, (∃ entry ∈ among.zip parts, NodeId.Under entry.1 id) ↔
          ∃ top ∈ among, NodeId.Under top id := by
        intro id
        constructor
        · rintro ⟨entry, member, under⟩
          exact ⟨entry.1, (of_mem_zip member).1, under⟩
        · rintro ⟨top, member, under⟩
          rw [← map_fst_zip (Nat.le_of_eq count)] at member
          obtain ⟨entry, inside, rfl⟩ := mem_map.mp member
          exact ⟨entry, inside, under⟩
      refine ⟨settled.shape, ?_, ?_, ?_⟩
      · rw [Divided, map_shareOf_zip count settled.shares, values, settled.shape.levelWeights]
      · intro id node held under
        exact settled.below id node held ((covers id).mpr under)
      · intro id away
        apply settled.apart id
        rw [covers]
        exact away

end Plan

namespace PlanTree

open Plan

variable {rows : List RoadmapRow} {nodes : NodeMap}

theorem place_hung (success : place rows = .ok nodes) : Hung nodes := by
  have placed := place_placed success
  have placeable := place_placeable.mp ⟨nodes, success⟩
  obtain ⟨laid, laidRows, hung⟩ := Outcome.bind_eq_ok.mp success
  have moved := (hangChildren_spec hung).2
  have keys : laid.keys = nodes.keys := by
    apply keys_congr
    intro id
    rw [OrdMap.mem_iff_get, OrdMap.mem_iff_get, moved]
    simp
  constructor
  · intro id node held
    rw [moved] at held
    obtain ⟨old, found, rfl⟩ := Option.map_eq_some_iff.mp held
    simp only [placeRows_leaf laidRows found, nil_append, keys]
  · intro id member above hangs
    obtain ⟨row, inside, rfl⟩ := placed.mem.mp member
    exact placed.mem.mpr (placeable.parents row inside above hangs)

/-- The rows that share a parent, or the top-level rows, in key order. -/
def siblings (nodes : NodeMap) (above : Option NodeId) : List NodeId :=
  nodes.keys.filter fun id => id.parent = above

theorem mem_siblings {above : Option NodeId} {id : NodeId} :
    id ∈ siblings nodes above ↔ id ∈ nodes ∧ id.parent = above := by
  rw [siblings, mem_filter, Std.ExtTreeMap.mem_keys, decide_eq_true_iff]

/-- What a level divides: the whole at the top, its parent's share below. -/
def potOf (nodes : NodeMap) : Option NodeId → Nat
  | none => wholePpb
  | some id => shareOf nodes id

/-- How an accepted plan is divided: the whole among the top-level rows, and every node's share
among its children. -/
structure Shared (rows : List RoadmapRow) (tree : PlanTree) : Prop where
  row : ∀ id : NodeId, (tree.nodes[id]?.map fun node => node.row) = rowAt rows id
  hung : Hung tree.nodes
  level : ∀ above, (∀ id, above = some id → id ∈ tree.nodes) →
    Divided tree.nodes (potOf tree.nodes above) (siblings tree.nodes above)

theorem under_root (hung : Hung nodes) (id : NodeId) (member : id ∈ nodes) :
    ∃ top ∈ siblings nodes none, NodeId.Under top id := by
  induction size : id.text.length using Nat.strong_induction_on generalizing id with
  | _ size ih =>
    cases hangs : id.parent with
    | none =>
      refine ⟨id, ?_, .refl⟩
      exact mem_siblings.mpr ⟨member, hangs⟩
    | some above =>
      have shorter := length_parent hangs
      obtain ⟨top, listed, under⟩ :=
        ih above.text.length (by omega) above (hung.parents id member above hangs) rfl
      exact ⟨top, listed, Relation.ReflTransGen.head hangs under⟩

theorem build_shared {tree : PlanTree} (success : build rows = .ok tree) : Shared rows tree := by
  obtain ⟨nodes, placed, rest⟩ := Outcome.bind_eq_ok.mp success
  obtain ⟨_, -, rest⟩ := Outcome.bind_eq_ok.mp rest
  obtain ⟨_, -, divided⟩ := Outcome.bind_eq_ok.mp rest
  obtain ⟨after, handed, last⟩ := Outcome.bind_eq_ok.mp divided
  cases last
  have hung := place_hung placed
  have tops : (nodes.keys.filter fun id => id.parent.isNone) = siblings nodes none := by
    apply filter_congr
    intro id _
    cases id.parent <;> simp
  rw [tops] at handed
  have top : ∀ id ∈ siblings nodes none, id.depth = 1 :=
    fun id member => depth_root (mem_siblings.mp member).2
  have present : ∀ id ∈ siblings nodes none, id ∈ nodes :=
    fun id member => (mem_siblings.mp member).1
  have spread : Handed nodes after Share.whole.ppb (siblings nodes none) :=
    handOut_handed hung top present (Std.ExtTreeMap.nodup_keys.filter _) handed
  have sameLevel : ∀ above, siblings after above = siblings nodes above := by
    intro above
    rw [siblings, siblings, keys_congr spread.shape.mem]
  have hungAfter := spread.shape.hung hung
  refine ⟨?_, hungAfter, ?_⟩
  · intro id
    have shape := congrArg (Option.map Prod.fst) (spread.shape id)
    rw [← (place_placed placed).row id]
    simpa [Option.map_map, Function.comp_def] using shape
  · intro above inside
    cases above with
    | none =>
      rw [sameLevel]
      exact spread.divided
    | some id =>
      obtain ⟨node, held⟩ := (OrdMap.mem_iff_get _ _).mp (inside id rfl)
      have divided : Divided after node.share.ppb node.children := by
        apply spread.below id node held
        rw [← sameLevel]
        exact under_root hungAfter id (inside id rfl)
      rw [hungAfter.children id node held] at divided
      have pot : potOf after (some id) = node.share.ppb := by
        simp [potOf, shareOf, held]
      rw [pot]
      exact divided

/-- Sharing is decided by the rows: two plans that divide alike at a node's level and at every
level above it give it the same share. -/
theorem Shared.share_congr {other : List RoadmapRow} {first second : PlanTree}
    (one : Shared rows first) (two : Shared other second) (alike : NodeId → Prop)
    (up : ∀ id above, alike id → id.parent = some above → alike above)
    (same : ∀ id, alike id → siblings second.nodes id.parent = siblings first.nodes id.parent)
    (ratio : ∀ id pot, alike id →
      Share.partsOf pot (levelWeights second.nodes (siblings first.nodes id.parent)) =
        Share.partsOf pot (levelWeights first.nodes (siblings first.nodes id.parent)))
    (id : NodeId) (picked : alike id) (member : id ∈ first.nodes) :
    shareOf second.nodes id = shareOf first.nodes id := by
  induction size : id.text.length using Nat.strong_induction_on generalizing id with
  | _ size ih =>
    have inFirst : ∀ above, id.parent = some above → above ∈ first.nodes :=
      fun above hangs => one.hung.parents id member above hangs
    have memberToo : id ∈ second.nodes := by
      have listed : id ∈ siblings first.nodes id.parent := mem_siblings.mpr ⟨member, rfl⟩
      rw [← same id picked] at listed
      exact (mem_siblings.mp listed).1
    have inSecond : ∀ above, id.parent = some above → above ∈ second.nodes :=
      fun above hangs => two.hung.parents id memberToo above hangs
    have samePot : potOf second.nodes id.parent = potOf first.nodes id.parent := by
      cases hangs : id.parent with
      | none => rfl
      | some above =>
        have shorter := length_parent hangs
        exact ih above.text.length (by omega) above (up id above picked hangs)
          (inFirst above hangs) rfl
    have dividedFirst := one.level id.parent inFirst
    have dividedSecond := two.level id.parent inSecond
    rw [Divided, same id picked, samePot, ratio id _ picked, ← dividedFirst] at dividedSecond
    exact map_inj_left.mp dividedSecond id (mem_siblings.mpr ⟨member, rfl⟩)

end PlanTree

end Sprawling
