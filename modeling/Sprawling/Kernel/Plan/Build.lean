import Sprawling.Kernel.Plan.Tree

namespace Sprawling.PlanTree

open List NodeId Plan

/-- The row an index names. -/
def rowAt (rows : List RoadmapRow) (id : NodeId) : Option RoadmapRow :=
  rows.find? fun row => row.id = id

/-- What the table says each index needs. -/
def rowNeeds (rows : List RoadmapRow) (id : NodeId) : Option (List NodeId) :=
  (rowAt rows id).map fun row => row.needs

/-- Indices are distinct and every non-root index has its parent among the rows. -/
structure Placeable (rows : List RoadmapRow) : Prop where
  distinct : (rows.map fun row => row.id).Nodup
  parents : ∀ row ∈ rows, ∀ above, row.id.parent = some above → ∃ other ∈ rows, other.id = above

/-- What `build` is meant to accept. -/
structure SoundPlan (rows : List RoadmapRow) : Prop extends Placeable rows where
  named : ∀ row ∈ rows, ∀ need ∈ row.needs, need ≠ row.id ∧ ∃ other ∈ rows, other.id = need
  acyclic : ¬ Waiting.Cyclic (rowNeeds rows)
  summary : ∀ branch ∈ rows, branch.status = .done →
    ∀ child ∈ rows, child.id.parent = some branch.id → child.status = .done

/-- How placed nodes stand to the rows they came from. -/
structure Placed (rows : List RoadmapRow) (nodes : NodeMap) : Prop where
  row : ∀ id : NodeId, (nodes[id]?.map fun node => node.row) = rowAt rows id
  children : ∀ (id : NodeId) (node : PlanNode), nodes[id]? = some node →
    ∀ child, child ∈ node.children ↔ child ∈ nodes ∧ child.parent = some id

def fresh (row : RoadmapRow) : PlanNode := { row, share := Share.none, children := [] }

variable {rows : List RoadmapRow} {id : NodeId} {row : RoadmapRow}

theorem rowAt_eq_some (found : rowAt rows id = some row) : row ∈ rows ∧ row.id = id :=
  ⟨mem_of_find?_eq_some found, by simpa using find?_some found⟩

theorem rowAt_isSome :
    (rowAt rows id).isSome = true ↔ ∃ row ∈ rows, row.id = id := by
  simp [rowAt, find?_isSome]

theorem rowAt_of_mem (distinct : (rows.map fun row => row.id).Nodup) (member : row ∈ rows) :
    rowAt rows row.id = some row := by
  obtain ⟨other, found⟩ := Option.isSome_iff_exists.mp (rowAt_isSome.mpr ⟨row, member, rfl⟩)
  obtain ⟨inside, same⟩ := rowAt_eq_some found
  rw [found, inj_on_of_nodup_map distinct inside member same]

variable {nodes : NodeMap}

theorem placeRows_ok
    (distinct : (rows.map fun row => row.id).Nodup) (apart : ∀ row ∈ rows, row.id ∉ nodes) :
    ∃ after, placeRows nodes rows = .ok after := by
  induction rows generalizing nodes with
  | nil => exact ⟨nodes, rfl⟩
  | cons row rows ih =>
    simp only [map_cons, nodup_cons] at distinct
    simp only [placeRows, if_neg (apart row mem_cons_self)]
    refine ih distinct.2 fun other member => ?_
    rw [Std.ExtTreeMap.mem_insert, Std.compare_eq_iff_eq, not_or]
    refine ⟨fun same => distinct.1 (mem_map.mpr ⟨other, member, same.symm⟩), ?_⟩
    exact apart other (mem_cons_of_mem _ member)

variable {nodes after : NodeMap}

theorem placeRows_spec (success : placeRows nodes rows = .ok after) :
    (rows.map fun row => row.id).Nodup ∧ (∀ row ∈ rows, row.id ∉ nodes) ∧
      ∀ id : NodeId, after[id]? = ((rowAt rows id).map fresh).or nodes[id]? := by
  induction rows generalizing nodes with
  | nil =>
    cases success
    simp [rowAt]
  | cons row rows ih =>
    simp only [placeRows] at success
    split at success
    · cases success
    · rename_i absent
      obtain ⟨distinct, apart, found⟩ := ih success
      simp only [Std.ExtTreeMap.mem_insert, Std.compare_eq_iff_eq, not_or] at apart
      have newId : row.id ∉ rows.map fun row => row.id := by
        rw [mem_map]
        rintro ⟨other, member, same⟩
        exact (apart other member).1 same.symm
      refine ⟨nodup_cons.mpr ⟨newId, distinct⟩, ?_, fun id => ?_⟩
      · intro other member
        rcases mem_cons.mp member with rfl | member
        · exact absent
        · exact (apart other member).2
      · rw [found id, OrdMap.get_insert]
        by_cases same : row.id = id
        · have later : rowAt rows id = none := by
            rw [rowAt, find?_eq_none]
            intro other member equal
            exact newId (mem_map.mpr ⟨other, member, by simpa [same] using equal⟩)
          have here : rowAt (row :: rows) id = some row := by simp [rowAt, same]
          rw [later, here, if_pos same]
          rfl
        · have skip : rowAt (row :: rows) id = rowAt rows id := by simp [rowAt, same]
          rw [skip, if_neg same]

variable {ids : List NodeId}

theorem hangChildren_ok (parents : ∀ id ∈ ids, ∀ above, id.parent = some above → above ∈ nodes) :
    ∃ after, hangChildren nodes ids = .ok after := by
  induction ids generalizing nodes with
  | nil => exact ⟨nodes, rfl⟩
  | cons id rest ih =>
    have later := fun other member => parents other (mem_cons_of_mem _ member)
    simp only [hangChildren]
    split
    · exact ih later
    · rename_i above hangs
      obtain ⟨held, found⟩ :=
        (OrdMap.mem_iff_get nodes above).mp (parents id mem_cons_self above hangs)
      simp only [found]
      refine ih fun other member over_ same => ?_
      rw [Std.ExtTreeMap.mem_insert]
      exact Or.inr (later other member over_ same)

theorem hangChildren_spec (success : hangChildren nodes ids = .ok after) :
    (∀ id ∈ ids, ∀ above, id.parent = some above → above ∈ nodes) ∧
      ∀ id : NodeId, after[id]? = nodes[id]?.map fun node =>
        { node with children := node.children ++ ids.filter fun child => child.parent = some id } := by
  induction ids generalizing nodes with
  | nil =>
    cases success
    simp
  | cons first rest ih =>
    simp only [hangChildren] at success
    split at success
    · rename_i top
      obtain ⟨parents, found⟩ := ih success
      refine ⟨fun id member above hangs => ?_, fun id => by rw [found id]; simp [top]⟩
      rcases mem_cons.mp member with rfl | member
      · rw [top] at hangs
        cases hangs
      · exact parents id member above hangs
    · rename_i above hangs
      split at success
      · cases success
      · rename_i held found
        obtain ⟨parents, get⟩ := ih success
        have present : above ∈ nodes := (OrdMap.mem_iff_get nodes above).mpr ⟨held, found⟩
        have kept : ∀ id, id ∈ nodes.insert above
            { held with children := held.children ++ [first] } ↔ id ∈ nodes := by
          intro id
          rw [Std.ExtTreeMap.mem_insert, Std.compare_eq_iff_eq]
          exact ⟨fun either => either.elim (fun same => same ▸ present) (fun held => held), Or.inr⟩
        refine ⟨fun id member over_ same => ?_, fun id => ?_⟩
        · rcases mem_cons.mp member with rfl | member
          · rw [hangs] at same
            cases same
            exact present
          · exact (kept over_).mp (parents id member over_ same)
        · rw [get id, OrdMap.get_insert]
          by_cases same : above = id
          · simp [← same, found, hangs]
          · simp [same, hangs]

theorem place_placeable :
    (∃ nodes, place rows = .ok nodes) ↔ Placeable rows := by
  constructor
  · rintro ⟨nodes, success⟩
    obtain ⟨laid, placed, hung⟩ := Outcome.bind_eq_ok.mp success
    obtain ⟨distinct, -, found⟩ := placeRows_spec placed
    refine ⟨distinct, fun row member above hangs => ?_⟩
    have here : rowAt rows row.id = some row := rowAt_of_mem distinct member
    have inside : row.id ∈ laid.keys := by
      rw [Std.ExtTreeMap.mem_keys, OrdMap.mem_iff_get]
      exact ⟨fresh row, by simp [found, here]⟩
    have over_ := (hangChildren_spec hung).1 row.id inside above hangs
    rw [Std.ExtTreeMap.mem_iff_isSome_getElem?, found] at over_
    exact rowAt_isSome.mp (by simpa using over_)
  · rintro ⟨distinct, parents⟩
    obtain ⟨laid, placed⟩ : ∃ laid, placeRows ∅ rows = .ok laid :=
      placeRows_ok distinct (by simp)
    have found := (placeRows_spec placed).2.2
    have present : ∀ id, id ∈ laid ↔ ∃ row ∈ rows, row.id = id := by
      intro id
      rw [Std.ExtTreeMap.mem_iff_isSome_getElem?, found, ← rowAt_isSome]
      simp
    obtain ⟨nodes, hung⟩ : ∃ nodes, hangChildren laid laid.keys = .ok nodes := by
      refine hangChildren_ok fun id member above hangs => ?_
      rw [Std.ExtTreeMap.mem_keys, present] at member
      obtain ⟨row, inside, rfl⟩ := member
      exact (present above).mpr (parents row inside above hangs)
    exact ⟨nodes, Outcome.bind_eq_ok.mpr ⟨laid, placed, hung⟩⟩

theorem placeRows_leaf {laid : NodeMap} {node : PlanNode}
    (placed : placeRows ∅ rows = .ok laid) (held : laid[id]? = some node) : node.children = [] := by
  rw [(placeRows_spec placed).2.2] at held
  cases row : rowAt rows id with
  | none => simp [row] at held
  | some row' =>
    simp only [row, Option.map_some, Option.some_or, Option.some.injEq] at held
    rw [← held]
    rfl

theorem place_placed (success : place rows = .ok nodes) :
    Placed rows nodes := by
  obtain ⟨laid, placed, hung⟩ := Outcome.bind_eq_ok.mp success
  have found := (placeRows_spec placed).2.2
  have moved := (hangChildren_spec hung).2
  have same : ∀ id, id ∈ nodes ↔ id ∈ laid := by
    intro id
    rw [OrdMap.mem_iff_get, OrdMap.mem_iff_get, moved]
    simp
  constructor
  · intro id
    rw [moved, found]
    cases rowAt rows id <;> simp [fresh]
  · intro id node here child
    rw [moved] at here
    obtain ⟨old, held, rfl⟩ := Option.map_eq_some_iff.mp here
    simp [placeRows_leaf placed held, same]

section Checks

variable {rows : List RoadmapRow} {nodes : NodeMap} (placed : Placed rows nodes)

include placed

theorem Placed.mem :
    id ∈ nodes ↔ ∃ row ∈ rows, row.id = id := by
  rw [← rowAt_isSome, ← placed.row, Option.isSome_map, Std.ExtTreeMap.mem_iff_isSome_getElem?]

theorem Placed.needsIn : Plan.needsIn nodes = rowNeeds rows := by
  funext id
  rw [Plan.needsIn, rowNeeds, ← placed.row, Option.map_map]
  rfl

theorem Placed.node (distinct : (rows.map fun row => row.id).Nodup) (member : row ∈ rows) :
    ∃ node, nodes[row.id]? = some node ∧ node.row = row := by
  have here := placed.row row.id
  rw [rowAt_of_mem distinct member] at here
  exact Option.map_eq_some_iff.mp here

theorem Placed.row_of_get {node : PlanNode}
    (held : nodes[id]? = some node) : node.row ∈ rows ∧ node.row.id = id := by
  have here := placed.row id
  rw [held, Option.map_some] at here
  exact rowAt_eq_some here.symm

omit placed

theorem refuseNeed_eq_none {id need : NodeId} :
    refuseNeed nodes id need = none ↔ need ∈ nodes ∧ need ≠ id := by
  unfold refuseNeed
  split
  · simp_all
  · split <;> simp_all

theorem checkDependencies_ok (placed : Placed rows nodes)
    (distinct : (rows.map fun row => row.id).Nodup) :
    checkDependencies nodes = .ok () ↔
      (∀ row ∈ rows, ∀ need ∈ row.needs, need ≠ row.id ∧ ∃ other ∈ rows, other.id = need) ∧
        firstCycle nodes = none := by
  have first : (nodes.toList.findSome? fun entry =>
      entry.2.row.needs.findSome? (refuseNeed nodes entry.1)) = none ↔
      ∀ row ∈ rows, ∀ need ∈ row.needs, need ≠ row.id ∧ ∃ other ∈ rows, other.id = need := by
    simp only [findSome?_eq_none_iff, Prod.forall, refuseNeed_eq_none, placed.mem,
      Std.ExtTreeMap.mem_toList_iff_getElem?_eq_some]
    constructor
    · intro named row member need listed
      obtain ⟨node, held, rfl⟩ := placed.node distinct member
      exact (named _ node held need listed).symm
    · intro named id node held need listed
      obtain ⟨member, same⟩ := placed.row_of_get held
      rw [← same]
      exact (named node.row member need listed).symm
  unfold checkDependencies
  split
  · rename_i refused found
    simp [← first, found]
  · rename_i clean
    rw [first] at clean
    split
    · rename_i circle found
      simp [found]
    · rename_i none_found
      simp only [none_found, and_true, true_iff]
      exact clean

theorem refuseChild_eq_none {id child : NodeId} : refuseChild nodes id child = none ↔
    ∀ node, nodes[child]? = some node → node.row.status = .done := by
  unfold refuseChild
  split
  · rename_i unfinished
    obtain ⟨node, held, reopened⟩ := (Option.any_eq_true _ _).mp unfinished
    simp only [reduceCtorEq, false_iff, not_forall]
    exact ⟨node, held, by simpa using reopened⟩
  · rename_i finished
    simp only [true_iff]
    intro node held
    simpa [held] using finished

theorem checkBranchClaims_ok (placed : Placed rows nodes)
    (distinct : (rows.map fun row => row.id).Nodup) :
    checkBranchClaims nodes = .ok () ↔
      ∀ branch ∈ rows, branch.status = .done →
        ∀ child ∈ rows, child.id.parent = some branch.id → child.status = .done := by
  have first : (nodes.toList.findSome? fun entry =>
      if entry.2.children.isEmpty || entry.2.row.status != .done then none
      else entry.2.children.findSome? (refuseChild nodes entry.1)) = none ↔
      ∀ branch ∈ rows, branch.status = .done →
        ∀ child ∈ rows, child.id.parent = some branch.id → child.status = .done := by
    simp only [findSome?_eq_none_iff, Prod.forall, Std.ExtTreeMap.mem_toList_iff_getElem?_eq_some]
    constructor
    · intro summary branch member done child inside hangs
      obtain ⟨node, held, rfl⟩ := placed.node distinct member
      obtain ⟨below, heldBelow, rfl⟩ := placed.node distinct inside
      have listed : below.row.id ∈ node.children :=
        (placed.children _ node held below.row.id).mpr
          ⟨(OrdMap.mem_iff_get _ _).mpr ⟨below, heldBelow⟩, hangs⟩
      have checked := summary _ node held
      have branchy : ¬ (node.children.isEmpty || node.row.status != .done) = true := by
        simp [done, ne_nil_of_mem listed]
      rw [if_neg branchy, findSome?_eq_none_iff] at checked
      exact refuseChild_eq_none.mp (checked _ listed) below heldBelow
    · intro summary id node held
      split
      · rfl
      · rename_i branchy
        simp only [Bool.or_eq_true, not_or, bne_iff_ne, ne_eq, not_not] at branchy
        rw [findSome?_eq_none_iff]
        intro child listed
        rw [refuseChild_eq_none]
        intro below heldBelow
        obtain ⟨member, same⟩ := placed.row_of_get held
        obtain ⟨inside, equal⟩ := placed.row_of_get heldBelow
        have hangs := ((placed.children id node held child).mp listed).2
        exact summary node.row member branchy.2 below.row inside (by rw [equal, hangs, same])
  unfold checkBranchClaims
  split
  · rename_i refused found
    rw [← first, found]
    simp
  · rename_i clean
    exact iff_of_true rfl (first.mp clean)

theorem divide_ok (placed : Placed rows nodes) :
    ∃ after, divide { nodes } = .ok { nodes := after } ∧ Plan.SameShape nodes after := by
  have below : Plan.ChildrenBelow nodes := by
    intro id node held child listed
    exact depth_parent ((placed.children id node held child).mp listed).2
  have top : ∀ id ∈ nodes.keys.filter fun id => id.parent.isNone, id.depth = 1 := by
    intro id member
    exact depth_root (by simpa using (mem_filter.mp member).2)
  obtain ⟨after, handed, shape⟩ : ∃ after, Plan.handOut nodeDepthMax nodes Share.whole
      (nodes.keys.filter fun id => id.parent.isNone) = .ok after ∧ Plan.SameShape nodes after :=
    handOut_ok Share.whole below top (by decide)
  exact ⟨after, by simp only [divide, handed]; rfl, shape⟩

theorem build_ok_iff :
    (∃ tree, build rows = .ok tree) ↔ ∃ nodes, place rows = .ok nodes ∧
      checkDependencies nodes = .ok () ∧ checkBranchClaims nodes = .ok () := by
  constructor
  · rintro ⟨tree, success⟩
    obtain ⟨nodes, placed, rest⟩ := Outcome.bind_eq_ok.mp success
    obtain ⟨_, named, rest⟩ := Outcome.bind_eq_ok.mp rest
    obtain ⟨_, summary, -⟩ := Outcome.bind_eq_ok.mp rest
    exact ⟨nodes, placed, named, summary⟩
  · rintro ⟨nodes, placed, named, summary⟩
    obtain ⟨after, divided, -⟩ := divide_ok (place_placed placed)
    exact ⟨{ nodes := after }, Outcome.bind_eq_ok.mpr ⟨nodes, placed,
      Outcome.bind_eq_ok.mpr ⟨(), named, Outcome.bind_eq_ok.mpr ⟨(), summary, divided⟩⟩⟩⟩

end Checks

/-- What is asked of `build` and `firstCycle` on one list of rows. -/
structure BuildContract (rows : List RoadmapRow) : Prop where
  accepts : (∃ tree, build rows = .ok tree) ↔ SoundPlan rows
  finds : ∀ nodes, place rows = .ok nodes →
    ((firstCycle nodes).isSome = true ↔ Waiting.Cyclic (rowNeeds rows))
  real : ∀ nodes, place rows = .ok nodes → ∀ walk, firstCycle nodes = some walk →
    Waiting.IsCircle (rowNeeds rows) walk

theorem build_accepts (success : place rows = .ok nodes)
    (finds : (firstCycle nodes).isSome = true ↔ Waiting.Cyclic (rowNeeds rows)) :
    (∃ tree, build rows = .ok tree) ↔ SoundPlan rows := by
  have placed := place_placed success
  have placeable := place_placeable.mp ⟨nodes, success⟩
  rw [build_ok_iff]
  constructor
  · rintro ⟨other, again, named, summary⟩
    rw [success] at again
    cases again
    obtain ⟨named, none_found⟩ := (checkDependencies_ok placed placeable.distinct).mp named
    refine { placeable with named, acyclic := ?_, summary := ?_ }
    · rw [← finds, none_found]
      decide
    · exact (checkBranchClaims_ok placed placeable.distinct).mp summary
  · intro sound
    refine ⟨nodes, success, (checkDependencies_ok placed placeable.distinct).mpr
      ⟨sound.named, ?_⟩, (checkBranchClaims_ok placed placeable.distinct).mpr sound.summary⟩
    have none_found := mt finds.mp sound.acyclic
    simpa using none_found

theorem build_contract_iff (rows : List RoadmapRow) :
    BuildContract rows ↔
      (Placeable rows → Waiting.Cyclic (rowNeeds rows) → Plan.WalkReturns (rowNeeds rows)) := by
  by_cases placeable : Placeable rows
  · obtain ⟨nodes, success⟩ := place_placeable.mpr placeable
    have needs := (place_placed success).needsIn
    have circles := firstCycle_correct_iff nodes
    rw [needs] at circles
    have only : ∀ other, place rows = .ok other → other = nodes := by
      intro other again
      rw [success] at again
      cases again
      rfl
    rw [forall_prop_of_true placeable, ← circles]
    constructor
    · exact fun contract => ⟨contract.finds nodes success, contract.real nodes success⟩
    · rintro ⟨finds, real⟩
      refine ⟨build_accepts success finds, ?_, ?_⟩
      · intro other again
        rw [only other again]
        exact finds
      · intro other again
        rw [only other again]
        exact real
  · have refused : ∀ nodes, place rows ≠ .ok nodes := fun nodes success =>
      placeable (place_placeable.mp ⟨nodes, success⟩)
    simp only [placeable, false_imp_iff, iff_true]
    refine ⟨?_, fun nodes success => absurd success (refused nodes),
      fun nodes success => absurd success (refused nodes)⟩
    rw [build_ok_iff]
    constructor
    · rintro ⟨nodes, success, -⟩
      exact absurd success (refused nodes)
    · exact fun sound => absurd sound.toPlaceable placeable

section Relabelling

variable {rows : List RoadmapRow} {change : RoadmapRow → RoadmapRow}
  (keeps : ∀ row, (change row).id = row.id ∧ (change row).needs = row.needs)

include keeps

theorem rowAt_map (id : NodeId) : rowAt (rows.map change) id = (rowAt rows id).map change := by
  have same : ((fun row : RoadmapRow => decide (row.id = id)) ∘ change) =
      fun row => decide (row.id = id) := by
    funext row
    simp [(keeps row).1]
  rw [rowAt, rowAt, find?_map, same]

/-- Whether a plan is accepted depends on its indices, its needs and which rows are done. -/
theorem build_ok_map {tree : PlanTree}
    (done : ∀ row ∈ rows, (change row).status = .done ↔ row.status = .done)
    (success : build rows = .ok tree) :
    ∃ other, build (rows.map change) = .ok other := by
  obtain ⟨nodes, placed, named, summary⟩ := build_ok_iff.mp ⟨tree, success⟩
  have ids : ((rows.map change).map fun row => row.id) = rows.map fun row => row.id := by
    rw [map_map]
    exact map_congr_left fun row _ => (keeps row).1
  have placeable := place_placeable.mp ⟨nodes, placed⟩
  obtain ⟨other, placedOther⟩ : ∃ other, place (rows.map change) = .ok other := by
    apply place_placeable.mpr
    refine ⟨ids ▸ placeable.distinct, ?_⟩
    intro row member above hangs
    obtain ⟨old, inside, rfl⟩ := mem_map.mp member
    rw [(keeps old).1] at hangs
    obtain ⟨over_, listed, same⟩ := placeable.parents old inside above hangs
    exact ⟨change over_, mem_map_of_mem listed, (keeps over_).1.trans same⟩
  have distinct : ((rows.map change).map fun row => row.id).Nodup := ids ▸ placeable.distinct
  rw [checkDependencies_ok (place_placed placed) placeable.distinct] at named
  rw [checkBranchClaims_ok (place_placed placed) placeable.distinct] at summary
  have needs : Plan.needsIn other = Plan.needsIn nodes := by
    rw [(place_placed placedOther).needsIn, (place_placed placed).needsIn]
    funext id
    rw [rowNeeds, rowNeeds, rowAt_map keeps, Option.map_map]
    cases rowAt rows id with
    | none => rfl
    | some row => simp [(keeps row).2]
  refine build_ok_iff.mpr ⟨other, placedOther, ?_, ?_⟩
  · rw [checkDependencies_ok (place_placed placedOther) distinct, firstCycle_congr needs]
    refine ⟨?_, named.2⟩
    intro row member need listed
    obtain ⟨old, inside, rfl⟩ := mem_map.mp member
    rw [(keeps old).2] at listed
    obtain ⟨apart, found, known, same⟩ := named.1 old inside need listed
    rw [(keeps old).1]
    exact ⟨apart, change found, mem_map_of_mem known, (keeps found).1.trans same⟩
  · rw [checkBranchClaims_ok (place_placed placedOther) distinct]
    intro branch member finished child inside hangs
    obtain ⟨old, listed, rfl⟩ := mem_map.mp member
    obtain ⟨low, present, rfl⟩ := mem_map.mp inside
    rw [(keeps low).1, (keeps old).1] at hangs
    exact (done low present).mpr
      (summary old listed ((done old listed).mp finished) low present hangs)

end Relabelling

/-- A row that has not started and says nothing but its index and its needs. -/
def bareRow (id : NodeId) (needs : List NodeId) : RoadmapRow :=
  { id, item := "work".toList, weight := 1, needs, status := .notStarted, evidence := .empty }

/-- Rows `3` and `4` wait for each other, and row `2` names row `1` twice. -/
def repeatedNeedRows : List RoadmapRow :=
  [bareRow ⟨['1'], one_indexed⟩ [],
    bareRow ⟨['2'], two_indexed⟩ [⟨['1'], one_indexed⟩, ⟨['1'], one_indexed⟩],
    bareRow ⟨['3'], three_indexed⟩ [⟨['4'], four_indexed⟩],
    bareRow ⟨['4'], four_indexed⟩ [⟨['3'], three_indexed⟩]]

/-- The circle of rows `3` and `4` is missed, because the walk starts at row `2`. -/
theorem repeatedNeedRows_breaks_contract : ¬ BuildContract repeatedNeedRows := by
  intro contract
  have built : (build repeatedNeedRows).isOk = true := by decide +kernel
  obtain ⟨tree, success⟩ : ∃ tree, build repeatedNeedRows = .ok tree := by
    cases answer : build repeatedNeedRows with
    | error refused => simp [answer, Except.isOk, Except.toBool] at built
    | ok tree => exact ⟨tree, rfl⟩
  refine (contract.accepts.mp ⟨tree, success⟩).acyclic ⟨⟨['3'], by decide⟩, ?_⟩
  refine Relation.TransGen.head (b := ⟨['4'], by decide⟩) ?_ (.single ?_)
  · exact ⟨[⟨['4'], by decide⟩], by decide, by decide⟩
  · exact ⟨[⟨['3'], by decide⟩], by decide, by decide⟩

end Sprawling.PlanTree
