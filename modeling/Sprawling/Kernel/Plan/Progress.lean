import Sprawling.Kernel.Plan.Division

namespace Sprawling

open List NodeId PlanNode

open Option (isSome isSome_map isSome_iff_exists map_some getD_some)
open Std.ExtTreeMap (nodup_keys mem_iff_isSome_getElem?)

def countUp (count : UInt32) : UInt32 := if count.toNat + 1 < u32Bound then count + 1 else count

/-- Progress with a denominator: the leaves of the plan tree. -/
structure PlannedProgress where
  done : UInt32
  blocked : UInt32
  total : UInt32
  donePpb : Nat
  blockedPpb : Nat

namespace PlanTree

open Plan

/-- What the loop of `progress` has counted so far. -/
structure Counted where
  done : UInt32
  blocked : UInt32
  total : UInt32
  doneParts : List Share
  blockedParts : List Share

/-- One node of the loop. A branch is its children's work and is not counted. -/
def countNode (counted : Counted) (node : PlanNode) : Counted :=
  if !node.isLeaf then counted
  else
    let counted := { counted with total := countUp counted.total }
    match node.row.status, node.row.evidence with
    | .done, .present _ =>
      { counted with
        done := countUp counted.done, doneParts := counted.doneParts ++ [node.share] }
    | .blocked, _ | .awaitingApproval, _ =>
      { counted with
        blocked := countUp counted.blocked, blockedParts := counted.blockedParts ++ [node.share] }
    | _, _ => counted

/-- The plan's own reading of itself: leaves counted, and the share of the whole they carry. -/
def progress (tree : PlanTree) : PlannedProgress :=
  let counted := (tree.nodes.toList.map Prod.snd).foldl countNode
    { done := 0, blocked := 0, total := 0, doneParts := [], blockedParts := [] }
  { done := counted.done
    blocked := counted.blocked
    total := counted.total
    donePpb := (Share.gather counted.doneParts).ppb
    blockedPpb := (Share.gather counted.blockedParts).ppb }

/-- The nodes that carry progress, in key order. -/
def leaves (tree : PlanTree) : List PlanNode :=
  (tree.nodes.toList.map Prod.snd).filter isLeaf

/-- A leaf that says done and cites evidence that parses. -/
def proven (node : PlanNode) : Bool :=
  match node.row.status, node.row.evidence with
  | .done, .present _ => true
  | _, _ => false

/-- A leaf that is blocked or waits for a person. -/
def stopped (node : PlanNode) : Bool :=
  match node.row.status with
  | .blocked | .awaitingApproval => true
  | _ => false

def worth (nodes : List PlanNode) : Nat := (nodes.map fun node => node.share.ppb).sum

theorem gather_ppb (parts : List Share) :
    (Share.gather parts).ppb = min (parts.map Share.ppb).sum wholePpb := by
  have sums : ∀ start, parts.foldl (fun held part => held + part.ppb) start =
      start + (parts.map Share.ppb).sum := by
    induction parts with
    | nil => simp
    | cons part parts ih =>
      intro start
      rw [foldl_cons, ih, map_cons, sum_cons]
      omega
  simp [Share.gather, sums]

theorem foldl_countNode (nodes : List PlanNode) (counted : Counted) :
    ((nodes.foldl countNode counted).doneParts.map Share.ppb).sum =
        (counted.doneParts.map Share.ppb).sum + worth ((nodes.filter isLeaf).filter proven) ∧
      ((nodes.foldl countNode counted).blockedParts.map Share.ppb).sum =
        (counted.blockedParts.map Share.ppb).sum +
          worth ((nodes.filter isLeaf).filter stopped) := by
  induction nodes generalizing counted with
  | nil => simp [worth]
  | cons node nodes ih =>
    rw [foldl_cons, (ih _).1, (ih _).2]
    by_cases leaf : node.isLeaf = true
    · rw [filter_cons_of_pos leaf]
      cases status : node.row.status <;> cases evidence : node.row.evidence <;>
        simp [countNode, leaf, status, evidence, proven, stopped, worth] <;> omega
    · rw [filter_cons_of_neg leaf]
      simp [countNode, leaf]

theorem progress_ppb (tree : PlanTree) :
    tree.progress.donePpb = min (worth (tree.leaves.filter proven)) wholePpb ∧
      tree.progress.blockedPpb = min (worth (tree.leaves.filter stopped)) wholePpb := by
  have sums := foldl_countNode (tree.nodes.toList.map Prod.snd)
    { done := 0, blocked := 0, total := 0, doneParts := [], blockedParts := [] }
  constructor
  · simp only [progress, gather_ppb, sums.1]
    simp [leaves]
  · simp only [progress, gather_ppb, sums.2]
    simp [leaves]

theorem worth_split (nodes : List PlanNode) :
    worth (nodes.filter proven) + worth (nodes.filter stopped) ≤ worth nodes := by
  induction nodes with
  | nil => simp [worth]
  | cons node nodes ih =>
    simp only [worth] at ih ⊢
    cases status : node.row.status <;> cases evidence : node.row.evidence <;>
      simp [proven, stopped, status, evidence] <;> omega

theorem worth_filter_eq (picked : PlanNode → Bool) (nodes : List PlanNode) :
    worth (nodes.filter picked) ≤ worth nodes ∧
      (worth (nodes.filter picked) = worth nodes ↔
        ∀ node ∈ nodes, node.share.ppb ≠ 0 → picked node = true) := by
  induction nodes with
  | nil => simp [worth]
  | cons node nodes ih =>
    obtain ⟨most, full⟩ := ih
    simp only [worth] at most full ⊢
    by_cases pick : picked node = true
    · rw [filter_cons_of_pos pick]
      simp only [map_cons, sum_cons, mem_cons, forall_eq_or_imp, pick, implies_true, true_and]
      rw [← full]
      omega
    · rw [filter_cons_of_neg pick]
      have worthless : (node.share.ppb ≠ 0 → picked node = true) ↔ node.share.ppb = 0 := by
        constructor
        · intro must
          by_cases zero : node.share.ppb = 0
          · exact zero
          · exact absurd (must zero) pick
        · exact fun zero some_share => absurd zero some_share
      simp only [map_cons, sum_cons, mem_cons, forall_eq_or_imp]
      rw [worthless, ← full]
      omega

section Conservation

variable {rows : List RoadmapRow} {tree : PlanTree}

theorem Shared.sum_level (shared : Shared rows tree) {above : Option NodeId}
    (inside : ∀ id, above = some id → id ∈ tree.nodes) (somebody : siblings tree.nodes above ≠ []) :
    ((siblings tree.nodes above).map (shareOf tree.nodes)).sum = potOf tree.nodes above := by
  rw [shared.level above inside]
  exact Share.partsOf_sum _ (Share.totalWeight_pos (levelWeights_nonzero somebody))

theorem worth_eq_sum (picked : PlanNode → Bool) (tree : PlanTree) :
    worth ((tree.nodes.toList.map Prod.snd).filter picked) =
      ((tree.nodes.keys.filter fun id => tree.nodes[id]?.any picked).map (shareOf tree.nodes)).sum := by
  have held : ∀ entry ∈ tree.nodes.toList, tree.nodes[entry.1]? = some entry.2 :=
    fun entry member => Std.ExtTreeMap.mem_toList_iff_getElem?_eq_some.mp member
  rw [← Std.ExtTreeMap.map_fst_toList_eq_keys, filter_map, filter_map, worth, map_map, map_map]
  have sameNodes : tree.nodes.toList.filter (picked ∘ Prod.snd) =
      tree.nodes.toList.filter ((fun id => tree.nodes[id]?.any picked) ∘ Prod.fst) := by
    apply filter_congr
    intro entry member
    simp [held entry member]
  rw [← sameNodes]
  apply congrArg List.sum
  apply map_congr_left
  intro entry member
  simp [shareOf, held entry (mem_filter.mp member).1]

theorem sum_filter_keys (nodes : NodeMap) (picked : NodeId → Bool) (value : NodeId → Nat) :
    ((nodes.keys.filter picked).map value).sum =
      ∑ id ∈ nodes.keys.toFinset with picked id = true, value id := by
  rw [← sum_toFinset value (nodup_keys.filter _), toFinset_filter]

variable (shared : Shared rows tree)

include shared

theorem Shared.sum_below :
    (∑ id ∈ tree.nodes.keys.toFinset with ¬ id.parent = none, shareOf tree.nodes id) =
      ∑ id ∈ tree.nodes.keys.toFinset with ¬ siblings tree.nodes (some id) = [],
        shareOf tree.nodes id := by
  have present : ∀ id ∈ tree.nodes.keys.toFinset, id ∈ tree.nodes :=
    fun id member => Std.ExtTreeMap.mem_keys.mp (mem_toFinset.mp member)
  have branch : ∀ id ∈ tree.nodes.keys.toFinset,
      (if ¬ siblings tree.nodes (some id) = [] then shareOf tree.nodes id else 0) =
        ∑ child ∈ tree.nodes.keys.toFinset,
          if child.parent = some id then shareOf tree.nodes child else 0 := by
    intro id member
    have children : ((siblings tree.nodes (some id)).map (shareOf tree.nodes)).sum =
        ∑ child ∈ tree.nodes.keys.toFinset,
          if child.parent = some id then shareOf tree.nodes child else 0 := by
      rw [siblings, sum_filter_keys, Finset.sum_filter]
      simp
    rw [← children]
    by_cases leaf : siblings tree.nodes (some id) = []
    · simp [leaf]
    · have known : ∀ other, some id = some other → other ∈ tree.nodes := by
        intro other same
        cases same
        exact present id member
      rw [if_pos leaf, shared.sum_level known leaf]
      rfl
  have below : ∀ child ∈ tree.nodes.keys.toFinset,
      (∑ id ∈ tree.nodes.keys.toFinset,
        if child.parent = some id then shareOf tree.nodes child else 0) =
        if ¬ child.parent = none then shareOf tree.nodes child else 0 := by
    intro child member
    cases hangs : child.parent with
    | none => simp
    | some above =>
      have inside : above ∈ tree.nodes.keys.toFinset :=
        mem_toFinset.mpr (Std.ExtTreeMap.mem_keys.mpr
          (shared.hung.parents child (present child member) above hangs))
      have one : ∀ id ∈ tree.nodes.keys.toFinset, id ≠ above →
          (if some above = some id then shareOf tree.nodes child else 0) = 0 := by
        intro id _ other
        exact if_neg fun same => other (Option.some.inj same).symm
      rw [Finset.sum_eq_single above one fun absent => absurd inside absent]
      simp
  rw [Finset.sum_filter, Finset.sum_filter, Finset.sum_congr rfl branch, Finset.sum_comm]
  exact (Finset.sum_congr rfl below).symm

variable {id : NodeId}

theorem Shared.isLeaf_iff {node : PlanNode}
    (held : tree.nodes[id]? = some node) : node.isLeaf = true ↔ siblings tree.nodes (some id) = [] := by
  rw [isLeaf, shared.hung.children id node held, List.isEmpty_iff]
  rfl

theorem Shared.worth_leaves (some_row : rows ≠ []) :
    worth tree.leaves = wholePpb := by
  obtain ⟨row, listed⟩ := exists_mem_of_ne_nil rows some_row
  have member : row.id ∈ tree.nodes := by
    rw [mem_iff_isSome_getElem?]
    have found := congrArg isSome (shared.row row.id)
    rw [isSome_map] at found
    rw [found, rowAt_isSome]
    exact ⟨row, listed, rfl⟩
  obtain ⟨top, above, -⟩ := under_root shared.hung row.id member
  have whole : (∑ id ∈ tree.nodes.keys.toFinset with id.parent = none, shareOf tree.nodes id) =
      wholePpb := by
    have level : ((siblings tree.nodes none).map (shareOf tree.nodes)).sum = wholePpb :=
      shared.sum_level (by simp) (ne_nil_of_mem above)
    rw [siblings, sum_filter_keys] at level
    simpa using level
  have leaf : worth tree.leaves =
      ∑ id ∈ tree.nodes.keys.toFinset with siblings tree.nodes (some id) = [],
        shareOf tree.nodes id := by
    rw [leaves, worth_eq_sum, sum_filter_keys]
    apply Finset.sum_congr _ fun _ _ => rfl
    apply Finset.filter_congr
    intro id inside
    rw [mem_toFinset, Std.ExtTreeMap.mem_keys, OrdMap.mem_iff_get] at inside
    obtain ⟨node, held⟩ := inside
    rw [held, ← shared.isLeaf_iff held]
    rfl
  have byParent := Finset.sum_filter_add_sum_filter_not tree.nodes.keys.toFinset
    (fun id => id.parent = none) (shareOf tree.nodes)
  have byChildren := Finset.sum_filter_add_sum_filter_not tree.nodes.keys.toFinset
    (fun id => siblings tree.nodes (some id) = []) (shareOf tree.nodes)
  have below := shared.sum_below
  omega

theorem Shared.mem :
    id ∈ tree.nodes ↔ (rowAt rows id).isSome = true := by
  rw [← shared.row, isSome_map, mem_iff_isSome_getElem?]

theorem Shared.weight (id : NodeId) :
    (tree.nodes[id]?.map fun node => node.row.weight) = (rowAt rows id).map fun row => row.weight := by
  rw [← shared.row, Option.map_map]
  rfl

end Conservation

/-- The rows with every weight of one sibling group multiplied. -/
def scaleRow (above : Option NodeId) (factor : Nat) (row : RoadmapRow) : RoadmapRow :=
  if row.id.parent = above then { row with weight := UInt32.ofNat (factor * row.weight.toNat) }
  else row

theorem scaleRow_keeps (above : Option NodeId) (factor : Nat) (row : RoadmapRow) :
    (scaleRow above factor row).id = row.id ∧ (scaleRow above factor row).needs = row.needs := by
  unfold scaleRow
  split <;> simp

theorem scaleRow_status (above : Option NodeId) (factor : Nat) (row : RoadmapRow) :
    (scaleRow above factor row).status = row.status := by
  unfold scaleRow
  split <;> rfl

/-- The weights a level is divided by, before an all-zero level reads as an even cut. -/
def rawWeights (nodes : NodeMap) (among : List NodeId) : List UInt32 :=
  among.map fun id => (nodes[id]?.map fun node => node.row.weight).getD 1

theorem levelWeights_eq (nodes : NodeMap) (among : List NodeId) :
    levelWeights nodes among =
      if (rawWeights nodes among).all (· == 0) then List.replicate among.length 1
      else rawWeights nodes among := rfl

theorem partsOf_rawWeights_scale {nodes other : NodeMap} {among : List NodeId} {factor pot : Nat}
    (positive : 0 < factor)
    (ratio : (rawWeights other among).map UInt32.toNat =
      (rawWeights nodes among).map fun weight => factor * weight.toNat) :
    Share.partsOf pot (levelWeights other among) = Share.partsOf pot (levelWeights nodes among) := by
  have zeroes : ∀ weights : List UInt32, weights.all (· == 0) =
      (weights.map UInt32.toNat).all (· == 0) := by
    intro weights
    rw [all_map]
    apply congrArg (fun test => weights.all test)
    funext weight
    rw [Bool.eq_iff_iff]
    simp only [beq_iff_eq, Function.comp_apply]
    exact (UInt32.toNat_inj (b := 0)).symm
  have sameZeroes : (rawWeights other among).all (· == 0) = (rawWeights nodes among).all (· == 0) := by
    rw [zeroes, zeroes, ratio, all_map, all_map]
    apply congrArg (fun test => (rawWeights nodes among).all test)
    funext weight
    rw [Bool.eq_iff_iff]
    simp only [beq_iff_eq, Function.comp_apply, Nat.mul_eq_zero]
    omega
  rw [levelWeights_eq, levelWeights_eq, sameZeroes]
  split
  · rfl
  · exact Share.partsOf_scale positive ratio

section Laws

variable {rows : List RoadmapRow} {tree : PlanTree} {above : Option NodeId}

theorem Shared.siblings_eq {other : List RoadmapRow} {second : PlanTree} (one : Shared rows tree)
    (two : Shared other second)
    (same : ∀ id : NodeId, id.parent = above →
      ((rowAt other id).isSome = true ↔ (rowAt rows id).isSome = true)) :
    siblings second.nodes above = siblings tree.nodes above := by
  apply OrdMap.filter_keys_congr
  intro id picked
  rw [one.mem, two.mem]
  exact same id (by simpa using picked)

variable {other : PlanTree}

theorem Shared.scale {factor : Nat}
    (one : Shared rows tree) (two : Shared (rows.map (scaleRow above factor)) other)
    (positive : 0 < factor)
    (fits : ∀ row ∈ rows, row.id.parent = above → factor * row.weight.toNat < u32Bound)
    (id : NodeId) : shareOf other.nodes id = shareOf tree.nodes id := by
  have moved : ∀ id, rowAt (rows.map (scaleRow above factor)) id =
      (rowAt rows id).map (scaleRow above factor) :=
    rowAt_map (scaleRow_keeps above factor)
  have present : ∀ id, id ∈ other.nodes ↔ id ∈ tree.nodes := by
    intro id
    rw [one.mem, two.mem, moved, isSome_map]
  by_cases member : id ∈ tree.nodes
  · refine one.share_congr two (fun _ => True) (by simp) ?_ ?_ id trivial member
    · intro id _
      apply one.siblings_eq two
      intro sibling _
      rw [moved, isSome_map]
    · intro id pot _
      by_cases here : id.parent = above
      · apply partsOf_rawWeights_scale positive
        rw [rawWeights, rawWeights, map_map, map_map]
        apply map_congr_left
        intro sibling listed
        obtain ⟨known, hangs⟩ := mem_siblings.mp listed
        obtain ⟨row, found⟩ := isSome_iff_exists.mp (one.mem.mp known)
        obtain ⟨inside, same⟩ := rowAt_eq_some found
        have small := fits row inside (by rw [same, hangs, here])
        simp only [Function.comp_apply, two.weight, one.weight, moved, found, map_some,
          getD_some]
        rw [scaleRow, if_pos (by rw [same, hangs, here])]
        exact UInt32.toNat_ofNat_of_lt small
      · rw [levelWeights_congr]
        intro sibling listed
        obtain ⟨known, hangs⟩ := mem_siblings.mp listed
        obtain ⟨row, found⟩ := isSome_iff_exists.mp (one.mem.mp known)
        obtain ⟨inside, same⟩ := rowAt_eq_some found
        rw [two.weight, one.weight, moved, found, map_some, scaleRow,
          if_neg (by rw [same, hangs]; exact here)]
  · have absent : tree.nodes[id]? = none := by
      rwa [mem_iff_isSome_getElem?, Bool.not_eq_true, Option.isSome_eq_false_iff,
        Option.isNone_iff_eq_none] at member
    have absentToo : other.nodes[id]? = none := by
      rw [← present, mem_iff_isSome_getElem?, Bool.not_eq_true,
        Option.isSome_eq_false_iff, Option.isNone_iff_eq_none] at member
      exact member
    rw [shareOf, shareOf, absent, absentToo]

theorem Shared.divide_leaf {more : List RoadmapRow} {leaf : NodeId}
    (one : Shared rows tree) (two : Shared more other)
    (childless : ∀ row ∈ rows, row.id.parent ≠ some leaf)
    (kept : ∀ id : NodeId, id.parent ≠ some leaf →
      ((rowAt more id).map fun row => row.weight) = (rowAt rows id).map fun row => row.weight)
    {row : RoadmapRow} (listed : row ∈ rows) :
    shareOf other.nodes row.id = shareOf tree.nodes row.id := by
  have apart : ∀ id ∈ tree.nodes, id.parent ≠ some leaf := by
    intro id member
    obtain ⟨found, inside, rfl⟩ := rowAt_isSome.mp (one.mem.mp member)
    exact childless found inside
  have sameSiblings : ∀ id, id ∈ tree.nodes →
      siblings other.nodes id.parent = siblings tree.nodes id.parent := by
    intro id member
    apply one.siblings_eq two
    intro sibling hangs
    have weights := congrArg isSome (kept sibling (hangs ▸ apart id member))
    rw [isSome_map, isSome_map] at weights
    rw [weights]
  refine one.share_congr two (fun id => id ∈ tree.nodes)
    (fun id above member hangs => one.hung.parents id member above hangs) sameSiblings ?_ row.id ?_ ?_
  · intro id pot member
    rw [levelWeights_congr]
    intro sibling inside
    obtain ⟨known, -⟩ := mem_siblings.mp inside
    rw [two.weight, one.weight, kept sibling (apart sibling known)]
  · exact one.mem.mpr (rowAt_isSome.mpr ⟨row, listed, rfl⟩)
  · exact one.mem.mpr (rowAt_isSome.mpr ⟨row, listed, rfl⟩)

theorem Shared.weightless (shared : Shared rows tree) {place : Nat}
    {id : NodeId} (at_place : (siblings tree.nodes above)[place]? = some id)
    (weightless : ((rowAt rows id).map fun row => row.weight) = some 0)
    (beside : ∃ sibling ∈ siblings tree.nodes above,
      ((rowAt rows sibling).map fun row => row.weight) ≠ some 0)
    (past : Share.remainderOf (potOf tree.nodes above)
      (rawWeights tree.nodes (siblings tree.nodes above)) ≤ place) :
    shareOf tree.nodes id = 0 := by
  have member := mem_siblings.mp (mem_of_getElem? at_place)
  have inside : ∀ over_, above = some over_ → over_ ∈ tree.nodes := by
    intro over_ same
    exact shared.hung.parents id member.1 over_ (member.2.trans same)
  obtain ⟨sibling, listed, heavy⟩ := beside
  have uneven : ¬ (rawWeights tree.nodes (siblings tree.nodes above)).all (· == 0) = true := by
    intro all
    rw [rawWeights, all_map, all_eq_true] at all
    have zero := all sibling listed
    obtain ⟨row, found⟩ := isSome_iff_exists.mp (shared.mem.mp (mem_siblings.mp listed).1)
    rw [found] at heavy
    simp only [Function.comp_apply, shared.weight, found, map_some, getD_some,
      beq_iff_eq] at zero
    exact heavy (congrArg some zero)
  have divided := shared.level above inside
  rw [Divided, levelWeights_eq, if_neg uneven] at divided
  have nothing : (rawWeights tree.nodes (siblings tree.nodes above))[place]? = some 0 := by
    rw [rawWeights, getElem?_map, at_place, map_some, shared.weight, weightless]
    rfl
  have part := Share.partsOf_zero_weight nothing past
  rw [← divided, getElem?_map, at_place, map_some, Option.some.injEq] at part
  exact part

/-- What the shares of an accepted plan keep to. -/
structure ShareLaws (rows : List RoadmapRow) (tree : PlanTree) : Prop where
  branch : ∀ (id : NodeId) (node : PlanNode), tree.nodes[id]? = some node → node.children ≠ [] →
    (node.children.map (shareOf tree.nodes)).sum = node.share.ppb
  whole : rows ≠ [] → (tree.leaves.map fun node => node.share.ppb).sum = wholePpb
  ratio : ∀ (above : Option NodeId) (factor : Nat), 0 < factor →
    (∀ row ∈ rows, row.id.parent = above → factor * row.weight.toNat < u32Bound) →
    ∃ other, build (rows.map (scaleRow above factor)) = .ok other ∧
      ∀ id, shareOf other.nodes id = shareOf tree.nodes id
  divided : ∀ (leaf : NodeId) (more : List RoadmapRow) (other : PlanTree),
    (∀ row ∈ rows, row.id.parent ≠ some leaf) →
    (∀ id : NodeId, id.parent ≠ some leaf →
      ((rowAt more id).map fun row => row.weight) = (rowAt rows id).map fun row => row.weight) →
    build more = .ok other →
    ∀ row ∈ rows, shareOf other.nodes row.id = shareOf tree.nodes row.id
  weightless : ∀ (above : Option NodeId) (place : Nat) (id : NodeId),
    (siblings tree.nodes above)[place]? = some id →
    ((rowAt rows id).map fun row => row.weight) = some 0 →
    (∃ sibling ∈ siblings tree.nodes above,
      ((rowAt rows sibling).map fun row => row.weight) ≠ some 0) →
    Share.remainderOf (potOf tree.nodes above)
      (rawWeights tree.nodes (siblings tree.nodes above)) ≤ place →
    shareOf tree.nodes id = 0
  bounded : tree.progress.donePpb + tree.progress.blockedPpb ≤ wholePpb
  finished : rows ≠ [] → (tree.progress.donePpb = wholePpb ↔
    ∀ node ∈ tree.leaves, node.share.ppb ≠ 0 →
      node.row.status = .done ∧ ∃ locator, node.row.evidence = .present locator)

theorem proven_iff {node : PlanNode} : proven node = true ↔
    node.row.status = .done ∧ ∃ locator, node.row.evidence = .present locator := by
  unfold proven
  cases node.row.status <;> cases node.row.evidence <;> simp

theorem leaves_nil (shared : Shared rows tree) (empty : rows = []) : tree.leaves = [] := by
  rw [leaves, filter_eq_nil_iff]
  intro node member
  obtain ⟨entry, listed, rfl⟩ := mem_map.mp member
  have held := Std.ExtTreeMap.mem_toList_iff_getElem?_eq_some.mp listed
  have known := shared.mem.mp ((OrdMap.mem_iff_get _ _).mpr ⟨entry.2, held⟩)
  rw [empty] at known
  cases known

theorem build_shareLaws (success : build rows = .ok tree) : ShareLaws rows tree := by
  have shared := build_shared success
  obtain ⟨done, blocked⟩ := tree.progress_ppb
  have apart := worth_split tree.leaves
  have least := worth_filter_eq proven tree.leaves
  constructor
  case branch =>
    intro id node held branchy
    have children := shared.hung.children id node held
    have member : id ∈ tree.nodes := (OrdMap.mem_iff_get _ _).mpr ⟨node, held⟩
    have inside : ∀ other, some id = some other → other ∈ tree.nodes := by
      intro other same
      cases same
      exact member
    have level : ((siblings tree.nodes (some id)).map (shareOf tree.nodes)).sum =
        shareOf tree.nodes id :=
      shared.sum_level inside (by rw [siblings, ← children]; exact branchy)
    rw [siblings, ← children, shareOf, held] at level
    exact level
  case whole => exact shared.worth_leaves
  case ratio =>
    intro above factor positive fits
    obtain ⟨other, accepted⟩ := build_ok_map (scaleRow_keeps above factor)
      (fun row _ => by rw [scaleRow_status]) success
    exact ⟨other, accepted, shared.scale (build_shared accepted) positive fits⟩
  case divided =>
    intro leaf more other childless kept accepted row listed
    exact shared.divide_leaf (build_shared accepted) childless kept listed
  case weightless =>
    intro above place id at_place weightless beside past
    exact shared.weightless at_place weightless beside past
  case bounded =>
    by_cases empty : rows = []
    · rw [done, blocked, leaves_nil shared empty]
      simp [worth]
    · have whole := shared.worth_leaves empty
      omega
  case finished =>
    intro some_row
    have whole := shared.worth_leaves some_row
    simp only [← proven_iff]
    rw [← least.2, done]
    omega

end Laws

/-- A row of the given index, weight and status that cites nothing. -/
def plainRow (id : NodeId) (weight : UInt32) (status : RoadmapStatus) : RoadmapRow :=
  { id, item := "work".toList, weight, needs := [], status, evidence := .empty }

/-- A branch of two rows beside a leaf. -/
def branchedRows : List RoadmapRow :=
  [plainRow ⟨['1'], one_indexed⟩ 1 .inProgress, plainRow ⟨['1', '.', '1'], child_indexed⟩ 1 .notStarted,
    plainRow ⟨['1', '.', '2'], by decide⟩ 3 .blocked, plainRow ⟨['2'], two_indexed⟩ 1 .notStarted]

theorem build_shareLaws_branched :
    ∃ tree, build branchedRows = .ok tree ∧ ShareLaws branchedRows tree := by
  have built : (build branchedRows).toOption.map (fun _ => ()) = some () := by decide +kernel
  obtain ⟨tree, success, -⟩ := Outcome.of_map_toOption built
  exact ⟨tree, success, build_shareLaws success⟩

/-- Three rows of weight one behind a row of weight zero. -/
def weightlessRows : List RoadmapRow :=
  [plainRow ⟨['1'], one_indexed⟩ 0 .notStarted, plainRow ⟨['2'], two_indexed⟩ 1 .notStarted,
    plainRow ⟨['3'], three_indexed⟩ 1 .notStarted, plainRow ⟨['4'], four_indexed⟩ 1 .notStarted]

/-- An empty plan is accepted and its leaves come to nothing; a row that says done without
evidence is not counted; and the billionth left over goes to a row of weight zero that stands
first. -/
theorem shares_stray :
    (∃ tree, build [] = .ok tree ∧ (tree.leaves.map fun node => node.share.ppb).sum = 0) ∧
      (∃ tree, build [plainRow ⟨['1'], by decide⟩ 1 .done] = .ok tree ∧
        (∀ node ∈ tree.leaves, node.row.status = .done) ∧ tree.progress.donePpb = 0) ∧
      ∃ tree, build weightlessRows = .ok tree ∧ shareOf tree.nodes ⟨['1'], by decide⟩ = 1 := by
  have empty : (build []).toOption.map
      (fun tree => (tree.leaves.map fun node => node.share.ppb).sum) = some 0 := by decide +kernel
  have unproven : (build [plainRow ⟨['1'], by decide⟩ 1 .done]).toOption.map
      (fun tree => (tree.leaves.all fun node => node.row.status == .done, tree.progress.donePpb)) =
        some (true, 0) := by decide +kernel
  have weightless : (build weightlessRows).toOption.map
      (fun tree => shareOf tree.nodes ⟨['1'], by decide⟩) = some 1 := by decide +kernel
  obtain ⟨first, built, nothing⟩ := Outcome.of_map_toOption empty
  obtain ⟨second, builtToo, figures⟩ := Outcome.of_map_toOption unproven
  rw [Prod.mk.injEq, all_eq_true] at figures
  refine ⟨⟨first, built, nothing⟩, ⟨second, builtToo, ?_, figures.2⟩, Outcome.of_map_toOption weightless⟩
  intro node member
  simpa using figures.1 node member

end PlanTree

end Sprawling
