import Sprawling.Collab.ClaimDesk

namespace Sprawling

open List

open Effect (run_bind run_lift run_look run_pure run_update)

theorem PlanExit.proven (exit : PlanExit) (done : exit.status = .done) : exit.evidence ≠ none := by
  cases exit with
  | finished id evidence => simp [PlanExit.evidence]
  | stopped id why => cases why <;> cases done

namespace PlanTree

open Spine

variable {rows : List RoadmapRow} {tree : PlanTree} {id : NodeId}

theorem updateRow_keeps (status : RoadmapStatus) (evidence : Option Locator) (row : RoadmapRow) :
    (updateRow id status evidence row).id = row.id ∧
      (updateRow id status evidence row).needs = row.needs := by
  unfold updateRow
  split <;> simp

theorem build_started (success : build rows = .ok tree)
    (fresh : ∀ row ∈ rows, row.id = id → row.status = .notStarted) :
    ∃ after, build (rows.map (updateRow id .inProgress none)) = .ok after := by
  apply build_ok_map (updateRow_keeps .inProgress none) _ success
  intro row member
  unfold updateRow
  split
  · rename_i here
    simp [fresh row member here]
  · rfl

theorem claim_started {held : Held} (success : build rows = .ok tree)
    (taken : tree.claim id = .ok held) :
    held.id = id ∧ (∃ row ∈ rows, row.id = id) ∧
      ∀ row ∈ rows, row.id = id → row.status = .notStarted := by
  obtain ⟨placeable, placed⟩ := build_placed success
  have ready := (claim_ok_iff placed id).mp ⟨held, taken⟩
  obtain ⟨node, found, -, fresh, -⟩ := (mem_ready placed).mp ready
  obtain ⟨member, same⟩ := placed.row_of_get found
  refine ⟨?_, ⟨node.row, member, same⟩, ?_⟩
  · unfold claim at taken
    split at taken
    · cases taken
    · split at taken
      · cases taken
      · split at taken
        · cases taken
        · dsimp only at taken
          split at taken
          · cases taken
            rfl
          · cases taken
  · intro row inside here
    rw [inj_on_of_nodup_map placeable.distinct inside member (here.trans same.symm), fresh]

end PlanTree

namespace ClaimDesk

open Spine

variable {start : List Char} {desk : ClaimDesk} {id : NodeId}

/-- The desk's text is what its effects make of the starting text, and a held node is a row in
progress of a plan that builds. -/
structure Kept (start : List Char) (desk : ClaimDesk) : Prop where
  replayed : replay start desk.effects = .ok desk.text
  holding : ∀ held, desk.held = some held → ∃ rows tree row,
    checkRoadmapShape desk.text = .wellFormed rows ∧ PlanTree.build rows = .ok tree ∧
      row ∈ rows ∧ row.id = held.id ∧ row.status = .inProgress

variable {effects : List ClaimEffect} {text : List Char}

theorem replay_append {more : List ClaimEffect} (done : replay start effects = .ok text) :
    replay start (effects ++ more) = replay text more := by
  rw [replay, foldlM_append]
  rw [replay] at done
  rw [done]
  rfl

variable {effect : ClaimEffect}

theorem replay_concat {out : List Char}
    (done : replay start effects = .ok text) (applied : effect.apply text = .ok out) :
    replay start (effects ++ [effect]) = .ok out := by
  rw [replay_append done, replay, foldlM_cons, applied]
  rfl

/-- A desk that took an effect: it is written and queued. -/
def took (desk : ClaimDesk) (effect : ClaimEffect) (text : List Char) : ClaimDesk :=
  { desk with text, changed := true, effects := desk.effects ++ [effect] }

theorem run_take_ok (applied : effect.apply desk.text = .ok text) :
    Effect.run (take effect) desk = (.ok (), desk.took effect text) := by
  simp [take, run_bind, applied, took]

variable {rows : List RoadmapRow}

theorem tree_of_shape (shape : checkRoadmapShape desk.text = .wellFormed rows) :
    desk.tree = PlanTree.build rows := by
  rw [tree, shape]

variable {tree : PlanTree}

theorem shape_of_tree (built : desk.tree = .ok tree) :
    ∃ rows, checkRoadmapShape desk.text = .wellFormed rows ∧ PlanTree.build rows = .ok tree := by
  unfold ClaimDesk.tree at built
  split at built
  · rename_i rows shape
    exact ⟨rows, shape, built⟩
  · cases built

theorem run_record {exit : PlanExit}
    (shape : checkRoadmapShape desk.text = .wellFormed rows)
    (built : PlanTree.build rows = .ok tree) (listed : ∃ row ∈ rows, row.id = exit.id) :
    ∃ effect text, effect.apply desk.text = .ok text ∧
      Effect.run (record exit) desk = (.ok (), desk.took effect text) := by
  obtain ⟨text, applied⟩ := setRoadmapStatus_accepts shape listed exit.proven
  refine ⟨.putDown exit.id (itemOf tree exit.id) exit, text, applied, ?_⟩
  simp only [record, run_bind, run_look, run_lift, tree_of_shape shape, built]
  exact run_take_ok applied

theorem Kept.putDown {held : Held} (kept : Kept start desk) (exit : PlanExit)
    (holds : desk.held = some held) (same : exit.id = held.id) :
    ∃ after, Effect.run (record exit) { desk with held := none } = (.ok (), after) ∧
      Kept start after := by
  obtain ⟨rows, tree, row, shape, built, member, here, -⟩ := kept.holding held holds
  have emptied : checkRoadmapShape ({ desk with held := none } : ClaimDesk).text = .wellFormed rows :=
    shape
  obtain ⟨effect, text, applied, done⟩ :=
    run_record emptied built ⟨row, member, here.trans same.symm⟩
  refine ⟨_, done, ?_, ?_⟩
  · exact replay_concat kept.replayed applied
  · intro other again
    cases again

theorem run_takeHeld (desk : ClaimDesk) (id : NodeId) :
    (∃ reason, Effect.run (takeHeld id) desk = (.error reason, desk)) ∨
      ∃ held, desk.held = some held ∧ held.id = id ∧
        Effect.run (takeHeld id) desk = (.ok held, { desk with held := none }) := by
  cases holds : desk.held with
  | none =>
    refine Or.inl ⟨.failure .invalidArgs "put down a plan node"
      s!"this run holds nothing, so it cannot put down {id}"
      "claim it first; a node is closed by the run that took it", ?_⟩
    have same : { desk with held := none } = desk := by rw [← holds]
    simp [takeHeld, run_bind, holds, same]
  | some held =>
    by_cases here : held.id = id
    · refine Or.inr ⟨held, rfl, here, ?_⟩
      simp [takeHeld, run_bind, holds, here]
    · refine Or.inl ⟨.failure .invalidArgs "put down a plan node"
        s!"this run holds {held.id}, not {id}" s!"put down {held.id}, or claim {id} first", ?_⟩
      have same : { desk with held := some held } = desk := by rw [← holds]
      simp [takeHeld, run_bind, holds, here, same]

/-- A step either answers and keeps the invariant or refuses and leaves the desk as it was. -/
def Sound (start : List Char) (desk : ClaimDesk) (effect : Desk DeskAnswer) : Prop :=
  (∃ answer after, Effect.run effect desk = (.ok answer, after) ∧ Kept start after) ∨
    ∃ reason, Effect.run effect desk = (.error reason, desk)

theorem sound_finish (kept : Kept start desk) (evidence : Locator) :
    Sound start desk (finish id evidence) := by
  rcases run_takeHeld desk id with ⟨reason, refused⟩ | ⟨held, holds, same, taken⟩
  · exact Or.inr ⟨reason, by simp only [finish, run_bind, refused]⟩
  · obtain ⟨after, done, keptAfter⟩ := kept.putDown (held.finish evidence) holds rfl
    refine Or.inl ⟨.finished id evidence, after, ?_, keptAfter⟩
    simp only [finish, run_bind, taken, done, run_pure]

theorem sound_putDown (kept : Kept start desk) (why : StopCause) :
    Sound start desk (putDown id why) := by
  rcases run_takeHeld desk id with ⟨reason, refused⟩ | ⟨held, holds, same, taken⟩
  · exact Or.inr ⟨reason, by simp only [ClaimDesk.putDown, run_bind, refused]⟩
  · obtain ⟨after, done, keptAfter⟩ := kept.putDown (held.stop why) holds rfl
    refine Or.inl ⟨.putDown id why.isRed why.line, after, ?_, keptAfter⟩
    simp only [ClaimDesk.putDown, run_bind, taken, done, run_pure]

theorem sound_abandon (kept : Kept start desk) : Sound start desk abandon := by
  cases holds : desk.held with
  | none =>
    have same : { desk with held := none } = desk := by rw [← holds]
    refine Or.inl ⟨.abandoned, desk, ?_, kept⟩
    simp only [abandon, run_bind, run_look, run_update, holds, same, run_pure]
  | some held =>
    obtain ⟨after, done, keptAfter⟩ :=
      kept.putDown (held.stop .frozeWithoutEvidence) holds rfl
    refine Or.inl ⟨.abandoned, after, ?_, keptAfter⟩
    simp only [abandon, run_bind, run_look, run_update, holds, done, run_pure]

theorem sound_claim (kept : Kept start desk) (booking : ClaimEffect → Except AxError Unit) :
    Sound start desk (claim id booking) := by
  cases holds : desk.held with
  | some already =>
    refine Or.inr ⟨.failure .invalidArgs "claim a plan node"
      s!"this run already holds {already.id}"
      s!"finish, block or release {already.id} first; a run works on one node", ?_⟩
    simp only [claim, run_bind, run_look, holds, Effect.run_refuse]
  | none =>
    cases built : desk.tree with
    | error reason =>
      refine Or.inr ⟨reason, ?_⟩
      simp only [claim, run_bind, run_look, holds, run_lift, built]
    | ok tree =>
      cases taken : tree.claim id with
      | error reason =>
        refine Or.inr ⟨reason, ?_⟩
        simp only [claim, run_bind, run_look, holds, run_lift, built, taken]
      | ok held =>
        cases booked : booking (.claimed id (itemOf tree id)) with
        | error reason =>
          refine Or.inr ⟨reason, ?_⟩
          simp only [claim, run_bind, run_look, holds, run_lift, built, taken, booked]
        | ok granted =>
          obtain ⟨rows, shape, success⟩ := shape_of_tree built
          obtain ⟨same, listed, fresh⟩ := PlanTree.claim_started success taken
          obtain ⟨text, applied⟩ :
              ∃ text, setRoadmapStatus desk.text id .inProgress none = .ok text :=
            setRoadmapStatus_accepts shape listed (by simp)
          have effectApplied :
              (ClaimEffect.claimed id (itemOf tree id)).apply desk.text = .ok text := applied
          have distinct := (PlanTree.build_placed success).1.distinct
          have moved := setRoadmapStatus_rows shape distinct applied
          obtain ⟨after, rebuilt⟩ := PlanTree.build_started success fresh
          refine Or.inl ⟨.claimed id (itemOf tree id) desk.who,
            { desk.took (.claimed id (itemOf tree id)) text with held := some held }, ?_, ?_, ?_⟩
          · simp only [claim, run_bind, run_look, holds, run_lift, built,
              taken, booked, run_take_ok effectApplied, run_update, run_pure]
          · exact replay_concat kept.replayed effectApplied
          · intro other again
            cases again
            obtain ⟨row, member, here⟩ := listed
            refine ⟨_, after, updateRow id .inProgress none row, moved, rebuilt,
              mem_map_of_mem member, ?_, ?_⟩
            · rw [(PlanTree.updateRow_keeps _ _ row).1, here, same]
            · simp [updateRow, here]

theorem run_refuseUnlessHolding (desk : ClaimDesk) (id : NodeId) :
    Effect.run (refuseUnlessHolding id) desk = (.ok (), desk) ∨
      ∃ reason, Effect.run (refuseUnlessHolding id) desk = (.error reason, desk) := by
  cases holds : desk.held with
  | none =>
    refine Or.inr ⟨.failure .invalidArgs "split a plan node"
      s!"this run holds nothing, so it cannot split {id}"
      s!"claim {id} first; a row is divided by the run that holds it", ?_⟩
    simp [refuseUnlessHolding, run_bind, holds]
  | some held =>
    by_cases here : held.id = id
    · exact Or.inl (by simp [refuseUnlessHolding, run_bind, holds, here])
    · refine Or.inr ⟨.failure .invalidArgs "split a plan node"
        s!"this run holds {held.id}, not {id}"
        s!"split {held.id}, or put it down and claim {id} first", ?_⟩
      simp [refuseUnlessHolding, run_bind, holds, here]

theorem sound_split (kept : Kept start desk) (children : List NewChild) :
    Sound start desk (split id children) := by
  rcases run_refuseUnlessHolding desk id with passed | ⟨reason, refused⟩
  · cases applied : (ClaimEffect.split id (children.map trimmedChild)).apply desk.text with
    | error reason =>
      refine Or.inr ⟨reason, ?_⟩
      simp only [split, run_bind, passed, run_look, run_lift, applied]
    | ok grown =>
      cases built : grownTree grown "split a plan node"
          "the split would leave a table that does not parse"
          "shorten the child items; they must fit one table row each" with
      | error reason =>
        refine Or.inr ⟨reason, ?_⟩
        simp only [split, run_bind, passed, run_look, run_lift, applied, built]
      | ok tree =>
        refine Or.inl ⟨.split id (children.map fun child => Text.trim child.item)
            (unfinishedUnder tree id),
          { desk.took (.split id (children.map trimmedChild)) grown with held := none },
          ?_, ?_, ?_⟩
        · simp only [split, run_bind, passed, run_look, run_lift, applied,
            built, run_update, run_pure, took]
        · exact replay_concat kept.replayed applied
        · intro held again
          cases again
  · exact Or.inr ⟨reason, by simp only [split, run_bind, refused]⟩

theorem growRows_spec {last offset : Nat} {grown : List Char} {rows : List NewChild}
    (success : growRows last offset text rows = .ok (grown, effects)) :
    replay text effects = .ok grown ∧
      ∀ old, checkRoadmapShape text = .wellFormed old →
        ∃ more, checkRoadmapShape grown = .wellFormed (old ++ more) := by
  induction rows generalizing offset text grown effects with
  | nil =>
    cases success
    exact ⟨rfl, fun old shape => ⟨[], by rw [shape, append_nil]⟩⟩
  | cons row rows ih =>
    rw [growRows] at success
    split at success
    · obtain ⟨id, -, rest⟩ := Outcome.bind_eq_ok.mp success
      obtain ⟨middle, applied, rest⟩ := Outcome.bind_eq_ok.mp rest
      obtain ⟨⟨out, later⟩, grew, answer⟩ := Outcome.bind_eq_ok.mp rest
      cases answer
      obtain ⟨replayed, kept⟩ := ih grew
      refine ⟨?_, ?_⟩
      · rw [replay, foldlM_cons, applied]
        exact replayed
      · intro old shape
        obtain ⟨one, middleShape⟩ := appendTopLevel_rows shape applied
        obtain ⟨more, outShape⟩ := kept _ middleShape
        exact ⟨one ++ more, by rw [outShape, append_assoc]⟩
    · cases success

theorem shape_of_grownTree {action subject recovery : String}
    (built : grownTree text action subject recovery = .ok tree) :
    ∃ rows, checkRoadmapShape text = .wellFormed rows ∧ PlanTree.build rows = .ok tree := by
  unfold grownTree at built
  split at built
  · rename_i rows shape
    exact ⟨rows, shape, built⟩
  · cases built

theorem sound_addRows (kept : Kept start desk) (rows : List NewChild) :
    Sound start desk (addRows rows) := by
  cases built : desk.tree with
  | error reason =>
    refine Or.inr ⟨reason, ?_⟩
    simp only [addRows, run_bind, run_look, run_lift, built]
  | ok tree =>
    cases grew : growRows (lastTopLevel tree) 1 desk.text rows with
    | error reason =>
      refine Or.inr ⟨reason, ?_⟩
      simp only [addRows, run_bind, run_look, run_lift, built, grew]
    | ok added =>
      cases rebuilt : grownTree added.1 "add a plan row"
          "the rows would leave a table that does not parse"
          "shorten the items; each must fit one table row" with
      | error reason =>
        refine Or.inr ⟨reason, ?_⟩
        simp only [addRows, run_bind, run_look, run_lift, built, grew, rebuilt]
      | ok after =>
        obtain ⟨replayed, keeps⟩ := growRows_spec grew
        refine Or.inl ⟨.added (added.2.map effectId),
          { desk with text := added.1, changed := true, effects := desk.effects ++ added.2 },
          ?_, ?_, ?_⟩
        · simp only [addRows, run_bind, run_look, run_lift, built, grew,
            rebuilt, run_update, run_pure]
        · rw [replay_append kept.replayed]
          exact replayed
        · intro held holds
          obtain ⟨old, -, row, shape, -, member, here, status⟩ := kept.holding held holds
          obtain ⟨more, grownShape⟩ := keeps old shape
          obtain ⟨all, allShape, allBuilt⟩ := shape_of_grownTree rebuilt
          rw [grownShape] at allShape
          cases allShape
          exact ⟨_, after, row, grownShape, allBuilt, mem_append_left _ member, here, status⟩

theorem sound_add (kept : Kept start desk) (rows : List NewChild) : Sound start desk (add rows) := by
  have looked : Effect.run (add rows) desk = Effect.run
      (if desk.room.text ≠ hallMayor then
        Effect.refuse (refuseAdd
          ("the plan's root belongs to the building's Mayor, and this run is "
            ++ String.ofList desk.room.text)
          ("claim a row and split it to add work under it, or signal " ++ String.ofList hallMayor
            ++ " to add a top-level row"))
      else if rows.isEmpty then
        Effect.refuse (refuseAdd "no rows given"
          "pass `parts` as the rows to add, each `\x7bitem, weight\x7d` or a plain string")
      else addRows rows) desk := rfl
  rw [Sound, looked]
  split
  · exact Or.inr ⟨_, rfl⟩
  · split
    · exact Or.inr ⟨_, rfl⟩
    · exact sound_addRows kept rows

theorem sound_act (kept : Kept start desk) (action : DeskAction) : Sound start desk (act action) := by
  cases action with
  | claim id booking => exact sound_claim kept booking
  | finish id evidence => exact sound_finish kept evidence
  | putDown id why => exact sound_putDown kept why
  | split id children => exact sound_split kept children
  | add rows => exact sound_add kept rows
  | abandon => exact sound_abandon kept

theorem kept_after (actions : List DeskAction) (kept : Kept start desk) :
    Kept start (desk.after actions) := by
  induction actions generalizing desk with
  | nil => exact kept
  | cons action actions ih =>
    rw [after, foldl_cons]
    apply ih
    rcases sound_act kept action with ⟨answer, later, done, keptLater⟩ | ⟨reason, refused⟩
    · rw [done]
      exact keptLater
    · rw [refused]
      exact kept

/-- After any actions on any roadmap: a refused action leaves the desk as it was, a held node is
in progress in the desk's text, and the recorded effects make that text of the starting one. -/
theorem desk_keeps_history (who : String) (room : Address) (start : List Char)
    (actions : List DeskAction) :
    (∀ action reason, (Effect.run (act action) ((new who room start).after actions)).1 = .error reason →
      (Effect.run (act action) ((new who room start).after actions)).2 =
        (new who room start).after actions) ∧
    (∀ held, ((new who room start).after actions).held = some held →
      ∃ rows row, checkRoadmapShape ((new who room start).after actions).text = .wellFormed rows ∧
        row ∈ rows ∧ row.id = held.id ∧ row.status = .inProgress) ∧
    replay start ((new who room start).after actions).effects =
      .ok ((new who room start).after actions).text := by
  have opened : Kept start (new who room start) := by
    refine ⟨rfl, ?_⟩
    intro held holds
    cases holds
  have kept := kept_after actions opened
  refine ⟨?_, ?_, kept.replayed⟩
  · intro action reason refused
    rcases sound_act kept action with ⟨answer, later, done, -⟩ | ⟨other, done⟩
    · rw [done] at refused
      cases refused
    · rw [done]
  · intro held holds
    obtain ⟨rows, -, row, shape, -, member, same, status⟩ := kept.holding held holds
    exact ⟨rows, row, shape, member, same, status⟩

end ClaimDesk

end Sprawling
