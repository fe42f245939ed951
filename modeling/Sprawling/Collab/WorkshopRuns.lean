import Sprawling.Base.Machine
import Sprawling.Base.Outcome
import Sprawling.Base.Peeling
import Sprawling.Collab.Workshop

/-! When a graph of contracts can be run, the order it runs in, and what its nodes are handed down
after, whatever finishes and whatever is refused. -/

namespace Sprawling.Workshop

open List

section Contracts

variable (contracts : List NodeContract)

/-- Some contract of that id names the other node. -/
def DependsOn (id need : NodeId) : Prop :=
  ∃ contract ∈ contracts, contract.id = id ∧ need ∈ contract.dependsOn

/-- Ids are distinct, every dependency names a node, and no node waits for itself. -/
structure Runnable : Prop where
  distinct : (contracts.map NodeContract.id).Nodup
  named : ∀ id need, DependsOn contracts id need → need ∈ contracts.map NodeContract.id
  acyclic : ¬∃ id, Relation.TransGen (DependsOn contracts) id id

/-- The map holds each contract under its own id, and nothing else. -/
def Holds (nodes : NodeMap) : Prop :=
  ∀ id contract, nodes[id]? = some contract ↔ contract ∈ contracts ∧ contract.id = id

end Contracts

variable {contracts : List NodeContract} {nodes : NodeMap}

theorem nodup_dependsOn (contract : NodeContract) : contract.dependsOn.Nodup :=
  contract.ordered.imp fun {first second} less same => by
    rw [same, Std.ReflOrd.compare_self] at less
    cases less

theorem collect_iff {before after : NodeMap} :
    collect contracts before = .ok after ↔
      (contracts.map NodeContract.id).Nodup ∧ (∀ contract ∈ contracts, contract.id ∉ before) ∧
      after = contracts.foldl (fun map contract => map.insert contract.id contract) before := by
  induction contracts generalizing before with
  | nil => simp [collect, eq_comm]
  | cons contract rest ih =>
    unfold collect
    by_cases claimed : contract.id ∈ before
    · rw [if_pos claimed]
      simp [claimed]
    · rw [if_neg claimed, ih]
      simp only [map_cons, nodup_cons, forall_mem_cons, foldl_cons, claimed,
        not_false_eq_true, true_and, Std.ExtTreeMap.mem_insert, not_or]
      constructor
      · rintro ⟨once, apart, same⟩
        refine ⟨⟨?_, once⟩, fun other member => (apart other member).2, same⟩
        intro again
        obtain ⟨other, member, equal⟩ := mem_map.mp again
        exact (apart other member).1 (by rw [equal]; exact Std.ReflOrd.compare_self)
      · rintro ⟨⟨new, once⟩, apart, same⟩
        refine ⟨once, fun other member => ⟨?_, apart other member⟩, same⟩
        intro equal
        have same_id := Std.LawfulEqOrd.eq_of_compare equal
        exact new (mem_map.mpr ⟨other, member, same_id.symm⟩)

theorem get_foldl_insert {before : NodeMap} (distinct : (contracts.map NodeContract.id).Nodup)
    (id : NodeId) (contract : NodeContract) :
    (contracts.foldl (fun map contract => map.insert contract.id contract) before)[id]? =
        some contract ↔
      (contract ∈ contracts ∧ contract.id = id) ∨
        (id ∉ contracts.map NodeContract.id ∧ before[id]? = some contract) := by
  induction contracts generalizing before with
  | nil => simp
  | cons first rest ih =>
    rw [map_cons, nodup_cons] at distinct
    rw [foldl_cons, ih distinct.2, OrdMap.get_insert]
    by_cases same : first.id = id
    · subst same
      rw [if_pos rfl]
      simp only [map_cons, mem_cons, not_or, Option.some.injEq]
      constructor
      · rintro (⟨member, equal⟩ | ⟨-, rfl⟩)
        · exact Or.inl ⟨Or.inr member, equal⟩
        · exact Or.inl ⟨Or.inl rfl, rfl⟩
      · rintro (⟨rfl | member, equal⟩ | ⟨⟨never, -⟩, -⟩)
        · exact Or.inr ⟨distinct.1, rfl⟩
        · exact Or.inl ⟨member, equal⟩
        · exact absurd trivial never
    · rw [if_neg same]
      simp only [map_cons, mem_cons, not_or]
      constructor
      · rintro (⟨member, equal⟩ | ⟨absent, old⟩)
        · exact Or.inl ⟨Or.inr member, equal⟩
        · exact Or.inr ⟨⟨fun equal => same equal.symm, absent⟩, old⟩
      · rintro (⟨rfl | member, equal⟩ | ⟨⟨-, absent⟩, old⟩)
        · exact absurd equal same
        · exact Or.inl ⟨member, equal⟩
        · exact Or.inr ⟨absent, old⟩

theorem collect_holds (success : collect contracts ∅ = .ok nodes) :
    (contracts.map NodeContract.id).Nodup ∧ Holds contracts nodes := by
  obtain ⟨distinct, -, rfl⟩ := collect_iff.mp success
  refine ⟨distinct, fun id contract => ?_⟩
  rw [get_foldl_insert distinct]
  simp

theorem collect_of_nodup (distinct : (contracts.map NodeContract.id).Nodup) :
    ∃ nodes, collect contracts ∅ = .ok nodes :=
  ⟨_, collect_iff.mpr ⟨distinct, by simp, rfl⟩⟩

/-- What each node of the map depends on. -/
def needsIn (nodes : NodeMap) (id : NodeId) : Option (List NodeId) :=
  nodes[id]?.map NodeContract.dependsOn

variable {id : NodeId}

theorem needsIn_eq_some {list : List NodeId} :
    needsIn nodes id = some list ↔
      ∃ contract, nodes[id]? = some contract ∧ contract.dependsOn = list :=
  Option.map_eq_some_iff

theorem needsIn_nodup (nodes : NodeMap) (id : NodeId) (list : List NodeId)
    (found : needsIn nodes id = some list) : list.Nodup := by
  obtain ⟨contract, -, rfl⟩ := needsIn_eq_some.mp found
  exact nodup_dependsOn contract

theorem isSome_needsIn : (needsIn nodes id).isSome = true ↔ id ∈ nodes := by
  rw [needsIn, Option.isSome_map, Std.ExtTreeMap.mem_iff_isSome_getElem?]

variable {id need : NodeId}

theorem dependsOn_iff :
    dependsOn nodes id need = true ↔ ∃ list, needsIn nodes id = some list ∧ need ∈ list := by
  unfold dependsOn needsIn
  cases nodes[id]? with
  | none => simp
  | some contract => simp

variable (holds : Holds contracts nodes)

include holds

theorem needs_iff :
    Waiting.Needs (needsIn nodes) id need ↔ DependsOn contracts id need := by
  constructor
  · rintro ⟨list, found, member⟩
    obtain ⟨contract, held, rfl⟩ := needsIn_eq_some.mp found
    obtain ⟨inside, same⟩ := (holds id contract).mp held
    exact ⟨contract, inside, same, member⟩
  · rintro ⟨contract, inside, same, member⟩
    exact ⟨_, needsIn_eq_some.mpr ⟨contract, (holds id contract).mpr ⟨inside, same⟩, rfl⟩, member⟩

theorem mem_nodes_iff :
    id ∈ nodes ↔ id ∈ contracts.map NodeContract.id := by
  rw [OrdMap.mem_iff_get, mem_map]
  constructor
  · rintro ⟨contract, held⟩
    exact ⟨contract, (holds id contract).mp held⟩
  · rintro ⟨contract, there⟩
    exact ⟨contract, (holds id contract).mpr there⟩

theorem keys_perm (distinct : (contracts.map NodeContract.id).Nodup) :
    nodes.keys.Perm (contracts.map NodeContract.id) := by
  rw [perm_ext_iff_of_nodup Std.ExtTreeMap.nodup_keys distinct]
  intro id
  rw [Std.ExtTreeMap.mem_keys]
  exact mem_nodes_iff holds

theorem dangling_none :
    dangling nodes = none ↔ ∀ id need, DependsOn contracts id need → need ∈ nodes := by
  unfold dangling
  rw [findSome?_eq_none_iff]
  simp only [Option.map_eq_none_iff, find?_eq_none, forall_mem_map, decide_eq_true_eq, not_not]
  constructor
  · rintro all id need ⟨contract, inside, same, member⟩
    apply all (id, contract) _ need member
    rw [Std.ExtTreeMap.mem_toList_iff_getElem?_eq_some]
    exact (holds id contract).mpr ⟨inside, same⟩
  · rintro all ⟨id, contract⟩ listed need member
    rw [Std.ExtTreeMap.mem_toList_iff_getElem?_eq_some] at listed
    obtain ⟨inside, same⟩ := (holds id contract).mp listed
    exact all id need ⟨contract, inside, same, member⟩

omit holds

section Kahn

theorem lower_get (id other : NodeId) (remaining : OrdMap NodeId Nat) :
    (lower nodes id remaining)[other]? = if id = other then none
      else if ∃ list, needsIn nodes other = some list ∧ id ∈ list
        then remaining[other]?.map (· - 1)
      else remaining[other]? := by
  unfold lower
  rw [Std.ExtTreeMap.getElem?_map, OrdMap.get_erase]
  by_cases same : id = other
  · rw [if_pos same, if_pos same, Option.map_none]
  · rw [if_neg same, if_neg same]
    by_cases needs : ∃ list, needsIn nodes other = some list ∧ id ∈ list
    · simp only [dependsOn_iff.mpr needs, if_true, if_pos needs]
    · have free : dependsOn nodes other id = false := by
        rw [Bool.eq_false_iff, ne_eq, dependsOn_iff]
        exact needs
      simp only [free, Bool.false_eq_true, if_false, if_neg needs, Option.map_id']

variable {remaining : OrdMap NodeId Nat}

theorem mem_freed {id other : NodeId} :
    other ∈ freed nodes id remaining ↔ id ≠ other ∧
      (∃ list, needsIn nodes other = some list ∧ id ∈ list) ∧
      ∃ count, remaining[other]? = some count ∧ count - 1 = 0 := by
  unfold freed
  simp only [mem_map, mem_filter, Bool.and_eq_true, dependsOn_iff, beq_iff_eq]
  constructor
  · rintro ⟨⟨key, count⟩, ⟨held, needs, zero⟩, rfl⟩
    rw [Std.ExtTreeMap.mem_toList_iff_getElem?_eq_some, OrdMap.get_erase] at held
    by_cases same : id = key
    · rw [if_pos same] at held
      cases held
    · rw [if_neg same] at held
      exact ⟨same, needs, count, held, zero⟩
  · rintro ⟨apart, needs, count, held, zero⟩
    refine ⟨(other, count), ⟨?_, needs, zero⟩, rfl⟩
    rw [Std.ExtTreeMap.mem_toList_iff_getElem?_eq_some, OrdMap.get_erase, if_neg apart]
    exact held

theorem freed_nodup (id : NodeId) (remaining : OrdMap NodeId Nat) :
    (freed nodes id remaining).Nodup :=
  (OrdMap.nodup_fst_toList _).sublist (filter_sublist.map Prod.fst)

theorem peels_drain {turns : Nat} {taken queue : List NodeId}
    (peels : Waiting.Peels (needsIn nodes) taken (fun id => remaining[id]?) queue)
    (enough : nodes.size ≤ turns + taken.length) :
    ∃ left : OrdMap NodeId Nat, Waiting.Peels (needsIn nodes)
      (taken ++ drain nodes turns remaining queue) (fun id => left[id]?) [] := by
  induction turns generalizing taken queue remaining with
  | zero =>
    have inside : ∀ id, (needsIn nodes id).isSome = true → id ∈ nodes.keys := fun id present =>
      Std.ExtTreeMap.mem_keys.mpr (isSome_needsIn.mp present)
    have bound := peels.length_le inside
    rw [Std.ExtTreeMap.length_keys] at bound
    have drained : queue = [] := length_eq_zero_iff.mp (by omega)
    subst drained
    refine ⟨remaining, ?_⟩
    rw [drain, append_nil]
    exact peels
  | succ turns ih =>
    cases queue with
    | nil =>
      refine ⟨remaining, ?_⟩
      rw [drain, append_nil]
      exact peels
    | cons id queue =>
      have next := peels.turn (List.Perm.refl _)
        (fun other => lower_get id other remaining) (freed_nodup id remaining)
        fun other => mem_freed
      obtain ⟨left, final⟩ := ih next (by rw [length_append, length_singleton]; omega)
      refine ⟨left, ?_⟩
      rw [append_assoc, singleton_append] at final
      exact final

theorem peels_order (nodes : NodeMap) :
    ∃ left : OrdMap NodeId Nat,
      Waiting.Peels (needsIn nodes) (order nodes) (fun id => left[id]?) [] := by
  have start : Waiting.Peels (needsIn nodes) [] (fun id => (counts nodes)[id]?)
      (((counts nodes).toList.filter fun entry => entry.2 == 0).map Prod.fst) := by
    refine ⟨nodup_nil, ?_, fun id => ?_, fun id => ?_, by simp, Trace.always_nil⟩
    · exact (OrdMap.nodup_fst_toList _).sublist (filter_sublist.map Prod.fst)
    · simp [counts, needsIn, Waiting.struck, Function.comp_def]
    · simp [Std.ExtTreeMap.mem_toList_iff_getElem?_eq_some]
  exact peels_drain start (by simp)

theorem order_full_iff (holds : Holds contracts nodes)
    (named : ∀ id need, DependsOn contracts id need → need ∈ nodes) :
    (order nodes).length = nodes.size ↔
      ¬∃ id, Relation.TransGen (DependsOn contracts) id id := by
  obtain ⟨left, peels⟩ := peels_order nodes
  have same : Waiting.Needs (needsIn nodes) = DependsOn contracts := by
    funext id need
    exact propext (needs_iff holds)
  have inside : ∀ id ∈ order nodes, id ∈ nodes.keys := fun id member =>
    Std.ExtTreeMap.mem_keys.mpr (isSome_needsIn.mp (peels.present id member))
  rw [← same]
  constructor
  · intro full
    apply Waiting.acyclic_of_freed
    intro id present
    have perm := (peels.takenOnce.subperm inside).perm_of_length_le (by
      rw [full, Std.ExtTreeMap.length_keys])
    apply Waiting.freed_of_needsFirst peels.first peels.listed
    exact perm.mem_iff.mpr (Std.ExtTreeMap.mem_keys.mpr (isSome_needsIn.mp present))
  · intro acyclic
    have every : ∀ id ∈ nodes.keys, id ∈ order nodes := by
      intro id member
      apply peels.mem_of_freed
      apply @Waiting.freed_of_acyclic _ _ nodes.keys (needsIn_nodup nodes)
      · exact fun other present => Std.ExtTreeMap.mem_keys.mpr (isSome_needsIn.mp present)
      · intro other need needs
        rw [same] at needs
        exact isSome_needsIn.mpr (named other need needs)
      · exact acyclic
      · exact isSome_needsIn.mpr (Std.ExtTreeMap.mem_keys.mp member)
    have perm : (order nodes).Perm nodes.keys := by
      rw [perm_ext_iff_of_nodup peels.takenOnce Std.ExtTreeMap.nodup_keys]
      exact fun id => ⟨inside id, every id⟩
    rw [perm.length_eq, Std.ExtTreeMap.length_keys]

end Kahn

theorem new_ok (success : new contracts = .ok nodes) :
    Runnable contracts ∧ Holds contracts nodes ∧ (order nodes).length = nodes.size := by
  obtain ⟨collected, gathered, rest⟩ := Outcome.bind_eq_ok.mp success
  obtain ⟨distinct, holds⟩ := collect_holds gathered
  cases open_ : dangling collected with
  | some pair =>
    rw [open_] at rest
    cases rest
  | none =>
    rw [open_] at rest
    have named := (dangling_none holds).mp open_
    by_cases full : (order collected).length = collected.size
    · rw [if_neg (not_not.mpr full)] at rest
      cases rest
      refine ⟨⟨distinct, fun id need depends => ?_, (order_full_iff holds named).mp full⟩, holds,
        full⟩
      exact (mem_nodes_iff holds).mp (named id need depends)
    · rw [if_pos full] at rest
      cases rest

theorem new_of_runnable (runnable : Runnable contracts) : ∃ nodes, new contracts = .ok nodes := by
  obtain ⟨nodes, gathered⟩ := collect_of_nodup runnable.distinct
  obtain ⟨-, holds⟩ := collect_holds gathered
  have named : ∀ id need, DependsOn contracts id need → need ∈ nodes := fun id need depends =>
    (mem_nodes_iff holds).mpr (runnable.named id need depends)
  have open_ := (dangling_none holds).mpr named
  have full := (order_full_iff holds named).mpr runnable.acyclic
  refine ⟨nodes, ?_⟩
  unfold new
  rw [gathered]
  dsimp only [bind, Except.bind]
  rw [open_]
  exact if_neg (not_not.mpr full)

theorem schedule_spec (success : new contracts = .ok nodes) :
    (schedule nodes).Perm (contracts.map NodeContract.id) ∧
      Trace.Always (fun before id => ∀ need, DependsOn contracts id need → need ∈ before)
        (schedule nodes) := by
  obtain ⟨runnable, holds, full⟩ := new_ok success
  obtain ⟨left, peels⟩ := peels_order nodes
  have inside : ∀ id ∈ order nodes, id ∈ nodes.keys := fun id member =>
    Std.ExtTreeMap.mem_keys.mpr (isSome_needsIn.mp (peels.present id member))
  have perm := (peels.takenOnce.subperm inside).perm_of_length_le (by
    rw [full, Std.ExtTreeMap.length_keys])
  refine ⟨perm.trans (keys_perm holds runnable.distinct), ?_⟩
  refine Trace.Always.imp peels.first fun before id due need depends => ?_
  obtain ⟨list, found, member⟩ := (needs_iff holds).mpr depends
  exact due list found need member

variable {done : Finset NodeId}

/-- What may start is what has not finished while all it depends on has. -/
theorem mem_ready (holds : Holds contracts nodes) :
    id ∈ ready nodes done ↔ id ∈ contracts.map NodeContract.id ∧ id ∉ done ∧
      ∃ contract, nodes[id]? = some contract ∧ ∀ need ∈ contract.dependsOn, need ∈ done := by
  unfold ready
  simp only [mem_map, mem_filter, Bool.and_eq_true, decide_eq_true_eq, List.all_eq_true]
  constructor
  · rintro ⟨contract, ⟨⟨⟨key, other⟩, listed, rfl⟩, open_, met⟩, rfl⟩
    rw [Std.ExtTreeMap.mem_toList_iff_getElem?_eq_some] at listed
    obtain ⟨inside, same⟩ := (holds key other).mp listed
    rw [← same] at listed
    exact ⟨⟨other, inside, rfl⟩, open_, other, listed, met⟩
  · rintro ⟨-, open_, contract, held, met⟩
    obtain ⟨inside, rfl⟩ := (holds id contract).mp held
    refine ⟨contract, ⟨⟨(contract.id, contract), ?_, rfl⟩, open_, met⟩, rfl⟩
    rw [Std.ExtTreeMap.mem_toList_iff_getElem?_eq_some]
    exact held

theorem ready_nodup (holds : Holds contracts nodes) (done : Finset NodeId) :
    (ready nodes done).Nodup := by
  have keyed : (nodes.toList.map Prod.snd).map NodeContract.id = nodes.toList.map Prod.fst := by
    rw [map_map]
    apply map_congr_left
    rintro ⟨key, contract⟩ listed
    rw [Std.ExtTreeMap.mem_toList_iff_getElem?_eq_some] at listed
    exact ((holds key contract).mp listed).2
  have distinct : ((nodes.toList.map Prod.snd).map NodeContract.id).Nodup := by
    rw [keyed]
    exact OrdMap.nodup_fst_toList nodes
  exact distinct.sublist (filter_sublist.map NodeContract.id)

theorem exists_ready (success : new contracts = .ok nodes)
    (member : id ∈ contracts.map NodeContract.id) (open_ : id ∉ done) :
    ∃ next, next ∈ ready nodes done := by
  obtain ⟨runnable, holds, -⟩ := new_ok success
  obtain ⟨last, reached, ends⟩ := @Waiting.exists_end _
    (fun first second => DependsOn contracts first second ∧ second ∉ done) id
    (contracts.map NodeContract.id) (fun first second step => runnable.named first second step.1)
    (fun other _ circle => runnable.acyclic
      ⟨other, Relation.TransGen.mono (fun _ _ step => step.1) _ _ circle⟩)
  have waits : last ∈ contracts.map NodeContract.id ∧ last ∉ done := by
    rcases Relation.ReflTransGen.cases_tail reached with same | ⟨before, -, step⟩
    · rw [same]
      exact ⟨member, open_⟩
    · exact ⟨runnable.named before last step.1, step.2⟩
  obtain ⟨contract, held⟩ := (OrdMap.mem_iff_get nodes last).mp ((mem_nodes_iff holds).mpr waits.1)
  refine ⟨last, (mem_ready holds).mpr ⟨waits.1, waits.2, contract, held, fun need inside => ?_⟩⟩
  by_contra missing
  obtain ⟨there, same⟩ := (holds last contract).mp held
  exact ends need ⟨⟨contract, there, same, inside⟩, missing⟩

end Sprawling.Workshop

namespace Sprawling

open List

open Workshop (NodeId NodeContract NodeMap)

/-- The desk lets every one of these contracts through. -/
structure DelegateDesk.Admitting (desk : DelegateDesk) (contracts : List NodeContract)
    (verdicts : List (Option AxError)) : Prop where
  root : desk.depth = .root
  within : ∀ contract ∈ contracts, contract.writeDomain.isWithin desk.building = true
  startable : ∀ verdict ∈ verdicts, verdict = none

variable {desk after : DelegateDesk} {work : Delegated}

theorem DelegateDesk.ask_ok {verdict : Option AxError}
    (success : desk.ask verdict work = .ok after) :
    after = { desk with asked := desk.asked ++ [work] } := by
  unfold ask at success
  cases depth : desk.depth with
  | delegated =>
    rw [depth] at success
    cases success
  | root =>
    rw [depth] at success
    simp only at success
    by_cases outside : (!work.room.isWithin desk.building) = true
    · rw [if_pos outside] at success
      cases success
    · rw [if_neg outside] at success
      cases verdict with
      | some refusal => cases success
      | none =>
        cases success
        rfl

variable {desk : DelegateDesk}

theorem DelegateDesk.ask_admits (root : desk.depth = .root)
    (within : work.room.isWithin desk.building = true) :
    desk.ask none work = .ok { desk with asked := desk.asked ++ [work] } := by
  simp only [ask, root, within, Bool.not_true, Bool.false_eq_true, if_false]

namespace Underway

variable {contracts : List NodeContract} {nodes : NodeMap}

/-- The work of some nodes, in turn. -/
def worksOf (nodes : NodeMap) (ids : List NodeId) : List Delegated :=
  ids.filterMap fun id => nodes[id]?.map workOf

variable {verdicts : List (Option AxError)} {ids : List NodeId}

theorem askEach_ok (done : askEach nodes ids verdicts desk = (.ok (), after)) :
    after = { desk with asked := desk.asked ++ worksOf nodes ids } := by
  induction ids generalizing verdicts desk with
  | nil =>
    cases done
    rw [worksOf, filterMap_nil, append_nil]
  | cons id rest ih =>
    unfold askEach at done
    cases held : nodes[id]? with
    | none =>
      rw [held] at done
      cases done
    | some contract =>
      rw [held] at done
      simp only at done
      cases asked : desk.ask verdicts.head?.join (workOf contract) with
      | error refusal =>
        rw [asked] at done
        cases done
      | ok next =>
        rw [asked] at done
        have later := ih done
        rw [DelegateDesk.ask_ok asked] at later
        rw [later, worksOf, worksOf, filterMap_cons, held]
        simp only [Option.map_some, append_assoc, singleton_append]

theorem askEach_frame {ids : List NodeId} {verdicts : List (Option AxError)} {desk : DelegateDesk} :
    (askEach nodes ids verdicts desk).2.depth = desk.depth ∧
      (askEach nodes ids verdicts desk).2.building = desk.building := by
  induction ids generalizing verdicts desk with
  | nil => exact ⟨rfl, rfl⟩
  | cons id rest ih =>
    unfold askEach
    cases nodes[id]? with
    | none => exact ⟨rfl, rfl⟩
    | some contract =>
      simp only
      cases asked : desk.ask verdicts.head?.join (workOf contract) with
      | error refusal => exact ⟨rfl, rfl⟩
      | ok next =>
        have later := @ih verdicts.tail next
        rw [DelegateDesk.ask_ok asked] at later ⊢
        exact later

theorem askEach_admits (holds : Workshop.Holds contracts nodes)
    (admitting : desk.Admitting contracts verdicts) (present : ∀ id ∈ ids, id ∈ nodes) :
    (askEach nodes ids verdicts desk).1 = .ok () := by
  induction ids generalizing verdicts desk with
  | nil => rfl
  | cons id rest ih =>
    obtain ⟨contract, held⟩ := (OrdMap.mem_iff_get nodes id).mp (present id mem_cons_self)
    have open_ : verdicts.head?.join = none := by
      cases verdicts with
      | nil => rfl
      | cons first others => exact admitting.startable first mem_cons_self
    have within : (workOf contract).room.isWithin desk.building = true :=
      admitting.within contract ((holds id contract).mp held).1
    unfold askEach
    rw [held, open_]
    simp only [DelegateDesk.ask_admits admitting.root within]
    apply ih
    · exact ⟨admitting.root, admitting.within, fun verdict member =>
        admitting.startable verdict (mem_of_mem_tail member)⟩
    · exact fun other member => present other (mem_cons_of_mem _ member)

def Clear (desk : DelegateDesk) : Prop := desk.asked = [] ∧ desk.handedOver = 0

theorem handNext_spec (underway : Underway) (verdicts : List (Option AxError))
    (done : Finset NodeId) (clear : Clear underway.desk) :
    (∃ refusal, underway.handNext verdicts done = (.error refusal, underway)) ∨
    underway.handNext verdicts done = (.ok (worksOf underway.nodes (underway.fresh done)),
      { underway with handed := underway.handed ∪ (underway.fresh done).toFinset }) := by
  obtain ⟨nodes, handed, desk⟩ := underway
  obtain ⟨depth, building, asked, over_⟩ := desk
  obtain ⟨rfl, rfl⟩ := clear
  simp only [handNext]
  obtain ⟨sameDepth, sameBuilding⟩ := @askEach_frame nodes
    (fresh { nodes, handed, desk := { depth, building, asked := [], handedOver := 0 } } done)
    verdicts { depth, building, asked := [], handedOver := 0 }
  cases result : askEach nodes
      (fresh { nodes, handed, desk := { depth, building, asked := [], handedOver := 0 } } done)
      verdicts { depth, building, asked := [], handedOver := 0 } with
  | mk answer after =>
    rw [result] at sameDepth sameBuilding
    simp only at sameDepth sameBuilding
    cases answer with
    | error refusal =>
      left
      refine ⟨refusal, ?_⟩
      simp only [DelegateDesk.take, sameDepth, sameBuilding]
    | ok unit_ =>
      right
      rw [askEach_ok result]
      simp only [DelegateDesk.take, nil_append]

end Underway

/-- A graph being worked: the room's graph, what has finished, and what was handed down so far. -/
structure Yard where
  underway : Underway
  done : Finset NodeId
  handedDown : List NodeId
  works : List Delegated

inductive YardEvent where
  | finished (id : NodeId)
  | handNext (verdicts : List (Option AxError))

namespace Yard

def opening (nodes : NodeMap) (depth : Depth) (building : Address) : Yard where
  underway := { nodes, handed := ∅, desk := .new depth building }
  done := ∅
  handedDown := []
  works := []

def step (yard : Yard) : YardEvent → Yard
  | .finished id => { yard with done := insert id yard.done }
  | .handNext verdicts =>
    match yard.underway.handNext verdicts yard.done with
    | (.ok works, after) => { yard with
        underway := after
        handedDown := yard.handedDown ++ yard.underway.fresh yard.done
        works := yard.works ++ works }
    | (.error _, after) => { yard with underway := after }

def play (yard : Yard) (events : List YardEvent) : Yard := events.foldl step yard

/-- What holds of a yard at every moment. -/
structure Keeps (contracts : List NodeContract) (nodes : NodeMap) (depth : Depth)
    (building : Address) (yard : Yard) : Prop where
  graph : yard.underway.nodes = nodes
  clear : yard.underway.desk = .new depth building
  counted : yard.underway.handed = yard.handedDown.toFinset
  once : yard.handedDown.Nodup
  after : ∀ id ∈ yard.handedDown, ∀ need, Workshop.DependsOn contracts id need → need ∈ yard.done
  works : yard.works = Underway.worksOf nodes yard.handedDown

variable {contracts : List NodeContract} {nodes : NodeMap} {depth : Depth} {building : Address}
  {yard : Yard}

theorem Keeps.handNext (keeps : Keeps contracts nodes depth building yard)
    (verdicts : List (Option AxError)) :
    (∃ refusal, yard.underway.handNext verdicts yard.done = (.error refusal, yard.underway)) ∨
    yard.underway.handNext verdicts yard.done =
      (.ok (Underway.worksOf nodes (yard.underway.fresh yard.done)),
        { yard.underway with
          handed := yard.underway.handed ∪ (yard.underway.fresh yard.done).toFinset }) := by
  have clear : Underway.Clear yard.underway.desk := by
    rw [keeps.clear]
    exact ⟨rfl, rfl⟩
  rcases Underway.handNext_spec yard.underway verdicts yard.done clear with refused | given
  · exact Or.inl refused
  · right
    obtain rfl := keeps.graph
    exact given

variable {id : NodeId}

theorem Keeps.mem_fresh (keeps : Keeps contracts nodes depth building yard)
    (holds : Workshop.Holds contracts nodes)
    (member : id ∈ yard.underway.fresh yard.done) :
    id ∉ yard.handedDown ∧ ∀ need, Workshop.DependsOn contracts id need → need ∈ yard.done := by
  obtain ⟨ready, new⟩ := mem_filter.mp member
  rw [keeps.graph, Workshop.mem_ready holds] at ready
  rw [keeps.counted, decide_eq_true_eq, mem_toFinset] at new
  obtain ⟨-, -, contract, held, met⟩ := ready
  refine ⟨new, fun need depends => ?_⟩
  obtain ⟨list, found, inside⟩ := (Workshop.needs_iff holds).mpr depends
  rw [Workshop.needsIn, held] at found
  cases found
  exact met need inside

theorem keeps_step (holds : Workshop.Holds contracts nodes)
    (keeps : Keeps contracts nodes depth building yard) (event : YardEvent) :
    Keeps contracts nodes depth building (yard.step event) := by
  cases event with
  | finished id =>
    exact { keeps with
      after := fun other member need depends =>
        Finset.mem_insert_of_mem (keeps.after other member need depends) }
  | handNext verdicts =>
    rcases keeps.handNext verdicts with ⟨refusal, refused⟩ | given
    · simp only [step, refused]
      exact keeps
    · have distinct : (yard.underway.fresh yard.done).Nodup := by
        apply List.Nodup.filter
        rw [keeps.graph]
        exact Workshop.ready_nodup holds yard.done
      simp only [step, given]
      refine ⟨keeps.graph, keeps.clear, ?_, ?_, ?_, ?_⟩
      · rw [keeps.counted, toFinset_append]
      · apply List.Nodup.append keeps.once distinct
        exact fun id old new => (keeps.mem_fresh holds new).1 old
      · intro id member
        rcases mem_append.mp member with old | new
        · exact keeps.after id old
        · exact (keeps.mem_fresh holds new).2
      · rw [keeps.works, Underway.worksOf, Underway.worksOf, Underway.worksOf, filterMap_append]

theorem keeps_play (holds : Workshop.Holds contracts nodes) (depth : Depth) (building : Address)
    (events : List YardEvent) :
    Keeps contracts nodes depth building ((opening nodes depth building).play events) := by
  have start : Keeps contracts nodes depth building (opening nodes depth building) :=
    ⟨rfl, rfl, rfl, nodup_nil, by simp [opening], rfl⟩
  exact @Machine.run_always _ _ step (Keeps contracts nodes depth building)
    (fun _ event kept => keeps_step holds kept event) _ start events

theorem Keeps.hands_more (keeps : Keeps contracts nodes depth building yard)
    (success : Workshop.new contracts = .ok nodes) {verdicts : List (Option AxError)}
    (finished : ∀ id ∈ yard.handedDown, id ∈ yard.done)
    (member : id ∈ contracts.map NodeContract.id) (open_ : id ∉ yard.done)
    (admitting : (DelegateDesk.new depth building).Admitting contracts verdicts) :
    ∃ work rest, (yard.underway.handNext verdicts yard.done).1 = .ok (work :: rest) := by
  obtain ⟨-, holds, -⟩ := Workshop.new_ok success
  obtain ⟨next, ready⟩ := Workshop.exists_ready success member open_
  have unhanded : next ∈ yard.underway.fresh yard.done := by
    apply mem_filter.mpr
    rw [keeps.graph, decide_eq_true_eq, keeps.counted, mem_toFinset]
    refine ⟨ready, fun handed => ?_⟩
    exact ((Workshop.mem_ready holds).mp ready).2.1 (finished next handed)
  have present : ∀ other ∈ yard.underway.fresh yard.done, other ∈ nodes := by
    intro other fresh
    have inside := (mem_filter.mp fresh).1
    rw [keeps.graph] at inside
    exact (Workshop.mem_nodes_iff holds).mpr ((Workshop.mem_ready holds).mp inside).1
  have asked := Underway.askEach_admits holds admitting present
  rcases keeps.handNext verdicts with ⟨refusal, refused⟩ | given
  · -- An admitting desk does not refuse.
    simp only [Underway.handNext, keeps.graph, keeps.clear] at refused
    cases result : Underway.askEach nodes (yard.underway.fresh yard.done) verdicts
        (DelegateDesk.new depth building) with
    | mk answer after =>
      rw [result] at asked refused
      cases asked
      cases refused
  · rw [given]
    obtain ⟨contract, held⟩ := (OrdMap.mem_iff_get nodes next).mp (present next unhanded)
    have works : Underway.workOf contract ∈
        Underway.worksOf nodes (yard.underway.fresh yard.done) := by
      apply mem_filterMap.mpr
      exact ⟨next, unhanded, by rw [held, Option.map_some]⟩
    obtain ⟨work, rest, shape⟩ := exists_cons_of_ne_nil (ne_nil_of_mem works)
    exact ⟨work, rest, by rw [shape]⟩

end Yard

/-- A workshop is built exactly from contracts that can be run; its schedule is all of them, each
behind what it depends on; and whatever finishes and whatever is refused, each node is handed down
once at most, with what it depends on finished, a refusal changes nothing, and while every handed
node has finished and some node has not, an admitting desk is handed more. -/
theorem workshop_hands_down (contracts : List NodeContract) :
    ((∃ nodes, Workshop.new contracts = .ok nodes) ↔ Workshop.Runnable contracts) ∧
    ∀ nodes, Workshop.new contracts = .ok nodes →
      ((Workshop.schedule nodes).Perm (contracts.map NodeContract.id) ∧
        Trace.Always (fun before id => ∀ need, Workshop.DependsOn contracts id need → need ∈ before)
          (Workshop.schedule nodes)) ∧
      ∀ depth building events,
        ((Yard.opening nodes depth building).play events).Keeps contracts nodes depth building ∧
        (∀ verdicts refusal after,
          ((Yard.opening nodes depth building).play events).underway.handNext verdicts
              ((Yard.opening nodes depth building).play events).done = (.error refusal, after) →
          after = ((Yard.opening nodes depth building).play events).underway) ∧
        ((∀ id ∈ ((Yard.opening nodes depth building).play events).handedDown,
            id ∈ ((Yard.opening nodes depth building).play events).done) →
          (∃ id ∈ contracts.map NodeContract.id,
            id ∉ ((Yard.opening nodes depth building).play events).done) →
          ∀ verdicts, (DelegateDesk.new depth building).Admitting contracts verdicts →
            ∃ work rest, (((Yard.opening nodes depth building).play events).underway.handNext
              verdicts ((Yard.opening nodes depth building).play events).done).1 =
                .ok (work :: rest)) := by
  refine ⟨⟨fun built => ?_, Workshop.new_of_runnable⟩, fun nodes success => ?_⟩
  · obtain ⟨nodes, success⟩ := built
    exact (Workshop.new_ok success).1
  · obtain ⟨-, holds, -⟩ := Workshop.new_ok success
    refine ⟨Workshop.schedule_spec success, fun depth building events => ?_⟩
    have keeps := Yard.keeps_play holds depth building events
    refine ⟨keeps, fun verdicts refusal after answer => ?_, ?_⟩
    · rcases keeps.handNext verdicts with ⟨other, refused⟩ | given
      · rw [refused] at answer
        cases answer
        rfl
      · rw [given] at answer
        cases answer
    · rintro finished ⟨id, member, open_⟩ verdicts admitting
      exact keeps.hands_more success finished member open_ admitting

/-- A node that waits for nothing. -/
def draftNode : NodeContract where
  id := ⟨['a'], by simp, forall_mem_singleton.mpr rfl⟩
  goal := ['m', 'a', 'p']
  dependsOn := []
  ordered := .nil
  reads := []
  writeDomain := ⟨['l', 'a', 'b'], by decide⟩
  owner := ['m', 'e']
  doneCheck := ['o', 'k']
  stop := ['n', 'o']
  stated := by decide

/-- A node that waits for it. -/
def inkNode : NodeContract :=
  { draftNode with
    id := ⟨['b'], by simp, forall_mem_singleton.mpr rfl⟩
    dependsOn := [draftNode.id]
    ordered := pairwise_singleton _ _ }

/-- A yard whose first node was handed down and has finished. -/
def draftedYard (nodes : NodeMap) : Yard :=
  (Yard.opening nodes .root draftNode.writeDomain).play [.handNext [], .finished draftNode.id]

theorem workshop_hands_down_pair :
    ∃ nodes, Workshop.new [inkNode, draftNode] = .ok nodes ∧
      Workshop.schedule nodes = [draftNode.id, inkNode.id] ∧
      ∃ work rest, ((draftedYard nodes).underway.handNext [] (draftedYard nodes).done).1 =
        .ok (work :: rest) := by
  have runs : (Workshop.new [inkNode, draftNode]).toOption.map (fun nodes =>
      (Workshop.schedule nodes, (draftedYard nodes).handedDown, (draftedYard nodes).done)) =
      some ([draftNode.id, inkNode.id], [draftNode.id], {draftNode.id}) := by
    decide +kernel
  cases built : Workshop.new [inkNode, draftNode] with
  | error refusal =>
    rw [built] at runs
    cases runs
  | ok nodes =>
    rw [built] at runs
    simp only [Except.toOption, Option.map_some, Option.some.injEq, Prod.mk.injEq] at runs
    obtain ⟨order, handed, done⟩ := runs
    have more := (((workshop_hands_down [inkNode, draftNode]).2 nodes built).2 .root
      draftNode.writeDomain [.handNext [], .finished draftNode.id]).2.2
    rw [← draftedYard, handed, done] at more
    refine ⟨nodes, rfl, order, ?_⟩
    rw [done]
    exact more (by simp) ⟨inkNode.id, by simp, by decide⟩ [] ⟨rfl, by decide, by simp⟩

end Sprawling
