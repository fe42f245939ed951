import Mathlib.Data.List.Basic
import Mathlib.Logic.Relation
import Std.Data.ExtTreeSet.Lemmas

/-! A depth-first walk along the edges of a finite graph, and what it has seen when it ends. -/

namespace DepthFirst

open List

variable {κ : Type} [Ord κ] [Std.TransOrd κ]

/-- What has been seen when the walk from a node ends. Every frame of the recursion sees a node of its
own. -/
def walk (next : κ → List κ) : Nat → κ → Std.ExtTreeSet κ → Std.ExtTreeSet κ
  | 0, _, seen => seen
  | frames + 1, here, seen =>
    if here ∈ seen then seen
    else (next here).foldl (fun seen other => walk next frames other seen) (seen.insert here)

def Edge (next : κ → List κ) (here other : κ) : Prop := other ∈ next here

variable {next : κ → List κ} {frames : Nat} {here : κ} {seen : Std.ExtTreeSet κ}

def unseen (nodes : List κ) (seen : Std.ExtTreeSet κ) : List κ := nodes.filter fun id => id ∉ seen

variable {nodes : List κ}

theorem length_unseen_le {more : Std.ExtTreeSet κ} (grown : ∀ id ∈ seen, id ∈ more) :
    (unseen nodes more).length ≤ (unseen nodes seen).length := by
  rw [unseen, unseen, ← countP_eq_length_filter, ← countP_eq_length_filter]
  refine countP_mono_left fun id _ fresh => ?_
  rw [decide_eq_true_iff] at fresh ⊢
  exact fun member => fresh (grown id member)

variable [Std.LawfulEqOrd κ] {id : κ}

theorem mem_insert : id ∈ seen.insert here ↔ here = id ∨ id ∈ seen := by
  rw [Std.ExtTreeSet.mem_insert, Std.LawfulEqOrd.compare_eq_iff_eq]

theorem walk_grows (member : id ∈ seen) : id ∈ walk next frames here seen := by
  induction frames generalizing here seen with
  | zero => exact member
  | succ frames ih =>
    have fold (others : List κ) (seen : Std.ExtTreeSet κ) (member : id ∈ seen) :
        id ∈ others.foldl (fun seen other => walk next frames other seen) seen := by
      induction others generalizing seen with
      | nil => exact member
      | cons other others rest => exact rest _ (ih member)
    rw [walk]
    split
    · exact member
    · exact fold _ _ (mem_insert.mpr (.inr member))

theorem foldl_grows {others : List κ} (member : id ∈ seen) :
    id ∈ others.foldl (fun seen other => walk next frames other seen) seen := by
  induction others generalizing seen with
  | nil => exact member
  | cons other others ih => exact ih (walk_grows member)

theorem walk_sound (member : id ∈ walk next frames here seen) :
    id ∈ seen ∨ Relation.ReflTransGen (Edge next) here id := by
  induction frames generalizing here seen with
  | zero => exact .inl member
  | succ frames ih =>
    have fold (others : List κ) (seen : Std.ExtTreeSet κ)
        (member : id ∈ others.foldl (fun seen other => walk next frames other seen) seen) :
        id ∈ seen ∨ ∃ other ∈ others, Relation.ReflTransGen (Edge next) other id := by
      induction others generalizing seen with
      | nil => exact .inl member
      | cons other others rest =>
        rcases rest _ member with earlier | ⟨later, listed, leads⟩
        · rcases ih earlier with before | leads
          · exact .inl before
          · exact .inr ⟨other, mem_cons_self, leads⟩
        · exact .inr ⟨later, mem_cons_of_mem _ listed, leads⟩
    rw [walk] at member
    split at member
    · exact .inl member
    · rcases fold _ _ member with earlier | ⟨other, edge, leads⟩
      · rcases mem_insert.mp earlier with rfl | before
        · exact .inr .refl
        · exact .inl before
      · exact .inr (.head edge leads)

theorem length_unseen_insert (listed : here ∈ nodes) (fresh : here ∉ seen) :
    (unseen nodes (seen.insert here)).length < (unseen nodes seen).length := by
  have part : (unseen nodes (seen.insert here)).Sublist (unseen nodes seen) := by
    refine monotone_filter_right nodes fun id outside => ?_
    rw [decide_eq_true_iff] at outside ⊢
    exact fun member => outside (mem_insert.mpr (.inr member))
  refine Nat.lt_of_le_of_ne part.length_le fun same => ?_
  have member : here ∈ unseen nodes seen := mem_filter.mpr ⟨listed, decide_eq_true fresh⟩
  rw [← part.eq_of_length same] at member
  exact of_decide_eq_true (mem_filter.mp member).2 Std.ExtTreeSet.mem_insert_self

theorem walk_closed (closed : ∀ id ∈ nodes, ∀ other ∈ next id, other ∈ nodes)
    (listed : here ∈ nodes) (enough : (unseen nodes seen).length < frames) :
    here ∈ walk next frames here seen ∧
      ∀ id ∈ walk next frames here seen, id ∈ seen ∨ ∀ other ∈ next id, other ∈ walk next frames here seen := by
  induction frames generalizing here seen with
  | zero => omega
  | succ frames ih =>
    -- what the fold over some followers has seen: them, and all that follows on what it saw anew
    have fold (others : List κ) (seen after : Std.ExtTreeSet κ)
        (ended : others.foldl (fun seen other => walk next frames other seen) seen = after)
        (inside : ∀ other ∈ others, other ∈ nodes) (enough : (unseen nodes seen).length < frames) :
        (∀ other ∈ others, other ∈ after) ∧
          ∀ id ∈ after, id ∈ seen ∨ ∀ other ∈ next id, other ∈ after := by
      induction others generalizing seen with
      | nil =>
        cases ended
        exact ⟨nofun, fun id member => .inl member⟩
      | cons other others rest =>
        obtain ⟨found, follows⟩ := ih (inside other mem_cons_self) enough
        rw [foldl_cons] at ended
        have kept {id : κ} (member : id ∈ walk next frames other seen) : id ∈ after :=
          ended ▸ foldl_grows member
        have fewer : (unseen nodes (walk next frames other seen)).length ≤ (unseen nodes seen).length :=
          length_unseen_le fun _ => walk_grows
        obtain ⟨all, onward⟩ := rest (walk next frames other seen) ended
          (fun other member => inside other (mem_cons_of_mem _ member)) (by omega)
        refine ⟨fun one member => ?_, fun id member => ?_⟩
        · rcases mem_cons.mp member with rfl | later
          · exact kept found
          · exact all one later
        · rcases onward id member with earlier | later
          · exact (follows id earlier).imp_right fun each other edge => kept (each other edge)
          · exact .inr later
    rw [walk]
    split
    next known => exact ⟨known, fun id member => .inl member⟩
    next fresh =>
      have fewer := length_unseen_insert listed fresh
      obtain ⟨all, onward⟩ := fold (next here) (seen.insert here) _ rfl (closed here listed) (by omega)
      refine ⟨foldl_grows Std.ExtTreeSet.mem_insert_self, fun id member => ?_⟩
      rcases onward id member with earlier | later
      · rcases mem_insert.mp earlier with rfl | before
        · exact .inr all
        · exact .inl before
      · exact .inr later

theorem mem_walk {nodes : List κ} (closed : ∀ id ∈ nodes, ∀ other ∈ next id, other ∈ nodes)
    (listed : here ∈ nodes) (enough : nodes.length < frames) {id : κ} :
    id ∈ walk next frames here ∅ ↔ Relation.ReflTransGen (Edge next) here id := by
  have short : (unseen nodes (∅ : Std.ExtTreeSet κ)).length < frames :=
    Nat.lt_of_le_of_lt (length_filter_le _ _) enough
  obtain ⟨found, onward⟩ := walk_closed closed listed short
  constructor
  · intro member
    exact (walk_sound member).resolve_left Std.ExtTreeSet.not_mem_empty
  · intro leads
    induction leads with
    | refl => exact found
    | tail _ edge ih => exact (onward _ ih).resolve_left Std.ExtTreeSet.not_mem_empty _ edge

end DepthFirst
