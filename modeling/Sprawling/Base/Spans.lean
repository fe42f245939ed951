import Mathlib.Data.List.Pairwise

/-! Spans of positions that may overlap, the disjoint ones a single left-to-right pass picks, and
what it is for a list to have its covered parts replaced. -/

namespace Spans

open List

section Picking

variable {σ : Type} (lo hi : σ → Nat)

/-- The spans a pass starting at `at_` takes: each that starts at or after the last one's end. -/
def picks (at_ : Nat) : List σ → List σ
  | [] => []
  | span :: rest => if lo span < at_ then picks at_ rest else span :: picks (hi span) rest

example : picks Prod.fst Prod.snd 0 [(0, 3), (2, 5), (3, 4)] = [(0, 3), (3, 4)] := by
  decide +kernel

/-- Whether some span holds a position. -/
def covers (spans : List σ) (i : Nat) : Bool :=
  spans.any fun span => decide (lo span ≤ i) && decide (i < hi span)

/-- Wherever a picked span ends strictly inside some span, a span begins right there. -/
def Settled (spans : List σ) : Prop :=
  ∀ span ∈ picks lo hi 0 spans, (∃ other ∈ spans, lo other < hi span ∧ hi span < hi other) →
    ∃ next ∈ spans, lo next = hi span

instance (spans : List σ) : Decidable (Settled lo hi spans) :=
  inferInstanceAs (Decidable (∀ span ∈ picks lo hi 0 spans,
    (∃ other ∈ spans, lo other < hi span ∧ hi span < hi other) → ∃ next ∈ spans, lo next = hi span))

/-- In order of start, and none of them empty. -/
structure Listed (spans : List σ) : Prop where
  sorted : spans.Pairwise fun first second => lo first ≤ lo second
  nonempty : ∀ span ∈ spans, lo span < hi span

variable {lo hi} {spans : List σ} {at_ : Nat} {i : Nat}

theorem covers_iff : covers lo hi spans i = true ↔ ∃ span ∈ spans, lo span ≤ i ∧ i < hi span := by
  simp only [covers, any_eq_true, Bool.and_eq_true, decide_eq_true_eq]

theorem covers_nil (i : Nat) : covers lo hi [] i = false := rfl

theorem covers_cons (span : σ) (i : Nat) :
    covers lo hi (span :: spans) i =
      (decide (lo span ≤ i) && decide (i < hi span) || covers lo hi spans i) := rfl

theorem Listed.tail {span : σ} (listed : Listed lo hi (span :: spans)) : Listed lo hi spans :=
  ⟨listed.sorted.of_cons, fun other member => listed.nonempty other (mem_cons_of_mem _ member)⟩

variable {span : σ}

theorem Listed.head_le {other : σ} (listed : Listed lo hi (span :: spans))
    (member : other ∈ spans) : lo span ≤ lo other :=
  rel_of_pairwise_cons listed.sorted member

theorem mem_of_mem_picks (member : span ∈ picks lo hi at_ spans) : span ∈ spans := by
  induction spans generalizing at_ with
  | nil => cases member
  | cons first rest ih =>
    rw [picks] at member
    split at member
    · exact mem_cons_of_mem _ (ih member)
    · rcases mem_cons.mp member with rfl | later
      · exact mem_cons_self
      · exact mem_cons_of_mem _ (ih later)

theorem le_of_mem_picks (listed : Listed lo hi spans) (member : span ∈ picks lo hi at_ spans) :
    at_ ≤ lo span := by
  induction spans generalizing at_ with
  | nil => cases member
  | cons first rest ih =>
    rw [picks] at member
    split at member
    · exact ih listed.tail member
    · next late =>
        rcases mem_cons.mp member with rfl | later
        · omega
        · have after := ih listed.tail later
          have wide := listed.nonempty first mem_cons_self
          omega

theorem covers_picks_before (listed : Listed lo hi spans) (before : i < at_) :
    covers lo hi (picks lo hi at_ spans) i = false := by
  by_contra covered
  obtain ⟨span, member, started, -⟩ := covers_iff.mp (Bool.of_not_eq_false covered)
  have ahead := le_of_mem_picks listed member
  omega

theorem picks_pairwise (at_ : Nat) (listed : Listed lo hi spans) :
    (picks lo hi at_ spans).Pairwise fun first second => hi first ≤ lo second := by
  induction spans generalizing at_ with
  | nil => exact List.Pairwise.nil
  | cons first rest ih =>
    rw [picks]
    split
    · exact ih at_ listed.tail
    · refine pairwise_cons.mpr ⟨?_, ih (hi first) listed.tail⟩
      intro second member
      exact le_of_mem_picks listed.tail member

theorem picks_apart (at_ : Nat) (listed : Listed lo hi spans) {first second : σ}
    (one : first ∈ picks lo hi at_ spans) (two : second ∈ picks lo hi at_ spans)
    (different : first ≠ second) : hi first ≤ lo second ∨ hi second ≤ lo first := by
  have apart := (picks_pairwise at_ listed).imp
    (S := fun first second => hi first ≤ lo second ∨ hi second ≤ lo first) Or.inl
  have : Std.Symm fun first second => hi first ≤ lo second ∨ hi second ≤ lo first :=
    ⟨fun _ _ => Or.symm⟩
  exact apart.forall one two different

theorem starts_in_pick (at_ : Nat) (listed : Listed lo hi spans) (member : span ∈ spans) :
    lo span < at_ ∨ ∃ pick ∈ picks lo hi at_ spans, lo pick ≤ lo span ∧ lo span < hi pick := by
  induction spans generalizing at_ with
  | nil => cases member
  | cons first rest ih =>
    rw [picks]
    split
    · next early =>
        rcases mem_cons.mp member with rfl | later
        · exact Or.inl early
        · exact ih at_ listed.tail later
    · rcases mem_cons.mp member with rfl | later
      · exact Or.inr ⟨span, mem_cons_self, Nat.le_refl _,
          listed.nonempty span mem_cons_self⟩
      · rcases ih (hi first) listed.tail later with inside | ⟨pick, picked, around⟩
        · exact Or.inr ⟨first, mem_cons_self, listed.head_le later, inside⟩
        · exact Or.inr ⟨pick, mem_cons_of_mem _ picked, around⟩

variable (listed : Listed lo hi spans)

include listed

theorem pick_at (member : span ∈ spans) (here : lo span = at_) :
    ∃ pick ∈ picks lo hi at_ spans, lo pick = at_ := by
  induction spans with
  | nil => cases member
  | cons first rest ih =>
    rw [picks]
    split
    · next early =>
        rcases mem_cons.mp member with rfl | later
        · omega
        · exact ih listed.tail later
    · refine ⟨first, mem_cons_self, ?_⟩
      rcases mem_cons.mp member with rfl | later
      · exact here
      · have before := listed.head_le later
        omega

theorem pick_after {pick : σ}
    (picked : pick ∈ picks lo hi at_ spans) (member : span ∈ spans) (here : lo span = hi pick) :
    ∃ next ∈ picks lo hi at_ spans, lo next = hi pick := by
  induction spans generalizing at_ with
  | nil => cases member
  | cons first rest ih =>
    have wide := listed.nonempty pick (mem_of_mem_picks picked)
    rw [picks] at picked ⊢
    split at picked
    · next early =>
        rw [if_pos early]
        have order := listed.head_le (mem_of_mem_picks picked)
        rcases mem_cons.mp member with rfl | later
        · omega
        · exact ih listed.tail picked later
    · next late =>
        rw [if_neg late]
        rcases mem_cons.mp picked with rfl | after
        · rcases mem_cons.mp member with rfl | later
          · omega
          · obtain ⟨next, taken, same⟩ := pick_at listed.tail later here
            exact ⟨next, mem_cons_of_mem _ taken, same⟩
        · have order := listed.head_le (mem_of_mem_picks after)
          rcases mem_cons.mp member with rfl | later
          · omega
          · obtain ⟨next, taken, same⟩ := ih listed.tail after later
            exact ⟨next, mem_cons_of_mem _ taken, same⟩

theorem covers_of_pick (settled : Settled lo hi spans) {pick : σ}
    (member : span ∈ spans) (inside : i < hi span) (picked : pick ∈ picks lo hi 0 spans)
    (started : lo span < hi pick) (before : lo pick ≤ i) :
    covers lo hi (picks lo hi 0 spans) i = true := by
  -- Each further pick starts where the last one ended, so the distance to `i` shrinks.
  induction left : i - lo pick using Nat.strongRecOn generalizing pick with
  | ind left ih =>
    by_cases short : i < hi pick
    · exact covers_iff.mpr ⟨pick, picked, before, short⟩
    · obtain ⟨next, listed_next, here⟩ := settled pick picked ⟨span, member, started, by omega⟩
      obtain ⟨later, taken, same⟩ := pick_after listed picked listed_next here
      have wide := listed.nonempty pick (mem_of_mem_picks picked)
      have laterWide := listed.nonempty later (mem_of_mem_picks taken)
      exact ih (i - lo later) (by omega) taken (by omega) (by omega) rfl

/-- The picks hold every covered position exactly when the list is settled. -/
theorem settled_iff :
    Settled lo hi spans ↔
      ∀ i, covers lo hi spans i = true → covers lo hi (picks lo hi 0 spans) i = true := by
  constructor
  · intro settled i covered
    obtain ⟨span, member, after, inside⟩ := covers_iff.mp covered
    rcases starts_in_pick 0 listed member with impossible | ⟨pick, picked, around⟩
    · omega
    · exact covers_of_pick listed settled member inside picked around.2 (by omega)
  · rintro held span picked ⟨other, member, started, ended⟩
    have covered := held (hi span) (covers_iff.mpr ⟨other, member, by omega, ended⟩)
    obtain ⟨next, taken, after, inside⟩ := covers_iff.mp covered
    refine ⟨next, mem_of_mem_picks taken, ?_⟩
    have wide := listed.nonempty span (mem_of_mem_picks picked)
    have different : span ≠ next := by
      rintro rfl
      omega
    rcases picks_apart 0 listed picked taken different with follows | precedes
    · omega
    · omega

omit listed

theorem covers_of_covers_picks (covered : covers lo hi (picks lo hi at_ spans) i = true) :
    covers lo hi spans i = true := by
  obtain ⟨span, member, around⟩ := covers_iff.mp covered
  exact covers_iff.mpr ⟨span, mem_of_mem_picks member, around⟩

end Picking

section Replacing

variable {α : Type}

/-- Each element with its position's flag, from a position on. -/
def masked (flag : Nat → Bool) : Nat → List α → List (α × Bool)
  | _, [] => []
  | i, item :: rest => (item, flag i) :: masked flag (i + 1) rest

/-- A list with each maximal run of flagged elements replaced by one or more marks. -/
inductive Replaced (mark : List α → Prop) : List (α × Bool) → List α → Prop
  | done : Replaced mark [] []
  | keep {item : α} {rest : List (α × Bool)} {out : List α} (later : Replaced mark rest out) :
      Replaced mark ((item, false) :: rest) (item :: out)
  | region {items : List α} {rest : List (α × Bool)} {marks : List (List α)} {out : List α}
      (some_items : items ≠ []) (maximal : rest.head?.map Prod.snd ≠ some true)
      (some_marks : marks ≠ []) (marked : ∀ found ∈ marks, mark found)
      (later : Replaced mark rest out) :
      Replaced mark (items.map (·, true) ++ rest) (marks.flatten ++ out)

theorem masked_append (flag : Nat → Bool) (i : Nat) (first second : List α) :
    masked flag i (first ++ second) = masked flag i first ++ masked flag (i + first.length) second := by
  induction first generalizing i with
  | nil => rfl
  | cons item first ih =>
    rw [cons_append, masked, ih, masked, length_cons, Nat.add_assoc, Nat.add_comm 1]
    rfl

variable {i : Nat} {items : List α}

theorem masked_const {flag : Nat → Bool} {value : Bool}
    (same : ∀ j, i ≤ j → j < i + items.length → flag j = value) :
    masked flag i items = items.map (·, value) := by
  induction items generalizing i with
  | nil => rfl
  | cons item items ih =>
    rw [length_cons] at same
    rw [masked, map_cons, same i (Nat.le_refl i) (by omega),
      ih fun j after before => same j (by omega) (by omega)]

theorem masked_congr {first second : Nat → Bool}
    (same : ∀ j, i ≤ j → j < i + items.length → first j = second j) :
    masked first i items = masked second i items := by
  induction items generalizing i with
  | nil => rfl
  | cons item items ih =>
    rw [length_cons] at same
    rw [masked, masked, same i (Nat.le_refl i) (by omega),
      ih fun j after before => same j (by omega) (by omega)]

/-- A mask splits at a picked span: nothing before it is covered, all of it is, and what follows
is covered by the later picks alone. -/
theorem masked_pick {σ : Type} {lo hi : σ → Nat} {span : σ} {spans : List σ} {at_ : Nat}
    {before found after : List α} (listed : Listed lo hi (span :: spans))
    (start : at_ + before.length = lo span) (stop : lo span + found.length = hi span) :
    masked (covers lo hi (span :: picks lo hi (hi span) spans)) at_ (before ++ (found ++ after)) =
      before.map (·, false) ++ (found.map (·, true) ++
        masked (covers lo hi (picks lo hi (hi span) spans)) (hi span) after) := by
  have clear : ∀ j, at_ ≤ j → j < at_ + before.length →
      covers lo hi (span :: picks lo hi (hi span) spans) j = false := by
    intro j _ early
    rw [covers_cons, covers_picks_before listed.tail (by omega), decide_eq_false (by omega)]
    rfl
  have filled : ∀ j, lo span ≤ j → j < lo span + found.length →
      covers lo hi (span :: picks lo hi (hi span) spans) j = true := by
    intro j late early
    exact covers_iff.mpr ⟨span, mem_cons_self, late, by omega⟩
  have beyond : ∀ j, hi span ≤ j → j < hi span + after.length →
      covers lo hi (span :: picks lo hi (hi span) spans) j =
        covers lo hi (picks lo hi (hi span) spans) j := by
    intro j late _
    rw [covers_cons, decide_eq_false (show ¬ j < hi span by omega), Bool.and_false, Bool.false_or]
  rw [masked_append, masked_append, start, stop, masked_const clear, masked_const filled,
    masked_congr beyond]

namespace Replaced

variable {mark : List α → Prop} {rest : List (α × Bool)} {out : List α}

theorem keep_all (items : List α) (later : Replaced mark rest out) :
    Replaced mark (items.map (·, false) ++ rest) (items ++ out) := by
  induction items with
  | nil => exact later
  | cons item items ih => exact .keep ih

theorem keep_uncovered {σ : Type} {lo hi : σ → Nat} (i : Nat) (items : List α) :
    Replaced mark (masked (covers lo hi []) i items) items := by
  have clear : masked (covers lo hi []) i items = items.map (·, false) :=
    masked_const fun j _ _ => covers_nil j
  have kept := keep_all items (.done : Replaced mark [] [])
  rwa [append_nil, append_nil, ← clear] at kept

/-- A flagged run that need not be maximal, replaced by one mark. -/
theorem patch {items found : List α} (some_items : items ≠ []) (marked : mark found)
    (later : Replaced mark rest out) :
    Replaced mark (items.map (·, true) ++ rest) (found ++ out) := by
  by_cases maximal : rest.head?.map Prod.snd ≠ some true
  · have single : ([found] : List (List α)).flatten ++ out = found ++ out := by simp
    rw [← single]
    refine .region some_items maximal (cons_ne_nil _ _) ?_ later
    intro other member
    rw [mem_singleton.mp member]
    exact marked
  · -- The run goes on in `rest`, so its marks join the ones that stand there.
    cases later with
    | done => exact absurd (by simp) maximal
    | keep later => exact absurd (by simp) maximal
    | @region more rest marks out some_more far some_marks all later =>
      have runs : items.map (·, true) ++ (more.map (·, true) ++ rest) =
          (items ++ more).map (·, true) ++ rest := by simp
      have joined : found ++ (marks.flatten ++ out) = (found :: marks).flatten ++ out := by simp
      rw [runs, joined]
      refine .region (by simp [some_items]) far (cons_ne_nil _ _) ?_ later
      intro other member
      rcases mem_cons.mp member with rfl | later_mark
      · exact marked
      · exact all other later_mark

end Replaced

/-- The elements a mask keeps. -/
def unflagged (items : List (α × Bool)) : List α :=
  (items.filter fun entry => !entry.2).map Prod.fst

theorem unflagged_keep (item : α) (rest : List (α × Bool)) :
    unflagged ((item, false) :: rest) = item :: unflagged rest := rfl

theorem unflagged_region (items : List α) (rest : List (α × Bool)) :
    unflagged (items.map (·, true) ++ rest) = unflagged rest := by
  simp [unflagged]

variable {size : Nat} {separator : α}

theorem flatten_count [DecidableEq α] {marks : List (List α)}
    (sized : ∀ found ∈ marks, found.length = size ∧ found.count separator = 1) :
    marks.flatten.length = marks.length * size ∧ marks.flatten.count separator = marks.length := by
  induction marks with
  | nil => simp
  | cons found marks ih =>
    have here := sized found mem_cons_self
    have later := ih fun other member => sized other (mem_cons_of_mem _ member)
    rw [flatten_cons, length_append, count_append, length_cons, here.1, here.2,
      later.1, later.2, Nat.add_mul]
    omega

variable {mark : List α → Prop}

theorem Replaced.count [DecidableEq α]
    (sized : ∀ found, mark found → found.length = size ∧ found.count separator = 1)
    {items : List (α × Bool)} {out : List α} (replaced : Replaced mark items out) :
    ∃ n, out.length = (unflagged items).length + n * size ∧
      out.count separator = (unflagged items).count separator + n := by
  induction replaced with
  | done => exact ⟨0, by simp [unflagged]⟩
  | @keep item rest out later ih =>
    obtain ⟨n, length, count⟩ := ih
    refine ⟨n, ?_, ?_⟩
    · rw [unflagged_keep, length_cons, length_cons, length]
      omega
    · rw [unflagged_keep, count_cons, count_cons, count]
      omega
  | @region items rest marks out some_items maximal some_marks marked later ih =>
    obtain ⟨n, length, count⟩ := ih
    have held := flatten_count fun found member => sized found (marked found member)
    refine ⟨marks.length + n, ?_, ?_⟩
    · rw [unflagged_region, length_append, length, held.1, Nat.add_mul]
      omega
    · rw [unflagged_region, count_append, count, held.2]
      omega

theorem unflagged_masked_cons (flag : Nat → Bool) (i : Nat) (item : α) (items : List α) :
    unflagged (masked flag i (item :: items)) =
      if flag i then unflagged (masked flag (i + 1) items)
      else item :: unflagged (masked flag (i + 1) items) := by
  rw [masked]
  cases flagged : flag i <;> simp [unflagged]

variable {wide narrow : Nat → Bool}

theorem count_unflagged [DecidableEq α] (fewer : ∀ j, narrow j = true → wide j = true)
    (plain : ∀ j, (h : j < items.length) → wide (i + j) = true → items[j] ≠ separator) :
    (unflagged (masked narrow i items)).count separator =
      (unflagged (masked wide i items)).count separator := by
  induction items generalizing i with
  | nil => rfl
  | cons item items ih =>
    have rest := ih (i := i + 1) fun j inside flagged => by
      have here := plain (j + 1) (by simpa using inside)
      rw [Nat.add_right_comm] at flagged
      simpa using here flagged
    rw [unflagged_masked_cons, unflagged_masked_cons]
    cases inWide : wide i with
    | false =>
      have inNarrow : narrow i = false := by
        by_contra flagged
        rw [fewer i (by simpa using flagged)] at inWide
        cases inWide
      simp only [inNarrow, Bool.false_eq_true, if_false, count_cons, rest]
    | true =>
      have other : item ≠ separator := plain 0 (by simp) (by simpa using inWide)
      cases narrow i with
      | true => simpa using rest
      | false => simpa [count_cons, other] using rest

theorem length_unflagged (fewer : ∀ j, narrow j = true → wide j = true) :
    (unflagged (masked wide i items)).length ≤ (unflagged (masked narrow i items)).length ∧
      ((unflagged (masked wide i items)).length = (unflagged (masked narrow i items)).length →
        ∀ j, i ≤ j → j < i + items.length → wide j = true → narrow j = true) := by
  induction items generalizing i with
  | nil =>
    refine ⟨Nat.le_refl _, ?_⟩
    intro _ j after before
    simp only [length_nil] at before
    omega
  | cons item items ih =>
    obtain ⟨less, same⟩ := ih (i := i + 1)
    rw [unflagged_masked_cons, unflagged_masked_cons, length_cons]
    -- The first position agrees wherever the rest may still come out as long.
    have further : (wide i = true → narrow i = true) →
        (unflagged (masked wide (i + 1) items)).length =
          (unflagged (masked narrow (i + 1) items)).length →
        ∀ j, i ≤ j → j < i + (items.length + 1) → wide j = true → narrow j = true := by
      intro here lengths j after before flagged
      by_cases first : j = i
      · rw [first] at flagged ⊢
        exact here flagged
      · exact same lengths j (by omega) (by omega) flagged
    cases inNarrow : narrow i with
    | true =>
      rw [fewer i inNarrow, if_pos rfl, if_pos rfl]
      exact ⟨less, further fun _ => inNarrow⟩
    | false =>
      cases inWide : wide i with
      | true =>
        rw [if_pos rfl, if_neg Bool.false_ne_true, length_cons]
        exact ⟨by omega, fun lengths => by omega⟩
      | false =>
        rw [if_neg Bool.false_ne_true, if_neg Bool.false_ne_true, length_cons, length_cons]
        refine ⟨by omega, fun lengths => further ?_ (by omega)⟩
        intro flagged
        rw [inWide] at flagged
        cases flagged

/-- Two replacements that give one result, where the second flags less and nothing flagged is a
separator, flag the same. -/
theorem same_flags [DecidableEq α]
    (sized : ∀ found, mark found → found.length = size ∧ found.count separator = 1) {out : List α}
    (fewer : ∀ i, narrow i = true → wide i = true)
    (plain : ∀ i, (h : i < items.length) → wide i = true → items[i] ≠ separator)
    (first : Replaced mark (masked wide 0 items) out)
    (second : Replaced mark (masked narrow 0 items) out) :
    ∀ i, i < items.length → wide i = true → narrow i = true := by
  obtain ⟨n, firstLength, firstCount⟩ := first.count sized
  obtain ⟨m, secondLength, secondCount⟩ := second.count sized
  have counts : (unflagged (masked narrow 0 items)).count separator =
      (unflagged (masked wide 0 items)).count separator :=
    count_unflagged fewer fun j inside flagged => plain j inside (by simpa using flagged)
  have marks : n = m := by omega
  have lengths : (unflagged (masked wide 0 items)).length =
      (unflagged (masked narrow 0 items)).length := by
    rw [marks] at firstLength
    omega
  intro i inside flagged
  exact (length_unflagged fewer).2 lengths i (Nat.zero_le i) (by omega) flagged

end Replacing

end Spans
