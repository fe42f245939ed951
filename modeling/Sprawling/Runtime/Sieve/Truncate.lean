import Sprawling.Base.Selection
import Sprawling.Runtime.Sieve.Scan

/-! Head, tail, and the middle by priority. -/

namespace Sprawling

open List

namespace Sieve

open Selection (Item Tells)

/-- How many lines survive a truncation, and where. -/
structure Cuts where
  maxLines : Nat
  head : Nat
  tail : Nat
  middle : Nat

/-- What stands in place of lines left out. -/
def gapLine (omitted : Nat) : Line :=
  "[… ".toList ++ Text.decimal omitted ++ " lines omitted …]".toList

def pushGap (omitted : Nat) : List Line := if omitted > 0 then [gapLine omitted] else []

/-- The order of keeping: by priority, then by position. -/
def sooner (first second : Priority × Nat) : Bool :=
  first.1.rank < second.1.rank || (first.1.rank = second.1.rank && first.2 < second.2)

/-- The kept lines of the middle and the gaps before and between them, from `cursor` on. -/
def keptMiddle (lines : List Line) (tailFrom : Nat) : (cursor : Nat) → List Nat → List Line
  | cursor, [] => pushGap (tailFrom - cursor)
  | cursor, i :: later =>
    pushGap (i - cursor) ++ lines[i]?.toList ++ keptMiddle lines tailFrom (i + 1) later

/-- The marked middle lines sorted by priority and position, the first `middle` of them kept in
position, and every gap said as a count. A slice that ends past the lines is no line at all. -/
def truncate (lines : List Line) (marks : List (Option Priority)) (cuts : Cuts) : List Line :=
  if lines.length ≤ cuts.maxLines then lines
  else
    let tailFrom := max (lines.length - cuts.tail) cuts.head
    let candidates := (List.range' cuts.head (tailFrom - cuts.head)).filterMap fun i =>
      marks[i]?.join.map fun priority => (priority, i)
    let sorted := candidates.mergeSort fun a b => !sooner b a
    let kept := ((sorted.take cuts.middle).map Prod.snd).mergeSort
    (if cuts.head ≤ lines.length then lines.take cuts.head else []) ++
      keptMiddle lines tailFrom cuts.head kept ++
        (if tailFrom ≤ lines.length then lines.drop tailFrom else [])

/-- How a place of a listing reads. -/
def shown : Item Line → Line
  | .line value => value
  | .gap omitted => gapLine omitted

section Keeping

variable (lines : List Line) (marks : List (Option Priority)) (cuts : Cuts)

/-- The positions that are neither among the first `head` nor among the last `tail`. -/
def middlePositions : List Nat := List.range' cuts.head (lines.length - cuts.tail - cuts.head)

/-- Whether the line at `first` is kept sooner than the one at `second`, both being marked. -/
def ahead (first second : Nat) : Bool :=
  match marks[first]?.join, marks[second]?.join with
  | some left, some right => sooner (left, first) (right, second)
  | _, _ => false

/-- What a truncation keeps: all of a text that is short enough; else the first and the last lines, and
the marked lines between them with fewer than `middle` marked ones ahead of them. -/
def Keeps (i : Nat) : Prop :=
  lines.length ≤ cuts.maxLines ∨ i < min cuts.head lines.length ∨ lines.length - cuts.tail ≤ i ∨
    i ∈ middlePositions lines cuts ∧ marks[i]?.join.isSome = true ∧
      ((middlePositions lines cuts).filter fun other => ahead marks other i).length < cuts.middle

end Keeping

theorem sooner_asymm (a b : Priority × Nat) (before : sooner a b = true) : sooner b a = false := by
  simp only [sooner, Bool.or_eq_true, Bool.and_eq_true, decide_eq_true_eq, Bool.or_eq_false_iff,
    Bool.and_eq_false_iff, decide_eq_false_iff_not] at before ⊢
  omega

theorem sooner_trans (a b c : Priority × Nat) (first : sooner a b = true) (second : sooner b c = true) :
    sooner a c = true := by
  simp only [sooner, Bool.or_eq_true, Bool.and_eq_true, decide_eq_true_eq] at first second ⊢
  omega

theorem sooner_total (a b : Priority × Nat) : sooner a b = true ∨ a = b ∨ sooner b a = true := by
  by_cases same : a = b
  · exact Or.inr (Or.inl same)
  · have apart : a.1.rank ≠ b.1.rank ∨ a.2 ≠ b.2 := by
      by_cases rank : a.1.rank = b.1.rank
      · exact Or.inr fun position => same (Prod.ext (Priority.rank_injective rank) position)
      · exact Or.inl rank
    simp only [sooner, Bool.or_eq_true, Bool.and_eq_true, decide_eq_true_eq]
    omega

/-- The candidates of some positions: their marks and places. -/
def candidatesAt (marks : List (Option Priority)) (positions : List Nat) : List (Priority × Nat) :=
  positions.filterMap fun i => marks[i]?.join.map fun priority => (priority, i)

variable {marks : List (Option Priority)} {positions : List Nat} {priority : Priority}

theorem mem_candidatesAt {i : Nat} :
    (priority, i) ∈ candidatesAt marks positions ↔ i ∈ positions ∧ marks[i]?.join = some priority := by
  simp only [candidatesAt, mem_filterMap, Option.map_eq_some_iff, Prod.mk.injEq]
  constructor
  · rintro ⟨_, member, _, marked, rfl, rfl⟩
    exact ⟨member, marked⟩
  · rintro ⟨member, marked⟩
    exact ⟨i, member, priority, marked, rfl, rfl⟩

theorem nodup_map_candidatesAt {marks : List (Option Priority)} {positions : List Nat}
    (once : positions.Nodup) : ((candidatesAt marks positions).map Prod.snd).Nodup := by
  have same : (candidatesAt marks positions).map Prod.snd =
      positions.filter fun i => marks[i]?.join.isSome := by
    induction positions with
    | nil => rfl
    | cons i later ih =>
      have inner := ih (nodup_cons.mp once).2
      simp only [candidatesAt] at inner ⊢
      cases marked : marks[i]?.join with
      | none => simp [marked, inner]
      | some priority => simp [marked, inner]
  rw [same]
  exact once.filter _

theorem length_filter_candidatesAt {i : Nat} (marked : marks[i]?.join = some priority) :
    ((candidatesAt marks positions).filter (sooner · (priority, i))).length =
      (positions.filter fun other => ahead marks other i).length := by
  induction positions with
  | nil => rfl
  | cons other later ih =>
    simp only [candidatesAt] at ih ⊢
    cases here : marks[other]?.join with
    | none =>
      have behind : ahead marks other i = false := by rw [ahead, here, marked]
      rw [filterMap_cons_none (by rw [here]; rfl), filter_cons_of_neg (by simp [behind]), ih]
    | some left =>
      have order : ahead marks other i = sooner (left, other) (priority, i) := by
        rw [ahead, here, marked]
      rw [filterMap_cons_some (by rw [here]; rfl)]
      simp only [filter_cons, order]
      split
      · rw [length_cons, length_cons, ih]
      · exact ih

section Listing

variable {lines : List Line} {keep : Nat → Prop} {tailFrom : Nat}

theorem tells_gap {cursor stop : Nat} {items : List (Item Line)} (order : cursor ≤ stop)
    (inside : stop ≤ lines.length) (dropped : ∀ i, cursor ≤ i → i < stop → ¬ keep i)
    (longest : stop = lines.length ∨ keep stop) (later : Tells keep stop (lines.drop stop) items) :
    ∃ listing, Tells keep cursor (lines.drop cursor) listing ∧
      listing.map shown = pushGap (stop - cursor) ++ items.map shown := by
  by_cases none_left : cursor = stop
  · subst none_left
    exact ⟨items, later, by rw [Nat.sub_self]; rfl⟩
  · have split : lines.drop cursor = (lines.drop cursor).take (stop - cursor) ++ lines.drop stop := by
      have joined := take_append_drop (stop - cursor) (lines.drop cursor)
      rw [drop_drop] at joined
      have place : cursor + (stop - cursor) = stop := by omega
      rw [place] at joined
      exact joined.symm
    have size : ((lines.drop cursor).take (stop - cursor)).length = stop - cursor := by
      rw [length_take, length_drop]
      omega
    generalize (lines.drop cursor).take (stop - cursor) = omitted at split size
    have reached : cursor + omitted.length = stop := by omega
    have ended : lines.drop stop = [] ∨ keep (cursor + omitted.length) := by
      rw [reached]
      exact longest.imp_left fun at_end => drop_of_length_le (Nat.le_of_eq at_end.symm)
    have gap := @Tells.gap _ keep cursor (lines.drop stop) items omitted
      (ne_nil_of_length_pos (by omega))
      (fun index within => dropped _ (Nat.le_add_right _ _) (by omega)) ended
      (by rw [reached]; exact later)
    refine ⟨_, by rw [split]; exact gap, ?_⟩
    rw [map_cons, pushGap, if_pos (by omega), size]
    rfl

theorem shown_lines (values : List Line) : (values.map Item.line).map shown = values := by
  rw [map_map]
  exact map_id values

theorem tells_middle (inside : tailFrom ≤ lines.length)
    (ending : ∀ i, tailFrom ≤ i → i < lines.length → keep i) {kept : List Nat} {cursor : Nat}
    (order : cursor ≤ tailFrom) (sorted : kept.Pairwise (· < ·))
    (within : ∀ i ∈ kept, cursor ≤ i ∧ i < tailFrom)
    (middle : ∀ i, cursor ≤ i → i < tailFrom → (keep i ↔ i ∈ kept)) :
    ∃ items, Tells keep cursor (lines.drop cursor) items ∧
      items.map shown = keptMiddle lines tailFrom cursor kept ++ lines.drop tailFrom := by
  induction kept generalizing cursor with
  | nil =>
    have closing : Tells keep tailFrom (lines.drop tailFrom) ((lines.drop tailFrom).map Item.line) := by
      refine Tells.of_kept fun index short => ending _ (Nat.le_add_right _ _) ?_
      rw [length_drop] at short
      omega
    have longest : tailFrom = lines.length ∨ keep tailFrom := by
      by_cases at_end : tailFrom = lines.length
      · exact Or.inl at_end
      · exact Or.inr (ending tailFrom (Nat.le_refl _) (by omega))
    obtain ⟨listing, tells, reads⟩ := tells_gap order inside
      (fun i low high keeps => not_mem_nil ((middle i low high).mp keeps)) longest closing
    exact ⟨listing, tells, by rw [reads, shown_lines]; rfl⟩
  | cons i later ih =>
    obtain ⟨low, high⟩ := within i mem_cons_self
    obtain ⟨after, sorted⟩ := pairwise_cons.mp sorted
    obtain ⟨items, tells, reads⟩ := @ih (i + 1) (by omega) sorted
      (fun other member => ⟨after other member, (within other (mem_cons_of_mem _ member)).2⟩)
      (fun other above below => by
        have apart : other ≠ i := by omega
        rw [middle other (by omega) below, mem_cons]
        simp [apart])
    have line : lines.drop i = lines[i] :: lines.drop (i + 1) := drop_eq_getElem_cons (by omega)
    have keeps : keep i := (middle i low high).mpr mem_cons_self
    have here : Tells keep i (lines.drop i) (.line lines[i] :: items) := by
      rw [line]
      exact .line _ keeps tells
    have dropped : ∀ other, cursor ≤ other → other < i → ¬ keep other := by
      intro other above below keeps
      rcases mem_cons.mp ((middle other above (by omega)).mp keeps) with same | member
      · omega
      · have beyond := after other member
        omega
    obtain ⟨listing, tells, told⟩ := tells_gap low (by omega) dropped (Or.inr keeps) here
    refine ⟨listing, tells, ?_⟩
    rw [told, map_cons, reads, keptMiddle, getElem?_eq_getElem (by omega)]
    simp only [Option.toList_some, append_assoc, singleton_append]
    rfl

end Listing

theorem mem_kept_iff {marks : List (Option Priority)} {positions : List Nat} (once : positions.Nodup)
    {middle i : Nat} :
    i ∈ (((candidatesAt marks positions).mergeSort fun a b => !sooner b a).take middle).map Prod.snd ↔
      i ∈ positions ∧ marks[i]?.join.isSome = true ∧
        (positions.filter fun other => ahead marks other i).length < middle := by
  have distinct : (candidatesAt marks positions).Nodup := (nodup_map_candidatesAt once).of_map Prod.snd
  simp only [mem_map, Prod.exists, exists_eq_right]
  constructor
  · rintro ⟨priority, listed⟩
    obtain ⟨candidate, few⟩ := (Selection.mem_take_mergeSort_iff sooner_asymm sooner_trans sooner_total
      distinct).mp listed
    obtain ⟨member, marked⟩ := mem_candidatesAt.mp candidate
    rw [length_filter_candidatesAt marked] at few
    exact ⟨member, by rw [marked]; rfl, few⟩
  · rintro ⟨member, marked, few⟩
    obtain ⟨priority, marked⟩ := Option.isSome_iff_exists.mp marked
    refine ⟨priority, (Selection.mem_take_mergeSort_iff sooner_asymm sooner_trans sooner_total
      distinct).mpr ⟨mem_candidatesAt.mpr ⟨member, marked⟩, ?_⟩⟩
    rw [length_filter_candidatesAt marked]
    exact few

theorem nodup_ranked {marks : List (Option Priority)} {positions : List Nat} (once : positions.Nodup)
    (middle : Nat) :
    (((candidatesAt marks positions).mergeSort fun a b => !sooner b a).take middle |>.map
      Prod.snd).Nodup := by
  have perm := mergeSort_perm (candidatesAt marks positions) fun a b => !sooner b a
  have whole := ((perm.map Prod.snd).nodup_iff).mpr (@nodup_map_candidatesAt marks _ once)
  exact whole.sublist ((take_sublist middle _).map Prod.snd)

/-- A truncation keeps and tells what it should exactly when its head is no longer than the text, or the
text is short enough to be left alone. -/
theorem truncate_tells_iff (lines : List Line) (marks : List (Option Priority)) (cuts : Cuts) :
    (∃ items, Tells (Keeps lines marks cuts) 0 lines items ∧
        truncate lines marks cuts = items.map shown ∧ (items.map Item.size).sum = lines.length) ↔
      cuts.head ≤ lines.length ∨ lines.length ≤ cuts.maxLines := by
  constructor
  · rintro ⟨items, tells, told, _⟩
    by_contra broken
    have long : cuts.maxLines < lines.length := by omega
    have short : lines.length < cuts.head := by omega
    have past : max (lines.length - cuts.tail) cuts.head = cuts.head := by omega
    have nothing : truncate lines marks cuts = [] := by
      rw [truncate, if_neg (by omega)]
      simp only [past, Nat.sub_self]
      rw [if_neg (by omega), if_neg (by omega)]
      simp [keptMiddle, pushGap]
    rw [nothing] at told
    have empty : items = [] := map_eq_nil_iff.mp told.symm
    exact tells.ne_nil (ne_nil_of_length_pos (by omega)) empty
  · intro fits
    by_cases brief : lines.length ≤ cuts.maxLines
    · have tells := @Tells.of_kept _ (Keeps lines marks cuts) 0 lines fun _ _ => Or.inl brief
      refine ⟨_, tells, ?_, tells.sum_size⟩
      rw [truncate, if_pos brief, shown_lines]
    · have head : cuts.head ≤ lines.length := by omega
      have inside : max (lines.length - cuts.tail) cuts.head ≤ lines.length := by omega
      have span : max (lines.length - cuts.tail) cuts.head - cuts.head =
          lines.length - cuts.tail - cuts.head := by omega
      have positions : (middlePositions lines cuts).Nodup := nodup_range'
      have listed := @mem_kept_iff marks (middlePositions lines cuts) positions cuts.middle
      have truncated : truncate lines marks cuts = lines.take cuts.head ++
          (keptMiddle lines (max (lines.length - cuts.tail) cuts.head) cuts.head
            ((((candidatesAt marks (middlePositions lines cuts)).mergeSort fun a b => !sooner b a).take
              cuts.middle).map Prod.snd).mergeSort ++
            lines.drop (max (lines.length - cuts.tail) cuts.head)) := by
        rw [truncate, if_neg brief]
        simp only [span]
        rw [if_pos head, if_pos inside, append_assoc]
        rfl
      have distinct := @nodup_ranked marks _ positions cuts.middle
      generalize ((((candidatesAt marks (middlePositions lines cuts)).mergeSort
        fun a b => !sooner b a).take cuts.middle).map Prod.snd) = chosen at listed truncated distinct
      have perm := mergeSort_perm chosen (· ≤ ·)
      have sorted : (chosen.mergeSort (· ≤ ·)).Pairwise (· < ·) := by
        have weak := @pairwise_mergeSort _ (fun a b : Nat => decide (a ≤ b))
          (by intro a b c; simp only [decide_eq_true_eq]; omega)
          (by intro a b; simp only [Bool.or_eq_true, decide_eq_true_eq]; omega) chosen
        refine (weak.and (perm.nodup_iff.mpr distinct)).imp fun both => ?_
        have order : _ ≤ _ := of_decide_eq_true both.1
        have apart := both.2
        omega
      have ranges : ∀ i, i ∈ middlePositions lines cuts ↔
          cuts.head ≤ i ∧ i < cuts.head + (lines.length - cuts.tail - cuts.head) := by
        intro i
        rw [middlePositions, mem_range'_1]
      obtain ⟨items, tells, told⟩ := @tells_middle lines (Keeps lines marks cuts)
        (max (lines.length - cuts.tail) cuts.head) inside
        (fun i low _ => Or.inr (Or.inr (Or.inl (by omega)))) (chosen.mergeSort (· ≤ ·)) cuts.head
        (Nat.le_max_right _ _) sorted
        (fun i member => by
          have place := (ranges i).mp (listed.mp (perm.mem_iff.mp member)).1
          omega)
        (fun i low high => by
          rw [perm.mem_iff, listed]
          constructor
          · rintro (short | front | back | best)
            · exact absurd short brief
            · omega
            · omega
            · exact best
          · exact fun best => Or.inr (Or.inr (Or.inr best)))
      have front : ∀ index, index < (lines.take cuts.head).length → Keeps lines marks cuts (0 + index) := by
        intro index within
        rw [length_take] at within
        exact Or.inr (Or.inl (by omega))
      have size : 0 + (lines.take cuts.head).length = cuts.head := by
        rw [length_take]
        omega
      have whole := Tells.append_kept front (by rw [size]; exact tells)
      rw [take_append_drop] at whole
      refine ⟨_, whole, ?_, whole.sum_size⟩
      rw [truncated, map_append, shown_lines, told]

/-- A head longer than the text loses the whole text and says nothing of it. -/
theorem truncate_past_head :
    truncate (List.replicate 241 ['a']) [] ⟨240, 1000, 40, 60⟩ = [] ∧
      (List.replicate 241 ['a'] : List Line).length = 241 := by
  decide +kernel

end Sieve

end Sprawling
