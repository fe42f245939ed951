import Sprawling.Base.Numeral
import Sprawling.Kernel.Plan.Progress

namespace Sprawling

open List NodeId Text

namespace NodeId

def number (segment : List Char) : Nat := Nat.ofDigitChars 10 segment 0

def segments (id : NodeId) : List (List Char) := id.text.splitOn '.'

def numbers (id : NodeId) : List Nat := id.segments.map number

/-- The outline's order: segment by segment as numbers, a prefix first. -/
def ReadsBefore (first second : NodeId) : Prop := first.numbers < second.numbers

/-- Two segments have equally many digits, or the shorter is at most what the longer begins with. -/
def SegmentsAgree (first second : List Char) : Prop :=
  first.length = second.length ∨
    (first.length < second.length ∧ number first ≤ number (second.take first.length)) ∨
    (second.length < first.length ∧ number second ≤ number (first.take second.length))

/-- The first segments that differ agree, when there are such. -/
def AgreeFrom : List (List Char) → List (List Char) → Prop
  | first :: firsts, second :: seconds =>
    if first = second then AgreeFrom firsts seconds else SegmentsAgree first second
  | _, _ => True

def OrderAgrees (first second : NodeId) : Prop := AgreeFrom first.segments second.segments

/-- What every segment of an index is: digits, and no zero in front. -/
structure Numeral (segment : List Char) : Prop where
  filled : segment ≠ []
  digits : ∀ c ∈ segment, c.isDigit = true
  front : segment.head? ≠ some '0'

variable {segment : List Char}

theorem numeral_of_segment (passes : refuseSegment segment = none) : Numeral segment := by
  have digits := digits_of_segment passes
  simp only [refuseSegment] at passes
  split at passes
  · cases passes
  · rename_i filled
    split at passes
    · cases passes
    · rename_i front
      exact ⟨by rintro rfl; simp at filled, digits, front⟩

theorem numeral_of_mem (id : NodeId) (member : segment ∈ id.segments) : Numeral segment :=
  numeral_of_segment ((refuseIndex_eq_none.mp id.indexed).2.2 segment member)

def digitValue (c : Char) : Nat := c.toNat - '0'.toNat

variable {c : Char}

theorem digitValue_lt (digit : c.isDigit = true) : digitValue c < 10 := by
  have bounds := digit_bounds digit
  show c.toNat - 48 < 10
  omega

theorem digitValue_pos (digit : c.isDigit = true) (nonzero : c ≠ '0') : 0 < digitValue c := by
  have bounds := digit_bounds digit
  have apart : c.toNat ≠ 48 := fun same => nonzero (Char.toNat_inj.mp same)
  show 0 < c.toNat - 48
  omega

theorem compare_digitValue {d : Char} (one : c.isDigit = true) (two : d.isDigit = true) :
    compare c d = compare (digitValue c) (digitValue d) := by
  have low := digit_bounds one
  have high := digit_bounds two
  show compareOfLessAndEq c d = compareOfLessAndEq (c.toNat - 48) (d.toNat - 48)
  have less : c < d ↔ c.toNat - 48 < d.toNat - 48 := by
    show c.toNat < d.toNat ↔ _
    omega
  have same : c = d ↔ c.toNat - 48 = d.toNat - 48 := by
    rw [← Char.toNat_inj]
    omega
  simp only [compareOfLessAndEq, less, same]

theorem number_cons (c : Char) (rest : List Char) :
    number (c :: rest) = 10 ^ rest.length * digitValue c + number rest := by
  rw [number, Nat.ofDigitChars_cons, Nat.ofDigitChars_eq_ofDigitChars_zero]
  simp only [Nat.mul_zero, Nat.zero_add]
  rfl

theorem number_lt (digits : ∀ c ∈ segment, c.isDigit = true) :
    number segment < 10 ^ segment.length := by
  induction segment with
  | nil => decide
  | cons c rest ih =>
    have small := digitValue_lt (digits c mem_cons_self)
    have below := ih fun d member => digits d (mem_cons_of_mem _ member)
    have room : 10 ^ rest.length * digitValue c ≤ 10 ^ rest.length * 9 :=
      Nat.mul_le_mul_left _ (by omega)
    rw [number_cons, length_cons, Nat.pow_succ]
    omega

theorem Numeral.number_ge (numeral : Numeral segment) :
    10 ^ (segment.length - 1) ≤ number segment := by
  cases segment with
  | nil => exact absurd rfl numeral.filled
  | cons c rest =>
    have front : c ≠ '0' := fun zero => numeral.front (by simp [zero])
    have some_value := digitValue_pos (numeral.digits c mem_cons_self) front
    have room : 10 ^ rest.length * 1 ≤ 10 ^ rest.length * digitValue c :=
      Nat.mul_le_mul_left _ some_value
    show 10 ^ rest.length ≤ number (c :: rest)
    rw [number_cons]
    omega

variable {first second : List Char}

theorem Numeral.number_lt_of_length (one : Numeral first) (two : Numeral second)
    (shorter : first.length < second.length) : number first < number second := by
  have below := number_lt one.digits
  have above := two.number_ge
  have powers : 10 ^ first.length ≤ 10 ^ (second.length - 1) :=
    Nat.pow_le_pow_right (by decide) (by omega)
  omega

theorem compare_of_length (one : ∀ c ∈ first, c.isDigit = true)
    (two : ∀ c ∈ second, c.isDigit = true) (same : first.length = second.length) :
    compare first second = compare (number first) (number second) := by
  induction first generalizing second with
  | nil =>
    rw [eq_nil_of_length_eq_zero same.symm]
    rfl
  | cons c rest ih =>
    cases second with
    | nil => cases same
    | cons d others =>
      have length : rest.length = others.length := Nat.succ.inj same
      have cDigit := one c mem_cons_self
      have dDigit := two d mem_cons_self
      have restDigits := fun e member => one e (mem_cons_of_mem c member)
      have otherDigits := fun e member => two e (mem_cons_of_mem d member)
      have low := number_lt restDigits
      have high := number_lt otherDigits
      rw [List.compare_cons_cons, compare_digitValue cDigit dDigit,
        ih restDigits otherDigits length, number_cons, number_cons, length]
      rw [length] at low
      rcases Nat.lt_trichotomy (digitValue c) (digitValue d) with less | equal | more
      · have step : 10 ^ others.length * (digitValue c + 1) ≤
            10 ^ others.length * digitValue d := Nat.mul_le_mul_left _ less
        rw [Nat.mul_succ] at step
        rw [Nat.compare_eq_lt.mpr less, Ordering.lt_then, eq_comm, Nat.compare_eq_lt]
        omega
      · rw [equal, Nat.compare_eq_eq.mpr rfl, Ordering.eq_then]
        simp only [compare, compareOfLessAndEq, Nat.add_lt_add_iff_left, Nat.add_left_cancel_iff]
      · have step : 10 ^ others.length * (digitValue d + 1) ≤
            10 ^ others.length * digitValue c := Nat.mul_le_mul_left _ more
        rw [Nat.mul_succ] at step
        rw [Nat.compare_eq_gt.mpr more, Ordering.gt_then, eq_comm, Nat.compare_eq_gt]
        omega

theorem compare_take (shorter : first.length < second.length) :
    compare first second = (compare first (second.take first.length)).then .lt := by
  induction first generalizing second with
  | nil =>
    cases second with
    | nil => cases shorter
    | cons d others => rfl
  | cons c rest ih =>
    cases second with
    | nil => cases shorter
    | cons d others =>
      rw [length_cons, length_cons] at shorter
      rw [length_cons, take_succ_cons, List.compare_cons_cons, List.compare_cons_cons,
        ih (by omega), Ordering.then_assoc]

theorem compare_lt_of_shorter (one : ∀ c ∈ first, c.isDigit = true)
    (two : ∀ c ∈ second, c.isDigit = true) (shorter : first.length < second.length) :
    compare first second = .lt ↔ number first ≤ number (second.take first.length) := by
  have length : first.length = (second.take first.length).length := by
    rw [length_take]
    omega
  rw [compare_take shorter,
    compare_of_length one (fun c member => two c (mem_of_mem_take member)) length]
  rcases Nat.lt_trichotomy (number first) (number (second.take first.length)) with
    less | equal | more
  · simp [Nat.compare_eq_lt.mpr less, Nat.le_of_lt less]
  · simp [equal]
  · simp [Nat.compare_eq_gt.mpr more, more]

theorem compare_gt_iff {α : Type} [Ord α] [Std.OrientedOrd α] {first second : α} :
    compare first second = .gt ↔ compare second first = .lt := by
  rw [Std.OrientedOrd.eq_swap (a := first), Ordering.swap_eq_gt]

theorem Numeral.number_inj (one : Numeral first) (two : Numeral second)
    (same : number first = number second) : first = second := by
  rcases Nat.lt_trichotomy first.length second.length with less | equal | more
  · have apart := one.number_lt_of_length two less
    omega
  · have ordered := compare_of_length one.digits two.digits equal
    rw [same, Nat.compare_eq_eq.mpr rfl] at ordered
    exact Std.LawfulEqCmp.eq_of_compare ordered
  · have apart := two.number_lt_of_length one more
    omega

theorem segmentsAgree_iff (one : Numeral first) (two : Numeral second) (apart : first ≠ second) :
    (compare first second = .lt ↔ number first < number second) ↔
      SegmentsAgree first second := by
  rcases Nat.lt_trichotomy first.length second.length with less | equal | more
  · have smaller := one.number_lt_of_length two less
    rw [compare_lt_of_shorter one.digits two.digits less]
    simp only [SegmentsAgree, smaller, less, iff_true, true_and]
    omega
  · rw [compare_of_length one.digits two.digits equal, Nat.compare_eq_lt]
    simp only [SegmentsAgree, equal, true_or]
  · have larger := two.number_lt_of_length one more
    have other := compare_lt_of_shorter two.digits one.digits more
    rw [← compare_gt_iff] at other
    have differ : compare first second ≠ .eq :=
      fun same => apart (Std.LawfulEqCmp.eq_of_compare same)
    have turned : compare first second = .lt ↔ ¬ compare first second = .gt := by
      cases order : compare first second with
      | lt => simp
      | eq => exact absurd order differ
      | gt => simp
    rw [turned, other]
    simp only [SegmentsAgree, more, true_and]
    omega

def dotted (segments : List (List Char)) : List Char := segments.flatMap ('.' :: ·)

theorem dot_cons_intercalate (first : List Char) (rest : List (List Char)) :
    '.' :: ['.'].intercalate (first :: rest) = dotted (first :: rest) := by
  induction rest generalizing first with
  | nil => simp [dotted]
  | cons next rest ih =>
    rw [intercalate_cons_cons, append_assoc, singleton_append, ih]
    rfl

theorem dot_cons_text (id : NodeId) : '.' :: id.text = dotted id.segments := by
  obtain ⟨first, rest, shape⟩ := exists_cons_of_ne_nil (splitOn_ne_nil '.' id.text)
  have joined : ['.'].intercalate (id.text.splitOn '.') = id.text :=
    intercalate_splitOn '.'
  rw [shape] at joined
  rw [segments, shape, ← dot_cons_intercalate, joined]

theorem compare_dot (digit : c.isDigit = true) : compare '.' c = .lt := by
  have bounds := digit_bounds digit
  have less : '.' < c := by
    show 46 < c.toNat
    omega
  simp [compare, compareOfLessAndEq, less]

theorem compare_dotted (one : ∀ c ∈ first, c.isDigit = true)
    (two : ∀ c ∈ second, c.isDigit = true) (apart : first ≠ second)
    (firsts seconds : List (List Char)) :
    compare (first ++ dotted firsts) (second ++ dotted seconds) = compare first second := by
  induction first generalizing second with
  | nil =>
    cases second with
    | nil => exact absurd rfl apart
    | cons d others =>
      cases firsts with
      | nil => rfl
      | cons next rest =>
        show compare ('.' :: (next ++ dotted rest)) (d :: (others ++ dotted seconds)) = .lt
        rw [List.compare_cons_cons, compare_dot (two d mem_cons_self), Ordering.lt_then]
  | cons c rest ih =>
    have cDigit := one c mem_cons_self
    cases second with
    | nil =>
      cases seconds with
      | nil => rfl
      | cons next more =>
        show compare (c :: (rest ++ dotted firsts)) ('.' :: (next ++ dotted more)) = .gt
        rw [compare_gt_iff, List.compare_cons_cons, compare_dot cDigit, Ordering.lt_then]
    | cons d others =>
      rw [cons_append, cons_append, List.compare_cons_cons, List.compare_cons_cons]
      by_cases same : c = d
      · subst same
        have later : rest ≠ others := fun equal => apart (congrArg (c :: ·) equal)
        rw [ih (fun e member => one e (mem_cons_of_mem c member))
          (fun e member => two e (mem_cons_of_mem c member)) later]
      · have differ : compare c d ≠ .eq :=
          fun equal => same (Std.LawfulEqCmp.eq_of_compare equal)
        cases order : compare c d with
        | lt => rfl
        | eq => exact absurd order differ
        | gt => rfl

variable {firsts seconds : List (List Char)}

theorem agreeFrom_iff (one : ∀ s ∈ firsts, Numeral s)
    (two : ∀ s ∈ seconds, Numeral s) :
    (compare (dotted firsts) (dotted seconds) = .lt ↔
        firsts.map number < seconds.map number) ↔ AgreeFrom firsts seconds := by
  induction firsts generalizing seconds with
  | nil =>
    cases seconds with
    | nil => simp [AgreeFrom, dotted]
    | cons second seconds => simp [AgreeFrom, dotted]
  | cons first firsts ih =>
    cases seconds with
    | nil => simp [AgreeFrom, dotted]
    | cons second seconds =>
      have oneHere := one first mem_cons_self
      have twoHere := two second mem_cons_self
      have step : compare (dotted (first :: firsts)) (dotted (second :: seconds)) =
          compare (first ++ dotted firsts) (second ++ dotted seconds) :=
        Numeral.compare_append_left ['.'] _ _
      rw [step, map_cons, map_cons, cons_lt_cons_iff]
      by_cases same : first = second
      · subst same
        rw [Numeral.compare_append_left, AgreeFrom, if_pos rfl,
          ← ih (fun s member => one s (mem_cons_of_mem _ member))
            fun s member => two s (mem_cons_of_mem _ member)]
        simp
      · have values : number first ≠ number second :=
          fun equal => same (oneHere.number_inj twoHere equal)
        rw [compare_dotted oneHere.digits twoHere.digits same, AgreeFrom, if_neg same,
          ← segmentsAgree_iff oneHere twoHere same]
        simp [values]

theorem orderAgrees_iff (first second : NodeId) :
    (compare first second = .lt ↔ ReadsBefore first second) ↔ OrderAgrees first second := by
  have one : ∀ s ∈ first.segments, Numeral s := fun _ => first.numeral_of_mem
  have two : ∀ s ∈ second.segments, Numeral s := fun _ => second.numeral_of_mem
  have texts : compare first second = compare (dotted first.segments) (dotted second.segments) := by
    rw [← dot_cons_text, ← dot_cons_text]
    exact (Numeral.compare_append_left ['.'] first.text second.text).symm
  rw [texts]
  exact agreeFrom_iff one two

theorem SegmentsAgree.symm (agree : SegmentsAgree first second) : SegmentsAgree second first := by
  rcases agree with same | shorter | longer
  · exact Or.inl same.symm
  · exact Or.inr (Or.inr shorter)
  · exact Or.inr (Or.inl longer)

theorem agreeFrom_symm (agree : AgreeFrom firsts seconds) :
    AgreeFrom seconds firsts := by
  induction firsts generalizing seconds with
  | nil => cases seconds <;> trivial
  | cons first firsts ih =>
    cases seconds with
    | nil => trivial
    | cons second seconds =>
      rw [AgreeFrom] at agree ⊢
      split at agree
      · next same => rw [if_pos same.symm]; exact ih agree
      · next apart => rw [if_neg (Ne.symm apart)]; exact agree.symm

theorem agreeFrom_refl (segments : List (List Char)) : AgreeFrom segments segments := by
  induction segments with
  | nil => trivial
  | cons first rest ih =>
    rw [AgreeFrom, if_pos rfl]
    exact ih

end NodeId

namespace PlanTree

open NodeId

/-- The rows of a plan come as the outline numbers them: walked through, under each branch and
among those that may be started. -/
structure InReadingOrder (tree : PlanTree) : Prop where
  nodes : ((tree.nodes.toList.map Prod.snd).map fun node => node.row.id).Pairwise ReadsBefore
  children : ∀ (id : NodeId) (node : PlanNode), tree.nodes[id]? = some node →
    node.children.Pairwise ReadsBefore
  ready : tree.ready.Pairwise ReadsBefore

section Order

variable {rows : List RoadmapRow} {tree : PlanTree} (shared : Shared rows tree)

include shared

theorem Shared.ids :
    (tree.nodes.toList.map Prod.snd).map (fun node => node.row.id) = tree.nodes.keys := by
  rw [← Std.ExtTreeMap.map_fst_toList_eq_keys, map_map]
  apply map_congr_left
  rintro ⟨id, node⟩ member
  have held := Std.ExtTreeMap.mem_toList_iff_getElem?_eq_some.mp member
  have row := shared.row id
  rw [held, Option.map_some] at row
  exact (rowAt_eq_some row.symm).2

theorem Shared.ready_sublist : tree.ready.Sublist tree.nodes.keys := by
  rw [← shared.ids]
  exact (filter_sublist.trans filter_sublist).map _

theorem Shared.children_sublist {id : NodeId} {node : PlanNode}
    (held : tree.nodes[id]? = some node) : node.children.Sublist tree.nodes.keys := by
  rw [shared.hung.children id node held]
  exact filter_sublist

theorem Shared.inReadingOrder_iff :
    InReadingOrder tree ↔ tree.nodes.keys.Pairwise ReadsBefore := by
  constructor
  · intro inOrder
    rw [← shared.ids]
    exact inOrder.nodes
  · intro ordered
    refine ⟨?_, fun id node held => ?_, ?_⟩
    · rw [shared.ids]
      exact ordered
    · exact ordered.sublist (shared.children_sublist held)
    · exact ordered.sublist shared.ready_sublist

omit shared

theorem keys_reading_iff :
    tree.nodes.keys.Pairwise ReadsBefore ↔
      ∀ first ∈ tree.nodes, ∀ second ∈ tree.nodes, OrderAgrees first second := by
  have ordered := @Std.ExtTreeMap.ordered_keys _ _ _ tree.nodes _
  constructor
  · intro reading first one second two
    rw [← Std.ExtTreeMap.mem_keys] at one two
    have both : tree.nodes.keys.Pairwise OrderAgrees := by
      refine (reading.and ordered).imp fun ⟨reads, less⟩ => ?_
      exact (orderAgrees_iff _ _).mp ⟨fun _ => reads, fun _ => less⟩
    have symmetric : Std.Symm OrderAgrees := ⟨fun _ _ agree => agreeFrom_symm agree⟩
    exact both.forall_of_forall (fun id _ => agreeFrom_refl id.segments) one two
  · intro agree
    refine ordered.imp_of_mem fun one two less => ?_
    rw [Std.ExtTreeMap.mem_keys] at one two
    exact ((orderAgrees_iff _ _).mpr (agree _ one _ two)).mp less

/-- The order of indices is the reading order of the outline at exactly the pairs that agree, and a
plan lists its rows as they are numbered exactly when every two of them agree. -/
theorem reading_order_iff (success : build rows = .ok tree) :
    (∀ first second : NodeId,
      (compare first second = .lt ↔ ReadsBefore first second) ↔ OrderAgrees first second) ∧
    (InReadingOrder tree ↔
      ∀ first ∈ rows, ∀ second ∈ rows, OrderAgrees first.id second.id) := by
  have shared := build_shared success
  refine ⟨orderAgrees_iff, ?_⟩
  rw [shared.inReadingOrder_iff, keys_reading_iff]
  constructor
  · intro agree first one second two
    exact agree _ (shared.mem.mpr (rowAt_isSome.mpr ⟨first, one, rfl⟩)) _
      (shared.mem.mpr (rowAt_isSome.mpr ⟨second, two, rfl⟩))
  · intro agree first one second two
    obtain ⟨row, inside, rfl⟩ := rowAt_isSome.mp (shared.mem.mp one)
    obtain ⟨other, listed, rfl⟩ := rowAt_isSome.mp (shared.mem.mp two)
    exact agree row inside other listed

end Order

/-- Ten top-level rows. -/
def tenRows : List RoadmapRow :=
  [bareRow ⟨['1'], one_indexed⟩ [], bareRow ⟨['2'], two_indexed⟩ [], bareRow ⟨['3'], three_indexed⟩ [],
    bareRow ⟨['4'], four_indexed⟩ [], bareRow ⟨['5'], by decide⟩ [], bareRow ⟨['6'], by decide⟩ [],
    bareRow ⟨['7'], by decide⟩ [], bareRow ⟨['8'], by decide⟩ [], bareRow ⟨['9'], by decide⟩ [],
    bareRow ⟨['1', '0'], by decide⟩ []]

theorem reading_order_iff_branched :
    ∃ tree, build branchedRows = .ok tree ∧
      (∀ first second : NodeId,
        (compare first second = .lt ↔ ReadsBefore first second) ↔ OrderAgrees first second) ∧
      (InReadingOrder tree ↔
        ∀ first ∈ branchedRows, ∀ second ∈ branchedRows, OrderAgrees first.id second.id) := by
  have built : (build branchedRows).toOption.map (fun _ => ()) = some () := by decide +kernel
  obtain ⟨tree, success, -⟩ := Outcome.of_map_toOption built
  exact ⟨tree, success, reading_order_iff success⟩

/-- Index `10` is before index `2`, and a plan of ten rows is walked with its tenth row second. -/
theorem tenRows_out_of_order :
    ¬ ((∀ first second : NodeId, compare first second = .lt ↔ ReadsBefore first second) ∧
      ∀ (rows : List RoadmapRow) (tree : PlanTree), build rows = .ok tree → InReadingOrder tree) := by
  rintro ⟨-, listed⟩
  have built : (build tenRows).toOption.map
      (fun tree => (tree.nodes.toList.map Prod.snd).map fun node => node.row.id.numbers) =
        some [[1], [10], [2], [3], [4], [5], [6], [7], [8], [9]] := by decide +kernel
  obtain ⟨tree, success, walked⟩ := Outcome.of_map_toOption built
  have inOrder := (listed tenRows tree success).nodes
  rw [pairwise_map] at inOrder
  have numbers : ([[1], [10], [2], [3], [4], [5], [6], [7], [8], [9]] : List (List Nat)).Pairwise
      (· < ·) := by
    rw [← walked, pairwise_map]
    exact inOrder
  exact absurd numbers (by decide)

end PlanTree

end Sprawling
