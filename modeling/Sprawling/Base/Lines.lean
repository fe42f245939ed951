import Mathlib.Data.List.Basic

/-! A sequence cut into lines by a mark: the lines the mark has ended, and the rest. And one cut
into runs of one length. -/

namespace Lines

open List

variable {α : Type}

/-- The place of the last item that satisfies `wanted`. -/
def rposition (wanted : α → Bool) : List α → Option Nat
  | [] => none
  | item :: rest =>
    match rposition wanted rest with
    | some place => some (place + 1)
    | none => if wanted item then some 0 else none

/-- The length up to and including the last item that satisfies `wanted`. -/
def endOfLast (wanted : α → Bool) (items : List α) : Nat :=
  match rposition wanted items with
  | some place => place + 1
  | none => 0

variable {wanted : α → Bool} {items : List α}

theorem rposition_eq_none :
    rposition wanted items = none ↔ ∀ item ∈ items, wanted item = false := by
  induction items with
  | nil => simp [rposition]
  | cons item rest ih =>
    cases found : rposition wanted rest with
    | some place =>
      have later : ¬ ∀ other ∈ rest, wanted other = false := by
        intro absent
        rw [ih.mpr absent] at found
        cases found
      simp only [rposition, found, mem_cons, forall_eq_or_imp]
      constructor
      · intro impossible
        cases impossible
      · intro absent
        exact absurd absent.2 later
    | none =>
      have later := ih.mp found
      simp only [rposition, found, mem_cons, forall_eq_or_imp]
      cases wanted item with
      | true => simp
      | false => simpa using later

variable {after : List α}

theorem rposition_append_cons (wanted : α → Bool) (before : List α) {item : α}
    (here : wanted item = true) (later : ∀ other ∈ after, wanted other = false) :
    rposition wanted (before ++ item :: after) = some before.length := by
  induction before with
  | nil => simp [rposition, rposition_eq_none.mpr later, here]
  | cons first before ih => simp [rposition, ih]

variable {place : Nat}

theorem rposition_eq_some (found : rposition wanted items = some place) :
    ∃ before item after, items = before ++ item :: after ∧ before.length = place ∧
      wanted item = true ∧ ∀ other ∈ after, wanted other = false := by
  induction items generalizing place with
  | nil => cases found
  | cons first rest ih =>
    cases deeper : rposition wanted rest with
    | some inner =>
      simp only [rposition, deeper, Option.some.injEq] at found
      rcases ih deeper with ⟨before, item, after, shape, size, here, later⟩
      exact ⟨first :: before, item, after, by simp [shape], by simp [size, found], here, later⟩
    | none =>
      simp only [rposition, deeper] at found
      cases here : wanted first with
      | false => simp [here] at found
      | true =>
        simp only [here, if_true, Option.some.injEq] at found
        exact ⟨[], first, rest, rfl, found, here, rposition_eq_none.mp deeper⟩

theorem take_through (before after : List α) (item : α) :
    (before ++ item :: after).take (before.length + 1) = before ++ [item] := by
  have shape : before ++ item :: after = (before ++ [item]) ++ after := append_cons ..
  rw [shape, show before.length + 1 = (before ++ [item]).length by simp]
  exact take_left

theorem drop_through (before after : List α) (item : α) :
    (before ++ item :: after).drop (before.length + 1) = after := by
  have shape : before ++ item :: after = (before ++ [item]) ++ after := append_cons ..
  rw [shape, show before.length + 1 = (before ++ [item]).length by simp]
  exact drop_left

theorem endOfLast_le (wanted : α → Bool) (items : List α) :
    endOfLast wanted items ≤ items.length := by
  unfold endOfLast
  split
  · next place found =>
      rcases rposition_eq_some found with ⟨before, item, after, shape, size, -, -⟩
      rw [shape, length_append, length_cons]
      omega
  · exact Nat.zero_le _

theorem endOfLast_eq_zero :
    endOfLast wanted items = 0 ↔ ∀ item ∈ items, wanted item = false := by
  rw [← rposition_eq_none, endOfLast]
  cases rposition wanted items <;> simp

theorem endOfLast_append (wanted : α → Bool) (first second : List α) :
    endOfLast wanted (first ++ second) =
      if endOfLast wanted second = 0 then endOfLast wanted first
      else first.length + endOfLast wanted second := by
  cases found : rposition wanted second with
  | some place =>
    rcases rposition_eq_some found with ⟨before, item, after, shape, size, here, later⟩
    have joined : first ++ second = (first ++ before) ++ item :: after := by
      rw [shape, append_assoc]
    have ending : endOfLast wanted second = place + 1 := by rw [endOfLast, found]
    rw [if_neg (by omega), ending, joined, endOfLast,
      rposition_append_cons wanted _ here later, length_append, ← size]
    exact Nat.add_assoc _ _ _
  | none =>
    have absent := rposition_eq_none.mp found
    rw [if_pos (endOfLast_eq_zero.mpr absent)]
    cases early : rposition wanted first with
    | some place =>
      rcases rposition_eq_some early with ⟨before, item, after, shape, size, here, later⟩
      have joined : first ++ second = before ++ item :: (after ++ second) := by
        rw [shape, append_assoc, cons_append]
      have last : ∀ other ∈ after ++ second, wanted other = false := by
        intro other member
        rcases mem_append.mp member with member | member
        · exact later other member
        · exact absent other member
      rw [endOfLast, joined, rposition_append_cons wanted _ here last, endOfLast, early, size]
    | none =>
      have none : ∀ other ∈ first ++ second, wanted other = false := by
        intro other member
        rcases mem_append.mp member with member | member
        · exact rposition_eq_none.mp early other member
        · exact absent other member
      rw [endOfLast_eq_zero.mpr none, endOfLast, early]

/-- Past the end of the last wanted item no item is wanted. -/
theorem unwanted_of_endOfLast_le {item : α}
    (past : endOfLast wanted items ≤ place) (found : items[place]? = some item) :
    wanted item = false := by
  have split := endOfLast_append wanted (items.take place) (items.drop place)
  rw [take_append_drop] at split
  have within : place < items.length := (List.getElem?_eq_some_iff.mp found).1
  have front : (items.take place).length = place := by
    rw [length_take]
    omega
  have none : endOfLast wanted (items.drop place) = 0 := by
    by_contra some
    rw [if_neg some] at split
    omega
  apply endOfLast_eq_zero.mp none
  rw [mem_iff_getElem?]
  exact ⟨0, by rw [getElem?_drop]; exact found⟩

variable (mark : α)

def join (lines : List (List α)) : List α := lines.flatMap fun line => line ++ [mark]

section Join

variable {mark} {lines : List (List α)}

@[simp] theorem join_nil : join mark [] = [] := rfl

@[simp] theorem join_cons (line : List α) :
    join mark (line :: lines) = line ++ mark :: join mark lines := by
  simp [join]

@[simp] theorem join_append (first second : List (List α)) :
    join mark (first ++ second) = join mark first ++ join mark second := by
  simp [join]

end Join

variable [DecidableEq α]

/-- The lines `mark` has ended, and what follows the last `mark`. -/
def split : List α → List (List α) × List α
  | [] => ([], [])
  | item :: rest =>
    if item = mark then ([] :: (split rest).1, (split rest).2)
    else
      match split rest with
      | ([], tail) => ([], item :: tail)
      | (line :: lines, tail) => ((item :: line) :: lines, tail)

def complete (items : List α) : List (List α) := (split mark items).1

def tail (items : List α) : List α := (split mark items).2

def whole (items : List α) : List α := join mark (complete mark items)

variable {mark} {items : List α} {lines : List (List α)} {rest : List α}

theorem split_cons_mark : split mark (mark :: rest) = ([] :: complete mark rest, tail mark rest) := by
  simp [split, complete, tail]

theorem split_unended (absent : mark ∉ rest) : split mark rest = ([], rest) := by
  induction rest with
  | nil => rfl
  | cons item rest ih =>
    simp only [mem_cons, not_or] at absent
    simp [split, Ne.symm absent.1, ih absent.2]

theorem complete_unended (absent : mark ∉ rest) : complete mark rest = [] := by
  rw [complete, split_unended absent]

theorem tail_unended (absent : mark ∉ rest) : tail mark rest = rest := by
  rw [tail, split_unended absent]

variable {line : List α}

theorem split_line_append (absent : mark ∉ line) :
    split mark (line ++ mark :: rest) = (line :: complete mark rest, tail mark rest) := by
  induction line with
  | nil => exact split_cons_mark
  | cons item line ih =>
    simp only [mem_cons, not_or] at absent
    simp [split, Ne.symm absent.1, ih absent.2]

variable (absent : ∀ line ∈ lines, mark ∉ line)

include absent

theorem split_join_append :
    split mark (join mark lines ++ rest) = (lines ++ complete mark rest, tail mark rest) := by
  induction lines with
  | nil => rfl
  | cons line lines ih =>
    simp only [mem_cons, forall_eq_or_imp] at absent
    have shape : join mark (line :: lines) ++ rest =
        line ++ mark :: (join mark lines ++ rest) := by simp
    rw [shape, split_line_append absent.1]
    simp [complete, tail, ih absent.2]

theorem complete_join_append :
    complete mark (join mark lines ++ rest) = lines ++ complete mark rest := by
  rw [complete, split_join_append absent]

theorem tail_join_append :
    tail mark (join mark lines ++ rest) = tail mark rest := by
  rw [tail, split_join_append absent]

theorem complete_join :
    complete mark (join mark lines) = lines := by
  have cut : complete mark (join mark lines ++ []) = lines ++ complete mark [] :=
    complete_join_append absent
  simpa [complete, split] using cut

omit absent

theorem split_spec (items : List α) :
    join mark (complete mark items) ++ tail mark items = items ∧
      (∀ line ∈ complete mark items, mark ∉ line) ∧ mark ∉ tail mark items := by
  induction items with
  | nil => simp [complete, tail, split]
  | cons item rest ih =>
    rcases ih with ⟨shape, lines, last⟩
    by_cases same : item = mark
    · subst same
      have cut : split item (item :: rest) = _ := split_cons_mark
      simp only [complete, tail] at shape lines last ⊢
      rw [cut]
      refine ⟨by simpa [complete, tail] using congrArg (item :: ·) shape, ?_, last⟩
      intro line member
      rcases mem_cons.mp member with rfl | member
      · exact not_mem_nil
      · exact lines line member
    · simp only [complete, tail] at shape lines last ⊢
      cases cut : split mark rest with
      | mk done left =>
        rw [cut] at shape lines last
        cases done with
        | nil =>
          simp only [split, same, if_false, cut]
          refine ⟨by simpa using congrArg (item :: ·) shape, by simp, ?_⟩
          simpa [same, Ne.symm same] using last
        | cons line done =>
          simp only [split, same, if_false, cut]
          simp only [mem_cons, forall_eq_or_imp] at lines ⊢
          refine ⟨by simpa using congrArg (item :: ·) shape, ⟨?_, lines.2⟩, last⟩
          rintro (bad | bad)
          · exact same bad.symm
          · exact lines.1 bad

theorem whole_append_tail (items : List α) : whole mark items ++ tail mark items = items :=
  (split_spec items).1

theorem mark_not_mem_complete (member : line ∈ complete mark items) : mark ∉ line :=
  (split_spec items).2.1 line member

theorem mark_not_mem_tail (items : List α) : mark ∉ tail mark items := (split_spec items).2.2

theorem complete_append_of_tail_nil (ended : tail mark items = []) :
    complete mark (items ++ rest) = complete mark items ++ complete mark rest := by
  have shape : whole mark items ++ tail mark items = items := whole_append_tail items
  rw [ended, append_nil] at shape
  calc
    complete mark (items ++ rest) = complete mark (whole mark items ++ rest) := by rw [shape]
    _ = complete mark items ++ complete mark rest :=
      complete_join_append fun _ member => mark_not_mem_complete member

theorem tail_append_of_tail_nil (ended : tail mark items = []) :
    tail mark (items ++ rest) = tail mark rest := by
  have shape : whole mark items ++ tail mark items = items := whole_append_tail items
  rw [ended, append_nil] at shape
  calc
    tail mark (items ++ rest) = tail mark (whole mark items ++ rest) := by rw [shape]
    _ = tail mark rest := tail_join_append fun _ member => mark_not_mem_complete member

theorem complete_whole_append (items : List α) :
    complete mark (whole mark items ++ rest) = complete mark items ++ complete mark rest :=
  complete_join_append fun _ member => mark_not_mem_complete member

theorem tail_whole (items : List α) : tail mark (whole mark items) = [] := by
  have cut : tail mark (join mark (complete mark items) ++ []) = tail mark [] :=
    tail_join_append fun _ member => mark_not_mem_complete member
  simpa [whole, tail, split] using cut

theorem complete_whole (items : List α) : complete mark (whole mark items) = complete mark items := by
  have cut : complete mark (whole mark items ++ []) = complete mark items ++ complete mark [] :=
    complete_whole_append items
  simpa [complete, split] using cut

theorem eq_join_of_concat_mark (items : List α) :
    items ++ [mark] = join mark (complete mark items ++ [tail mark items]) := by
  calc
    items ++ [mark] = whole mark items ++ tail mark items ++ [mark] := by rw [whole_append_tail]
    _ = _ := by simp [whole]

theorem whole_append_mark (front : List α) (absent : mark ∉ after) :
    whole mark (front ++ mark :: after) = front ++ [mark] := by
  have lines : ∀ line ∈ complete mark front ++ [tail mark front], mark ∉ line := by
    intro line member
    rcases mem_append.mp member with early | last
    · exact mark_not_mem_complete early
    · rw [mem_singleton.mp last]
      exact mark_not_mem_tail front
  have shape : front ++ mark :: after =
      join mark (complete mark front ++ [tail mark front]) ++ after := by
    rw [← eq_join_of_concat_mark]
    simp
  rw [whole, shape, complete_join_append lines, complete_unended absent, append_nil,
    ← eq_join_of_concat_mark]

theorem tail_append_mark (front : List α) (absent : mark ∉ after) :
    tail mark (front ++ mark :: after) = after := by
  have shape : whole mark (front ++ mark :: after) ++ tail mark (front ++ mark :: after) =
      front ++ mark :: after := whole_append_tail _
  rw [whole_append_mark front absent] at shape
  exact append_cancel_left (shape.trans (append_cons front mark after))

theorem whole_join_append (absent : ∀ line ∈ lines, mark ∉ line) (unended : mark ∉ rest) :
    whole mark (join mark lines ++ rest) = join mark lines := by
  rw [whole, complete_join_append absent, complete_unended unended, append_nil]

theorem length_whole_le (items : List α) : (whole mark items).length ≤ items.length :=
  IsPrefix.length_le ⟨_, whole_append_tail items⟩

theorem whole_whole_append (items : List α) :
    whole mark (whole mark items ++ rest) = whole mark items ++ whole mark rest := by
  rw [whole, complete_whole_append, join_append]
  rfl

theorem length_complete_le (items : List α) : (complete mark items).length ≤ items.length := by
  have joined : ∀ lines : List (List α), lines.length ≤ (join mark lines).length := by
    intro lines
    induction lines with
    | nil => exact Nat.le_refl _
    | cons line lines ih =>
      simp only [join_cons, length_cons, length_append]
      omega
  exact Nat.le_trans (joined _) (length_whole_le items)

theorem endOfLast_eq (items : List α) :
    endOfLast (fun item => item == mark) items = (whole mark items).length := by
  have absent : ∀ other ∈ tail mark items, (other == mark) = false := by
    intro other member
    have different : other ≠ mark := by
      intro same
      exact mark_not_mem_tail items (same ▸ member)
    simpa using different
  rcases eq_nil_or_concat (complete mark items) with bareLines | ⟨lines, line, ended⟩
  · have bare : whole mark items = [] := by simp [whole, bareLines]
    have shape : whole mark items ++ tail mark items = items := whole_append_tail items
    rw [bare, nil_append] at shape
    rw [shape] at absent
    rw [endOfLast, rposition_eq_none.mpr absent, bare]
    rfl
  · have ending : whole mark items = (join mark lines ++ line) ++ [mark] := by
      simp [whole, ended]
    have shape : items = (join mark lines ++ line) ++ mark :: tail mark items := by
      calc
        items = whole mark items ++ tail mark items := (whole_append_tail items).symm
        _ = _ := by rw [ending]; simp
    have place := rposition_append_cons (fun item => item == mark) (join mark lines ++ line)
      (beq_self_eq_true mark) absent
    rw [← shape] at place
    rw [endOfLast, place, ending]
    simp only [length_append, length_cons, length_nil]

theorem take_endOfLast (items : List α) :
    items.take (endOfLast (fun item => item == mark) items) = whole mark items := by
  rw [endOfLast_eq]
  calc
    items.take (whole mark items).length =
        (whole mark items ++ tail mark items).take (whole mark items).length := by
      rw [whole_append_tail]
    _ = whole mark items := take_left

theorem splitOn_eq (items : List α) :
    items.splitOn mark = complete mark items ++ [tail mark items] := by
  induction items with
  | nil => rfl
  | cons item rest ih =>
    by_cases same : item = mark
    · subst same
      have cut : split item (item :: rest) = _ := split_cons_mark
      rw [complete, tail, cut]
      simpa [List.splitOn, splitOnP_cons_eq_if_modifyHead] using ih
    · simp only [complete, tail] at ih ⊢
      rw [List.splitOn] at ih ⊢
      rw [splitOnP_cons_eq_if_modifyHead, ih]
      simp only [beq_iff_eq, same, if_false, split]
      cases split mark rest with
      | mk done left => cases done <;> rfl

/-! ### Runs of one length -/

/-- The items in runs of at most `size`. -/
def chunks (size : Nat) : Nat → List α → List (List α)
  | 0, _ => []
  | _ + 1, [] => []
  | fuel + 1, items => items.take size :: chunks size fuel (items.drop size)

theorem flatten_chunks (size fuel : Nat) (items : List α) (positive : 0 < size)
    (enough : items.length < fuel) : (chunks size fuel items).flatten = items := by
  induction fuel generalizing items with
  | zero => omega
  | succ fuel ih =>
    cases items with
    | nil => rfl
    | cons item rest =>
      rw [chunks, flatten_cons, ih _ (by simp at enough ⊢; omega)]
      · exact take_append_drop _ _
      · simp

end Lines
