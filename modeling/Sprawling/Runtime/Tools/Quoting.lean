import Mathlib.Data.List.Dedup
import Sprawling.Runtime.Rendering.Read

/-! What an edit may quote of a read answer: the lines a model copied with their marks, found again
where the marks number them. -/

namespace Sprawling

open List Text
open Option (bind_eq_bind bind_eq_some_iff bind_some)

namespace Copied

/-- Lines as a text is split into them: each with its line end, the last one with or without. -/
inductive Pieces : List (List Char) → Prop
  | nil : Pieces []
  | last {line : List Char} (some_ : line ≠ []) (open_ : '\n' ∉ line) : Pieces [line]
  | line {body : List Char} {rest : List (List Char)} (open_ : '\n' ∉ body) (later : Pieces rest) :
      Pieces ((body ++ ['\n']) :: rest)

theorem splitInclusive_line {body : List Char} (open_ : '\n' ∉ body) (rest : List Char) :
    splitInclusive (body ++ '\n' :: rest) = (body ++ ['\n']) :: splitInclusive rest := by
  induction body with
  | nil => simp [splitInclusive]
  | cons c body ih =>
    have other : c ≠ '\n' := fun same => open_ (same ▸ mem_cons_self)
    have later := ih fun member => open_ (mem_cons_of_mem _ member)
    rw [cons_append, splitInclusive, if_neg other, later]
    rfl

theorem splitInclusive_last {line : List Char} (some_ : line ≠ []) (open_ : '\n' ∉ line) :
    splitInclusive line = [line] := by
  induction line with
  | nil => exact absurd rfl some_
  | cons c rest ih =>
    have other : c ≠ '\n' := fun same => open_ (same ▸ mem_cons_self)
    rw [splitInclusive, if_neg other]
    by_cases empty : rest = []
    · rw [empty]
      rfl
    · rw [ih empty fun member => open_ (mem_cons_of_mem _ member)]

theorem splitInclusive_flatten {lines : List (List Char)} (pieces : Pieces lines) :
    splitInclusive lines.flatten = lines := by
  induction pieces with
  | nil => rfl
  | last some_ open_ => rw [flatten_singleton, splitInclusive_last some_ open_]
  | @line body rest open_ _ ih =>
    rw [flatten_cons, append_assoc, singleton_append, splitInclusive_line open_, ih]

theorem pieces_splitInclusive (text : List Char) : Pieces (splitInclusive text) := by
  induction text with
  | nil => exact .nil
  | cons c rest ih =>
    rw [splitInclusive]
    split
    · next ended =>
        rw [ended]
        exact @Pieces.line [] _ not_mem_nil ih
    · next other =>
        have apart : ∀ {line : List Char}, '\n' ∉ line → '\n' ∉ c :: line := fun open_ member =>
          (mem_cons.mp member).elim (fun same => other same.symm) open_
        cases found : splitInclusive rest with
        | nil => exact .last (cons_ne_nil _ _) (apart not_mem_nil)
        | cons line others =>
          rw [found] at ih
          cases ih with
          | last _ open_ => exact .last (cons_ne_nil _ _) (apart open_)
          | line open_ later => exact .line (apart open_) later

section Runs

variable {lines : List (List Char)}

theorem Pieces.drop (pieces : Pieces lines) (count : Nat) : Pieces (lines.drop count) := by
  induction pieces generalizing count with
  | nil => simpa using Pieces.nil
  | last some_ open_ =>
    cases count with
    | zero => exact .last some_ open_
    | succ count => simpa using Pieces.nil
  | line open_ later ih =>
    cases count with
    | zero => exact .line open_ later
    | succ count => exact ih count

theorem Pieces.take (pieces : Pieces lines) (count : Nat) : Pieces (lines.take count) := by
  induction pieces generalizing count with
  | nil => simpa using Pieces.nil
  | last some_ open_ =>
    cases count with
    | zero => exact .nil
    | succ count => simpa using Pieces.last some_ open_
  | line open_ later ih =>
    cases count with
    | zero => exact .nil
    | succ count => exact .line open_ (ih count)

theorem Pieces.marked (pieces : Pieces lines) {lead : Nat → List Char}
    (open_ : ∀ index, '\n' ∉ lead index) (start : Nat) :
    Pieces ((lines.zipIdx start).map fun entry => lead entry.2 ++ entry.1) := by
  induction pieces generalizing start with
  | nil => exact .nil
  | last some_ apart =>
    refine .last (append_ne_nil_of_right_ne_nil _ some_) ?_
    simpa using ⟨open_ start, apart⟩
  | @line body rest apart _ ih =>
    rw [zipIdx_cons, map_cons, ← append_assoc]
    exact .line (by simpa using ⟨open_ start, apart⟩) (ih (start + 1))

theorem Pieces.heads (pieces : Pieces lines) {place : Nat} (inside : place < lines.length) :
    ((lines.take place).flatten = [] ∨ (lines.take place).flatten.getLast? = some '\n') ∧
      (lines.take place).flatten.count '\n' = place := by
  induction pieces generalizing place with
  | nil => cases inside
  | last _ _ =>
    obtain rfl := Nat.lt_one_iff.mp inside
    exact ⟨.inl rfl, rfl⟩
  | @line body rest open_ _ ih =>
    cases place with
    | zero => exact ⟨.inl rfl, rfl⟩
    | succ place =>
      obtain ⟨ends, count⟩ := ih (Nat.lt_of_succ_lt_succ inside)
      rw [take_succ_cons, flatten_cons]
      refine ⟨.inr ?_, ?_⟩
      · rcases ends with empty | ended
        · rw [empty, append_nil, getLast?_concat]
        · rw [getLast?_append, ended]
          rfl
      · rw [count_append, count, count_append, count_eq_zero.mpr open_, count_singleton_self]
        omega

end Runs

end Copied

namespace Replacement

open Copied

/-- A passage in a text, at the beginning of the line at an index. -/
def BeginsLine (text passage : List Char) (line : Nat) : Prop :=
  ∃ before after, text = before ++ passage ++ after ∧
    (before = [] ∨ before.getLast? = some '\n') ∧ before.count '\n' = line

/-- An occurrence of the passage, counted from the left with none over another, that begins before
`before` ends and reaches past it. -/
def Overlapped (text passage before : List Char) : Prop :=
  ∃ earlier ∈ beforesFrom passage [] 0 text,
    earlier.length < before.length ∧ before.length < earlier.length + passage.length

instance (text passage before : List Char) : Decidable (Overlapped text passage before) :=
  inferInstanceAs (Decidable (∃ earlier ∈ beforesFrom passage [] 0 text, _ ∧ _))

theorem contains_of_parts (before old after : List Char) :
    contains old (before ++ old ++ after) = true := by
  induction before with
  | nil =>
    rw [nil_append, contains]
    cases whole : old ++ after with
    | nil =>
      rw [(append_eq_nil_iff.mp whole).1]
      rfl
    | cons c rest =>
      have starts : old.isPrefixOf (c :: rest) = true :=
        isPrefixOf_iff_prefix.mpr (whole ▸ prefix_append old after)
      rw [aroundFirst, if_pos starts]
      rfl
  | cons c before ih =>
    rw [cons_append, cons_append, contains, aroundFirst]
    split
    · rfl
    · rw [Option.isSome_map]
      exact ih

theorem parts_of_mem_beforesFrom {old before : List Char} {passed : List Char} {skip : Nat}
    {text : List Char} (member : before ∈ beforesFrom old passed skip text) :
    ∃ after, passed ++ text = before ++ old ++ after := by
  induction text generalizing passed skip with
  | nil => cases skip <;> cases member
  | cons c rest ih =>
    cases skip with
    | succ skip =>
      obtain ⟨after, parts⟩ := ih member
      exact ⟨after, by rw [← parts, append_assoc, singleton_append]⟩
    | zero =>
      rw [beforesFrom] at member
      split at member
      · next starts =>
          rcases mem_cons.mp member with rfl | later
          · obtain ⟨after, whole⟩ := isPrefixOf_iff_prefix.mp starts
            exact ⟨after, by rw [← whole, append_assoc]⟩
          · obtain ⟨after, parts⟩ := ih later
            exact ⟨after, by rw [← parts, append_assoc, singleton_append]⟩
      · obtain ⟨after, parts⟩ := ih member
        exact ⟨after, by rw [← parts, append_assoc, singleton_append]⟩

theorem counted_or_overlapped {old : List Char} (some_ : old ≠ []) (middle after : List Char)
    {passed : List Char} {skip : Nat} {text : List Char} (parts : text = middle ++ old ++ after) :
    passed ++ middle ∈ beforesFrom old passed skip text ∨ middle.length < skip ∨
      ∃ earlier ∈ beforesFrom old passed skip text, earlier.length < passed.length + middle.length ∧
        passed.length + middle.length < earlier.length + old.length := by
  induction text generalizing passed skip middle with
  | nil =>
    have empty := append_eq_nil_iff.mp parts.symm
    exact absurd (append_eq_nil_iff.mp empty.1).2 some_
  | cons c rest ih =>
    cases middle with
    | nil =>
      cases skip with
      | succ skip => exact .inr (.inl (Nat.succ_pos skip))
      | zero =>
        have starts : old.isPrefixOf (c :: rest) = true :=
          isPrefixOf_iff_prefix.mpr ⟨after, by rw [parts, nil_append]⟩
        rw [beforesFrom, if_pos starts, append_nil]
        exact .inl mem_cons_self
    | cons d middle =>
      rw [cons_append, cons_append, List.cons.injEq] at parts
      obtain ⟨rfl, parts⟩ := parts
      have onward : ∀ (others : List (List Char)) (skip : Nat),
          (∀ one ∈ beforesFrom old (passed ++ [c]) skip rest, one ∈ others) →
          (middle.length < skip → ∃ earlier ∈ others,
            earlier.length < passed.length + (middle.length + 1) ∧
              passed.length + (middle.length + 1) < earlier.length + old.length) →
          passed ++ c :: middle ∈ others ∨ ∃ earlier ∈ others,
            earlier.length < passed.length + (middle.length + 1) ∧
              passed.length + (middle.length + 1) < earlier.length + old.length := by
        intro others skip within skipped
        rcases @ih middle (passed ++ [c]) skip parts with counted | short | ⟨earlier, member, low, high⟩
        · refine .inl (within _ ?_)
          rwa [append_assoc, singleton_append] at counted
        · exact .inr (skipped short)
        · rw [length_append, length_singleton] at low high
          exact .inr ⟨earlier, within _ member, by omega, by omega⟩
      cases skip with
      | succ skip =>
        by_cases short : middle.length < skip
        · exact .inr (.inl (by simpa using short))
        · rcases onward _ skip (fun _ member => member) (fun short' => absurd short' short) with counted | overlapped
          · exact .inl counted
          · exact .inr (.inr overlapped)
      | zero =>
        rw [beforesFrom]
        split
        · have room : 0 < old.length := length_pos_of_ne_nil some_
          rcases onward _ (old.length - 1) (fun _ => mem_cons_of_mem passed) (fun short =>
            ⟨passed, mem_cons_self, by omega, by omega⟩) with counted | overlapped
          · exact .inl counted
          · exact .inr (.inr overlapped)
        · rcases onward _ 0 (fun _ member => member)
            (fun short => absurd short (Nat.not_lt_zero _)) with counted | overlapped
          · exact .inl counted
          · exact .inr (.inr overlapped)

theorem mem_beforesFrom {text passage before after : List Char} (some_ : passage ≠ [])
    (parts : text = before ++ passage ++ after) (alone : ¬Overlapped text passage before) :
    before ∈ beforesFrom passage [] 0 text := by
  rcases @counted_or_overlapped passage some_ before after [] 0 text parts with counted | short | over_
  · simpa using counted
  · cases short
  · simp only [length_nil, Nat.zero_add] at over_
    exact absurd over_ alone

theorem beginsOnLine_of_counted {text passage before : List Char} (some_ : passage ≠ [])
    (counted : before ∈ beforesFrom passage [] 0 text)
    (heads : before = [] ∨ before.getLast? = some '\n') :
    beginsOnLine text passage (before.count '\n') = true := by
  unfold beginsOnLine
  rw [Bool.and_eq_true]
  refine ⟨by simpa using some_, any_eq_true.mpr ⟨before, counted, ?_⟩⟩
  simpa using heads

theorem beginsLine_of_beginsOnLine {text passage : List Char} {line : Nat}
    (begins : beginsOnLine text passage line = true) : BeginsLine text passage line := by
  unfold beginsOnLine at begins
  rw [Bool.and_eq_true] at begins
  obtain ⟨before, counted, heads⟩ := any_eq_true.mp begins.2
  obtain ⟨after, parts⟩ := parts_of_mem_beforesFrom counted
  rw [Bool.and_eq_true, Bool.or_eq_true, List.isEmpty_iff, decide_eq_true_eq, decide_eq_true_eq]
    at heads
  exact ⟨before, after, parts, heads.1, heads.2⟩

end Replacement

namespace Read

open Copied

/-- What stands before the line with a number, in a passage whose first line is numbered `first`. -/
def lead (first number : Nat) : List Char :=
  if isMarked first number then Text.decimal number ++ [markEnd] else []

/-- Lines as they are drawn from index `start` on, in an answer whose first line is numbered
`first`. -/
def run (first start : Nat) (lines : List (List Char)) : List (List Char) :=
  (lines.zipIdx start).map fun entry => lead first (entry.2 + 1) ++ entry.1

theorem run_cons (first start : Nat) (line : List Char) (rest : List (List Char)) :
    run first start (line :: rest) = (lead first (start + 1) ++ line) :: run first (start + 1) rest :=
  rfl

theorem drawLines_some {first at_ : Nat} {lines drawn : List (List Char)}
    (found : drawLines .fromOne first at_ lines = some drawn) :
    (∀ place < lines.length, at_ + place + 1 < 2 ^ 64) ∧ drawn = run (first + 1) at_ lines := by
  induction lines generalizing at_ drawn with
  | nil =>
    cases found
    exact ⟨fun place inside => absurd inside (Nat.not_lt_zero place), rfl⟩
  | cons line rest ih =>
    simp only [drawLines, pushLine, Numbering.shown, bind_eq_bind, bind_eq_some_iff] at found
    obtain ⟨_, ⟨number, shown, top, shownTop, pushed⟩, others, later, same⟩ := found
    split at shown
    · next fits =>
        split at shownTop
        · cases shown
          cases shownTop
          cases pushed
          cases same
          obtain ⟨fit, rfl⟩ := ih later
          refine ⟨fun place inside => ?_, rfl⟩
          cases place with
          | zero => exact fits
          | succ place =>
            have next_ := fit place (Nat.lt_of_succ_lt_succ inside)
            omega
        · cases shownTop
    · cases shown

theorem run_drop (first start : Nat) (lines : List (List Char)) (count : Nat) :
    (run first start lines).drop count = run first (start + count) (lines.drop count) := by
  induction lines generalizing start count with
  | nil => simp [run]
  | cons line rest ih =>
    cases count with
    | zero => rfl
    | succ count =>
      rw [run_cons, drop_succ_cons, drop_succ_cons, ih]
      congr 1
      omega

theorem run_take (first start : Nat) (lines : List (List Char)) (count : Nat) :
    (run first start lines).take count = run first start (lines.take count) := by
  induction lines generalizing start count with
  | nil => simp [run]
  | cons line rest ih =>
    cases count with
    | zero => rfl
    | succ count => rw [run_cons, take_succ_cons, take_succ_cons, ih, run_cons]

theorem lead_open (first number : Nat) : '\n' ∉ lead first number := by
  unfold lead
  split
  · simpa [markEnd] using not_mem_decimal (by decide) number
  · exact not_mem_nil

end Read

namespace Copied

open Read

/-- Whether a line itself starts with digits and a bar. -/
def looksMarked (line : List Char) : Bool :=
  line.head?.any Char.isDigit && (line.dropWhile Char.isDigit).head? = some markEnd

theorem parseDigits_decimal {bound value : Nat} (bounded : value < bound) :
    parseDigits bound (Text.decimal value) = some value := by
  rw [← parseUnsigned_of_digits (decimal_digits value), parseUnsigned_decimal bounded]

variable {line : List Char}

theorem mark_of_clean (clean : looksMarked line = false) :
    (readLine line).mark = none := by
  unfold readLine
  simp only [bind_eq_bind, Option.bind_eq_none_iff]
  intro number spelled
  have some_ : line.takeWhile Char.isDigit ≠ [] := by
    intro empty
    rw [empty] at spelled
    cases spelled
  have digit : line.head?.any Char.isDigit = true := by
    cases line with
    | nil => exact absurd rfl some_
    | cons c rest =>
      by_contra other
      exact some_ (by simpa using other)
  rw [looksMarked, digit, Bool.true_and, decide_eq_false_iff_not] at clean
  split
  · next c rest found =>
      rw [found, head?_cons] at clean
      rw [if_neg fun same => clean (congrArg some same)]
  · rfl

theorem mark_of_drawn {first number : Nat} (bounded : number < 2 ^ 64)
    (clean : looksMarked line = false) :
    (readLine (lead first number ++ line)).mark =
      if isMarked first number then some (number, line) else none := by
  unfold lead
  split
  · have taken : (Text.decimal number ++ [markEnd] ++ line).takeWhile Char.isDigit =
        Text.decimal number := by
      rw [append_assoc, takeWhile_append_of_pos (decimal_digits number)]
      simp [markEnd]
    have left : (Text.decimal number ++ [markEnd] ++ line).dropWhile Char.isDigit =
        markEnd :: line := by
      rw [append_assoc, dropWhile_append_of_pos (decimal_digits number)]
      simp [markEnd]
    simp only [readLine, taken, left, parseDigits_decimal bounded, bind_eq_bind, bind_some,
      if_true]
  · exact mark_of_clean clean

theorem isMarked_later {first start number : Nat} (marked : isMarked first number = true)
    (low : first ≤ start) (high : start ≤ number) : isMarked start number = true := by
  simp only [isMarked, Bool.or_eq_true, decide_eq_true_eq] at marked ⊢
  omega

section Drawn

variable {first start : Nat} {own : List (List Char)}

theorem of_run (pieces : Pieces own) :
    Copied.of (run first start own).flatten .current =
      { lines := (run first start own).map readLine, numbering := .current } := by
  have drawn : Pieces (run first start own) := pieces.marked (fun _ => lead_open _ _) start
  rw [Copied.of, splitInclusive_flatten drawn]

theorem zipIdx_run (first start at_ : Nat) (own : List (List Char)) :
    ((run first (start + at_) own).map readLine).zipIdx at_ =
      (own.zipIdx (start + at_)).map fun entry =>
        (readLine (lead first (entry.2 + 1) ++ entry.1), entry.2 - start) := by
  induction own generalizing at_ with
  | nil => rfl
  | cons line rest ih =>
    rw [run_cons, map_cons, zipIdx_cons, zipIdx_cons, map_cons, Nat.add_sub_cancel_left]
    exact congrArg _ (ih (at_ + 1))

theorem zipIdx_of_run (pieces : Pieces own) :
    (Copied.of (run first start own).flatten .current).lines.zipIdx =
      (own.zipIdx start).map fun entry =>
        (readLine (lead first (entry.2 + 1) ++ entry.1), entry.2 - start) := by
  rw [of_run pieces]
  exact zipIdx_run first start 0 own

variable (low : first ≤ start + 1) (clean : ∀ line ∈ own, looksMarked line = false)
  (fit : ∀ place < own.length, start + place + 1 < 2 ^ 64)
include low clean fit

variable {entry : List Char × Nat}

theorem mark_of_entry (member : entry ∈ own.zipIdx start) :
    start ≤ entry.2 ∧ entry.2 + 1 < 2 ^ 64 ∧
      (isMarked first (entry.2 + 1) = true → isMarked (start + 1) (entry.2 + 1) = true) ∧
      (readLine (lead first (entry.2 + 1) ++ entry.1)).mark =
        if isMarked first (entry.2 + 1) then some (entry.2 + 1, entry.1) else none := by
  have after := le_snd_of_mem_zipIdx member
  have before := snd_lt_of_mem_zipIdx member
  have bounded : entry.2 + 1 < 2 ^ 64 := by
    have here := fit (entry.2 - start) (by omega)
    omega
  refine ⟨after, bounded, fun marked => isMarked_later marked low (by omega), ?_⟩
  exact mark_of_drawn bounded (clean entry.1 (fst_mem_of_mem_zipIdx member))

theorem drawn_entry (member : entry ∈ own.zipIdx start) :
    drawn (start + 1) (readLine (lead first (entry.2 + 1) ++ entry.1)) (entry.2 - start) =
      if isMarked first (entry.2 + 1) then some (entry.2 + 1, entry.1) else none := by
  obtain ⟨after, bounded, marks, mark⟩ := mark_of_entry low clean fit member
  rw [drawn, mark]
  split
  · next marked =>
      rw [Option.filter_some, if_pos]
      simp only [marks marked, Bool.and_true, Bool.and_eq_true, decide_eq_true_eq]
      omega
  · rfl

theorem starts_run (pieces : Pieces own)
    (some_ : ∃ entry ∈ own.zipIdx start, isMarked first (entry.2 + 1) = true) :
    (Copied.of (run first start own).flatten .current).starts = [start] := by
  have found : (Copied.of (run first start own).flatten .current).starts =
      ((own.zipIdx start).filterMap fun entry =>
        if isMarked first (entry.2 + 1) then some start else none).dedup.mergeSort := by
    rw [Copied.starts, zipIdx_of_run pieces, filterMap_map]
    congr 2
    refine filterMap_congr fun entry member => ?_
    obtain ⟨after, bounded, marks, mark⟩ := mark_of_entry low clean fit member
    simp only [Function.comp_apply, mark]
    split
    · next marked =>
        have first_ : entry.2 + 1 - (entry.2 - start) = start + 1 := by omega
        simp only [bind_eq_bind, bind_some, first_, marks marked, and_true]
        rw [if_pos (by omega)]
        rfl
    · rfl
  have same : ∀ value ∈ (own.zipIdx start).filterMap (fun entry =>
      if isMarked first (entry.2 + 1) then some start else none), value = start := by
    intro value member
    obtain ⟨entry, -, picked⟩ := mem_filterMap.mp member
    split at picked
    · exact (Option.some.inj picked).symm
    · cases picked
  have nonempty : (own.zipIdx start).filterMap (fun entry =>
      if isMarked first (entry.2 + 1) then some start else none) ≠ [] := by
    obtain ⟨entry, member, marked⟩ := some_
    exact ne_nil_of_mem (mem_filterMap.mpr ⟨entry, member, if_pos marked⟩)
  rw [found, eq_replicate_of_mem same, replicate_dedup, mergeSort_singleton]
  exact fun zero => nonempty (length_eq_zero_iff.mp zero)

theorem drawnFrom_run (pieces : Pieces own)
    (some_ : ∃ entry ∈ own.zipIdx start, isMarked first (entry.2 + 1) = true) :
    ∃ numbers, (Copied.of (run first start own).flatten .current).drawnFrom start =
      some (own.flatten, numbers) := by
  obtain ⟨entry, member, marked⟩ := some_
  have bounded := (mark_of_entry low clean fit member).2.1
  have after := (mark_of_entry low clean fit member).1
  have marks : (Copied.of (run first start own).flatten .current).lines.zipIdx.map
      (fun entry => (entry.1, drawn (start + 1) entry.1 entry.2)) =
      (own.zipIdx start).map fun entry => (readLine (lead first (entry.2 + 1) ++ entry.1),
        if isMarked first (entry.2 + 1) then some (entry.2 + 1, entry.1) else none) := by
    rw [zipIdx_of_run pieces, map_map]
    refine map_congr_left fun entry member => ?_
    rw [Function.comp_apply, drawn_entry low clean fit member]
  have shown : (Copied.of (run first start own).flatten .current).numbering.shown start =
      some (start + 1) := if_pos (by omega)
  have bare : ((own.zipIdx start).map fun entry => (readLine (lead first (entry.2 + 1) ++ entry.1),
      if isMarked first (entry.2 + 1) then some (entry.2 + 1, entry.1) else none)).flatMap
        (fun entry => (entry.2.map Prod.snd).getD entry.1.whole) = own.flatten := by
    rw [flatMap_map]
    have each : ∀ entry ∈ own.zipIdx start,
        (((if isMarked first (entry.2 + 1) then some (entry.2 + 1, entry.1) else none :
          Option (Nat × List Char)).map Prod.snd).getD
            (readLine (lead first (entry.2 + 1) ++ entry.1)).whole) = entry.1 := by
      intro entry _
      unfold lead readLine
      split <;> rfl
    rw [flatMap_congr each, flatMap_def, zipIdx_map_fst]
  rw [Copied.drawnFrom, shown]
  simp only [bind_eq_bind, bind_some, marks]
  rw [if_neg, bare]
  · exact ⟨_, rfl⟩
  · rw [List.isEmpty_iff]
    refine ne_nil_of_mem (a := entry.2 + 1) (mem_filterMap.mpr ⟨_, mem_map.mpr ⟨entry, member, rfl⟩, ?_⟩)
    rw [if_pos marked]
    rfl

end Drawn

end Copied

namespace ReadRequest

variable (request : ReadRequest) (path file : List Char)

theorem answer_text : (request.answer path file).get "text" = some (.str (request.cut file).text) := by
  unfold answer
  generalize request.cut file = taken
  obtain ⟨text, total, next⟩ := taken
  split <;> cases total <;> cases next <;> simp [Json.get, lookup_cons]

theorem answer_offset : (request.answer path file).get "offset" =
    if request.offset = 0 then none else some (.num request.offset) := by
  unfold answer
  generalize request.cut file = taken
  obtain ⟨text, total, next⟩ := taken
  split <;> cases total <;> cases next <;> simp [Json.get, lookup_cons]

theorem lines_of_cut : ∃ taken, Copied.splitInclusive (request.cut file).text =
    ((Copied.splitInclusive file).drop request.offset).take taken := by
  unfold cut
  simp only
  split
  · next none_ =>
      rw [List.isEmpty_iff] at none_
      exact ⟨0, rfl⟩
  · have pieces := ((Copied.pieces_splitInclusive file).drop request.offset).take
      (fitting request.limit 0 0 ((Copied.splitInclusive file).drop request.offset))
    exact ⟨_, Copied.splitInclusive_flatten pieces⟩

end ReadRequest

namespace Read

open Copied

theorem drawing_lines {request : ReadRequest} {path file : List Char} {shown : Drawing}
    (drawn : drawing (request.answer path file) .current = some shown) :
    ∃ taken, shown.lines = run (request.offset + 1) request.offset
        (((splitInclusive file).drop request.offset).take taken) ∧
      ∀ place < (((splitInclusive file).drop request.offset).take taken).length,
        request.offset + place + 1 < 2 ^ 64 := by
  obtain ⟨taken, lines⟩ := request.lines_of_cut file
  refine ⟨taken, ?_⟩
  unfold drawing at drawn
  simp only [bind_eq_bind, bind_eq_some_iff] at drawn
  obtain ⟨path', -, _, -, body', text, body, same, offset, found, total, -, next, -, header, -,
    others, linesDrawn, made⟩ := drawn
  cases made
  rw [request.answer_text] at text
  cases text
  cases same
  have start : offset.getD 0 = request.offset := by
    rw [request.answer_offset] at found
    by_cases zero : request.offset = 0
    · rw [if_pos zero] at found
      cases found
      exact zero.symm
    · rw [if_neg zero, number, Json.asU64_natCast] at found
      split at found
      · cases found
        rfl
      · cases found
  rw [start, lines] at linesDrawn
  obtain ⟨fit, rfl⟩ := drawLines_some linesDrawn
  exact ⟨rfl, fit⟩

end Read

namespace Replacement

open Copied Read

theorem run_spelled {file new : List Char} {first start count : Nat} (low : first ≤ start + 1)
    (clean : ∀ line ∈ ((splitInclusive file).drop start).take count, looksMarked line = false)
    (fit : ∀ place < (((splitInclusive file).drop start).take count).length,
      start + place + 1 < 2 ^ 64)
    (absent : contains (run first start (((splitInclusive file).drop start).take count)).flatten file
      = false)
    (alone : ¬Overlapped file (((splitInclusive file).drop start).take count).flatten
      ((splitInclusive file).take start).flatten) :
    (asTheFileSpells file (run first start (((splitInclusive file).drop start).take count)).flatten
      new).1 = (((splitInclusive file).drop start).take count).flatten := by
  have whole := pieces_splitInclusive file
  have pieces := (whole.drop start).take count
  have parts : file = ((splitInclusive file).take start).flatten ++
      (((splitInclusive file).drop start).take count).flatten ++
        (((splitInclusive file).drop start).drop count).flatten := by
    rw [← flatten_append, ← flatten_append, append_assoc, take_append_drop,
      take_append_drop, flatten_splitInclusive]
  generalize owned : ((splitInclusive file).drop start).take count = own at *
  -- Without a mark the run would be the file's own lines.
  have some_ : ∃ entry ∈ own.zipIdx start, isMarked first (entry.2 + 1) = true := by
    by_contra none_
    have bare : run first start own = own := by
      have each : ∀ entry ∈ own.zipIdx start, lead first (entry.2 + 1) ++ entry.1 = entry.1 := by
        intro entry member
        rw [lead, if_neg fun marked => none_ ⟨entry, member, marked⟩, nil_append]
      rw [run, map_congr_left each, zipIdx_map_fst]
    rw [bare] at absent
    have inside := contains_of_parts ((splitInclusive file).take start).flatten own.flatten
      (((splitInclusive file).drop start).drop count).flatten
    rw [← parts, absent] at inside
    cases inside
  obtain ⟨numbers, found⟩ := drawnFrom_run low clean fit pieces some_
  have starts := starts_run low clean fit pieces some_
  have begins : beginsOnLine file own.flatten start = true := by
    obtain ⟨entry, member, -⟩ := some_
    have lines : own ≠ [] := ne_nil_of_mem (fst_mem_of_mem_zipIdx member)
    have inside : start < (splitInclusive file).length := by
      by_contra past
      rw [drop_eq_nil_of_le (Nat.le_of_not_lt past), take_nil] at owned
      exact lines owned.symm
    obtain ⟨heads, count_⟩ := whole.heads inside
    have nonempty : own.flatten ≠ [] := by
      intro empty
      rw [← splitInclusive_flatten pieces, empty] at lines
      exact lines rfl
    have counted := beginsOnLine_of_counted nonempty (mem_beforesFrom nonempty parts alone) heads
    rwa [count_] at counted
  unfold asTheFileSpells
  rw [if_neg (by rw [absent]; exact Bool.false_ne_true)]
  simp only [starts, filterMap_cons, filterMap_nil, found, begins, bind_eq_bind,
    bind_some, if_true]

/-- The first of a passage's marks that are taken off where its first line has an index: where in the
passage it stands, and the number it spells. -/
def firstTaken (copied : Copied) (start : Nat) : Option (Nat × Nat) :=
  copied.lines.zipIdx.findSome? fun (line, at_) =>
    (drawn (start + 1) line at_).map fun mark => (at_, mark.1)

theorem firstTaken_of_drawnFrom {copied : Copied} {start : Nat} {bare : List Char}
    {numbers : List Nat} (current : copied.numbering = .current)
    (taken : copied.drawnFrom start = some (bare, numbers)) :
    ∃ at_ number, firstTaken copied start = some (at_, number) ∧ number = start + 1 + at_ := by
  simp only [Copied.drawnFrom, current, Numbering.current, Numbering.shown, bind_eq_bind,
    bind_eq_some_iff] at taken
  obtain ⟨first, shown, taken⟩ := taken
  split at shown
  · cases shown
    split at taken
    · cases taken
    · next some_ =>
        have any : firstTaken copied start ≠ none := by
          intro none_
          apply some_
          rw [List.isEmpty_iff, filterMap_eq_nil_iff]
          intro entry inside
          obtain ⟨⟨line, at_⟩, here, rfl⟩ := mem_map.mp inside
          have silent := findSome?_eq_none_iff.mp none_ (line, at_) here
          simpa using silent
        obtain ⟨⟨at_, number⟩, first⟩ := Option.ne_none_iff_exists'.mp any
        refine ⟨at_, number, first, ?_⟩
        obtain ⟨⟨line, place⟩, -, marked⟩ := exists_of_findSome?_eq_some first
        obtain ⟨mark, drawn_, same⟩ := Option.map_eq_some_iff.mp marked
        cases same
        have spelled := (Option.filter_eq_some_iff.mp drawn_).2
        simp only [Bool.and_eq_true, decide_eq_true_eq] at spelled
        exact spelled.1.2.symm
  · cases shown

theorem asTheFileSpells_cases (text old new : List Char) :
    asTheFileSpells text old new = (old, new) ∨
      ∃ start bare numbers, (Copied.of old .current).drawnFrom start = some (bare, numbers) ∧
        beginsOnLine text bare start = true ∧
        asTheFileSpells text old new = (bare, (Copied.of new .current).without numbers) := by
  unfold asTheFileSpells
  split
  · exact .inl rfl
  · simp only
    split
    · next bare numbers single =>
        have member := mem_singleton_self (bare, numbers)
        rw [← single] at member
        obtain ⟨start, -, confirmed⟩ := mem_filterMap.mp member
        simp only [bind_eq_bind, bind_eq_some_iff] at confirmed
        obtain ⟨⟨bare', numbers'⟩, found, confirmed⟩ := confirmed
        split at confirmed
        · next begins =>
            cases confirmed
            exact .inr ⟨start, _, _, found, begins, rfl⟩
        · cases confirmed
    · exact .inl rfl

theorem changed_found {text old new : List Char} (changed : (asTheFileSpells text old new).1 ≠ old) :
    ∃ start numbers at_ number, (Copied.of old .current).drawnFrom start =
        some ((asTheFileSpells text old new).1, numbers) ∧
      firstTaken (Copied.of old .current) start = some (at_, number) ∧ number = start + 1 + at_ ∧
      BeginsLine text (asTheFileSpells text old new).1 start := by
  rcases asTheFileSpells_cases text old new with same | ⟨start, bare, numbers, found, begins, spelled⟩
  · exact absurd (congrArg Prod.fst same) changed
  · obtain ⟨at_, number, first, counted⟩ := firstTaken_of_drawnFrom rfl found
    rw [spelled]
    exact ⟨start, numbers, at_, number, found, first, counted, beginsLine_of_beginsOnLine begins⟩

/-- An edit may quote what a read showed: a run of an answer's lines is spelled as the file has it,
and a passage that is changed is one of the file, on the line its first mark places it on. -/
theorem quotes_found :
    (∀ (request : ReadRequest) (path file new : List Char) (shown : Drawing),
      drawing (request.answer path file) .current = some shown →
      ∀ place count, place + count ≤ shown.lines.length →
      (∀ line ∈ ((splitInclusive file).drop (request.offset + place)).take count,
        looksMarked line = false) →
      contains ((shown.lines.drop place).take count).flatten file = false →
      ¬Overlapped file (((splitInclusive file).drop (request.offset + place)).take count).flatten
        ((splitInclusive file).take (request.offset + place)).flatten →
      (asTheFileSpells file ((shown.lines.drop place).take count).flatten new).1 =
        (((splitInclusive file).drop (request.offset + place)).take count).flatten) ∧
    ∀ text old new : List Char, (asTheFileSpells text old new).1 ≠ old →
      ∃ start numbers at_ number, (Copied.of old .current).drawnFrom start =
          some ((asTheFileSpells text old new).1, numbers) ∧
        firstTaken (Copied.of old .current) start = some (at_, number) ∧ number = start + 1 + at_ ∧
        BeginsLine text (asTheFileSpells text old new).1 start := by
  refine ⟨?_, fun text old new changed => changed_found changed⟩
  intro request path file new shown drawn place count inside clean absent alone
  obtain ⟨taken, lines, fit⟩ := drawing_lines drawn
  have size : shown.lines.length =
      (((splitInclusive file).drop request.offset).take taken).length := by
    rw [lines, run, length_map, length_zipIdx]
  have own : ((((splitInclusive file).drop request.offset).take taken).drop place).take count =
      ((splitInclusive file).drop (request.offset + place)).take count := by
    rw [size, length_take] at inside
    rw [drop_take, take_take, drop_drop, Nat.min_eq_left (by omega)]
  have quoted : (shown.lines.drop place).take count =
      run (request.offset + 1) (request.offset + place)
        (((splitInclusive file).drop (request.offset + place)).take count) := by
    rw [lines, run_drop, run_take, own]
  rw [quoted] at absent ⊢
  refine run_spelled (by omega) clean (fun at_ within => ?_) absent alone
  have bound := fit (place + at_) (by
    rw [length_take] at within
    omega)
  omega

def letters : List Char := "a\nb\nc\nd\ne\nf\ng\nh\ni\nj\n".toList

def wholeFile : ReadRequest where
  offset := 0
  limit := 512
  windowed := false

/-- What a read of the letters shows. -/
def lettersShown : Drawing where
  header := "l lines 1-10 of 10".toList
  lines := ["1|a\n".toList, "b\n".toList, "c\n".toList, "d\n".toList, "e\n".toList, "f\n".toList,
    "g\n".toList, "h\n".toList, "i\n".toList, "10|j\n".toList]

theorem quotes_found_letters :
    (asTheFileSpells letters ((lettersShown.lines.drop 8).take 2).flatten []).1 =
        (((splitInclusive letters).drop (wholeFile.offset + 8)).take 2).flatten ∧
      ∃ start numbers at_ number, (Copied.of "i\n10|j\n".toList .current).drawnFrom start =
          some ((asTheFileSpells letters "i\n10|j\n".toList []).1, numbers) ∧
        firstTaken (Copied.of "i\n10|j\n".toList .current) start = some (at_, number) ∧
        number = start + 1 + at_ ∧
        BeginsLine letters (asTheFileSpells letters "i\n10|j\n".toList []).1 start :=
  ⟨quotes_found.1 wholeFile "l".toList letters [] lettersShown (by decide +kernel) 8 2
      (by decide +kernel) (by decide +kernel) (by decide +kernel) (by decide +kernel),
    quotes_found.2 letters "i\n10|j\n".toList [] (by decide +kernel)⟩

def sameLines : List Char := (List.replicate 12 "a\n".toList).flatten

/-- The two lines from line 10 on are not counted apart from those before, and stay as they came; and
the passage above, whose second line is marked 10, begins on line 9. -/
theorem quotes_not_found :
    (¬∀ (request : ReadRequest) (path file new : List Char) (shown : Drawing),
      drawing (request.answer path file) .current = some shown →
      ∀ place count, place + count ≤ shown.lines.length →
      (∀ line ∈ ((splitInclusive file).drop (request.offset + place)).take count,
        looksMarked line = false) →
      contains ((shown.lines.drop place).take count).flatten file = false →
      (asTheFileSpells file ((shown.lines.drop place).take count).flatten new).1 =
        (((splitInclusive file).drop (request.offset + place)).take count).flatten) ∧
    ¬∀ text old new : List Char, (asTheFileSpells text old new).1 ≠ old →
      ∀ number, (Copied.of old .current).lines.findSome? (·.mark.map Prod.fst) = some number →
        BeginsLine text (asTheFileSpells text old new).1 (number - 1) := by
  refine ⟨fun every => ?_, fun every => ?_⟩
  · have spelled := every wholeFile "l".toList sameLines []
      { header := "l lines 1-12 of 12".toList
        lines := "1|a\n".toList :: List.replicate 8 "a\n".toList ++
          ["10|a\n".toList, "a\n".toList, "a\n".toList] }
      (by decide +kernel) 9 2 (by decide +kernel) (by decide +kernel) (by decide +kernel)
    revert spelled
    decide +kernel
  · obtain ⟨before, after, parts, -, count⟩ :=
      every letters "i\n10|j\n".toList [] (by decide +kernel) 10 (by decide +kernel)
    have bare : (asTheFileSpells letters "i\n10|j\n".toList []).1 = "i\nj\n".toList := by
      decide +kernel
    have ends := congrArg (List.count '\n') parts
    rw [bare, count_append, count_append, count,
      show letters.count '\n' = 10 by decide +kernel,
      show "i\nj\n".toList.count '\n' = 2 by decide +kernel] at ends
    omega

end Replacement

end Sprawling
