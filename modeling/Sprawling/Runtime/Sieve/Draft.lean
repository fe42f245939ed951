import Sprawling.Runtime.Sieve.Changes

/-! The stages of a sieve up to its truncation, each accepted only when it did not grow the text. -/

namespace Sprawling

namespace Sieve

open Utf8 (byteLen)
open Selection (Item Tells)

/-- One entry of a filter table, without the two counts only the truncation reads. -/
structure Filter where
  id : Line
  command : Line
  subcommands : List Line
  stripAnsi : Bool
  dropPrefix : List Line
  dropContains : List Line
  dropSuffix : List Line
  keepPrefix : List Line
  keepContains : List Line
  keepSuffix : List Line
  groupUntilBlank : Bool
  onEmpty : Option Line

namespace Filter

def keeps (filter : Filter) (line : Line) : Bool :=
  (filter.keepPrefix.any fun part => part.isPrefixOf line) ||
    (filter.keepContains.any fun part => Replacement.contains part line) ||
      filter.keepSuffix.any fun part => part.isSuffixOf line

def drops (filter : Filter) (line : Line) : Bool :=
  (filter.dropPrefix.any fun part => part.isPrefixOf line) ||
    (filter.dropContains.any fun part => Replacement.contains part line) ||
      filter.dropSuffix.any fun part => part.isSuffixOf line

/-- The line said in place of nothing, for a command's subcommand and exit code. -/
def whenEmpty (filter : Filter) (subcommand : Option Line) (exitCode : Option Int) : Line :=
  let template := filter.onEmpty.getD "(no output kept), exit \x7bcode\x7d".toList
  let code := (exitCode.map fun code => (toString code).toList).getD "none".toList
  Replacement.replaceAll "\x7bcode\x7d".toList code
    (Replacement.replaceAll "\x7bsub\x7d".toList (subcommand.getD []) template)

/-- Whether the filter stage lets a line through. -/
def passes (filter : Filter) (line : Line) : Bool :=
  filter.keeps line || isProtected line || !filter.drops line

end Filter

inductive Stage where
  | stripAnsi
  | foldBlank
  | dedupTemplate
  | diffPrevious
  | filter
  | cutLongLine

inductive StageOutcome where
  | applied (bytesBefore bytesAfter : Nat)
  | noop
  | rejected (grewTo : Nat)
  | unavailable (reason : String)

structure StageReport where
  stage : Stage
  outcome : StageOutcome

/-- The text as it stands between stages, and the account of every stage so far. -/
structure Draft where
  lines : List Line
  account : List StageReport

namespace Draft

/-- A stage's result replaces the text only when it is not longer. -/
def accept (draft : Draft) (stage : Stage) (candidate : List Line) : Draft :=
  if candidate = draft.lines then { draft with account := draft.account ++ [⟨stage, .noop⟩] }
  else
    let before := bytesOf draft.lines
    let after := bytesOf candidate
    if after > before then { draft with account := draft.account ++ [⟨stage, .rejected after⟩] }
    else { lines := candidate, account := draft.account ++ [⟨stage, .applied before after⟩] }

def unavailable (draft : Draft) (stage : Stage) (reason : String) : Draft :=
  { draft with account := draft.account ++ [⟨stage, .unavailable reason⟩] }

def step (draft : Draft) (stage : Stage) (pass : List Line → List Line) : Draft :=
  draft.accept stage (pass draft.lines)

theorem accept_of_le {draft : Draft} {candidate : List Line} (stage : Stage)
    (shorter : bytesOf candidate ≤ bytesOf draft.lines) : (draft.accept stage candidate).lines = candidate := by
  simp only [accept]
  split
  · next same => exact same.symm
  · rw [if_neg (Nat.not_lt.mpr shorter)]

theorem accept_cases (draft : Draft) (stage : Stage) (candidate : List Line) :
    (draft.accept stage candidate).lines = candidate ∨ (draft.accept stage candidate).lines = draft.lines := by
  simp only [accept]
  split
  · exact Or.inr rfl
  · split
    · exact Or.inr rfl
    · exact Or.inl rfl

end Draft

section Stages

variable (isAlphanumeric : Char → Bool) (filter : Filter)

/-- The standing of each line the filter keeps, carried over the lines that follow it up to a blank one
when the filter groups. -/
def filterMarksFrom : (carried : Option Priority) → List Line → List (Option Priority)
  | _, [] => []
  | carried, line :: rest =>
    if filter.keeps line then
      let head := ((priority isAlphanumeric line).getD .warning).min .warning
      some head :: filterMarksFrom (if filter.groupUntilBlank then some head else none) rest
    else if isBlank line then none :: filterMarksFrom none rest
    else carried :: filterMarksFrom carried rest

def filterMarks (lines : List Line) : List (Option Priority) :=
  filterMarksFrom isAlphanumeric filter none lines

def exemptOf (lines : List Line) : List Bool := (filterMarks isAlphanumeric filter lines).map Option.isSome

def stripped (lines : List Line) : List Line := if filter.stripAnsi then stripAnsi lines else lines

/-- Stages 1 to 3 as one normalisation. -/
def normalised (lines : List Line) : List Line :=
  let folded := foldBlank (stripped filter lines)
  dedupTemplates folded (exemptOf isAlphanumeric filter folded)

/-- What the filter stage makes of the lines. -/
def filtered (subcommand : Option Line) (exitCode : Option Int) (now : List Line) : List Line :=
  let kept := now.filter filter.passes
  if kept.all isBlank then [filter.whenEmpty subcommand exitCode] else kept

/-- The draft after stages 1 to 3. -/
def normalising (lines : List Line) : Draft :=
  let draft : Draft := { lines, account := [] }
  let draft :=
    if filter.stripAnsi then draft.step .stripAnsi stripAnsi
    else draft.unavailable .stripAnsi "disabled by the filter"
  let draft := draft.step .foldBlank foldBlank
  draft.step .dedupTemplate fun now => dedupTemplates now (exemptOf isAlphanumeric filter now)

/-- The draft when the truncating stage begins; `previous` is the previous output normalised, or the
reason there is none. -/
def beforeTruncating (subcommand : Option Line) (exitCode : Option Int)
    (previous : Except String (List Line)) (lines : List Line) : Draft :=
  let draft := normalising isAlphanumeric filter lines
  let draft :=
    match previous with
    | .ok before => draft.step .diffPrevious fun now => onlyChanges now before
    | .error reason => draft.unavailable .diffPrevious reason
  let draft := draft.step .filter (filtered filter subcommand exitCode)
  draft.step .cutLongLine cutLongLines

end Stages

section Sieving

variable {isAlphanumeric : Char → Bool} {filter : Filter}

theorem bytesOf_stripped_le (lines : List Line) : bytesOf (stripped filter lines) ≤ bytesOf lines := by
  rw [stripped]
  split
  · exact bytesOf_stripAnsi_le lines
  · exact Nat.le_refl _

theorem lines_normalising (lines : List Line) :
    (normalising isAlphanumeric filter lines).lines = normalised isAlphanumeric filter lines := by
  have first : ∀ draft : Draft, (if filter.stripAnsi then draft.step .stripAnsi stripAnsi
      else draft.unavailable .stripAnsi "disabled by the filter").lines = stripped filter draft.lines := by
    intro draft
    rw [stripped]
    split
    · exact Draft.accept_of_le _ (bytesOf_stripAnsi_le _)
    · rfl
  simp only [normalising, normalised]
  rw [Draft.step, Draft.accept_of_le _ bytesOf_dedupTemplates_le, Draft.step,
    Draft.accept_of_le _ (bytesOf_foldBlank_le _), first]

theorem mem_beforeTruncating {subcommand : Option Line} {exitCode : Option Int}
    {previous : Except String (List Line)} {lines : List Line} {line : Line}
    (member : line ∈ normalised isAlphanumeric filter lines)
    (new : ∀ before, previous = .ok before → line ∉ before) (inked : isBlank line = false)
    (passes : filter.passes line = true) :
    line ∈ (beforeTruncating isAlphanumeric filter subcommand exitCode previous lines).lines ∨
      cutLongLine line ∈
        (beforeTruncating isAlphanumeric filter subcommand exitCode previous lines).lines := by
  have diffed : line ∈ (match previous with
      | .ok before => (normalising isAlphanumeric filter lines).step .diffPrevious
          fun now => onlyChanges now before
      | .error reason => (normalising isAlphanumeric filter lines).unavailable .diffPrevious
          reason).lines := by
    cases previous with
    | error reason =>
      change line ∈ (normalising isAlphanumeric filter lines).lines
      rwa [lines_normalising]
    | ok before =>
      change line ∈ ((normalising isAlphanumeric filter lines).accept _ _).lines
      rcases Draft.accept_cases (normalising isAlphanumeric filter lines) .diffPrevious
        (onlyChanges (normalising isAlphanumeric filter lines).lines before) with taken | left
      · rw [taken, lines_normalising]
        exact mem_onlyChanges member (new before rfl)
      · rwa [left, lines_normalising]
  simp only [beforeTruncating]
  generalize (match previous with
    | .ok before => (normalising isAlphanumeric filter lines).step .diffPrevious
        fun now => onlyChanges now before
    | .error reason => (normalising isAlphanumeric filter lines).unavailable .diffPrevious
        reason) = draft at diffed ⊢
  have kept : line ∈ (draft.step .filter (filtered filter subcommand exitCode)).lines := by
    rcases Draft.accept_cases draft .filter (filtered filter subcommand exitCode draft.lines)
      with taken | left
    · have listed : line ∈ draft.lines.filter filter.passes := List.mem_filter.mpr ⟨diffed, passes⟩
      have some_ink : (draft.lines.filter filter.passes).all isBlank = false := by
        rw [List.all_eq_false]
        exact ⟨line, listed, by simp [inked]⟩
      rw [Draft.step, taken, filtered, some_ink]
      exact listed
    · rw [Draft.step, left]
      exact diffed
  generalize draft.step .filter (filtered filter subcommand exitCode) = draft at kept ⊢
  rcases Draft.accept_cases draft .cutLongLine (cutLongLines draft.lines) with taken | left
  · rw [Draft.step, taken]
    exact Or.inr (List.mem_map.mpr ⟨line, kept, rfl⟩)
  · rw [Draft.step, left]
    exact Or.inl kept

end Sieving

/-- The account of a command's output up to its truncation. No normalising stage makes the text longer;
blank lines are folded and every other line is kept; similar lines are said once, with how many they
are; the changes hold every line the previous output did not, in order, and count the others; and a new
line that the filter stage lets through is still there when the truncation begins, cut only when it is
too long. -/
theorem sieve_accounts (isAlphanumeric : Char → Bool) (filter : Filter) (subcommand : Option Line)
    (exitCode : Option Int) (previous : Except String (List Line)) (lines : List Line) :
    let unblanked := foldBlank (stripped filter lines)
    let exempt := exemptOf isAlphanumeric filter unblanked
    let deduped := dedupTemplates unblanked exempt
    (bytesOf (stripped filter lines) ≤ bytesOf lines ∧
        bytesOf unblanked ≤ bytesOf (stripped filter lines) ∧ bytesOf deduped ≤ bytesOf unblanked ∧
          (normalising isAlphanumeric filter lines).lines = deduped) ∧
      ((unblanked.filter fun line => !isBlank line) =
        (stripped filter lines).filter fun line => !isBlank line) ∧
      (∀ i line, unblanked[i]? = some line →
        folded unblanked exempt i line = some line ∨
          (∃ members, Group unblanked exempt members ∧ members.head? = some i ∧
            folded unblanked exempt i line = some (line ++ similarNote members.length)) ∨
          ∃ members first said, Group unblanked exempt members ∧ i ∈ members ∧
            members.head? = some first ∧ first < i ∧ unblanked[first]? = some said ∧
              folded unblanked exempt i line = none ∧
                folded unblanked exempt first said = some (said ++ similarNote members.length)) ∧
      (∀ before, ∃ keep items, Tells keep 0 deduped items ∧
        onlyChanges deduped before = items.map shownChange ∧
          (items.map Item.size).sum = deduped.length ∧
            ∀ index line, deduped[index]? = some line → line ∉ before → keep index) ∧
      ∀ line ∈ deduped, (∀ before, previous = .ok before → line ∉ before) → isBlank line = false →
        filter.passes line = true →
          line ∈ (beforeTruncating isAlphanumeric filter subcommand exitCode previous lines).lines ∨
            cutLongLine line ∈
              (beforeTruncating isAlphanumeric filter subcommand exitCode previous lines).lines :=
  ⟨⟨bytesOf_stripped_le lines, bytesOf_foldBlank_le _, bytesOf_dedupTemplates_le, lines_normalising lines⟩,
    filter_foldBlank _, fun _ _ here => folded_cases here, fun before => onlyChanges_tells _ before,
    fun _ member new inked passes => mem_beforeTruncating member new inked passes⟩

/-- Four different steps with a line between them are said as the first of them. -/
theorem dedup_of_different_lines :
    dedupTemplates ["step 1 done".toList, "apart".toList, "step 2 done".toList, "step 3 done".toList,
      "step 4 done".toList] [] = ["step 1 done [×4 similar lines]".toList, "apart".toList] := by
  decide +kernel

end Sieve

end Sprawling
