import Mathlib.Algebra.BigOperators.Group.Finset.Sigma
import Mathlib.Algebra.Order.BigOperators.Group.Finset
import Sprawling.Runtime.Elision
import Sprawling.Runtime.Sieve.Scan

/-! The line-level passes before a truncation, and what each leaves of the lines. -/

namespace Sprawling

open List Utf8
open Option (map_eq_some_iff bind_some)

namespace Sieve

open Utf8 (byteLen)

def blankRunFoldsAt : Nat := 3

def templateFoldsAt : Nat := 4

def longLineBytes : Nat := 2048

/-- The bytes of some lines, each with its end. A text in memory is far below the 64 bits it is
counted in. -/
def bytesOf (lines : List Line) : Nat := (lines.map fun line => byteLen line + 1).sum

def isBlank (line : Line) : Bool := line.all Text.isWhitespace

/-- Where a reader of terminal text stands. -/
inductive Escape where
  | text
  | escape
  | csi
  | osc (previous : Char)

def esc : Char := Char.ofNat 0x1b

def bell : Char := Char.ofNat 7

/-- Control sequences taken out: a CSI up to its final byte, an OSC up to BEL or ESC-backslash, any
other escape with the character after it. -/
def removeEscapesFrom : Escape → Line → Line
  | _, [] => []
  | .text, c :: rest => if c = esc then removeEscapesFrom .escape rest else c :: removeEscapesFrom .text rest
  | .escape, c :: rest =>
    if c = '[' then removeEscapesFrom .csi rest
    else if c = ']' then removeEscapesFrom (.osc ' ') rest
    else removeEscapesFrom .text rest
  | .csi, c :: rest =>
    if '@' ≤ c ∧ c ≤ '~' then removeEscapesFrom .text rest else removeEscapesFrom .csi rest
  | .osc previous, c :: rest =>
    if c = bell ∨ (previous = esc ∧ c = '\\') then removeEscapesFrom .text rest
    else removeEscapesFrom (.osc c) rest

def removeEscapes (text : Line) : Line := removeEscapesFrom .text text

/-- What a terminal would have shown of each line. -/
def stripAnsi (lines : List Line) : List Line :=
  lines.map fun line =>
    removeEscapes (((line.splitOn '\r').reverse.find? fun segment => !segment.isEmpty).getD [])

/-- What the fold has put out, and how many blank lines it has just passed. -/
structure Folding where
  out : List Line
  run : Nat

def foldBlankStep (state : Folding) (line : Line) : Folding :=
  if isBlank line then
    let run := state.run + 1
    if run < blankRunFoldsAt then ⟨state.out ++ [line], run⟩
    else if run = blankRunFoldsAt then
      ⟨state.out.take (state.out.length - (blankRunFoldsAt - 1)) ++ [[]], run⟩
    else ⟨state.out, run⟩
  else ⟨state.out ++ [line], 0⟩

def foldBlank (lines : List Line) : List Line := (lines.foldl foldBlankStep ⟨[], 0⟩).out

/-- A token with each run of digits as one `#`. -/
def hashDigits : (inDigits : Bool) → Line → Line
  | _, [] => []
  | inDigits, c :: rest =>
    if c.isDigit then (if inDigits then [] else ['#']) ++ hashDigits true rest
    else c :: hashDigits false rest

def isHexDigit (c : Char) : Bool := c.isDigit || ('a' ≤ c && c ≤ 'f') || ('A' ≤ c && c ≤ 'F')

def templateToken (token : Line) : Line :=
  if token.contains '/' || token.contains '\\' then "<path>".toList
  else if 7 ≤ byteLen token && token.all isHexDigit then "<hash>".toList
  else hashDigits false token

/-- A line with its numbers, hashes and paths replaced by placeholders. -/
def templateOf (line : Line) : Line := [' '].intercalate ((splitWhitespace line).map templateToken)

/-- The count said behind the first of some similar lines. -/
def similarNote (count : Nat) : Line :=
  " [×".toList ++ Text.decimal count ++ " similar lines]".toList

section Folding

variable (lines : List Line) (exempt : List Bool)

/-- Whether the line at a place may be folded. -/
def foldable (i : Nat) : Bool :=
  match lines[i]? with
  | some line => !(exempt[i]?.getD false || isBlank line || isProtected line)
  | none => false

/-- The places of the foldable lines of one template, in order. -/
def membersOf (template : Line) : List Nat :=
  (List.range lines.length).filter fun i =>
    foldable lines exempt i && (lines[i]?.map templateOf) == some template

/-- The bytes the lines at some places take, each with its end. -/
def bytesAt (places : List Nat) : Nat :=
  (places.map fun i => (lines[i]?.map fun line => byteLen line + 1).getD 0).sum

/-- Whether a group is said once: it is large enough, and that saves more than its note takes. -/
def folds (members : List Nat) : Bool :=
  templateFoldsAt ≤ members.length && byteLen (similarNote members.length) < bytesAt lines members.tail

/-- What is printed for the line at a place. -/
def folded (i : Nat) (line : Line) : Option Line :=
  let members := membersOf lines exempt (templateOf line)
  if foldable lines exempt i && folds lines members then
    if members.head? = some i then some (line ++ similarNote members.length) else none
  else some line

/-- Lines of one template, when there are enough of them, said once with their count. -/
def dedupTemplates : List Line := lines.zipIdx.filterMap fun (line, i) => folded lines exempt i line

end Folding

/-- A line longer than the limit, cut and marked. -/
def cutLongLine (line : Line) : Line :=
  if byteLen line ≤ longLineBytes || isProtected line then line
  else
    let cut := Elision.Boundary.before line longLineBytes
    cut.head ++ ' ' :: Elision.marker (Elision.saturatingLen (byteLen line - cut.offset))

def cutLongLines (lines : List Line) : List Line := lines.map cutLongLine

@[simp] theorem bytesOf_nil : bytesOf [] = 0 := rfl

@[simp] theorem bytesOf_cons (line : Line) (rest : List Line) :
    bytesOf (line :: rest) = byteLen line + 1 + bytesOf rest := by
  rw [bytesOf, map_cons, sum_cons, bytesOf]

@[simp] theorem bytesOf_append (first second : List Line) :
    bytesOf (first ++ second) = bytesOf first + bytesOf second := by
  rw [bytesOf, map_append, sum_append, bytesOf, bytesOf]

theorem bytesOf_take_le (count : Nat) (lines : List Line) : bytesOf (lines.take count) ≤ bytesOf lines := by
  have whole := congrArg bytesOf (take_append_drop count lines)
  rw [bytesOf_append] at whole
  omega

theorem bytesOf_map_le {pass : Line → Line} (shorter : ∀ line, byteLen (pass line) ≤ byteLen line)
    (lines : List Line) : bytesOf (lines.map pass) ≤ bytesOf lines := by
  induction lines with
  | nil => exact Nat.le_refl 0
  | cons line rest ih =>
    have first := shorter line
    rw [map_cons, bytesOf_cons, bytesOf_cons]
    omega

theorem byteLen_removeEscapesFrom_le (state : Escape) (text : Line) :
    byteLen (removeEscapesFrom state text) ≤ byteLen text := by
  induction text generalizing state with
  | nil => cases state <;> exact Nat.le_refl 0
  | cons c rest ih =>
    have shorter : ∀ next, byteLen (removeEscapesFrom next rest) ≤ byteLen (c :: rest) := fun next =>
      Nat.le_trans (ih next) (by rw [byteLen_cons]; exact Nat.le_add_left _ _)
    cases state with
    | text =>
      rw [removeEscapesFrom]
      split
      · exact shorter _
      · rw [byteLen_cons, byteLen_cons]
        exact Nat.add_le_add_left (ih _) _
    | escape =>
      rw [removeEscapesFrom]
      split
      · exact shorter _
      · split
        · exact shorter _
        · exact shorter _
    | csi =>
      rw [removeEscapesFrom]
      split
      · exact shorter _
      · exact shorter _
    | osc previous =>
      rw [removeEscapesFrom]
      split
      · exact shorter _
      · exact shorter _

theorem byteLen_le_of_mem_splitOn {mark : Char} {text part : Line} (member : part ∈ text.splitOn mark) :
    byteLen part ≤ byteLen text := by
  induction text generalizing part with
  | nil =>
    rw [splitOn_nil, mem_singleton] at member
    rw [member]
  | cons c rest ih =>
    rw [splitOn_cons_eq_if_modifyHead] at member
    rw [byteLen_cons]
    split at member
    · rcases mem_cons.mp member with rfl | member
      · exact Nat.zero_le _
      · exact Nat.le_trans (ih member) (Nat.le_add_left _ _)
    · cases cut : rest.splitOn mark with
      | nil => exact absurd cut (splitOn_ne_nil mark rest)
      | cons first parts =>
        rw [cut, modifyHead_cons, mem_cons] at member
        rcases member with rfl | member
        · have inner := @ih first (by rw [cut]; exact mem_cons_self)
          rw [byteLen_cons]
          omega
        · have inner := @ih part (by rw [cut]; exact mem_cons_of_mem _ member)
          omega

theorem bytesOf_stripAnsi_le (lines : List Line) : bytesOf (stripAnsi lines) ≤ bytesOf lines := by
  refine bytesOf_map_le (fun line => ?_) lines
  refine Nat.le_trans (byteLen_removeEscapesFrom_le _ _) ?_
  cases found : (line.splitOn '\r').reverse.find? fun segment => !segment.isEmpty with
  | none => exact Nat.zero_le _
  | some segment =>
    exact byteLen_le_of_mem_splitOn (mem_reverse.mp (mem_of_find?_eq_some found))

/-- Folding blank lines makes no text longer. -/
theorem bytesOf_foldBlank_le (lines : List Line) : bytesOf (foldBlank lines) ≤ bytesOf lines := by
  have step : ∀ (state : Folding) (line : Line),
      bytesOf (foldBlankStep state line).out ≤ bytesOf state.out + (byteLen line + 1) := by
    intro state line
    have front := bytesOf_take_le (state.out.length - (blankRunFoldsAt - 1)) state.out
    simp only [foldBlankStep]
    split
    · split
      · simp
      · split
        · simp only [bytesOf_append, bytesOf_cons, bytesOf_nil, byteLen_nil]
          omega
        · exact Nat.le_add_right _ _
    · simp
  have run : ∀ (lines : List Line) (state : Folding),
      bytesOf (lines.foldl foldBlankStep state).out ≤ bytesOf state.out + bytesOf lines := by
    intro lines
    induction lines with
    | nil => exact fun state => Nat.le_refl _
    | cons line rest ih =>
      intro state
      have first := step state line
      have later := ih (foldBlankStep state line)
      rw [foldl_cons, bytesOf_cons]
      omega
  have whole := run lines ⟨[], 0⟩
  rwa [bytesOf_nil, Nat.zero_add] at whole

/-- The blank lines the fold has just passed stand at the end of what it put out, until they fold. -/
def Folding.Ends (state : Folding) : Prop :=
  state.run < blankRunFoldsAt →
    ∃ front blanks, state.out = front ++ blanks ∧ blanks.length = state.run ∧
      ∀ line ∈ blanks, isBlank line = true

theorem foldBlankStep_kept {state : Folding} (ends : state.Ends) (line : Line) :
    (foldBlankStep state line).Ends ∧
      (foldBlankStep state line).out.filter (fun line => !isBlank line) =
        state.out.filter (fun line => !isBlank line) ++ [line].filter fun line => !isBlank line := by
  simp only [foldBlankStep]
  by_cases blank : isBlank line = true
  · rw [if_pos blank]
    split
    · next short =>
        obtain ⟨front, blanks, shape, count, all⟩ := ends (by omega)
        refine ⟨fun _ => ⟨front, blanks ++ [line], ?_, ?_, ?_⟩, ?_⟩
        · rw [shape, append_assoc]
        · rw [length_append, length_singleton, count]
        · intro other member
          rcases mem_append.mp member with member | member
          · exact all other member
          · rw [mem_singleton.mp member]
            exact blank
        · rw [filter_append]
    · split
      · next third =>
          obtain ⟨front, blanks, shape, count, all⟩ := ends (by omega)
          have two : blanks.length = blankRunFoldsAt - 1 := by omega
          have cut : state.out.take (state.out.length - (blankRunFoldsAt - 1)) = front := by
            rw [shape, ← two, length_append, Nat.add_sub_cancel, take_left']
            rfl
          refine ⟨fun short => absurd (third ▸ short : blankRunFoldsAt < blankRunFoldsAt) (Nat.lt_irrefl _), ?_⟩
          have gone : blanks.filter (fun line => !isBlank line) = [] := by
            rw [filter_eq_nil_iff]
            intro other member
            simp [all other member]
          have empty : isBlank [] = true := rfl
          have single : ∀ other : Line, isBlank other = true →
              [other].filter (fun line => !isBlank line) = [] := fun other white => by simp [white]
          rw [cut, shape, filter_append, filter_append, gone, single [] empty, single line blank,
            append_nil, append_nil]
      · refine ⟨fun short => by simp only at short; omega, ?_⟩
        simp [blank]
  · rw [if_neg blank]
    refine ⟨fun _ => ⟨state.out ++ [line], [], by simp, rfl, fun _ member => nomatch member⟩, ?_⟩
    rw [filter_append]

/-- Folding blank lines keeps every other line, in order. -/
theorem filter_foldBlank (lines : List Line) :
    (foldBlank lines).filter (fun line => !isBlank line) = lines.filter fun line => !isBlank line := by
  have run : ∀ (lines : List Line) (state : Folding), state.Ends →
      (lines.foldl foldBlankStep state).out.filter (fun line => !isBlank line) =
        state.out.filter (fun line => !isBlank line) ++ lines.filter fun line => !isBlank line := by
    intro lines
    induction lines with
    | nil => exact fun state _ => by rw [filter_nil, append_nil]; rfl
    | cons line rest ih =>
      intro state ends
      obtain ⟨onward, kept⟩ := foldBlankStep_kept ends line
      rw [foldl_cons, ih _ onward, kept, append_assoc, ← filter_append]
      rfl
  exact run lines ⟨[], 0⟩ fun _ => ⟨[], [], rfl, rfl, fun _ member => nomatch member⟩

section Similar

variable {lines : List Line} {exempt : List Bool}

/-- The lines of a text that are said once: all the foldable lines of one template, in order. -/
structure Group (lines : List Line) (exempt : List Bool) (members : List Nat) : Prop where
  several : templateFoldsAt ≤ members.length
  sorted : members.Pairwise (· < ·)
  alike : ∃ template, ∀ i,
    i ∈ members ↔ foldable lines exempt i = true ∧ lines[i]?.map templateOf = some template

variable {template : Line}

theorem mem_membersOf {i : Nat} :
    i ∈ membersOf lines exempt template ↔
      foldable lines exempt i = true ∧ lines[i]?.map templateOf = some template := by
  simp only [membersOf, mem_filter, mem_range, Bool.and_eq_true, beq_iff_eq]
  constructor
  · exact fun listed => listed.2
  · intro both
    refine ⟨?_, both⟩
    obtain ⟨line, here, _⟩ := map_eq_some_iff.mp both.2
    exact (List.getElem?_eq_some_iff.mp here).1

theorem membersOf_sorted (template : Line) : (membersOf lines exempt template).Pairwise (· < ·) :=
  pairwise_lt_range.filter _

theorem group_of_folds (said : folds lines (membersOf lines exempt template) = true) :
    Group lines exempt (membersOf lines exempt template) := by
  simp only [folds, Bool.and_eq_true, decide_eq_true_eq] at said
  exact ⟨said.1, membersOf_sorted template, template, fun i => mem_membersOf⟩

/-- What can become of a line: it stays as it is; it speaks for its group, and says how many lines that
is; or it is left to the group's first line, which does. -/
theorem folded_cases {i : Nat} {line : Line} (here : lines[i]? = some line) :
    folded lines exempt i line = some line ∨
      (∃ members, Group lines exempt members ∧ members.head? = some i ∧
        folded lines exempt i line = some (line ++ similarNote members.length)) ∨
      ∃ members first said, Group lines exempt members ∧ i ∈ members ∧ members.head? = some first ∧
        first < i ∧ lines[first]? = some said ∧ folded lines exempt i line = none ∧
          folded lines exempt first said = some (said ++ similarNote members.length) := by
  by_cases both : foldable lines exempt i = true ∧
      folds lines (membersOf lines exempt (templateOf line)) = true
  · right
    have group := group_of_folds both.2
    have inside : i ∈ membersOf lines exempt (templateOf line) :=
      mem_membersOf.mpr ⟨both.1, by rw [here]; rfl⟩
    have told : (foldable lines exempt i && folds lines (membersOf lines exempt (templateOf line))) =
        true := by rw [both.1, both.2]; rfl
    by_cases leads : (membersOf lines exempt (templateOf line)).head? = some i
    · left
      refine ⟨_, group, leads, ?_⟩
      simp only [folded]
      rw [if_pos told, if_pos leads]
    · right
      cases shape : membersOf lines exempt (templateOf line) with
      | nil =>
        rw [shape] at inside
        cases inside
      | cons first later =>
        have listed : first ∈ membersOf lines exempt (templateOf line) := by
          rw [shape]
          exact mem_cons_self
        obtain ⟨mayFold, alike⟩ := mem_membersOf.mp listed
        obtain ⟨said, found, template⟩ := map_eq_some_iff.mp alike
        have order : first < i := by
          have sorted := @membersOf_sorted lines exempt (templateOf line)
          rw [shape] at sorted inside leads
          rcases mem_cons.mp inside with same | later
          · exact absurd (by rw [same]; rfl) leads
          · exact (pairwise_cons.mp sorted).1 i later
        refine ⟨first :: later, first, said, shape ▸ group, shape ▸ inside, rfl, order, found, ?_, ?_⟩
        · simp only [folded]
          rw [if_pos told, if_neg leads]
        · simp only [folded]
          rw [template, mayFold, both.2, shape]
          exact (if_pos rfl).trans (if_pos rfl)
  · left
    have untold : (foldable lines exempt i && folds lines (membersOf lines exempt (templateOf line))) =
        false := by
      rw [Bool.eq_false_iff]
      intro told
      exact both (by simpa using told)
    simp only [folded]
    rw [untold]
    rfl

def costOf (printed : Option Line) : Nat := (printed.map fun line => byteLen line + 1).getD 0

theorem bytesOf_filterMap_zipIdx (print : Nat → Line → Option Line) (lines : List Line) (start : Nat) :
    bytesOf ((lines.zipIdx start).filterMap fun (line, i) => print i line) =
      ∑ i ∈ Finset.range lines.length, costOf (lines[i]?.bind (print (start + i))) := by
  induction lines generalizing start with
  | nil => rfl
  | cons line rest ih =>
    have later := ih (start + 1)
    rw [zipIdx_cons, length_cons, Finset.sum_range_succ']
    have first : costOf ((line :: rest)[0]?.bind (print (start + 0))) = costOf (print start line) := rfl
    have others : ∀ i, costOf ((line :: rest)[i + 1]?.bind (print (start + (i + 1)))) =
        costOf (rest[i]?.bind (print (start + 1 + i))) := by
      intro i
      rw [getElem?_cons_succ, Nat.add_assoc start 1 i, Nat.add_comm 1 i]
    rw [first, Finset.sum_congr rfl fun i _ => others i, ← later]
    cases printed : print start line with
    | none =>
      simp only [filterMap_cons, printed]
      rfl
    | some out =>
      simp only [filterMap_cons, printed, bytesOf_cons]
      exact Nat.add_comm _ _

theorem bytesOf_eq_sum (lines : List Line) :
    bytesOf lines = ∑ i ∈ Finset.range lines.length, costOf lines[i]? := by
  induction lines with
  | nil => rfl
  | cons line rest ih =>
    rw [bytesOf_cons, ih, length_cons, Finset.sum_range_succ']
    exact Nat.add_comm _ _

theorem cost_members_le :
    ((membersOf lines exempt template).map fun i => costOf (lines[i]?.bind (folded lines exempt i))).sum ≤
      ((membersOf lines exempt template).map fun i => costOf lines[i]?).sum := by
  have print : ∀ {i line}, i ∈ membersOf lines exempt template → lines[i]? = some line →
      folded lines exempt i line =
        if folds lines (membersOf lines exempt template) then
          if (membersOf lines exempt template).head? = some i then
            some (line ++ similarNote (membersOf lines exempt template).length)
          else none
        else some line := by
    intro i line member here
    obtain ⟨mayFold, alike⟩ := mem_membersOf.mp member
    rw [here] at alike
    have same : templateOf line = template := Option.some.inj alike
    simp only [folded, same, mayFold, Bool.true_and]
  by_cases said : folds lines (membersOf lines exempt template) = true
  · have saves := said
    simp only [folds, Bool.and_eq_true, decide_eq_true_eq] at saves
    have sorted := @membersOf_sorted lines exempt template
    have listed : ∀ i, i ∈ membersOf lines exempt template → ∃ line, lines[i]? = some line := by
      intro i member
      obtain ⟨line, here, _⟩ := map_eq_some_iff.mp (mem_membersOf.mp member).2
      exact ⟨line, here⟩
    rw [said] at print
    generalize membersOf lines exempt template = members at print saves sorted listed
    cases members with
    | nil => exact absurd saves.1 (by decide)
    | cons first later =>
      obtain ⟨line, here⟩ := listed first mem_cons_self
      have leads : folded lines exempt first line =
          some (line ++ similarNote (first :: later).length) := by
        rw [print mem_cons_self here, if_pos rfl, head?_cons, if_pos rfl]
      have silent : ∀ i ∈ later, costOf (lines[i]?.bind (folded lines exempt i)) = 0 := by
        intro i member
        obtain ⟨other, there⟩ := listed i (mem_cons_of_mem _ member)
        have behind := (pairwise_cons.mp sorted).1 i member
        have follows : ¬ (first :: later).head? = some i := by
          rw [head?_cons, Option.some.injEq]
          omega
        rw [there, bind_some, print (mem_cons_of_mem _ member) there, if_pos rfl,
          if_neg follows]
        rfl
      have rest : (later.map fun i => costOf (lines[i]?.bind (folded lines exempt i))).sum = 0 := by
        rw [map_congr_left silent, map_const', sum_replicate_nat, Nat.mul_zero]
      have spoken : costOf (lines[first]?.bind (folded lines exempt first)) =
          byteLen line + byteLen (similarNote (first :: later).length) + 1 := by
        rw [here, bind_some, leads, ← byteLen_append]
        rfl
      have before : costOf lines[first]? = byteLen line + 1 := by
        rw [here]
        rfl
      have gone : bytesAt lines (first :: later).tail = (later.map fun i => costOf lines[i]?).sum := rfl
      rw [gone] at saves
      rw [map_cons, sum_cons, rest, map_cons, sum_cons, spoken, before]
      omega
  · refine Nat.le_of_eq (congrArg List.sum (map_congr_left fun i member => ?_))
    obtain ⟨line, here, _⟩ := map_eq_some_iff.mp (mem_membersOf.mp member).2
    rw [here, bind_some, print member here, if_neg said]

/-- Saying similar lines once makes no text longer. -/
theorem bytesOf_dedupTemplates_le : bytesOf (dedupTemplates lines exempt) ≤ bytesOf lines := by
  have printed := bytesOf_filterMap_zipIdx (folded lines exempt) lines 0
  simp only [Nat.zero_add] at printed
  rw [dedupTemplates, printed, bytesOf_eq_sum]
  let key : Nat → Option Line := fun i =>
    if foldable lines exempt i then lines[i]?.map templateOf else none
  have inside : ∀ i ∈ Finset.range lines.length, key i ∈ (Finset.range lines.length).image key :=
    fun i member => Finset.mem_image_of_mem key member
  rw [← Finset.sum_fiberwise_of_maps_to inside,
    ← Finset.sum_fiberwise_of_maps_to (f := fun i => costOf lines[i]?) inside]
  refine Finset.sum_le_sum fun template _ => ?_
  cases template with
  | none =>
    refine Finset.sum_le_sum fun i member => ?_
    have unkeyed : key i = none := (Finset.mem_filter.mp member).2
    cases here : lines[i]? with
    | none => exact Nat.le_refl _
    | some line =>
      have plain : foldable lines exempt i = false := by
        rw [Bool.eq_false_iff]
        intro mayFold
        simp only [key, mayFold, here] at unkeyed
        cases unkeyed
      rw [bind_some]
      simp only [folded, plain]
      exact Nat.le_refl _
  | some template =>
    have members : (Finset.range lines.length).filter (fun i => key i = some template) =
        (membersOf lines exempt template).toFinset := by
      ext i
      rw [Finset.mem_filter, mem_toFinset, mem_membersOf, Finset.mem_range]
      simp only [key]
      constructor
      · intro listed
        have keyed := listed.2
        split at keyed
        · next mayFold => exact ⟨mayFold, keyed⟩
        · cases keyed
      · intro both
        obtain ⟨line, here, _⟩ := map_eq_some_iff.mp both.2
        rw [both.1]
        exact ⟨(List.getElem?_eq_some_iff.mp here).1, both.2⟩
    rw [members, sum_toFinset _ (membersOf_sorted template).nodup,
      sum_toFinset _ (membersOf_sorted template).nodup]
    exact cost_members_le

end Similar

end Sieve

end Sprawling
