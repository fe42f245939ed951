import Mathlib.Data.List.Induction
import Sprawling.Storage.ChainAudit
import Sprawling.Storage.Tail

/-! The walk from the tail against the walk from genesis. -/

namespace Sprawling

open List ChainAudit Reading LineCheck Tail.Backward Lines

namespace TailLines

section Raw

variable {Hash : Type}

/-- The complete lines of segments, oldest first, blank ones included. -/
def runsOf (segments : List (FileName × Bytes)) : List Bytes :=
  segments.flatMap fun segment => complete newline segment.2

def nonblank (runs : List Bytes) : List Bytes := runs.filter fun run => !run.isEmpty

/-- The complete lines the walk still holds, oldest first, blank ones included. -/
structure Left (lines : TailLines Hash) (back : List Bytes) : Prop where
  reading : match lines.reading with
    | some reading => reading.Holds back
    | none => back = []

/-- What `nextRaw` answers when the walk still holds `runs`. -/
def Answers (lines : TailLines Hash) (runs : List Bytes)
    (answer : Option Bytes × TailLines Hash) : Prop :=
  (nonblank runs = [] ∧ answer.1 = none) ∨
    ∃ line back, answer.1 = some line ∧ Left answer.2 back ∧ answer.2.newer = lines.newer ∧
      answer.2.ended = lines.ended ∧
      nonblank runs = nonblank (runsOf answer.2.segments ++ back) ++ [line]

variable {line : Bytes} {runs : List Bytes}

theorem nonblank_concat (filled : line.isEmpty = false) :
    nonblank (runs ++ [line]) = nonblank runs ++ [line] := by
  simp [nonblank, filled]

theorem nonblank_concat_blank (blank : line.isEmpty = true) :
    nonblank (runs ++ [line]) = nonblank runs := by
  simp [nonblank, blank]

theorem runsOf_concat (segments : List (FileName × Bytes)) (segment : FileName × Bytes) :
    runsOf (segments ++ [segment]) = runsOf segments ++ complete newline segment.2 := by
  simp [runsOf]

theorem nextRawLoop_answers (fuel : Nat) (lines : TailLines Hash) (back : List Bytes)
    (left : Left lines back)
    (enough : (runsOf lines.segments ++ back).length + lines.segments.length +
      (if lines.reading.isSome then 1 else 0) < fuel) :
    Answers lines (runsOf lines.segments ++ back) (nextRawLoop fuel lines) := by
  induction fuel generalizing lines back with
  | zero => omega
  | succ fuel ih =>
    -- The turn on a segment that is open, whichever way it was reached.
    have turn : ∀ (lines : TailLines Hash) (reading : Tail.Backward) (back : List Bytes),
        reading.Holds back →
        (runsOf lines.segments ++ back).length + lines.segments.length < fuel →
        Answers lines (runsOf lines.segments ++ back)
          (nextRawLoop (fuel + 1) { lines with reading := some reading }) := by
      intro lines reading back holds room
      rw [nextRawLoop]
      simp only
      rcases eq_nil_or_concat back with bare | ⟨front, line, shape⟩
      · subst bare
        rw [popLine_nil holds]
        exact ih { lines with reading := none } [] ⟨rfl⟩ (by simpa using room)
      · rw [concat_eq_append] at shape
        subst shape
        rcases popLine_concat holds with ⟨after, popped, rest⟩
        rw [popped]
        show Answers lines _ (if _ then _ else _)
        rw [← append_assoc] at room ⊢
        have fewer : (runsOf lines.segments ++ front).length + lines.segments.length + 1 < fuel := by
          rw [length_append] at room
          simp only [length_singleton] at room
          omega
        cases blank : line.isEmpty with
        | true =>
          have later := ih { lines with reading := some after } front ⟨rest⟩ fewer
          rw [if_pos rfl]
          unfold Answers
          rw [nonblank_concat_blank blank]
          exact later
        | false =>
          rw [if_neg Bool.false_ne_true]
          refine Or.inr ⟨line, front, rfl, ⟨rest⟩, rfl, rfl, ?_⟩
          exact nonblank_concat blank
    unfold nextRawLoop
    cases reading : lines.reading with
    | some held =>
      have holds : held.Holds back := by
        have now := left.reading
        rwa [reading] at now
      rw [reading] at enough
      exact turn lines held back holds (by simpa using enough)
    | none =>
      have bare : back = [] := by
        have now := left.reading
        rwa [reading] at now
      subst bare
      rcases eq_nil_or_concat lines.segments with none | ⟨older, segment, shape⟩
      · simp only [none, getLast?_nil]
        exact Or.inl ⟨rfl, rfl⟩
      · rw [concat_eq_append] at shape
        simp only [shape, getLast?_concat, dropLast_concat]
        have opened := turn { lines with segments := older }
          (openAt segment.1 segment.2) (complete newline segment.2)
          (openAt_holds segment.1 segment.2)
          (by
            rw [shape, runsOf_concat] at enough
            simp only [append_nil, length_append, length_singleton] at enough ⊢
            omega)
        rw [runsOf_concat, append_nil]
        exact opened

theorem length_runsOf_le (segments : List (FileName × Bytes)) :
    (runsOf segments).length + segments.length ≤
      (segments.map fun segment => segment.2.length + 1).sum := by
  induction segments with
  | nil => exact Nat.le_refl _
  | cons segment segments ih =>
    have bound : (complete newline segment.2).length ≤ segment.2.length :=
      length_complete_le segment.2
    simp only [runsOf, flatMap_cons, length_append, length_cons, map_cons, sum_cons] at ih ⊢
    omega

variable {lines : TailLines Hash}

theorem nextRaw_answers {back : List Bytes} (left : Left lines back) :
    Answers lines (runsOf lines.segments ++ back) lines.nextRaw := by
  apply nextRawLoop_answers _ lines back left
  have segments := length_runsOf_le lines.segments
  have now := left.reading
  rw [length_append, budget]
  cases reading : lines.reading with
  | none =>
    rw [reading] at now
    have bare : back.length = 0 := length_eq_zero_iff.mpr now
    simp only [Option.isSome_none, Bool.false_eq_true, if_false]
    omega
  | some held =>
    rw [reading] at now
    have bound := length_le_of_holds now
    simp only [Option.isSome_some, if_true]
    omega

/-- The lines the walk has still to yield, oldest first. -/
def Pending (lines : TailLines Hash) (raws : List Bytes) : Prop :=
  ∃ back, Left lines back ∧ nonblank (runsOf lines.segments ++ back) = raws

theorem pending_newer {raws : List Bytes} (pending : Pending lines raws)
    (newer : Option (Link Hash)) : Pending { lines with newer } raws := by
  rcases pending with ⟨back, left, shape⟩
  exact ⟨back, ⟨left.reading⟩, shape⟩

theorem pending_through (dir : Directory) :
    Pending (through dir : TailLines Hash) (readRawLinesAt dir) := by
  refine ⟨[], ⟨rfl⟩, ?_⟩
  rw [readRawLinesAt_eq, append_nil, nonblank, through, runsOf]
  simp only [filter_flatMap]
  rfl

theorem nextRaw_nil (pending : Pending lines []) : lines.nextRaw.1 = none := by
  rcases pending with ⟨back, left, bare⟩
  rcases nextRaw_answers left with ⟨-, done⟩ | ⟨line, rest, -, -, -, -, shape⟩
  · exact done
  · rw [bare] at shape
    simp at shape

theorem nextRaw_concat {older : List Bytes} (pending : Pending lines (older ++ [line])) :
    ∃ after, lines.nextRaw = (some line, after) ∧ Pending after older ∧
      after.newer = lines.newer ∧ after.ended = lines.ended := by
  rcases pending with ⟨back, left, shape⟩
  rcases nextRaw_answers left with ⟨bare, -⟩ | ⟨newest, rest, answer, kept, newer, ended, cut⟩
  · rw [bare] at shape
    simp at shape
  · rw [shape] at cut
    rcases append_inj' cut rfl with ⟨front, last⟩
    cases last
    exact ⟨lines.nextRaw.2, Prod.ext answer rfl, ⟨rest, kept, front.symm⟩, newer, ended⟩

end Raw

section Chain

variable {Hash Record : Type} [DecidableEq Hash] {codec : Codec Hash Record} {raw : Bytes}

theorem joins_eq_ok {seq : Seq} {newer : Option (Link Hash)} :
    joins codec raw seq newer = .ok () ↔
      ∀ link, newer = some link → codec.chainHash raw = link.prev ∧ seq.next = .ok link.seq := by
  cases newer with
  | none => simp [joins]
  | some link =>
    by_cases hashed : codec.chainHash raw = link.prev
    · cases stepped : seq.next with
      | error e => simp [joins, hashed, stepped]
      | ok after =>
        by_cases placed : after = link.seq
        · simp [joins, hashed, stepped, placed]
        · simp [joins, hashed, stepped, placed]
    · simp [joins, hashed]

theorem link_eq_ok {lines : TailLines Hash} {link : Link Hash} {checked : CheckedLine Record} :
    lines.link codec raw = .ok (link, checked) ↔
      LineCheck.judge codec raw = .ok ⟨link.seq, link.prev, checked⟩ ∧
      (∀ newer, lines.newer = some newer →
        codec.chainHash raw = newer.prev ∧ link.seq.next = .ok newer.seq) ∧
      (link.seq = Seq.first → link.prev = codec.genesisPrev) := by
  unfold TailLines.link
  cases judgedAs : LineCheck.judge codec raw with
  | error fault => simp
  | ok judged =>
    cases joined : joins codec raw judged.seq lines.newer with
    | error fault =>
      constructor
      · intro impossible
        simp [joined] at impossible
      · intro asked
        have same : judged.seq = link.seq := congrArg Judged.seq (Except.ok.inj asked.1)
        have accepted := (joins_eq_ok).mpr asked.2.1
        rw [← same, joined] at accepted
        cases accepted
    | ok _ =>
      have linked := (joins_eq_ok).mp joined
      simp only [joined]
      by_cases broken : judged.seq = Seq.first ∧ judged.prev ≠ codec.genesisPrev
      · rw [if_pos broken]
        constructor
        · intro impossible
          cases impossible
        · intro asked
          cases asked.1
          exact absurd (asked.2.2 broken.1) broken.2
      · rw [if_neg broken]
        constructor
        · intro answered
          cases answered
          refine ⟨rfl, linked, fun first => ?_⟩
          exact Classical.byContradiction fun other => broken ⟨first, other⟩
        · intro asked
          cases asked.1
          rfl

/-- Every line through `advance`, from the oldest. -/
def forward (codec : Codec Hash Record) (check : LineCheck Hash) :
    List Bytes → Except LineFault (List (TailLine Record) × LineCheck Hash)
  | [] => .ok ([], check)
  | raw :: rest => do
      let (checked, after) ← check.advance codec raw
      let (later, last) ← forward codec after rest
      .ok ({ raw, checked } :: later, last)

variable {lines : List (TailLine Record)} {check after : LineCheck Hash} {older : List Bytes}

theorem forward_concat :
    forward codec check (older ++ [raw]) = .ok (lines, after) ↔
      ∃ early middle checked, forward codec check older = .ok (early, middle) ∧
        middle.advance codec raw = .ok (checked, after) ∧ lines = early ++ [⟨raw, checked⟩] := by
  induction older generalizing check lines with
  | nil =>
    simp only [nil_append, forward, Outcome.bind_eq_ok]
    constructor
    · rintro ⟨⟨checked, state⟩, advanced, ⟨later, last⟩, done, answer⟩
      cases done
      cases answer
      exact ⟨[], check, checked, rfl, advanced, rfl⟩
    · rintro ⟨early, middle, checked, done, advanced, rfl⟩
      cases done
      exact ⟨(checked, after), advanced, ([], after), rfl, rfl⟩
  | cons first older ih =>
    simp only [cons_append, forward, Outcome.bind_eq_ok]
    constructor
    · rintro ⟨⟨checked, state⟩, advanced, ⟨later, last⟩, done, answer⟩
      cases answer
      rcases ih.mp done with ⟨early, middle, newest, front, back, rfl⟩
      exact ⟨⟨first, checked⟩ :: early, middle, newest,
        ⟨(checked, state), advanced, (early, middle), front, rfl⟩, back, rfl⟩
    · rintro ⟨early, middle, newest, ⟨⟨checked, state⟩, advanced, ⟨later, last⟩, front, answer⟩,
        back, rfl⟩
      cases answer
      exact ⟨(checked, state), advanced, (later ++ [⟨raw, newest⟩], after),
        ih.mpr ⟨later, last, newest, front, back, rfl⟩, rfl⟩

theorem forward_expected {early : List (TailLine Record)}
    {middle : LineCheck Hash}
    (walked : forward codec (atGenesis codec) older = .ok (early, middle))
    (first : middle.expected = Seq.first) : older = [] ∧ middle = atGenesis codec := by
  rcases eq_nil_or_concat older with bare | ⟨front, raw, shape⟩
  · subst bare
    cases walked
    exact ⟨rfl, rfl⟩
  · rw [concat_eq_append] at shape
    subst shape
    rcases (forward_concat).mp walked with ⟨_, before, checked, -, advanced, -⟩
    exact absurd first (Seq.next_ne_first (advance_eq_ok.mp advanced).2.1)

variable {raws : List Bytes} {walk : TailLines Hash}

theorem yields_of_forward (walked : forward codec (atGenesis codec) raws = .ok (lines, after))
    (pending : Pending walk raws) (running : walk.ended = false)
    (linked : ∀ newer, walk.newer = some newer → newer = ⟨after.expected, after.prev⟩) :
    Yields codec walk (lines.reverse.map .ok) := by
  induction raws using List.reverseRecOn generalizing lines after walk with
  | nil =>
    cases walked
    apply Yields.done
    rw [next, running, if_neg Bool.false_ne_true]
    have none := nextRaw_nil pending
    cases answer : walk.nextRaw with
    | mk raw rest =>
      rw [answer] at none
      cases none
      rfl
  | append_singleton older raw ih =>
    rcases (forward_concat).mp walked with ⟨early, middle, checked, front, advanced, rfl⟩
    rcases nextRaw_concat pending with ⟨rest, popped, kept, newer, ended⟩
    rcases advance_eq_ok.mp advanced with ⟨judged, stepped, hashed⟩
    have joined : rest.link codec raw = .ok (⟨middle.expected, middle.prev⟩, checked) := by
      apply (link_eq_ok).mpr
      refine ⟨judged, fun newest held => ?_, fun first => ?_⟩
      · rw [newer] at held
        rw [linked newest held]
        exact ⟨hashed.symm, stepped⟩
      · rw [(forward_expected front first).2]
        rfl
    rw [reverse_append, reverse_singleton, singleton_append, map_cons]
    apply Yields.item
    · rw [next, running, if_neg Bool.false_ne_true, popped]
      simp only [joined]
      rfl
    · apply ih front
      · exact pending_newer kept _
      · exact ended.trans running
      · intro newest held
        cases held
        rfl

/-- A walk that yields lines only has linked them, the newest still to be joined to what came
after it. -/
theorem linked_of_yields {items : List (TailLine Record)}
    (yields : Yields codec walk (items.map .ok)) (pending : Pending walk raws)
    (running : walk.ended = false) :
    raws = (items.map TailLine.raw).reverse ∧
      ∀ oldest, items.getLast? = some oldest → claimedSeq codec oldest.raw = some Seq.first →
        ∃ newest older, ∃ link : Link Hash, items = newest :: older ∧
          LineCheck.judge codec newest.raw = .ok ⟨link.seq, link.prev, newest.checked⟩ ∧
          forward codec (atGenesis codec) (older.map TailLine.raw).reverse =
            .ok (older.reverse, ⟨link.prev, link.seq⟩) ∧
          ∀ newer, walk.newer = some newer →
            codec.chainHash newest.raw = newer.prev ∧ link.seq.next = .ok newer.seq := by
  induction items generalizing walk raws with
  | nil =>
    refine ⟨?_, fun oldest none => by cases none⟩
    rcases eq_nil_or_concat raws with bare | ⟨older, line, shape⟩
    · exact bare
    · -- A walk that still holds a line has a next item.
      rw [concat_eq_append] at shape
      subst shape
      rcases nextRaw_concat pending with ⟨rest, popped, -, -, -⟩
      cases yields with
      | done none =>
        rw [next, running, if_neg Bool.false_ne_true, popped] at none
        simp only at none
        split at none <;> cases none
  | cons item items ih =>
    cases yields with
    | item here later =>
      rw [next, running, if_neg Bool.false_ne_true] at here
      rcases eq_nil_or_concat raws with bare | ⟨older, line, shape⟩
      · subst bare
        have none := nextRaw_nil pending
        cases answer : walk.nextRaw with
        | mk raw rest =>
          rw [answer] at none here
          cases none
          cases here
      · rw [concat_eq_append] at shape
        subst shape
        rcases nextRaw_concat pending with ⟨rest, popped, kept, newer, ended⟩
        rw [popped] at here
        simp only at here
        split at here
        · next link checked joined =>
            simp only [Option.some.injEq, Prod.mk.injEq, Except.ok.injEq] at here
            rcases here with ⟨rfl, rfl⟩
            rcases (link_eq_ok).mp joined with ⟨judged, asked, first⟩
            rw [newer] at asked
            rcases ih later (pending_newer kept _) (ended.trans running) with ⟨shape, chain⟩
            refine ⟨by rw [shape]; simp, fun oldest last started => ?_⟩
            refine ⟨_, items, link, rfl, judged, ?_, asked⟩
            cases items with
            | nil =>
              have seq := claimedSeq_of_judge judged
              have only : (⟨line, checked⟩ : TailLine Record) = oldest := Option.some.inj last
              rw [← only] at started
              have zero : Seq.first = link.seq := Option.some.inj (started.symm.trans seq)
              rw [← zero, first zero.symm]
              rfl
            | cons second items =>
              rw [getLast?_cons_cons] at last
              rcases chain oldest last started with
                ⟨newest, before, inner, same, judgedToo, walked, joins⟩
              rw [same]
              rcases joins link rfl with ⟨hashed, stepped⟩
              rw [map_cons, reverse_cons, reverse_cons]
              apply (forward_concat).mpr
              refine ⟨before.reverse, ⟨inner.prev, inner.seq⟩, newest.checked, walked, ?_, rfl⟩
              exact advance_eq_ok.mpr ⟨judgedToo, stepped, hashed.symm⟩
        · simp at here

theorem map_raw_of_forward (walked : forward codec check raws = .ok (lines, after)) :
    lines.map TailLine.raw = raws := by
  induction raws generalizing check lines with
  | nil =>
    cases walked
    rfl
  | cons raw raws ih =>
    simp only [forward, Outcome.bind_eq_ok] at walked
    rcases walked with ⟨⟨checked, state⟩, -, ⟨later, last⟩, done, answer⟩
    cases answer
    rw [map_cons, ih done]

theorem expected_of_forward (walked : forward codec check raws = .ok (lines, after)) :
    after.expected.value = check.expected.value + raws.length := by
  induction raws generalizing check lines with
  | nil =>
    cases walked
    rfl
  | cons raw raws ih =>
    simp only [forward, Outcome.bind_eq_ok] at walked
    rcases walked with ⟨⟨checked, state⟩, advanced, ⟨later, last⟩, done, answer⟩
    cases answer
    have stepped := Seq.next_eq_ok.mp (advance_eq_ok.mp advanced).2.1
    rw [ih done, stepped, length_cons]
    omega

variable {count : Nat}

theorem forward_iff_strict (room : count ≤ u64Max) :
    (∃ lines, forward codec check raws = .ok (lines, after)) ↔
      raws.foldlM (strictLine codec) (check, count) =
        .ok (after, saturatingAdd count raws.length) := by
  induction raws generalizing check count with
  | nil =>
    rw [saturatingAdd, length_nil, Nat.add_zero, Nat.min_eq_left room]
    constructor
    · rintro ⟨lines, walked⟩
      cases walked
      rfl
    · intro walked
      cases walked
      exact ⟨[], rfl⟩
  | cons raw raws ih =>
    have counted : saturatingAdd (saturatingAdd count 1) raws.length =
        saturatingAdd count (raw :: raws).length := by
      rw [length_cons, saturatingAdd, saturatingAdd, saturatingAdd]
      omega
    rw [foldlM_cons, ← counted]
    simp only [forward, strictLine]
    cases check.advance codec raw with
    | error fault =>
      constructor
      · rintro ⟨lines, impossible⟩
        cases impossible
      · intro impossible
        cases impossible
    | ok passed =>
      have rest : (∃ lines, forward codec passed.2 raws = .ok (lines, after)) ↔ _ :=
        ih (Nat.min_le_right (count + 1) u64Max)
      constructor
      · rintro ⟨lines, walked⟩
        rcases Outcome.bind_eq_ok.mp walked with ⟨_, same, walkedOn⟩
        cases same
        rcases Outcome.bind_eq_ok.mp walkedOn with ⟨⟨later, last⟩, done, answer⟩
        cases answer
        exact rest.mp ⟨later, done⟩
      · intro walked
        rcases rest.mpr walked with ⟨later, done⟩
        refine ⟨⟨raw, passed.1⟩ :: later, Outcome.bind_eq_ok.mpr ⟨passed, rfl, ?_⟩⟩
        exact Outcome.bind_eq_ok.mpr ⟨(later, after), done, rfl⟩

theorem audit_eq_whole {version : Nat} {dir : Directory} :
    auditChain codec version dir = .whole count ↔
      count = (readRawLinesAt dir).length ∧
      ∃ lines after, forward codec (atGenesis codec) (readRawLinesAt dir) =
        .ok (lines, after) := by
  have counted : ∀ {lines : List (TailLine Record)} {after : LineCheck Hash},
      forward codec (atGenesis codec) (readRawLinesAt dir) = .ok (lines, after) →
      saturatingAdd 0 (readRawLinesAt dir).length =
        (readRawLinesAt dir).length := by
    intro lines after walked
    have value := expected_of_forward walked
    have bound := after.expected.lt
    simp only [atGenesis, Seq.first] at value
    simp only [saturatingAdd, u64Max]
    omega
  rw [auditChain_eq, strictAudit]
  constructor
  · intro whole
    split at whole
    · cases whole
    · next after found strict =>
        cases whole
        have walked := (forward_iff_strict (Nat.zero_le _)).mpr
          (strict_count strict 0 (Nat.zero_le _))
        rcases walked with ⟨lines, walked⟩
        have same := strict.symm.trans (strict_count strict 0 (Nat.zero_le _))
        simp only [Except.ok.injEq, Prod.mk.injEq, true_and] at same
        exact ⟨same.trans (counted walked), lines, after, walked⟩
  · rintro ⟨rfl, lines, after, walked⟩
    rw [(forward_iff_strict (Nat.zero_le _)).mp ⟨lines, walked⟩, counted walked]

/-- The two walks of one ledger: where the audit finds the chain whole, the walk from the tail
yields the forward walk's lines in reverse; and a walk from the tail that ends at the first seq
without an error, and without a line of the last one, has walked a whole chain. -/
theorem tailLines_agree_with_audit (codec : Codec Hash Record) (version : Nat) (dir : Directory) :
    (∀ count, auditChain codec version dir = .whole count →
      ∃ lines after,
        forward codec (atGenesis codec) (readRawLinesAt dir) = .ok (lines, after) ∧
        lines.map TailLine.raw = readRawLinesAt dir ∧ count = lines.length ∧
        Yields codec (through dir) (lines.reverse.map .ok)) ∧
    ∀ (lines : List (TailLine Record)) (oldest : TailLine Record),
      Yields codec (through dir) (lines.map .ok) → lines.getLast? = some oldest →
      claimedSeq codec oldest.raw = some Seq.first →
      (∀ line ∈ lines, claimedSeq codec line.raw ≠ some Seq.last) →
      auditChain codec version dir = .whole lines.length ∧
        readRawLinesAt dir = (lines.map TailLine.raw).reverse := by
  constructor
  · intro count whole
    rcases (audit_eq_whole).mp whole with ⟨counted, lines, after, walked⟩
    have raws := map_raw_of_forward walked
    refine ⟨lines, after, walked, raws, ?_, ?_⟩
    · rw [counted, ← raws, length_map]
    · apply yields_of_forward walked (pending_through dir) rfl
      intro newer none
      cases none
  · intro lines oldest yields last started room
    rcases linked_of_yields yields (pending_through dir) rfl with ⟨raws, chain⟩
    rcases chain oldest last started with ⟨newest, older, link, rfl, judged, walked, -⟩
    -- The newest line has no newer one, so only its own seq can stop the forward walk.
    have notLast : link.seq ≠ Seq.last := by
      intro same
      apply room newest mem_cons_self
      rw [claimedSeq_of_judge judged, same]
    rcases Seq.exists_next notLast with ⟨expected, stepped⟩
    have whole : forward codec (atGenesis codec) (readRawLinesAt dir) =
        .ok (older.reverse ++ [⟨newest.raw, newest.checked⟩],
          ⟨codec.chainHash newest.raw, expected⟩) := by
      rw [raws, map_cons, reverse_cons]
      apply (forward_concat).mpr
      exact ⟨older.reverse, ⟨link.prev, link.seq⟩, newest.checked, walked,
        advance_eq_ok.mpr ⟨judged, stepped, rfl⟩, rfl⟩
    refine ⟨(audit_eq_whole).mpr ⟨?_, _, _, whole⟩, raws⟩
    rw [raws, length_reverse, length_map]

end Chain

end TailLines

end Sprawling
