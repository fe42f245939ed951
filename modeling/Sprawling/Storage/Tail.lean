import Sprawling.Storage.Reading
import Sprawling.Storage.Verify

/-! The ledger read from its tail: the newest line first, segment by segment backwards. -/

namespace Sprawling

open List Lines

/-- One line of the ledger: its bytes and what it is. -/
structure TailLine (Record : Type) where
  raw : Bytes
  checked : CheckedLine Record

/-- What the line read before (the newer one) requires of the next. -/
structure Link (Hash : Type) where
  seq : Seq
  prev : Hash

namespace Tail

def firstWindowBytes : Nat := 4 * 1024

/-- One segment being read from its end: `held` is its bytes from `unread` up to the end of its
last complete line. `content` is what the file at `path` holds. -/
structure Backward where
  path : FileName
  content : Bytes
  unread : Nat
  window : Nat
  held : Bytes

namespace Backward

/-- Puts the window of bytes before `held` in front of it, and doubles the window. -/
def readFurther (reading : Backward) : Backward :=
  let take := min reading.window reading.unread
  let start := reading.unread - take
  { reading with
    held := Reading.readAt reading.content start take ++ reading.held
    unread := start
    window := min (reading.window * 2) u64Max }

def openLoop : Nat → Backward → Backward
  | 0, reading => reading
  | fuel + 1, reading =>
    match rposition (fun byte => byte == newline) reading.held with
    | some place => { reading with held := reading.held.take (place + 1) }
    | none =>
      if reading.unread = 0 then { reading with held := [] }
      else openLoop fuel reading.readFurther

/-- The segment with its torn tail already set aside. -/
def openAt (path : FileName) (content : Bytes) : Backward :=
  openLoop (content.length + 1)
    { path, content, unread := content.length, window := firstWindowBytes, held := [] }

def popLoop : Nat → Backward → Option Bytes × Backward
  | 0, reading => (none, reading)
  | fuel + 1, reading =>
    if reading.held.isEmpty then (none, reading)
    else
      let body := reading.held.dropLast
      match rposition (fun byte => byte == newline) body with
      | some place =>
        (some (body.drop (place + 1)), { reading with held := reading.held.take (place + 1) })
      | none =>
        if reading.unread = 0 then (some body, { reading with held := [] })
        else popLoop fuel reading.readFurther

/-- The last line `held` ends with, without its newline; `none` once the segment has no line
left. -/
def popLine (reading : Backward) : Option Bytes × Backward := popLoop (reading.unread + 1) reading

/-- The lines of the segment still to come, oldest first. -/
structure Holds (reading : Backward) (lines : List Bytes) : Prop where
  window : 0 < reading.window
  within : reading.unread ≤ reading.content.length
  lines_end : ∀ line ∈ lines, newline ∉ line
  bytes : reading.content.take reading.unread ++ reading.held = join newline lines
  held : lines ≠ [] → reading.held ≠ []

variable {reading : Backward}

theorem readFurther_unread (window : 0 < reading.window)
    (more : reading.unread ≠ 0) : reading.readFurther.unread < reading.unread := by
  simp only [readFurther]
  omega

theorem readFurther_bytes (reading : Backward) :
    reading.content.take reading.readFurther.unread ++ reading.readFurther.held =
      reading.content.take reading.unread ++ reading.held := by
  simp only [readFurther, Reading.readAt]
  rw [← append_assoc]
  congr 1
  have split : reading.unread =
      (reading.unread - min reading.window reading.unread) + min reading.window reading.unread := by
    omega
  conv => rhs; rw [split, take_add]

variable {lines : List Bytes}

theorem readFurther_holds (holds : reading.Holds lines) :
    reading.readFurther.Holds lines where
  window := by
    have positive := holds.window
    simp only [readFurther, u64Max]
    omega
  within := Nat.le_trans (Nat.sub_le _ _) holds.within
  lines_end := holds.lines_end
  bytes := by
    rw [← holds.bytes]
    exact readFurther_bytes reading
  held := by
    intro some
    simp only [readFurther]
    exact append_ne_nil_of_right_ne_nil _ (holds.held some)

theorem openLoop_holds (fuel : Nat) (reading : Backward) (window : 0 < reading.window)
    (within : reading.unread ≤ reading.content.length) (enough : reading.unread < fuel)
    (all : reading.content.take reading.unread ++ reading.held = reading.content) :
    (openLoop fuel reading).Holds (complete newline reading.content) := by
  induction fuel generalizing reading with
  | zero => omega
  | succ fuel ih =>
    unfold openLoop
    split
    · next place found =>
        rcases rposition_eq_some found with ⟨before, mark, after, shape, size, here, later⟩
        have same : mark = newline := by simpa using here
        subst same
        have absent : newline ∉ after := by
          intro member
          simpa using later newline member
        have content : reading.content =
            (reading.content.take reading.unread ++ before) ++ newline :: after := by
          rw [append_assoc, ← shape, all]
        have taken : reading.held.take (place + 1) = before ++ [newline] := by
          rw [shape, ← size]
          exact take_through before after newline
        refine ⟨window, within, fun line member => mark_not_mem_complete member, ?_, ?_⟩
        · show reading.content.take reading.unread ++ reading.held.take (place + 1) =
            Lines.whole newline reading.content
          rw [taken, ← append_assoc, ← whole_append_mark _ absent, ← content]
        · intro _
          show reading.held.take (place + 1) ≠ []
          rw [taken]
          simp
    · next absent =>
        split
        · next read =>
            have held : reading.held = reading.content := by
              rw [read, take_zero, nil_append] at all
              exact all
            have bare : complete newline reading.content = [] := by
              have missing : newline ∉ reading.content := by
                intro member
                rw [← held] at member
                simpa using rposition_eq_none.mp absent newline member
              exact complete_unended missing
            rw [bare]
            refine ⟨window, within, by simp, ?_, fun some => absurd rfl some⟩
            show reading.content.take reading.unread ++ [] = _
            rw [read]
            rfl
        · next more =>
            have smaller := readFurther_unread window more
            have further := ih reading.readFurther
              (by simp only [readFurther, u64Max]; omega)
              (Nat.le_trans (Nat.sub_le _ _) within) (by omega)
              ((readFurther_bytes reading).trans all)
            exact further

theorem openAt_holds (path : FileName) (content : Bytes) :
    (openAt path content).Holds (complete newline content) := by
  apply openLoop_holds
  · show 0 < firstWindowBytes
    decide
  · exact Nat.le_refl _
  · exact Nat.lt_succ_self _
  · show content.take content.length ++ [] = content
    simp

theorem popLoop_concat (fuel : Nat) (reading : Backward) (front : List Bytes) (line : Bytes)
    (holds : reading.Holds (front ++ [line])) (enough : reading.unread < fuel) :
    ∃ after, popLoop fuel reading = (some line, after) ∧ after.Holds front := by
  induction fuel generalizing reading with
  | zero => omega
  | succ fuel ih =>
    have present : reading.held ≠ [] := holds.held (by simp)
    have joined := holds.bytes
    rw [join_append, join_cons, join_nil, ← append_assoc] at joined
    have last : reading.held = reading.held.dropLast ++ [newline] := by
      rcases eq_nil_or_concat reading.held with bare | ⟨body, byte, shape⟩
      · exact absurd bare present
      · rw [concat_eq_append] at shape
        rw [shape, ← append_assoc] at joined
        rw [shape, dropLast_concat, (append_inj' joined rfl).2]
    rw [last, ← append_assoc] at joined
    have body := (append_inj' joined rfl).1
    have ends := holds.lines_end
    have lineEnds : newline ∉ line := ends line (by simp)
    have frontEnds : ∀ other ∈ front, newline ∉ other := fun other member =>
      ends other (mem_append_left _ member)
    unfold popLoop
    rw [if_neg (by simpa using present)]
    simp only
    split
    · next place found =>
        rcases rposition_eq_some found with ⟨before, mark, after, shape, size, here, later⟩
        have same : mark = newline := by simpa using here
        subst same
        have absent : newline ∉ after := by
          intro member
          simpa using later newline member
        rw [shape, ← append_assoc] at body
        -- Both sides cut the same bytes at their last newline.
        have newest : after = line := by
          rw [← tail_append_mark _ absent, body, tail_join_append frontEnds, tail_unended lineEnds]
        have older : (reading.content.take reading.unread ++ before) ++ [newline] =
            join newline front := by
          rw [← whole_append_mark _ absent, body, whole_join_append frontEnds lineEnds]
        have taken : reading.held.take (place + 1) = before ++ [newline] := by
          rw [last, shape, ← size, append_assoc, cons_append]
          exact take_through before (after ++ [newline]) newline
        have popped : reading.held.dropLast.drop (place + 1) = line := by
          rw [shape, ← size, ← newest]
          exact drop_through before after newline
        refine ⟨_, Prod.ext (congrArg some popped) rfl, holds.window, holds.within, frontEnds, ?_, ?_⟩
        · show reading.content.take reading.unread ++ reading.held.take (place + 1) = _
          rw [taken, ← older, append_assoc]
        · intro _
          show reading.held.take (place + 1) ≠ []
          rw [taken]
          simp
    · next absent =>
        have missing : newline ∉ reading.held.dropLast := by
          intro member
          simpa using rposition_eq_none.mp absent newline member
        split
        · next read =>
            rw [read, take_zero, nil_append] at body
            have newest : reading.held.dropLast = line := by
              rw [← tail_unended missing, body, tail_join_append frontEnds, tail_unended lineEnds]
            have older : front = [] := by
              rw [← complete_join frontEnds]
              have cut := congrArg (complete newline) body
              rw [complete_unended missing, Lines.complete_join_append frontEnds,
                complete_unended lineEnds, append_nil] at cut
              rw [← cut]
              rfl
            subst older
            refine ⟨_, Prod.ext (congrArg some newest) rfl, holds.window, holds.within, by simp, ?_,
              fun some => absurd rfl some⟩
            show reading.content.take reading.unread ++ [] = _
            rw [read]
            rfl
        · next more =>
            have smaller := readFurther_unread holds.window more
            exact ih reading.readFurther (readFurther_holds holds) (by omega)

theorem popLine_concat {front : List Bytes} {line : Bytes}
    (holds : reading.Holds (front ++ [line])) :
    ∃ after, reading.popLine = (some line, after) ∧ after.Holds front :=
  popLoop_concat _ reading front line holds (Nat.lt_succ_self _)

theorem popLine_nil (holds : reading.Holds []) :
    reading.popLine = (none, reading) := by
  have bare : reading.held = [] := (append_eq_nil_iff.mp holds.bytes).2
  rw [popLine, popLoop, if_pos (by rw [bare]; rfl)]

theorem length_le_of_holds (holds : reading.Holds lines) :
    lines.length ≤ reading.unread + reading.held.length := by
  have bound : (complete newline (join newline lines)).length ≤ _ :=
    length_complete_le (join newline lines)
  rw [complete_join holds.lines_end, ← holds.bytes, length_append, length_take] at bound
  omega

end Backward

end Tail

/-- The ledger's lines from the newest back. -/
structure TailLines (Hash : Type) where
  segments : List (FileName × Bytes)
  reading : Option Tail.Backward
  newer : Option (Link Hash)
  ended : Bool

namespace TailLines

variable {Hash Record : Type}

/-- The walk over the ledger in `dir`, read only. -/
def through (dir : Directory) : TailLines Hash :=
  { segments := dir.segments, reading := none, newer := none, ended := false }

/-- A bound on the turns `nextRaw` takes: every turn ends a segment or takes a line off one. -/
def budget (lines : TailLines Hash) : Nat :=
  (lines.segments.map fun segment => segment.2.length + 1).sum +
    (match lines.reading with
      | some reading => reading.unread + reading.held.length + 1
      | none => 0)

def nextRawLoop : Nat → TailLines Hash → Option Bytes × TailLines Hash
  | 0, lines => (none, lines)
  | fuel + 1, lines =>
    let turn (reading : Tail.Backward) (lines : TailLines Hash) :=
      match reading.popLine with
      | (some line, reading) =>
        if line.isEmpty then nextRawLoop fuel { lines with reading := some reading }
        else (some line, { lines with reading := some reading })
      | (none, _) => nextRawLoop fuel { lines with reading := none }
    match lines.reading with
    | some reading => turn reading lines
    | none =>
      match lines.segments.getLast? with
      | none => (none, lines)
      | some (path, content) =>
        turn (Tail.Backward.openAt path content)
          { lines with segments := lines.segments.dropLast }

/-- The next non-empty line back, crossing into older segments. -/
def nextRaw (lines : TailLines Hash) : Option Bytes × TailLines Hash :=
  nextRawLoop (lines.budget + 1) lines

/-- A refused line, named by the 1-based line the chain places it at: the newer line's seq. -/
def refusal (lines : TailLines Hash) (fault : LineFault) : StorageError :=
  let line := match lines.newer with
    | some newer => newer.seq.value
    | none => 0
  .envelope ((lines.reading.map Tail.Backward.path).getD []) line (fault.intoAx line)

variable [DecidableEq Hash] (codec : Codec Hash Record)

/-- What the newer line, when there is one, asks of the line before it. -/
def joins (raw : Bytes) (seq : Seq) : Option (Link Hash) → Except LineFault Unit
  | none => .ok ()
  | some newer =>
    if codec.chainHash raw ≠ newer.prev then .error .chainBreak
    else
      match seq.next with
      | .error e => .error (.seqExhausted e)
      | .ok after =>
        if after ≠ newer.seq then
          .error (.seqGap seq
            ⟨newer.seq.value - 1, Nat.lt_of_le_of_lt (Nat.sub_le _ _) newer.seq.lt⟩)
        else .ok ()

/-- Judges `raw` as a forward reader would and links it to the newer line. -/
def link (lines : TailLines Hash) (raw : Bytes) :
    Except LineFault (Link Hash × CheckedLine Record) :=
  match LineCheck.judge codec raw with
  | .error fault => .error fault
  | .ok judged =>
    match joins codec raw judged.seq lines.newer with
    | .error fault => .error fault
    | .ok () =>
      if judged.seq = Seq.first ∧ judged.prev ≠ codec.genesisPrev then .error .chainBreak
      else .ok ({ seq := judged.seq, prev := judged.prev }, judged.checked)

/-- The iterator: the next line, or the failure that ends the walk. -/
def next (lines : TailLines Hash) :
    Option (Except StorageError (TailLine Record) × TailLines Hash) :=
  if lines.ended then none
  else
    match lines.nextRaw with
    | (none, _) => none
    | (some raw, lines) =>
      match lines.link codec raw with
      | .ok (link, checked) => some (.ok { raw, checked }, { lines with newer := some link })
      | .error fault => some (.error (lines.refusal fault), { lines with ended := true })

/-- Iterating to the end yields these items. -/
inductive Yields : TailLines Hash → List (Except StorageError (TailLine Record)) → Prop where
  | done {lines : TailLines Hash} (none : lines.next codec = none) : Yields lines []
  | item {lines after : TailLines Hash} {item : Except StorageError (TailLine Record)}
      {rest : List (Except StorageError (TailLine Record))}
      (here : lines.next codec = some (item, after)) (later : Yields after rest) :
      Yields lines (item :: rest)

end TailLines

end Sprawling
