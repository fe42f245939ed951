import Sprawling.Storage.Calm

/-! Opening a ledger on a disk that does what it is asked. -/

namespace Sprawling

open Calm JsonlLedger Effect

namespace Open

variable {Hash Draft : Type} [DecidableEq Hash] {wire : Wire Hash Draft}

/-- The directory after the last segment is cut back. -/
def settledDirectory (dir : Directory) (last : FileName × Bytes) (found : TailFound Hash) :
    Directory :=
  if found.keep < found.total then
    if found.keep = 0 then dir.erase last.1 else dir.insert last.1 (last.2.take found.keep)
  else dir

/-- The position after the last segment is cut back. -/
def settledLedger (ledger : JsonlLedger Hash) (last : FileName) (found : TailFound Hash) :
    JsonlLedger Hash :=
  let position :=
    if found.keep < found.total ∧ found.keep = 0 then
      found.prior.getD (Segment.segmentFileName Seq.first, 0)
    else (last, found.keep)
  { ledger with
    segPath := position.1
    segLen := position.2
    prev := found.check.prev
    nextSeq := found.check.expected }

theorem resize_of_le {bytes : Bytes} {len : Nat} (within : len ≤ bytes.length) :
    FaultFs.resize bytes len = bytes.take len := by
  rw [FaultFs.resize, Nat.sub_eq_zero_of_le within, List.replicate_zero, List.append_nil]

theorem insert_erase (dir : Directory) (path : FileName) (bytes : Bytes) :
    (dir.insert path bytes).erase path = dir.erase path := by
  apply Std.ExtTreeMap.ext_getElem?
  intro other
  rw [OrdMap.get_erase, OrdMap.get_erase, OrdMap.get_insert]
  split
  · rfl
  · rfl

variable {last : FileName × Bytes} {site : Site Hash} {found : TailFound Hash}

omit [DecidableEq Hash] in
theorem answers_settleTail (calm : site.Calm)
    (present : site.directory[last.1]? = some last.2)
    (total : found.total = last.2.length) :
    Answers (settleTail last.1 found) site () (settledDirectory site.directory last found)
      (settledLedger site.ledger last.1 found) := by
  unfold settleTail settledDirectory settledLedger
  by_cases torn : found.keep < found.total
  · by_cases bare : found.keep = 0
    · rw [if_pos torn, if_pos bare, if_pos torn, if_pos bare, if_pos ⟨torn, bare⟩]
      apply answers_bind (answers_truncate calm _ 0 present)
      intro first calm₁ files₁ writer₁
      have there : (first.directory[last.1]?).isSome := by
        rw [files₁, OrdMap.get_insert, if_pos rfl]
        rfl
      apply answers_bind (answers_syncData calm₁ _ there)
      intro second calm₂ files₂ writer₂
      apply answers_bind (answers_removeFile calm₂ _ (by rw [files₂]; exact there))
      intro third calm₃ files₃ writer₃
      apply answers_bind (answers_syncDir calm₃ _)
      intro fourth calm₄ files₄ writer₄
      apply answers_bind (answers_setLedger calm₄ _)
      intro fifth calm₅ files₅ writer₅
      have done := answers_setLedger calm₅ fun ledger =>
        { ledger with prev := found.check.prev, nextSeq := found.check.expected }
      rw [files₅, files₄, files₃, files₂, files₁, insert_erase, writer₅, writer₄, writer₃, writer₂,
        writer₁] at done
      exact done
    · rw [if_pos torn, if_neg bare, if_pos torn, if_neg bare, if_neg (fun both => bare both.2)]
      apply answers_bind (answers_truncate calm _ found.keep present)
      intro first calm₁ files₁ writer₁
      rw [resize_of_le (by omega)] at files₁
      have there : (first.directory[last.1]?).isSome := by
        rw [files₁, OrdMap.get_insert, if_pos rfl]
        rfl
      apply answers_bind (answers_syncData calm₁ _ there)
      intro second calm₂ files₂ writer₂
      apply answers_bind (answers_setLedger calm₂ _)
      intro third calm₃ files₃ writer₃
      have done := answers_setLedger calm₃ fun ledger =>
        { ledger with prev := found.check.prev, nextSeq := found.check.expected }
      rw [files₃, files₂, files₁, writer₃, writer₂, writer₁] at done
      exact done
  · rw [if_neg torn, if_neg torn, if_neg fun both => torn both.1]
    apply answers_bind (answers_setLedger calm _)
    intro first calm₁ files₁ writer₁
    have done := answers_setLedger calm₁ fun ledger =>
      { ledger with prev := found.check.prev, nextSeq := found.check.expected }
    rw [files₁, writer₁] at done
    exact done

/-- What follows the examination of the tail. -/
def conclude (wire : Wire Hash Draft) (now : Nat) (last : FileName) (found : TailFound Hash) :
    LedgerStep Hash OpenReport := do
  settleTail last found
  reportRecovery wire now found.dropped found.counted

/-- The site an open starts its work on. -/
def entered (wire : Wire Hash Draft) (site : Site Hash) : Site Hash :=
  { site with ledger := unopened wire }

variable {now : Nat} {proof : TailProof Hash}

theorem run_open (site : Site Hash) :
    (openThrough wire now proof).run site =
      (resume wire now site.directory.segments proof).run (entered wire site) := rfl

theorem run_open_empty (none : site.directory.segments.getLast? = none) :
    (openThrough wire now proof).run site =
      (.ok { recovered := Option.none, counted := {} }, entered wire site) := by
  rw [run_open, resume]
  simp only [none]
  rfl

variable {e : StorageError}

theorem run_open_unprobed (some : site.directory.segments.getLast? = some last)
    (refused : probeVersion wire site.directory.segments = .error e) :
    (openThrough wire now proof).run site = (.error e, entered wire site) := by
  rw [run_open, resume]
  simp only [some, refused]
  rfl

theorem run_open_unexamined (some : site.directory.segments.getLast? = some last)
    (probed : probeVersion wire site.directory.segments = .ok ())
    (refused : examineTail wire site.directory.segments last proof = .error e) :
    (openThrough wire now proof).run site = (.error e, entered wire site) := by
  rw [run_open, resume]
  simp only [some, probed, recoverTail, refused]
  rfl

theorem run_open_examined (some : site.directory.segments.getLast? = some last)
    (probed : probeVersion wire site.directory.segments = .ok ())
    (examined : examineTail wire site.directory.segments last proof = .ok found) :
    (openThrough wire now proof).run site =
      (conclude wire now last.1 found).run (entered wire site) := by
  rw [run_open, resume]
  simp only [some, probed, recoverTail, examined, conclude, run_bind, run_lift]
  cases (settleTail last.1 found).run (entered wire site) with
  | mk answer after => cases answer <;> rfl

/-- A refusal of the step. -/
def Refuses {α : Type} (step : LedgerStep Hash α) (site : Site Hash) : Prop :=
  ∃ e after, step.run site = (.error e, after)

omit [DecidableEq Hash] in
theorem refuses_bind {α β : Type} {first : LedgerStep Hash α} {next : α → LedgerStep Hash β} {value : α} {dir : Directory} {ledger : JsonlLedger Hash}
    (here : Answers first site value dir ledger)
    (rest : ∀ after : Site Hash, after.Calm → after.directory = dir → after.ledger = ledger →
      Refuses (next value) after) : Refuses (first >>= next) site := by
  rcases here with ⟨middle, ran, calm, files, writer⟩
  rcases rest middle calm files writer with ⟨e, after, refused⟩
  exact ⟨e, after, by rw [run_bind_ok ran, refused]⟩

omit [DecidableEq Hash] in
theorem refuses_first {α β : Type} {first : LedgerStep Hash α} {next : α → LedgerStep Hash β} (here : Refuses first site) : Refuses (first >>= next) site := by
  rcases here with ⟨e, after, refused⟩
  exact ⟨e, after, run_bind_error refused⟩

section Wave

variable {site : Site Hash}

omit [DecidableEq Hash] in
/-- A wave that does not frame is refused before anything is written. -/
theorem refuses_appendAll (calm : site.Calm) (settled : site.ledger.pendingUnwind = none)
    (whole : site.ledger.barrier = .whole) {drafts : List Draft} (some : drafts ≠ [])
    (frames : drafts.foldlM (JsonlLedger.frame wire site.ledger.rollBytes)
      (startFraming site) = .error e) :
    Refuses (JsonlLedger.appendAll wire drafts) site := by
  apply refuses_bind (answers_finishUnwind calm settled)
  intro first calm₁ files₁ writer₁
  apply refuses_bind (answers_admitWave calm₁ (by rw [writer₁, whole]))
  intro second calm₂ files₂ writer₂
  rw [if_neg (by simpa using some)]
  have framing : drafts.foldlM (JsonlLedger.frame wire second.ledger.rollBytes)
      (startFraming second) = .error e := by
    rw [writer₂, writer₁, startFraming_congr (files₂.trans files₁) (writer₂.trans writer₁), frames]
  refine ⟨e, second, ?_⟩
  have looked : (Effect.look : LedgerStep Hash (Site Hash)).run second = (.ok second, second) := rfl
  rw [run_bind_ok looked]
  apply run_bind_error
  rw [run_lift, framing]

omit [DecidableEq Hash] in
theorem frame_one {draft : Draft} {line : Bytes}
    (written : wire.canonicalLine
      (.fromDraft draft site.ledger.nextSeq site.ledger.prev) = .ok line) :
    (∃ framed : Framing Hash Draft, [draft].foldlM (JsonlLedger.frame wire site.ledger.rollBytes)
        (startFraming site) = .ok framed ∧ site.ledger.nextSeq ≠ Seq.last) ∨
    ∃ e, [draft].foldlM (JsonlLedger.frame wire site.ledger.rollBytes)
        (startFraming site : Framing Hash Draft) = .error e ∧
      site.ledger.nextSeq = Seq.last := by
  have first : (startFraming site : Framing Hash Draft).seq = site.ledger.nextSeq := rfl
  have root : (startFraming site : Framing Hash Draft).prev = site.ledger.prev := rfl
  rw [List.foldlM_cons]
  simp only [JsonlLedger.frame, first, root, written]
  cases stepped : site.ledger.nextSeq.next with
  | ok seq =>
    left
    exact ⟨_, rfl, Seq.ne_last_of_next stepped⟩
  | error e =>
    right
    refine ⟨_, rfl, ?_⟩
    apply Classical.byContradiction
    intro room
    rcases Seq.exists_next room with ⟨next, found⟩
    rw [stepped] at found
    cases found

/-- A ledger freshly positioned. -/
def Fresh (site : Site Hash) : Prop :=
  site.ledger.pendingUnwind = none ∧ site.ledger.barrier = .whole

variable {counted : ProofCount} {now dropped : Nat}

omit [DecidableEq Hash] in
/-- The report of a recovery answers, unless a record is owed and the sequence is exhausted. -/
theorem answers_reportRecovery (lawful : wire.Lawful) (calm : site.Calm) (fresh : Fresh site)
    (room : dropped = 0 ∨ site.ledger.nextSeq ≠ Seq.last) :
    ∃ after, (reportRecovery wire now dropped counted).run site =
      (.ok { recovered := if dropped > 0 then some dropped else none, counted }, after) := by
  unfold reportRecovery
  by_cases owed : dropped > 0
  · rw [if_pos owed, if_pos owed]
    have looked : (Effect.look : LedgerStep Hash (Site Hash)).run site = (.ok site, site) := rfl
    rw [run_bind_ok looked]
    by_cases started : site.ledger.nextSeq = Seq.first
    · rw [if_neg (by simpa using started)]
      exact ⟨site, rfl⟩
    · rw [if_pos started]
      rcases lawful.logTruncated_line now dropped site.ledger.nextSeq site.ledger.prev with
        ⟨line, written⟩
      rcases frame_one written with ⟨framed, frames, -⟩ | ⟨-, -, exhausted⟩
      · rcases answers_appendAll calm fresh.1 fresh.2 (List.cons_ne_nil _ _) frames with
          ⟨after, ran, -⟩
        refine ⟨after, ?_⟩
        have recorded : (appendLogTruncated wire now dropped).run site =
            (.ok (), after) := run_bind_ok ran
        rw [run_bind_ok recorded]
        rfl
      · rcases room with none | room
        · omega
        · exact absurd exhausted room
  · rw [if_neg owed, if_neg owed]
    exact ⟨site, rfl⟩

omit [DecidableEq Hash] in
theorem refuses_reportRecovery (lawful : wire.Lawful) (calm : site.Calm) (fresh : Fresh site) (owed : dropped > 0)
    (exhausted : site.ledger.nextSeq = Seq.last) :
    Refuses (reportRecovery wire now dropped counted) site := by
  unfold reportRecovery
  rw [if_pos owed]
  have looked : (Effect.look : LedgerStep Hash (Site Hash)).run site = (.ok site, site) := rfl
  have started : site.ledger.nextSeq ≠ Seq.first := by
    rw [exhausted]
    decide
  rcases lawful.logTruncated_line now dropped site.ledger.nextSeq site.ledger.prev with
    ⟨line, written⟩
  rcases frame_one written with ⟨-, -, room⟩ | ⟨e, frames, -⟩
  · exact absurd exhausted room
  · rcases refuses_appendAll calm fresh.1 fresh.2 (List.cons_ne_nil _ _) frames with
      ⟨e, after, refused⟩
    refine ⟨e, after, ?_⟩
    rw [run_bind_ok looked, if_pos started]
    have recorded : (appendLogTruncated wire now dropped).run site =
        (.error e, after) := run_bind_error refused
    exact run_bind_error recorded

end Wave

end Open

end Sprawling
