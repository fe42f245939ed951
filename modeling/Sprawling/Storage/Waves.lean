import Sprawling.Storage.Segments
import Sprawling.Storage.OpenCalm

/-! How a wave lies on the segments: the lines its first segment takes, and a page for every
segment it rolls to. -/

namespace Sprawling

open List

namespace Directory

theorem extend_extend (dir : Directory) (path : FileName) (first second : Bytes) :
    (dir.extend path first).extend path second = dir.extend path (first ++ second) := by
  apply Std.ExtTreeMap.ext_getElem?
  intro other
  simp only [extend, OrdMap.get_insert]
  split
  · simp
  · rfl

end Directory

section Wave

variable {Hash Draft : Type} [DecidableEq Hash] {wire : Wire Hash Draft}

omit [DecidableEq Hash] in
/-- What framing one draft does. -/
theorem frame_eq_ok {rollBytes : Nat} {framing next : Framing Hash Draft} {draft : Draft}
    (framed : JsonlLedger.frame wire rollBytes framing draft = .ok next) :
    ∃ line seq, wire.canonicalLine (.fromDraft draft framing.seq framing.prev) = .ok line ∧
      framing.seq.next = .ok seq ∧
      next.seq = seq ∧ next.prev = wire.chainHash line ∧
      next.records = framing.records ++ [.fromDraft draft framing.seq framing.prev] ∧
      ((0 < framing.curLen ∧ rollBytes < framing.curLen + (line.length + 1) ∧
          next.curPath = Segment.segmentFileName framing.seq ∧ next.curLen = line.length + 1 ∧
          next.created = framing.created ++ [Segment.segmentFileName framing.seq] ∧
          next.writes = JsonlLedger.pushWrite framing.writes (Segment.segmentFileName framing.seq) 0
            (line ++ [newline])) ∨
        (¬ (0 < framing.curLen ∧ rollBytes < framing.curLen + (line.length + 1)) ∧
          next.curPath = framing.curPath ∧ next.curLen = framing.curLen + (line.length + 1) ∧
          next.created = framing.created ∧
          next.writes = JsonlLedger.pushWrite framing.writes framing.curPath framing.curLen
            (line ++ [newline]))) := by
  unfold JsonlLedger.frame at framed
  simp only at framed
  cases written : wire.canonicalLine (.fromDraft draft framing.seq framing.prev) with
  | error e =>
    rw [written] at framed
    cases framed
  | ok line =>
    cases counted : framing.seq.next with
    | error e =>
      rw [written, counted] at framed
      cases framed
    | ok seq =>
      rw [written, counted] at framed
      by_cases rolls : 0 < framing.curLen ∧ rollBytes < framing.curLen + (line.length + 1)
      · have decided : (decide (framing.curLen > 0) &&
            decide (framing.curLen + (line.length + 1) > rollBytes)) = true := by
          simpa using rolls
        simp only [decided, if_true] at framed
        cases framed
        exact ⟨line, seq, rfl, rfl, rfl, rfl, rfl,
          .inl ⟨rolls.1, rolls.2, rfl, Nat.zero_add _, rfl, rfl⟩⟩
      · have decided : (decide (framing.curLen > 0) &&
            decide (framing.curLen + (line.length + 1) > rollBytes)) = false := by
          simpa using rolls
        simp only [decided, Bool.false_eq_true, if_false] at framed
        cases framed
        exact ⟨line, seq, rfl, rfl, rfl, rfl, rfl, .inr ⟨rolls, rfl, rfl, rfl, rfl⟩⟩

omit [DecidableEq Hash] in
theorem landed_pushWrite (dir : Directory) (writes : List WaveWrite) (path : FileName) (offset : Nat)
    (bytes : Bytes) :
    Calm.landed dir (JsonlLedger.pushWrite writes path offset bytes) =
      (Calm.landed dir writes).extend path bytes := by
  unfold JsonlLedger.pushWrite
  rcases eq_nil_or_concat writes with bare | ⟨front, last, shape⟩
  · rw [bare]
    rfl
  · rw [concat_eq_append] at shape
    rw [shape, getLast?_concat]
    simp only
    split
    · next same =>
        rw [dropLast_concat, Calm.landed, List.foldl_append, Calm.landed, List.foldl_append]
        simp only [foldl_cons, foldl_nil]
        rw [same, Directory.extend_extend]
    · rw [Calm.landed, List.foldl_append]
      rfl

end Wave

end Sprawling

/-! Waves one after another on a disk that does what it is asked: a ledger that takes one line at a
time, and any split into waves against it. -/

namespace Sprawling

namespace JsonlLedger

variable {Hash Draft : Type}

/-- Waves appended one after another, and the references they answer. -/
def appendWaves (wire : Wire Hash Draft) : List (List Draft) → LedgerStep Hash (List EventRef)
  | [] => pure []
  | wave :: waves => do
      let refs ← appendAll wire wave
      let later ← appendWaves wire waves
      pure (refs ++ later)

end JsonlLedger

/-- Where a ledger ends: what its directory shows, the position, and the references answered. -/
structure Tip (Hash : Type) where
  dir : Directory
  seq : Seq
  prev : Hash
  path : FileName
  len : Nat
  refs : List EventRef

namespace Tip

variable {Hash Draft : Type}

/-- One draft laid at the tip, in a new segment when it does not fit the one there is. -/
def put (wire : Wire Hash Draft) (rollBytes : Nat) (tip : Tip Hash) (draft : Draft) :
    Except StorageError (Tip Hash) :=
  match wire.canonicalLine (.fromDraft draft tip.seq tip.prev) with
  | .error e =>
    .error (.draft (AxError.failure .invalidArgs "serialize event"
      s!"{wire.kindOf draft} at seq {tip.seq.value}"
      s!"JSON refused this payload ({e}); give the event's data only string keys and finite numbers"))
  | .ok line =>
    match tip.seq.next with
    | .error e => .error (.draft e)
    | .ok seq =>
      let rolls : Bool := tip.len > 0 && tip.len + (line.length + 1) > rollBytes
      let path := if rolls then Segment.segmentFileName tip.seq else tip.path
      let len := if rolls then 0 else tip.len
      .ok
        { dir := tip.dir.extend path (line ++ [newline])
          seq
          prev := wire.chainHash line
          path
          len := len + (line.length + 1)
          refs := tip.refs ++ [{ seq := tip.seq, kind := wire.kindOf draft }] }

/-- The tip of a ledger and the directory under it. -/
def of (dir : Directory) (ledger : JsonlLedger Hash) : Tip Hash :=
  { dir, seq := ledger.nextSeq, prev := ledger.prev, path := ledger.segPath, len := ledger.segLen
    refs := [] }

/-- The tip a wave comes to once its writes have landed. -/
def landed (wire : Wire Hash Draft) (dir : Directory) (framing : Framing Hash Draft) : Tip Hash :=
  { dir := Calm.landed dir framing.writes
    seq := framing.seq
    prev := framing.prev
    path := framing.curPath
    len := framing.curLen
    refs := Calm.refsOf wire framing }

/-- The writer at a tip. -/
def writer (tip : Tip Hash) (ledger : JsonlLedger Hash) : JsonlLedger Hash :=
  { ledger with
    barrier := .whole
    segPath := tip.path
    segLen := tip.len
    nextSeq := tip.seq
    prev := tip.prev }

def after (refs : List EventRef) (tip : Tip Hash) : Tip Hash := { tip with refs := refs ++ tip.refs }

variable {wire : Wire Hash Draft} {rollBytes : Nat}

theorem landed_frame (dir : Directory) (framing : Framing Hash Draft) (draft : Draft) :
    (JsonlLedger.frame wire rollBytes framing draft).map (landed wire dir) =
      put wire rollBytes (landed wire dir framing) draft := by
  unfold JsonlLedger.frame put landed
  simp only
  cases wire.canonicalLine (.fromDraft draft framing.seq framing.prev) with
  | error e => rfl
  | ok line =>
    cases framing.seq.next with
    | error e => rfl
    | ok seq =>
      simp only [Except.map, Except.ok.injEq, Tip.mk.injEq, landed_pushWrite, true_and]
      rw [Calm.refsOf, Calm.refsOf, List.map_append]
      rfl

theorem landed_frames (dir : Directory) (framing : Framing Hash Draft) (drafts : List Draft) :
    (drafts.foldlM (JsonlLedger.frame wire rollBytes) framing).map (landed wire dir) =
      drafts.foldlM (put wire rollBytes) (landed wire dir framing) :=
  Outcome.foldlM_map framing fun draft _ held => landed_frame dir held draft

theorem put_after (refs : List EventRef) (tip : Tip Hash) (draft : Draft) :
    (put wire rollBytes tip draft).map (after refs) = put wire rollBytes (after refs tip) draft := by
  unfold put after
  simp only
  cases wire.canonicalLine (.fromDraft draft tip.seq tip.prev) with
  | error e => rfl
  | ok line =>
    cases tip.seq.next with
    | error e => rfl
    | ok seq => simp only [Except.map, List.append_assoc]

theorem puts_after (refs : List EventRef) (tip : Tip Hash) (drafts : List Draft) :
    (drafts.foldlM (put wire rollBytes) tip).map (after refs) =
      drafts.foldlM (put wire rollBytes) (after refs tip) :=
  Outcome.foldlM_map tip fun draft _ held => put_after refs held draft

end Tip

namespace Calm

variable {Hash Draft : Type} {wire : Wire Hash Draft} {site : Site Hash}

/-- What a step comes to: the tip it answers, or a refusal. -/
def ComesTo (step : LedgerStep Hash (List EventRef)) (site : Site Hash) :
    Except StorageError (Tip Hash) → Prop
  | .ok tip => Answers step site tip.refs tip.dir (tip.writer site.ledger)
  | .error _ => Open.Refuses step site

theorem writer_of (whole : site.ledger.barrier = .whole) :
    (Tip.of site.directory site.ledger).writer site.ledger = site.ledger := by
  rw [Tip.writer, ← whole]
  rfl

theorem landed_start (site : Site Hash) :
    Tip.landed wire site.directory (JsonlLedger.startFraming site : Framing Hash Draft) =
      Tip.of site.directory site.ledger := rfl

theorem comesTo_appendAll (calm : site.Calm) (settled : site.ledger.pendingUnwind = none)
    (whole : site.ledger.barrier = .whole) (drafts : List Draft) :
    ComesTo (JsonlLedger.appendAll wire drafts) site
      (drafts.foldlM (Tip.put wire site.ledger.rollBytes) (Tip.of site.directory site.ledger)) := by
  by_cases none : drafts = []
  · subst none
    show Answers _ site [] site.directory ((Tip.of site.directory site.ledger).writer site.ledger)
    rw [writer_of whole]
    apply answers_bind (answers_finishUnwind calm settled)
    intro first calm₁ files₁ writer₁
    rw [← files₁, ← writer₁]
    apply answers_bind (answers_admitWave calm₁ (by rw [writer₁, whole]))
    intro second calm₂ files₂ writer₂
    rw [← files₂, ← writer₂]
    exact answers_pure calm₂ []
  · have started : Tip.landed wire site.directory (JsonlLedger.startFraming site) =
        Tip.of site.directory site.ledger := landed_start site
    rw [← started, ← Tip.landed_frames]
    cases frames : drafts.foldlM (JsonlLedger.frame wire site.ledger.rollBytes)
      (JsonlLedger.startFraming site) with
    | ok framed => exact answers_appendAll calm settled whole none frames
    | error e => exact Open.refuses_appendAll calm settled whole none frames

/-- Waves one after another come to the tip all their drafts come to one at a time. -/
theorem comesTo_appendWaves (calm : site.Calm) (settled : site.ledger.pendingUnwind = none)
    (whole : site.ledger.barrier = .whole) (waves : List (List Draft)) :
    ComesTo (JsonlLedger.appendWaves wire waves) site
      (waves.flatten.foldlM (Tip.put wire site.ledger.rollBytes)
        (Tip.of site.directory site.ledger)) := by
  induction waves generalizing site with
  | nil =>
    show Answers _ site [] site.directory ((Tip.of site.directory site.ledger).writer site.ledger)
    rw [writer_of whole]
    exact answers_pure calm []
  | cons wave waves ih =>
    have first : ComesTo (JsonlLedger.appendAll wire wave) site _ :=
      comesTo_appendAll calm settled whole wave
    rw [List.flatten_cons, List.foldlM_append]
    cases ended : wave.foldlM (Tip.put wire site.ledger.rollBytes)
      (Tip.of site.directory site.ledger) with
    | error e =>
      rw [ended] at first
      exact Open.refuses_first first
    | ok tip =>
      rw [ended] at first
      show ComesTo _ site (waves.flatten.foldlM (Tip.put wire site.ledger.rollBytes) tip)
      -- The waves after the first start from its tip, with nothing answered yet.
      have tipped : Tip.after tip.refs (Tip.of tip.dir (tip.writer site.ledger)) = tip := by
        rw [Tip.after, Tip.of, List.append_nil]
        rfl
      have rest : ∀ middle : Site Hash, middle.Calm → middle.directory = tip.dir →
          middle.ledger = tip.writer site.ledger →
          ComesTo (JsonlLedger.appendWaves wire waves) middle
            (waves.flatten.foldlM (Tip.put wire site.ledger.rollBytes)
              (Tip.of tip.dir (tip.writer site.ledger))) := by
        intro middle calm' files writer
        have later := ih calm' (by rw [writer]; exact settled) (by rw [writer]; rfl)
        rw [files, writer] at later
        exact later
      rw [← tipped, ← Tip.puts_after]
      cases last : waves.flatten.foldlM (Tip.put wire site.ledger.rollBytes)
        (Tip.of tip.dir (tip.writer site.ledger)) with
      | error e =>
        apply Open.refuses_bind first
        intro middle calm' files writer
        have later := rest middle calm' files writer
        rw [last] at later
        exact Open.refuses_first later
      | ok done =>
        apply answers_bind first
        intro middle calm' files writer
        have later := rest middle calm' files writer
        rw [last] at later
        apply answers_bind later
        intro final calm'' files' writer'
        have here := answers_pure calm'' (tip.refs ++ done.refs)
        rw [files', writer', writer] at here
        exact here

end Calm

end Sprawling
