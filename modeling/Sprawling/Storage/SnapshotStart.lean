import Mathlib.Data.List.Induction
import Sprawling.Storage.LedgerIndex

/-! Where a start begins folding: after a snapshot whose line still sits at its seq, or from
genesis with the reason it could not resume. -/

namespace Sprawling

open List Reading

/-- What a fold held after the line at `seq`, and the chain hash that names that line. -/
structure ChainSnapshot (Hash : Type) where
  foldVersion : Nat
  seq : Seq
  lineHash : Hash
  views : Bytes

/-- What the snapshot directory holds. -/
inductive StoredSnapshot (Hash : Type) where
  | absent
  | damaged (reason : String)
  | present (snapshot : ChainSnapshot Hash)

/-- Whether a line is the line a snapshot was cut at. -/
inductive SnapshotFit where
  | fits
  | stale
deriving DecidableEq

/-- Why a start could not resume from the snapshot. -/
inductive WholeFold where
  | noSnapshot
  | damaged (reason : String)
  | otherFoldVersion (found : Nat)
  | stale
  | missing
deriving DecidableEq

/-- Where a start folds from: the lines past a snapshot, or genesis and the reason. -/
inductive SnapshotStart where
  | resume (tail : List Bytes)
  | whole (because : WholeFold)
deriving DecidableEq

/-- The line a snapshot was cut at, and the lines after it. -/
structure Cut where
  lineAtSeq : Bytes
  tail : List Bytes

namespace ChainSnapshot

variable {Hash Record : Type} (codec : Codec Hash Record)

/-- A snapshot cut after `line`, the raw line at `seq`. -/
def cut (foldVersion : Nat) (seq : Seq) (line views : Bytes) : ChainSnapshot Hash :=
  { foldVersion, seq, lineHash := codec.chainHash line, views }

variable [DecidableEq Hash]

/-- Whether two snapshots were cut at the same line of the same ledger. -/
def sameLine (snapshot other : ChainSnapshot Hash) : Bool :=
  snapshot.seq = other.seq && snapshot.lineHash = other.lineHash

def fit (snapshot : ChainSnapshot Hash) (lineAtSeq : Bytes) : SnapshotFit :=
  if codec.chainHash lineAtSeq = snapshot.lineHash then .fits else .stale

/-- The chain state after the snapshot's line. -/
def resume (snapshot : ChainSnapshot Hash) : Except AxError (LineCheck Hash) :=
  snapshot.seq.next.map fun expected => ⟨snapshot.lineHash, expected⟩

end ChainSnapshot

namespace SnapshotStart

variable {Hash Record : Type} (codec : Codec Hash Record)

/-- The last segment whose name claims a first seq at or before `seq`, with that claim and the
segments after it. -/
def holding (seq : Nat) :
    List (FileName × Bytes) → Option (Nat × (FileName × Bytes) × List (FileName × Bytes))
  | [] => none
  | segment :: rest =>
    match holding seq rest with
    | some found => some found
    | none =>
      match Segment.segmentFirstSeq segment.1 with
      | some first => if first ≤ seq then some (first, segment, rest) else none
      | none => none

/-- The line at `seq` in one segment, found from the end: the last line names its own seq, so the
line at `seq` is that many lines back. -/
def fromTheEnd (bytes : Bytes) (seq : Nat) : Option Cut :=
  let lines := (segmentLines bytes).reverse
  match lines.head?.bind (claimedSeq codec) with
  | none => none
  | some newest =>
    if newest.value < seq then none
    else
      let back := newest.value - seq
      let tail := lines.take back
      if tail.length ≠ back then none
      else (lines[back]?).map fun lineAtSeq => { lineAtSeq, tail := tail.reverse }

/-- The line at `seq` in one segment whose first line is `first`, found by counting from its
start. -/
def fromTheStart (bytes : Bytes) (first seq : Nat) : Option Cut :=
  if seq < first then none
  else
    match (segmentLines bytes).drop (seq - first) with
    | [] => none
    | lineAtSeq :: tail => some { lineAtSeq, tail }

/-- The line at `seq` and every complete line after it. -/
def linesFromCut (dir : Directory) (seq : Nat) : Option Cut :=
  match holding seq dir.segments with
  | none => none
  | some (first, segment, onward) =>
    ((fromTheEnd codec segment.2 seq).or (fromTheStart segment.2 first seq)).map fun cut =>
      { cut with
        tail := cut.tail ++ onward.flatMap fun segment => segmentLines segment.2 }

variable [DecidableEq Hash]

/-- Where folding goes on after `snapshot`: the lines after its seq when its line still sits
there, or genesis with the reason it does not. -/
def tailAfter (dir : Directory) (snapshot : ChainSnapshot Hash) : SnapshotStart :=
  match linesFromCut codec dir snapshot.seq.value with
  | none => .whole .missing
  | some cut =>
    match snapshot.fit codec cut.lineAtSeq with
    | .fits => .resume cut.tail
    | .stale => .whole .stale

variable {codec} {cut : Cut} {bytes : Bytes}

variable {dir : Directory}

end SnapshotStart

section Chain

variable {Hash Record : Type} {codec : Codec Hash Record} [DecidableEq Hash] {line : Bytes}

theorem link_of_advanceAll {check after : LineCheck Hash} {lines : List Bytes}
    (passed : check.advanceAll codec (lines ++ [line]) = .ok after) :
    ∃ middle checked, check.advanceAll codec lines = .ok middle ∧
      LineCheck.judge codec line = .ok ⟨middle.expected, middle.prev, checked⟩ ∧
      middle.expected.value = check.expected.value + lines.length ∧
      after.prev = codec.chainHash line ∧ middle.expected.next = .ok after.expected := by
  obtain ⟨middle, front, last⟩ := advanceAll_append.mp passed
  obtain ⟨checked, next, step, nothing⟩ := advanceAll_cons.mp last
  cases nothing
  obtain ⟨judged, counted, hashed⟩ := advance_eq_ok.mp step
  obtain ⟨_, passes⟩ := Passes.exists_of_advanceAll front
  exact ⟨middle, checked, front, judged, passes.expected, hashed, counted⟩

/-- With a hash that does not collide, a line of a chain decides every line before it. -/
theorem chain_unique (collisionFree : Function.Injective codec.chainHash)
    {first second : List Bytes} {one two : LineCheck Hash}
    (left : (LineCheck.atGenesis codec).advanceAll codec (first ++ [line]) = .ok one)
    (right : (LineCheck.atGenesis codec).advanceAll codec (second ++ [line]) = .ok two) :
    first = second := by
  induction first using List.reverseRecOn generalizing second line one two with
  | nil =>
    obtain ⟨_, _, _, judged, count, -⟩ := link_of_advanceAll left
    obtain ⟨_, _, _, again, size, -⟩ := link_of_advanceAll right
    have same := Except.ok.inj (judged.symm.trans again)
    have seqs : second.length = ([] : List Bytes).length := by
      have := congrArg (fun judged => judged.seq.value) same
      simp only at this
      omega
    exact (eq_nil_of_length_eq_zero seqs).symm
  | append_singleton first last ih =>
    obtain ⟨middle, _, front, judged, count, -⟩ := link_of_advanceAll left
    obtain ⟨other, _, begun, again, size, -⟩ := link_of_advanceAll right
    have same := Except.ok.inj (judged.symm.trans again)
    have seqs : second.length = first.length + 1 := by
      have := congrArg (fun judged => judged.seq.value) same
      simp only [length_append, length_singleton] at this count
      omega
    -- The other chain has a line there too, and the same hash names it.
    cases shape : second.reverse with
    | nil =>
      rw [reverse_eq_nil_iff.mp shape] at seqs
      cases seqs
    | cons final before =>
      have ended : second = before.reverse ++ [final] := by
        rw [← reverse_reverse second, shape, reverse_cons]
      rw [ended] at begun ⊢
      obtain ⟨_, _, _, _, _, hashed, _⟩ := link_of_advanceAll front
      obtain ⟨_, _, _, _, _, rehashed, _⟩ := link_of_advanceAll begun
      have prevs := congrArg Judged.prev same
      simp only at prevs
      have lasts : last = final := collisionFree (by rw [← hashed, ← rehashed, prevs])
      subst lasts
      rw [ih front begun]

end Chain

end Sprawling
