import Sprawling.Storage.ChainAudit
import Sprawling.Storage.IndexRefresh
import Sprawling.Storage.SnapshotStart

/-! Two folds started together on one pass over the ledger, from the earlier of their two
snapshots. -/

namespace Sprawling

open List Reading LineCheck

/-- A fold a snapshot can hold. `decode` refuses with the sentence its failure displays as. -/
structure SnapshotFold (Record F : Type) where
  foldVersion : Nat
  empty : F
  decode : Bytes → Except String F
  encode : F → Except AxError Bytes
  absorb : F → Record → Except AxError F
  keepIndex : F → LedgerIndex → Directory → Except AxError F
  resumed : F → Directory → Except AxError F

/-- How a start began. -/
inductive FoldStart where
  | resumed (tail : Nat)
  | whole (because : WholeFold)
  | alongside
deriving DecidableEq

/-- A fold a start built, how it began, and the last line it folded. -/
structure Started (F : Type) where
  folded : F
  start : FoldStart
  last : Option (Nat × Bytes)

/-- Where the one pass began. -/
inductive TailFrom where
  | snapshots
  | genesis

structure BothStarted (A B : Type) where
  first : Started A
  second : Started B
  checked : Nat
  start : TailFrom

/-- A snapshot that was read, cut under this build's fold version, and decoded; or why there is
none to resume from. -/
inductive Candidate (Hash F : Type) where
  | fits (folded : F) (snapshot : ChainSnapshot Hash)
  | whole (because : WholeFold)

namespace StartBoth

variable {Hash Record : Type} (codec : Codec Hash Record)

def candidate {F : Type} (fold : SnapshotFold Record F) :
    StoredSnapshot Hash → Candidate Hash F
  | .absent => .whole .noSnapshot
  | .damaged reason => .whole (.damaged reason)
  | .present snapshot =>
    if snapshot.foldVersion ≠ fold.foldVersion then
      .whole (.otherFoldVersion snapshot.foldVersion)
    else
      match fold.decode snapshot.views with
      | .ok folded => .fits folded snapshot
      | .error undecodable => .whole (.damaged undecodable)

variable [DecidableEq Hash]

/-- An empty fold with the history folded on from genesis. -/
def whole {F : Type} (fold : SnapshotFold Record F) (dir : Directory) (because : WholeFold) :
    Except AxError (Started F) := do
  let (index, folded) ← foldLedgerDir codec fold.absorb dir fold.empty
  let last ← index.lastLine dir
  let folded ← fold.keepIndex folded index dir
  .ok { folded, start := .whole because, last }

section Pass

variable {A B : Type}

/-- One record into both folds. -/
def absorbBoth (first : SnapshotFold Record A) (second : SnapshotFold Record B) (both : A × B)
    (record : Record) : Except AxError (A × B) := do
  let a ← first.absorb both.1 record
  let b ← second.absorb both.2 record
  .ok (a, b)

/-- Both folds from genesis on one pass. -/
def fromGenesis (first : SnapshotFold Record A) (second : SnapshotFold Record B) (dir : Directory)
    (why whyAlso : Option WholeFold) : Except AxError (BothStarted A B) := do
  let (index, both) ← foldLedgerDir codec (absorbBoth first second) dir (first.empty, second.empty)
  let last ← index.lastLine dir
  let a ← first.keepIndex both.1 index dir
  let b ← second.keepIndex both.2 LedgerIndex.empty dir
  let start (because : Option WholeFold) : FoldStart := (because.map .whole).getD .alongside
  .ok
    { first := { folded := a, start := start why, last }
      second := { folded := b, start := start whyAlso, last }
      checked := index.len
      start := .genesis }

/-- The one pass between two lines of the tail. -/
structure Onward (Hash E L : Type) where
  check : LineCheck Hash
  early : E
  late : L
  lateFits : Option Bool
  lateTail : Nat

/-- One tail line: folded into the earlier fold, and into the later one past its snapshot's seq
once its snapshot is known to fit. -/
def onwardLine (early : SnapshotFold Record A) (late : SnapshotFold Record B)
    (atLate : ChainSnapshot Hash) (state : Onward Hash A B) (raw : Bytes) :
    Except AxError (Onward Hash A B) :=
  let seq := state.check.expected
  match state.check.advance codec raw with
  | .error fault => .error (fault.intoAx (saturatingAdd seq.value 1))
  | .ok (checked, check) => do
      let lateFits := if seq = atLate.seq then some (decide (atLate.fit codec raw = .fits))
        else state.lateFits
      let toLate := decide (atLate.seq.value < seq.value) && lateFits == some true
      let earlier ← absorbChecked early.absorb state.early checked
      let later ← if toLate then absorbChecked late.absorb state.late checked else .ok state.late
      .ok
        { check
          early := earlier
          late := later
          lateFits
          lateTail := if toLate then saturatingAdd state.lateTail 1 else state.lateTail }

/-- One pass from the earlier snapshot, folding every tail line into its fold and the lines past
the later snapshot's seq into the other. -/
def onward (early : SnapshotFold Record A) (late : SnapshotFold Record B) (dir : Directory)
    (atEarly : A × ChainSnapshot Hash) (atLate : B × ChainSnapshot Hash) :
    Except AxError (BothStarted A B) :=
  match SnapshotStart.tailAfter codec dir atEarly.2 with
  | .whole because => fromGenesis codec early late dir (some because) none
  | .resume tail => do
      let check ← atEarly.2.resume
      let done ← tail.foldlM (onwardLine codec early late atLate.2)
        { check
          early := atEarly.1
          late := atLate.1
          lateFits := if atLate.2.sameLine atEarly.2 then some true else none
          lateTail := 0 }
      let last := tail.getLast?.map fun line =>
        (saturatingAdd atEarly.2.seq.value tail.length, line)
      let folded ← early.resumed done.early dir
      let second ← match done.lateFits with
        | some true => do
            let folded ← late.resumed done.late dir
            .ok
              { folded
                start := .resumed done.lateTail
                last := if 0 < done.lateTail then last else none }
        | some false => whole codec late dir .stale
        | none => whole codec late dir .missing
      .ok
        { first := { folded, start := .resumed tail.length, last }
          second
          checked := tail.length
          start := .snapshots }

end Pass

section Laws

variable {F : Type} (fold : SnapshotFold Record F)

/-- What folding the whole ledger from genesis and handing the fold the index gives. -/
def foldWhole (dir : Directory) : Except AxError F := do
  let (index, folded) ← foldLedgerDir codec fold.absorb dir fold.empty
  fold.keepIndex folded index dir

/-- The states a fold of these lines can be in: folded whole from a ledger, grown by a verified
line, or with the index it shares refreshed over the ledger as it stands, further than these. -/
inductive Held : List Bytes → F → Prop
  | whole {dir : Directory} {folded : F} {check : LineCheck Hash}
      (verified : (atGenesis codec).advanceAll codec (readRawLinesAt dir) =
        .ok check)
      (built : foldWhole codec fold dir = .ok folded) : Held (readRawLinesAt dir) folded
  | line {lines : List Bytes} {folded next : F} {check after : LineCheck Hash} {raw : Bytes}
      {checked : CheckedLine Record} (held : Held lines folded)
      (verified : (atGenesis codec).advanceAll codec lines = .ok check)
      (passed : check.advance codec raw = .ok (checked, after))
      (absorbed : absorbChecked fold.absorb folded checked = .ok next) : Held (lines ++ [raw]) next
  | refreshed {lines : List Bytes} {dir : Directory} {folded next : F} (held : Held lines folded)
      (resumed : fold.resumed folded dir = .ok next) : Held lines next

/-- What a fold is trusted with: its encoding decodes to what was encoded, the lines it has folded
decide which lines it can fold next, and resumed over the ledger it has folded it stands where a
whole fold of that ledger stands. -/
structure Lawful : Prop where
  decodes : ∀ folded bytes, fold.encode folded = .ok bytes → fold.decode bytes = .ok folded
  absorbs : ∀ {lines folded check after raw checked early grown}, Held codec fold lines folded →
    Passes codec (atGenesis codec) lines early check →
    check.advance codec raw = .ok (checked, after) →
    (early ++ [checked]).foldlM (absorbChecked fold.absorb) fold.empty = .ok grown →
    ∃ next, absorbChecked fold.absorb folded checked = .ok next
  catchesUp : ∀ {dir folded final}, Held codec fold (readRawLinesAt dir) folded →
    foldWhole codec fold dir = .ok final → fold.resumed folded dir = .ok final

/-- The snapshot holds the fold of a verified ledger's lines up to the line it was cut at. -/
def CutBy (snapshot : ChainSnapshot Hash) : Prop :=
  ∃ lines raw seq folded bytes, Held codec fold (lines ++ [raw]) folded ∧
    fold.encode folded = .ok bytes ∧ seq.value = lines.length ∧
    snapshot = ChainSnapshot.cut codec fold.foldVersion seq raw bytes

/-- Whatever is stored, what carries this fold's version was cut by this fold. -/
def Stored (stored : StoredSnapshot Hash) : Prop :=
  ∀ snapshot, stored = .present snapshot → snapshot.foldVersion = fold.foldVersion →
    CutBy codec fold snapshot

end Laws

variable {codec}

section Resuming

variable {F : Type} {fold : SnapshotFold Record F} {folded : F}

theorem Held.verified {lines : List Bytes} (held : Held codec fold lines folded) :
    ∃ check, (atGenesis codec).advanceAll codec lines = .ok check := by
  induction held with
  | whole verified built => exact ⟨_, verified⟩
  | line held verified passed absorbed ih =>
    exact ⟨_, advanceAll_append.mpr ⟨_, verified, advanceAll_cons.mpr ⟨_, _, passed, rfl⟩⟩⟩
  | refreshed held resumed ih => exact ih

variable {snapshot : ChainSnapshot Hash}

/-- A line with the hash of a snapshot, in a chain, is the line the snapshot was cut at, and what
the snapshot decodes to holds the lines up to it. -/
theorem CutBy.held (collisionFree : Function.Injective codec.chainHash)
    (lawful : Lawful codec fold) (cut : CutBy codec fold snapshot)
    (decoded : fold.decode snapshot.views = .ok folded) {before : List Bytes} {line : Bytes}
    {after : LineCheck Hash}
    (chained : (atGenesis codec).advanceAll codec (before ++ [line]) = .ok after)
    (hashed : codec.chainHash line = snapshot.lineHash) :
    snapshot.seq.value = before.length ∧ Held codec fold (before ++ [line]) folded := by
  obtain ⟨lines, raw, seq, original, bytes, held, encoded, placed, rfl⟩ := cut
  have same : line = raw := collisionFree hashed
  subst same
  obtain ⟨check, verified⟩ := held.verified
  have fronts : before = lines := chain_unique collisionFree chained verified
  subst fronts
  have states : original = folded :=
    Except.ok.inj ((lawful.decodes original bytes encoded).symm.trans decoded)
  exact ⟨placed, states ▸ held⟩

end Resuming

section Ledger

variable {dir : Directory} {checked : List (CheckedLine Record)} {final : LineCheck Hash}

/-- A ledger whose lines are these and pass, none of them with a zero byte. -/
structure Whole (codec : Codec Hash Record) (dir : Directory) (checked : List (CheckedLine Record))
    (final : LineCheck Hash) : Prop where
  passes : Passes codec (atGenesis codec) (readRawLinesAt dir) checked final
  unzeroed : LedgerIndex.Unzeroed dir

variable {F : Type} {fold : SnapshotFold Record F}

theorem foldWhole_eq_ok {folded : F} (ledger : Whole codec dir checked final) :
    foldWhole codec fold dir = .ok folded ↔
      ∃ bare, checked.foldlM (absorbChecked fold.absorb) fold.empty = .ok bare ∧
        fold.keepIndex bare (indexOf codec dir) dir = .ok folded := by
  rw [foldWhole, foldLedgerDir_eq ledger.unzeroed ledger.passes]
  cases checked.foldlM (absorbChecked fold.absorb) fold.empty with
  | error reason =>
    constructor
    · intro impossible
      cases impossible
    · rintro ⟨_, impossible, _⟩
      cases impossible
  | ok bare =>
    constructor
    · exact fun kept => ⟨bare, rfl, kept⟩
    · rintro ⟨_, same, kept⟩
      cases same
      exact kept

theorem whole_eq {folded : F} (ledger : Whole codec dir checked final)
    (built : foldWhole codec fold dir = .ok folded) (because : WholeFold) :
    whole codec fold dir because =
      .ok ⟨folded, .whole because, lastOf (readRawLinesAt dir)⟩ := by
  obtain ⟨bare, folds, kept⟩ := (foldWhole_eq_ok ledger).mp built
  rw [whole, foldLedgerDir_eq ledger.unzeroed ledger.passes, folds]
  show ((indexOf codec dir).lastLine dir >>= fun last =>
    fold.keepIndex bare (indexOf codec dir) dir >>= fun folded => _) = _
  rw [lastLine_indexOf ledger.unzeroed ledger.passes, kept]
  rfl

end Ledger

section Keeping

variable {σ ι : Type} (step : σ → Record → Except AxError σ)
  (keep : LedgerIndex → Directory → Except AxError ι)

/-- A fold whose records never touch the index beside them: the index is replaced when one is
handed over, and brought up to the ledger as it stands on a resume. A fold that keeps no index
keeps a unit. -/
def keeping (codec : Codec Hash Record) (foldVersion : Nat) (start : σ × ι)
    (decode : Bytes → Except String (σ × ι)) (encode : σ × ι → Except AxError Bytes) :
    SnapshotFold Record (σ × ι) where
  foldVersion
  empty := start
  decode
  encode
  absorb folded record := (step folded.1 record).map fun next => (next, folded.2)
  keepIndex folded index dir := (keep index dir).map fun kept => (folded.1, kept)
  resumed folded dir := (keep (indexOf codec dir) dir).map fun kept => (folded.1, kept)

variable {step keep} {foldVersion : Nat} {start : σ × ι} {decode : Bytes → Except String (σ × ι)}
  {encode : σ × ι → Except AxError Bytes}

/-- On a fold that keeps the ledger's index, a resume is a refresh of the index. -/
theorem resumed_keeping {locate : Bytes → Option Nat}
    (located : ∀ {raw seq}, claimedSeq codec raw = some seq → locate raw = some seq.value)
    {start : σ × LedgerIndex} {decode : Bytes → Except String (σ × LedgerIndex)}
    {encode : σ × LedgerIndex → Except AxError Bytes} {folded : σ × LedgerIndex} {dir : Directory}
    {checked : List (CheckedLine Record)} {final : LineCheck Hash}
    (ledger : Whole codec dir checked final) (behind : Behind codec dir folded.2) :
    (keeping step (fun index _ => .ok index) codec foldVersion start decode encode).resumed folded
      dir = .ok (folded.1, folded.2.refresh locate dir) := by
  rw [behind.refresh located ledger.unzeroed ledger.passes]
  rfl

end Keeping

end StartBoth

end Sprawling
