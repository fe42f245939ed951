import Sprawling.Storage.Append
import Sprawling.Storage.ChainAudit
import Sprawling.Storage.Tail

/-! Ledger opening: the version probe, the boundary of the last segment, and tail recovery. -/

namespace Sprawling

open JsonlLedger LineCheck Segment Reading

/-- What open found and repaired, and what its tail recovery read and checked. -/
structure OpenReport where
  recovered : Option Nat
  counted : ProofCount

namespace Open

/-- The first newline-terminated line, read window after doubling window. -/
def firstLineLoop (content : Bytes) : Nat → Nat → Bytes → Option Bytes
  | 0, _, _ => none
  | fuel + 1, window, line =>
    let chunk := readAt content line.length window
    match chunk.findIdx? fun byte => byte == newline with
    | some place => some (line ++ chunk.take place)
    | none =>
      if chunk.length < window then none
      else firstLineLoop content fuel (min (window * 2) u64Max) (line ++ chunk)

def firstLine (content : Bytes) : Option Bytes :=
  firstLineLoop content (content.length + 1) Tail.firstWindowBytes []

def boundaryWindow : Nat := 16 * 1024

/-- The last complete line, read from the end through a window that doubles. -/
def lastLineLoop (content : Bytes) (len : Nat) : Nat → Nat → Option Bytes
  | 0, _ => none
  | fuel + 1, window =>
    let start := len - window
    let tail := readAt content start (len - start)
    match Lines.rposition (fun byte => byte == newline) tail with
    | some ending =>
      let body := tail.take ending
      match Lines.rposition (fun byte => byte == newline) body with
      | some place => some (body.drop (place + 1))
      | none =>
        if start = 0 then some body
        else lastLineLoop content len fuel (min (window * 2) u64Max)
    | none =>
      if start = 0 then none else lastLineLoop content len fuel (min (window * 2) u64Max)

def lastLineOf (content : Bytes) : Option Bytes :=
  lastLineLoop content content.length (content.length + 1) boundaryWindow

/-- Which line of `prior` its last line is, read off the two segments' names. -/
def lineCount (prior last : FileName) : Nat :=
  match segmentFirstSeq prior, segmentFirstSeq last with
  | some prior, some last => last - prior
  | _, _ => 0

/-- The refusal a line below the first ledger version earns. -/
def unversioned (v : Nat) : AxError :=
  AxError.failure .invalidArgs "read a ledger line's version"
    s!"v{v} is below the first version any build wrote"
    "restore this segment from its checkpoint commit: the ledger version starts at 1 and this line declares less"

def chainRefusal (last : FileName) (line : Nat) : StorageError :=
  .envelope last line (AxError.failure .invalidArgs "verify chain" "a line does not continue the chain"
    "run `sprawling replay <ledger-dir>` to see the first line that breaks, then restore that segment from its checkpoint commit")

/-- How open refuses the prior segment's last line. -/
def refusal (prior : FileName) (line : Nat) : LineFault → StorageError
  | .versionAhead v => .versionAhead prior v
  | fault => .envelope prior line (fault.intoAx line)

section Recover

variable {Hash Draft : Type} [DecidableEq Hash] (wire : Wire Hash Draft)

/-- Direction-aware version refusal, before any repair or parse. -/
def probeVersion (segments : List (FileName × Bytes)) : Except StorageError Unit :=
  match segments with
  | [] => .ok ()
  | first :: behind =>
    match firstLine first.2 with
    | none => .ok ()
    | some line =>
      match wire.probeV line with
      | none =>
        if behind.isEmpty then .ok ()
        else
          .error (.envelope first.1 1 (AxError.failure .invalidArgs "probe ledger version"
            "first line is not a version-bearing record"
            "restore this segment from its checkpoint commit, then run `sprawling replay <ledger-dir>`: line 1 of every segment carries `v`"))
      | some v =>
        match readableLogV v with
        | .current => .ok ()
        | .older => .ok ()
        | .ahead => .error (.versionAhead first.1 v)
        | .notAVersion => .error (.envelope first.1 1 (unversioned v))

/-- Chain state at the entrance of the last segment. -/
structure TailBoundary (Hash : Type) where
  check : LineCheck Hash
  prior : Option (FileName × Nat)

/-- Boundary state entering the last segment: chain root, or the prior segment's last line. -/
def boundary (segments : List (FileName × Bytes)) (last : FileName) :
    Except StorageError (TailBoundary Hash) :=
  match (segments.takeWhile fun segment => segment.1 ≠ last).getLast? with
  | none => .ok { check := atGenesis wire.toCodec, prior := none }
  | some prior =>
    match lastLineOf prior.2 with
    | none =>
      .error (.envelope prior.1 0 (AxError.failure .invalidArgs "read prior segment"
        "segment holds no complete line"
        "restore this segment from its checkpoint commit, or move it aside if it was never written: a segment that exists holds at least one line"))
    | some lastLine =>
      match LineCheck.judge wire.toCodec lastLine with
      | .error fault => .error (refusal prior.1 (lineCount prior.1 last) fault)
      | .ok judged =>
        match judged.seq.next with
        | .error e => .error (.draft e)
        | .ok next =>
          .ok { check := ⟨wire.chainHash lastLine, next⟩
                prior := some (prior.1, prior.2.length) }

variable {bound : TailBoundary Hash} {last : FileName}

omit [DecidableEq Hash] in
theorem prior_of_entered (read : Bytes → Option Bytes) {found : Option (FileName × Bytes)}
    (entered : (match found with
      | none => .ok { check := atGenesis wire.toCodec, prior := none }
      | some prior =>
        match read prior.2 with
        | none =>
          .error (.envelope prior.1 0 (AxError.failure .invalidArgs "read prior segment"
            "segment holds no complete line"
            "restore this segment from its checkpoint commit, or move it aside if it was never written: a segment that exists holds at least one line"))
        | some lastLine =>
          match LineCheck.judge wire.toCodec lastLine with
          | .error fault => .error (refusal prior.1 (lineCount prior.1 last) fault)
          | .ok judged =>
            match judged.seq.next with
            | .error e => .error (.draft e)
            | .ok next =>
              .ok { check := ⟨wire.chainHash lastLine, next⟩
                    prior := some (prior.1, prior.2.length) } :
      Except StorageError (TailBoundary Hash)) = .ok bound) :
    bound.prior = found.map fun prior => (prior.1, prior.2.length) := by
  cases found with
  | none =>
    cases entered
    rfl
  | some prior =>
    simp only at entered
    cases line : read prior.2 with
    | none =>
      rw [line] at entered
      exact nomatch entered
    | some lastLine =>
      rw [line] at entered
      simp only at entered
      split at entered
      · exact nomatch entered
      · split at entered
        · exact nomatch entered
        · cases entered
          rfl

omit [DecidableEq Hash] in
theorem boundary_prior {segments : List (FileName × Bytes)} (bounded : boundary wire segments last = .ok bound) :
    bound.prior = ((segments.takeWhile fun segment => segment.1 ≠ last).getLast?).map
      fun prior => (prior.1, prior.2.length) := by
  unfold boundary at bounded
  generalize (segments.takeWhile fun segment => segment.1 ≠ last).getLast? = found at bounded ⊢
  -- How the line is read plays no part, and must not be unfolded.
  generalize lastLineOf = read at bounded
  exact prior_of_entered wire read bounded

/-- What tail recovery may take in place of checking the last segment's prefix line by line. -/
inductive TailProof (Hash : Type) where
  | strict
  | records (version : Nat) (held : ProofRecords Hash)

/-- Where checking a ledger's last segment begins. -/
structure TailStart (Hash : Type) where
  start : Nat
  lines : Nat
  check : LineCheck Hash
  counted : ProofCount

def TailStart.strict (entry : LineCheck Hash) : TailStart Hash :=
  { start := 0, lines := 0, check := entry, counted := {} }

/-- The recorded prefix read through bounded windows: the bytes hashed, when it was all there. -/
def hashWindows (content : Bytes) (length : Nat) : Nat → Bytes → Option Bytes
  | 0, hashed => some hashed
  | fuel + 1, hashed =>
    if hashed.length < length then
      let chunk := readAt content hashed.length
        (min scanWindowBytes (length - hashed.length))
      if chunk.isEmpty then none else hashWindows content length fuel (hashed ++ chunk)
    else some hashed

/-- A mismatch starts a strict scan; a match consumes the recorded prefix's exit state. -/
def tailStart (version : Nat) (records : ProofRecords Hash) (last : FileName × Bytes)
    (entry : LineCheck Hash) : TailStart Hash :=
  let strict := TailStart.strict entry
  match records.read last.1 with
  | none => strict
  | some record =>
    match record.prefixLength last.2.length version with
    | none => strict
    | some length =>
      if record.entry ≠ entry then strict
      else
        match hashWindows last.2 length (length + 1) [] with
        | none => strict
        | some hashed =>
          let counted : ProofCount :=
            { bytesRead := hashed.length, bytesHashed := hashed.length }
          match record.stands wire.toCodec entry hashed with
          | none => { strict with counted }
          | some (lines, exit) =>
            { start := length, lines, check := exit
              counted := { counted with segmentsByDigest := 1 } }

def TailProof.start (last : FileName × Bytes) (entry : LineCheck Hash) :
    TailProof Hash → TailStart Hash
  | .strict => TailStart.strict entry
  | .records version held => tailStart wire version held last entry

/-- The tail scan between two lines. -/
structure TailScan (Hash : Type) where
  check : LineCheck Hash
  validLen : Nat
  line : Nat
  damaged : Option Nat
  linesChecked : Nat

/-- One complete line of the last segment: it continues the chain, is a torn write, or refuses
the ledger. -/
def visitTail (last : FileName) (scan : TailScan Hash) (item : Bytes × Nat) :
    Except StorageError (TailScan Hash) :=
  let line := saturatingAdd scan.line 1
  match scan.damaged with
  | some firstFault =>
    if carriesEnvelope wire.toCodec item.1 then .error (chainRefusal last firstFault)
    else .ok { scan with line }
  | none =>
    let linesChecked := saturatingAdd scan.linesChecked 1
    match scan.check.advance wire.toCodec item.1 with
    | .ok (_, check) => .ok { scan with check, validLen := item.2, line, linesChecked }
    | .error fault =>
      match fault with
      | .versionAhead v => .error (.versionAhead last v)
      | .notAVersion v => .error (.envelope last line (unversioned v))
      | .notALine _ =>
        if carriesEnvelope wire.toCodec item.1 then .error (chainRefusal last line)
        else .ok { scan with line, linesChecked, damaged := some line }
      | .chainBreak => .error (chainRefusal last line)
      | .seqGap _ _ => .error (chainRefusal last line)
      | .unknownKind kind => .error (.envelope last line ((LineFault.unknownKind kind).intoAx line))
      | .notCanonical violation =>
        .error (.envelope last line ((LineFault.notCanonical violation).intoAx line))
      | .seqExhausted source =>
        .error (.envelope last line ((LineFault.seqExhausted source).intoAx line))

/-- What the tail scan decided about the last segment. -/
structure TailFound (Hash : Type) where
  check : LineCheck Hash
  keep : Nat
  dropped : Nat
  total : Nat
  prior : Option (FileName × Nat)
  counted : ProofCount

/-- The last segment examined, before anything is written. -/
def examineTail (segments : List (FileName × Bytes)) (last : FileName × Bytes)
    (proof : TailProof Hash) : Except StorageError (TailFound Hash) :=
  match boundary wire segments last.1 with
  | .error e => .error e
  | .ok boundary =>
    let start := proof.start wire last boundary.check
    match Reading.scan (visitTail wire last.1) last.2 start.start
        { check := start.check, validLen := start.start, line := start.lines, damaged := none
          linesChecked := start.counted.linesChecked } with
    | .error e => .error e
    | .ok ended =>
      .ok
        { check := ended.seen.check
          keep := ended.seen.validLen
          dropped := ended.filled - ended.seen.validLen
          total := ended.total
          prior := boundary.prior
          counted := { start.counted with
            linesChecked := ended.seen.linesChecked
            bytesRead := saturatingAdd start.counted.bytesRead (ended.total - start.start) } }

/-- The last segment cut back to what it keeps, and the position put at its end. -/
def settleTail (last : FileName) (found : TailFound Hash) : LedgerStep Hash Unit := do
  if found.keep < found.total then
    if found.keep = 0 then
      -- The whole last segment is torn: the tail falls back to the prior one.
      Vfs.truncate "truncate segment" last 0
      Vfs.syncData "sync segment" last
      Vfs.removeFile "remove empty segment" last
      Vfs.syncDir "sync ledger dir"
      let fallback := found.prior.getD (segmentFileName Seq.first, 0)
      setLedger fun ledger =>
        { ledger with segPath := fallback.1, segLen := fallback.2 }
    else
      Vfs.truncate "truncate segment" last found.keep
      Vfs.syncData "sync segment" last
      setLedger fun ledger => { ledger with segPath := last, segLen := found.keep }
  else
    setLedger fun ledger => { ledger with segPath := last, segLen := found.keep }
  setLedger fun ledger =>
    { ledger with prev := found.check.prev, nextSeq := found.check.expected }

/-- Tail-truncation recovery over the last segment; on return the ledger points at the
surviving tail. -/
def recoverTail (segments : List (FileName × Bytes)) (last : FileName × Bytes)
    (proof : TailProof Hash) : LedgerStep Hash (Nat × ProofCount) := do
  let found ← Effect.lift (examineTail wire segments last proof)
  settleTail last.1 found
  pure (found.dropped, found.counted)

/-- The ledger at the root of an empty chain. -/
def unopened : JsonlLedger Hash :=
  { segPath := segmentFileName Seq.first
    segLen := 0
    nextSeq := Seq.first
    prev := wire.genesisPrev
    rollBytes := segmentRollBytes
    barrier := .whole
    pendingUnwind := none }

/-- The report of what was dropped, recorded in a ledger that already has a line. -/
def reportRecovery (now dropped : Nat) (counted : ProofCount) : LedgerStep Hash OpenReport := do
  if dropped > 0 then
    let site ← Effect.look
    if site.ledger.nextSeq ≠ Seq.first then appendLogTruncated wire now dropped
    pure { recovered := some dropped, counted }
  else pure { recovered := none, counted }

/-- Reads the version and the tail of the segments and puts the writer at the end of the
surviving records. -/
def resume (now : Nat) (segments : List (FileName × Bytes)) (proof : TailProof Hash) :
    LedgerStep Hash OpenReport := do
  match segments.getLast? with
  | none => pure { recovered := none, counted := {} }
  | some last =>
    Effect.lift (probeVersion wire segments)
    let (dropped, counted) ← recoverTail wire segments last proof
    reportRecovery wire now dropped counted

/-- The ledger in the directory, opened. -/
def openThrough (now : Nat) (proof : TailProof Hash) : LedgerStep Hash OpenReport := do
  setLedger fun _ => unopened wire
  let site ← Effect.look
  resume wire now site.directory.segments proof

end Recover

end Open

end Sprawling
