import Sprawling.Storage.Ledger

/-! Ledger appends: a wave is framed, lands, and is unwound when it does not. -/

namespace Sprawling

open Effect

/-- One write of a wave: the segment, the end of its records, and the bytes. -/
structure WaveWrite where
  path : FileName
  offset : Nat
  bytes : Bytes

/-- A wave while its lines are framed. -/
structure Framing (Hash Draft : Type) where
  seq : Seq
  prev : Hash
  curPath : FileName
  curLen : Nat
  writes : List WaveWrite
  created : List FileName
  records : List (EventRecord Hash Draft)

namespace JsonlLedger

variable {Hash Draft : Type}

/-- The terminated line joined to the last write when that write is for the same segment. -/
def pushWrite (writes : List WaveWrite) (path : FileName) (offset : Nat) (bytes : Bytes) :
    List WaveWrite :=
  match writes.getLast? with
  | some last =>
    if last.path = path then writes.dropLast ++ [{ last with bytes := last.bytes ++ bytes }]
    else writes ++ [{ path, offset, bytes }]
  | none => writes ++ [{ path, offset, bytes }]

/-- One draft of a wave placed in the chain, rolling to a new segment when it does not fit. -/
def frame (wire : Wire Hash Draft) (rollBytes : Nat) (framing : Framing Hash Draft) (draft : Draft) :
    Except StorageError (Framing Hash Draft) :=
  let record := EventRecord.fromDraft draft framing.seq framing.prev
  match wire.canonicalLine record with
  | .error e =>
    .error (.draft (AxError.failure .invalidArgs "serialize event"
      s!"{wire.kindOf draft} at seq {framing.seq.value}"
      s!"JSON refused this payload ({e}); give the event's data only string keys and finite numbers"))
  | .ok line =>
    let lineLen := line.length + 1
    let rolls : Bool := framing.curLen > 0 && framing.curLen + lineLen > rollBytes
    let curPath := if rolls then Segment.segmentFileName framing.seq else framing.curPath
    let curLen := if rolls then 0 else framing.curLen
    let created := if rolls then framing.created ++ [curPath] else framing.created
    match framing.seq.next with
    | .error e => .error (.draft e)
    | .ok seq =>
      .ok
        { seq
          prev := wire.chainHash line
          curPath
          curLen := curLen + lineLen
          writes := pushWrite framing.writes curPath curLen (line ++ [newline])
          created
          records := framing.records ++ [record] }

/-- Appends one wave's bytes and makes them durable. -/
def land (writes : List WaveWrite) (created : List FileName) : LedgerStep Hash Unit := do
  writes.forM fun write => Vfs.append "append event line" write.path write.bytes
  writes.forM fun write => Vfs.syncData "sync segment" write.path
  if !created.isEmpty then Vfs.syncDir "sync ledger dir"

/-- Removes the segments a failed wave created, answering whether there were any. -/
def removeCreated : List FileName → LedgerStep Hash Bool
  | [] => pure false
  | path :: rest => do
      let site ← Effect.look
      if site.fileExists path then
        Vfs.removeFile "remove a segment the failed wave created" path
        let _ ← removeCreated rest
        pure true
      else removeCreated rest

/-- Puts the segments back where the in-memory position says they end, durably. -/
def restore (created : List FileName) : LedgerStep Hash Unit := do
  let removed ← removeCreated created
  if removed then Vfs.syncDir "sync ledger dir"
  let site ← Effect.look
  if site.ledger.segPath ∉ created then
    Vfs.truncate "truncate a segment back before the failed wave" site.ledger.segPath
      site.ledger.segLen
    Vfs.syncData "sync a segment cut back before the failed wave" site.ledger.segPath

/-- A change of the writer alone. -/
def setLedger (change : JsonlLedger Hash → JsonlLedger Hash) : LedgerStep Hash Unit :=
  Effect.update fun site => { site with ledger := change site.ledger }

/-- Completes a restore an earlier failed wave left pending. -/
def finishUnwind : LedgerStep Hash Unit := do
  let site ← Effect.look
  match site.ledger.pendingUnwind with
  | none => pure ()
  | some created =>
    setLedger fun ledger => { ledger with pendingUnwind := none }
    match ← attempt (restore created) with
    | .ok () => setLedger fun ledger => { ledger with barrier := .whole }
    | .error e =>
      setLedger fun ledger => { ledger with pendingUnwind := some created }
      Effect.refuse e

/-- Lands a wave; on failure the segments go back to their length before it, and a restore that
fails too stays pending. -/
def writeWave (writes : List WaveWrite) (created : List FileName) : LedgerStep Hash Unit := do
  match ← attempt (land writes created) with
  | .ok () => pure ()
  | .error e =>
    setLedger fun ledger => { ledger with pendingUnwind := some created }
    let _ ← attempt finishUnwind
    Effect.refuse e

def admitWave : LedgerStep Hash Unit := do
  let site ← Effect.look
  match site.ledger.barrier with
  | .whole => pure ()
  | .broken => Effect.refuse (.ledgerBroken site.ledger.nextSeq)

/-- The wave before its first line: the segment it appends to is its own when that segment is
not there yet. -/
def startFraming (site : Site Hash) : Framing Hash Draft :=
  let ledger := site.ledger
  { seq := ledger.nextSeq
    prev := ledger.prev
    curPath := ledger.segPath
    curLen := ledger.segLen
    writes := []
    created :=
      if ledger.segLen == 0 && !site.fileExists ledger.segPath then [ledger.segPath] else []
    records := [] }

/-- Group commit: one durability barrier for the whole wave. -/
def appendAll (wire : Wire Hash Draft) (drafts : List Draft) : LedgerStep Hash (List EventRef) := do
  finishUnwind
  admitWave
  if drafts.isEmpty then pure []
  else
    let site ← Effect.look
    let framed ← Effect.lift (drafts.foldlM (frame wire site.ledger.rollBytes) (startFraming site))
    setLedger fun ledger => { ledger with barrier := .broken }
    writeWave framed.writes framed.created
    setLedger fun ledger =>
      { ledger with
        barrier := .whole
        segPath := framed.curPath
        segLen := framed.curLen
        nextSeq := framed.seq
        prev := framed.prev }
    pure (framed.records.map fun record =>
      { seq := record.seq, kind := wire.kindOf record.draft })

/-- The record of a truncation, as a wave of its own. -/
def appendLogTruncated (wire : Wire Hash Draft) (now dropped : Nat) : LedgerStep Hash Unit := do
  let _ ← appendAll wire [wire.logTruncated now dropped]

def readRawLines (site : Site Hash) : List Bytes := Reading.readRawLinesAt site.directory

end JsonlLedger

end Sprawling
