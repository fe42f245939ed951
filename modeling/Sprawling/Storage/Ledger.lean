import Sprawling.Storage.FaultFs
import Sprawling.Storage.Reading
import Sprawling.Storage.Verify

/-! The durable ledger: its position, the disk it stands on, and what it asks of the disk. -/

namespace Sprawling

/-- One history line before its bytes. -/
structure EventRecord (Hash Draft : Type) where
  v : Nat
  seq : Seq
  prev : Hash
  draft : Draft
deriving DecidableEq

/-- A reference to a record: its seq and its kind. -/
structure EventRef where
  seq : Seq
  kind : String

/-- Append-side assembly: `v` is pinned to the version this build writes. -/
def EventRecord.fromDraft {Hash Draft : Type} (draft : Draft) (seq : Seq) (prev : Hash) :
    EventRecord Hash Draft :=
  { v := eventLogV, seq, prev, draft }

/-- The codec of a ledger that is written to: its records are drafts placed in the chain. -/
structure Wire (Hash Draft : Type) extends Codec Hash (EventRecord Hash Draft) where
  /-- The `v` of a line read as a JSON object. -/
  probeV : Bytes → Option Nat
  /-- The word for a draft's kind. -/
  kindOf : Draft → String
  /-- The record of `dropped` bytes cut from the tail at `now`. -/
  logTruncated : Nat → Nat → Draft

/-- What the ledger relies on of the lines the codec writes and reads. -/
structure Wire.Lawful {Hash Draft : Type} (wire : Wire Hash Draft) : Prop where
  /-- No JSON text is empty or holds a zero byte. -/
  envelope_bytes : ∀ {raw envelope}, wire.envelope raw = .ok envelope → raw ≠ [] ∧ 0 ∉ raw
  /-- JSON escapes every newline and every zero byte. -/
  line_bytes : ∀ {record line}, wire.canonicalLine record = .ok line → newline ∉ line ∧ 0 ∉ line
  /-- A written line reads back as its envelope. -/
  line_envelope : ∀ {record line}, wire.canonicalLine record = .ok line →
    ∃ ig, wire.envelope line =
      .ok { v := record.v, seq := record.seq, prev := record.prev,
            kind := wire.kindOf record.draft, ig }
  /-- The kind of a draft is one this build knows. -/
  line_kind : ∀ draft, wire.isEventKind (wire.kindOf draft) = true
  /-- A written line reads back as its record. -/
  line_parse : ∀ {record line}, wire.canonicalLine record = .ok line →
    wire.parseLine line = .ok record
  /-- A written line shows its version. -/
  line_probe : ∀ {record line}, wire.canonicalLine record = .ok line →
    wire.probeV line = some record.v
  /-- The record of a truncation has a line. -/
  logTruncated_line : ∀ now dropped seq prev, ∃ line,
    wire.canonicalLine (.fromDraft (wire.logTruncated now dropped) seq prev) = .ok line

/-- Whether the ledger's position is the end of what its segments hold. -/
inductive Barrier where
  | whole
  | broken

def segmentRollBytes : Nat := 64 * 1024 * 1024

/-- The writer's position, its barrier, and the segments a failed wave created while restoring
the disk is still owed. -/
structure JsonlLedger (Hash : Type) where
  segPath : FileName
  segLen : Nat
  nextSeq : Seq
  prev : Hash
  rollBytes : Nat
  barrier : Barrier
  pendingUnwind : Option (List FileName)

/-- The ledger directory, what the disk will do with the next operations, and the writer. -/
structure Site (Hash : Type) where
  files : OrdMap FileName FileState
  script : List Outcome
  ledger : JsonlLedger Hash

namespace Site

variable {Hash : Type}

def directory (site : Site Hash) : Directory := site.files.map fun _ file => file.live

/-- The next outcome of the script; a script that has ended does what it is asked. -/
def charge (site : Site Hash) : Outcome × Site Hash :=
  match site.script with
  | [] => (.done, site)
  | outcome :: script => (outcome, { site with script })

def fileExists (site : Site Hash) (path : FileName) : Bool := (site.files[path]?).isSome

end Site

/-- A step of the ledger on its disk. -/
abbrev LedgerStep (Hash : Type) (α : Type) : Type := Effect StorageError (Site Hash) α

namespace Vfs

variable {Hash : Type}

def append (op : String) (path : FileName) (bytes : Bytes) : LedgerStep Hash Unit := fun site =>
  let (outcome, site) := site.charge
  match outcome with
  | .done => (.ok (), { site with files := FaultFs.extend site.files path bytes })
  | .refused none => (.error (.io op path), site)
  | .refused (some landed) =>
    (.error (.io op path),
      { site with files := FaultFs.extend site.files path (bytes.take landed) })
  | .powerLost torn =>
    (.error (.io op path),
      { site with files := FaultFs.cut torn (FaultFs.extend site.files path bytes) })

def truncate (op : String) (path : FileName) (len : Nat) : LedgerStep Hash Unit := fun site =>
  match site.files[path]? with
  | none => (.error (.io op path), site)
  | some file =>
    let files := site.files.insert path { file with live := FaultFs.resize file.live len }
    let (outcome, site) := site.charge
    match outcome with
    | .done => (.ok (), { site with files })
    | .refused _ => (.error (.io op path), site)
    | .powerLost torn => (.error (.io op path), { site with files := FaultFs.cut torn files })

def syncData (op : String) (path : FileName) : LedgerStep Hash Unit := fun site =>
  let (outcome, site) := site.charge
  match outcome with
  | .done =>
    match site.files[path]? with
    | none => (.error (.io op path), site)
    | some file =>
      (.ok (), { site with files := site.files.insert path { file with durable := file.live } })
  | .refused _ => (.error (.io op path), site)
  | .powerLost torn => (.error (.io op path), { site with files := FaultFs.cut torn site.files })

def syncDir (op : String) : LedgerStep Hash Unit := fun site =>
  let (outcome, site) := site.charge
  match outcome with
  | .done => (.ok (), { site with files := FaultFs.promoteEntries site.files })
  | .refused _ => (.error (.io op []), site)
  | .powerLost torn => (.error (.io op []), { site with files := FaultFs.cut torn site.files })

def removeFile (op : String) (path : FileName) : LedgerStep Hash Unit := fun site =>
  match site.files[path]? with
  | none => (.error (.io op path), site)
  | some _ =>
    let files := site.files.erase path
    let (outcome, site) := site.charge
    match outcome with
    | .done => (.ok (), { site with files })
    | .refused _ => (.error (.io op path), site)
    | .powerLost torn => (.error (.io op path), { site with files := FaultFs.cut torn files })

end Vfs

end Sprawling
