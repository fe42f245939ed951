import Sprawling.Base.Json
import Sprawling.Kernel.Address
import Sprawling.Kernel.Digest
import Sprawling.Runtime.Elision

namespace Sprawling

open Utf8 (byteLen)

/-- One document a prefix is offered: its address and its bytes, `none` when it cannot be read. -/
structure SourceDoc where
  addr : Address
  bytes : Option Bytes

/-- The byte budget of each slot. -/
structure SegmentCaps where
  city : UInt64
  building : UInt64
  resident : UInt64
  run : UInt64

structure PrefixPlan where
  city : List SourceDoc
  building : List SourceDoc
  resident : List SourceDoc
  run : List SourceDoc
  caps : SegmentCaps

/-- The four slots in stability order. -/
inductive SegmentSlot where
  | city
  | building
  | resident
  | run
deriving DecidableEq

namespace SegmentSlot

def all : List SegmentSlot := [.city, .building, .resident, .run]

def asStr : SegmentSlot → String
  | .city => "city"
  | .building => "building"
  | .resident => "resident"
  | .run => "run"

end SegmentSlot

/-- Why a document did not reach its segment. -/
inductive SkipReason where
  | duplicate
  | unreadable
  | notUtf8
  | noBudget
deriving DecidableEq

/-- One document a slot was offered and left out, and why. -/
structure PromptSkip where
  addr : Address
  reason : SkipReason

/-- One document a segment was assembled from: the bytes of it that were kept, how many were cut
off its end, and the hash of the kept ones. -/
structure SegmentSource where
  addr : Address
  kept : Nat
  dropped : Nat
  hash : B3Hash

/-- Static bytes from frozen sources, hashed at construction. -/
structure FrozenSegment where
  slot : SegmentSlot
  bytes : Bytes
  hash : B3Hash
  sources : List SegmentSource

/-- The assembled prefix, what each slot left out, and the tool table as the record encodes it. -/
structure FrozenPrefix where
  city : FrozenSegment
  building : FrozenSegment
  resident : FrozenSegment
  run : FrozenSegment
  skipped : Option (List (List PromptSkip))
  tools : Option Json

namespace Prefix

def docJoin : List Char := ['\n', '\n']

section Building

variable (blake3 : Bytes → B3Hash) (usizeMax : Nat)

/-- A document whose first bytes reached its segment and whose last `dropped` bytes did not. -/
def sourceCut (addr : Address) (kept : Bytes) (dropped : Nat) : SegmentSource :=
  { addr, kept := Elision.saturatingLen kept.length, dropped, hash := blake3 kept }

def sourceWhole (addr : Address) (bytes : Bytes) : SegmentSource := sourceCut blake3 addr bytes 0

/-- A segment and the documents it was assembled from. -/
def assembled (slot : SegmentSlot) (bytes : Bytes) (sources : List SegmentSource) : FrozenSegment :=
  { slot, bytes, hash := blake3 bytes, sources }

/-- What a slot has gathered so far, and every address a slot has carried. -/
structure Gathering where
  text : List Char
  sources : List SegmentSource
  skipped : List PromptSkip
  seen : List (List Char)

namespace Gathering

def leftOut (state : Gathering) (doc : SourceDoc) (reason : SkipReason) : Gathering :=
  { state with skipped := state.skipped ++ [⟨doc.addr, reason⟩] }

/-- A piece of a document added behind the join. -/
def carrying (state : Gathering) (piece : List Char) (source : SegmentSource) : Gathering :=
  { state with
    text := state.text ++ (if state.text.isEmpty then [] else docJoin) ++ piece
    sources := state.sources ++ [source]
    seen := source.addr.text :: state.seen }

/-- The bytes left of a budget once the join before the next document is paid for. -/
def remaining (state : Gathering) (cap : Nat) : Nat :=
  cap - (byteLen state.text + if state.text.isEmpty then 0 else byteLen docJoin)

end Gathering

/-- What one document does to its slot. -/
def offer (cap : Nat) (state : Gathering) (doc : SourceDoc) : Except AxError Gathering :=
  if doc.addr.text ∈ state.seen then .ok (state.leftOut doc .duplicate)
  else
    match doc.bytes with
    | none => .ok (state.leftOut doc .unreadable)
    | some bytes =>
      match Utf8.decode bytes with
      | none => .ok (state.leftOut doc .notUtf8)
      | some body =>
        if byteLen body ≤ state.remaining cap then
          .ok (state.carrying body (sourceWhole blake3 doc.addr bytes))
        else
          let worstMarker := Elision.markerRoom (byteLen body)
          if state.remaining cap ≤ worstMarker then .ok (state.leftOut doc .noBudget)
          else
            let kept := Elision.boundaryBefore body (state.remaining cap - worstMarker)
            let cut := Elision.splice body kept (byteLen body) .tail
            if kept ≤ (Utf8.encode body).length then
              .ok (state.carrying cut.text
                (sourceCut blake3 doc.addr ((Utf8.encode body).take kept) cut.dropped))
            else
              .error (.failure .invalidArgs "build prefix segment"
                (String.ofList doc.addr.text ++ ": cut at " ++ toString kept
                  ++ " lies outside the document")
                "report this: the elision boundary left the document it was cutting")

def buildSegment (slot : SegmentSlot) (docs : List SourceDoc) (cap : UInt64)
    (seen : List (List Char)) :
    Except AxError (FrozenSegment × List PromptSkip × List (List Char)) := do
  if cap.toNat > usizeMax then
    .error (.failure .invalidArgs "build prefix segment" "cap exceeds usize"
      ("lower this slot's byte cap in `[prefix]`: it is larger than this machine "
        ++ "can address"))
  else
    let final ← docs.foldlM (offer blake3 cap.toNat) ⟨[], [], [], seen⟩
    return (assembled blake3 slot (Utf8.encode final.text) final.sources, final.skipped, final.seen)

/-- Slot order is the type: a segment in the wrong position is refused. -/
def assemble (city building resident run : FrozenSegment) : Except AxError FrozenPrefix :=
  let expected := [(SegmentSlot.city, city.slot), (.building, building.slot),
    (.resident, resident.slot), (.run, run.slot)]
  match expected.find? fun pair => pair.1 ≠ pair.2 with
  | some (want, got) =>
    .error (.failure .invalidArgs "assemble frozen prefix"
      ("slot " ++ want.asStr ++ " holds a " ++ got.asStr ++ " segment")
      "pass segments in slot order: city, building, resident, run")
  | none => .ok { city, building, resident, run, skipped := none, tools := none }

def slots (plan : PrefixPlan) : List (SegmentSlot × List SourceDoc × UInt64) :=
  [(.city, plan.city, plan.caps.city), (.building, plan.building, plan.caps.building),
    (.resident, plan.resident, plan.caps.resident), (.run, plan.run, plan.caps.run)]

/-- The segments and notes gathered so far, and every address a slot has carried. -/
structure Built where
  segments : List FrozenSegment
  skipped : List (List PromptSkip)
  seen : List (List Char)

def buildNext (built : Built) (slot : SegmentSlot × List SourceDoc × UInt64) :
    Except AxError Built := do
  let (segment, note, seen) ← buildSegment blake3 usizeMax slot.1 slot.2.1 slot.2.2 built.seen
  return ⟨built.segments ++ [segment], built.skipped ++ [note], seen⟩

/-- Builds the four segments: UTF-8 only, per-slot caps with truncation markers, one address once. -/
def buildPrefix (plan : PrefixPlan) : Except AxError FrozenPrefix := do
  let built ← (slots plan).foldlM (buildNext blake3 usizeMax) ⟨[], [], []⟩
  match built.segments with
  | city :: building :: resident :: run :: _ =>
    let assembled ← assemble city building resident run
    return { assembled with skipped := some built.skipped }
  | _ =>
    .error (.failure .invalidArgs "build prefix" "segment construction lost a slot"
      ("report this against runtime::prefix: a prefix is four segments, city, "
        ++ "building, resident and run, and fewer than four were built"))

end Building

/-- Where one request's explicit cache breakpoints sit: the segment edges but the last, and the
conversation's last message. -/
structure BreakpointPlan where
  tail : Option Nat

namespace BreakpointPlan

def marksEdge : SegmentSlot → Bool
  | .city | .building | .resident => true
  | .run => false

def breakpoints (plan : BreakpointPlan) : List String :=
  (SegmentSlot.all.filter marksEdge).map SegmentSlot.asStr ++ (plan.tail.map fun _ => "tail").toList

end BreakpointPlan

end Prefix

namespace SkipReason

def asStr : SkipReason → String
  | .duplicate => "duplicate"
  | .unreadable => "unreadable"
  | .notUtf8 => "not_utf8"
  | .noBudget => "no_budget"

end SkipReason

namespace SegmentSource

/-- The `prompt_assembled` row for this document. -/
def row (source : SegmentSource) : Json :=
  .obj [("addr", .str source.addr.text), ("kept", .num source.kept),
    ("marker", .bool (0 < source.dropped)), ("dropped", .num source.dropped),
    ("hash", .str source.hash.display)]

end SegmentSource

namespace FrozenPrefix

def withTools (frozen : FrozenPrefix) (tools : Json) : FrozenPrefix :=
  { frozen with tools := some tools }

def segments (frozen : FrozenPrefix) : List FrozenSegment :=
  [frozen.city, frozen.building, frozen.resident, frozen.run]

def segmentHashes (frozen : FrozenPrefix) : List B3Hash := frozen.segments.map FrozenSegment.hash

/-- What the slot of this place left out. -/
def skippedAt (frozen : FrozenPrefix) (index : Nat) : List PromptSkip :=
  (frozen.skipped.bind fun notes => notes[index]?).getD []

def segmentRow (frozen : FrozenPrefix) (index : Nat) (segment : FrozenSegment) :
    Except AxError Json :=
  if segment.bytes.length > u64Max then
    .error (.failure .invalidArgs "encode prompt payload" "segment length exceeds u64"
      ("lower the slot byte caps in `[prefix]`: one frozen segment is "
        ++ "longer than a byte count this city can hold"))
  else
    .ok (.obj [("slot", .str segment.slot.asStr.toList), ("hash", .str segment.hash.display),
      ("len", .num segment.bytes.length),
      ("sources", .arr (segment.sources.map SegmentSource.row)),
      ("skipped", .arr ((frozen.skippedAt index).map fun skip =>
        .obj [("addr", .str skip.addr.text), ("reason", .str skip.reason.asStr.toList)]))])

/-- The `prompt_assembled` payload. It nests five containers and its numbers are whole, so the
ledger takes it. -/
def promptPayload (frozen : FrozenPrefix) (plan : Prefix.BreakpointPlan) : Except AxError Json := do
  let segments ← frozen.segments.zipIdx.mapM fun entry => frozen.segmentRow entry.2 entry.1
  return .obj ([("segments", .arr segments),
      ("breakpoints", .arr (plan.breakpoints.map fun name => .str name.toList))]
    ++ (frozen.tools.map fun tools => ("tools", tools)).toList)

end FrozenPrefix

end Sprawling
