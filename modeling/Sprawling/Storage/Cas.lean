import Sprawling.Kernel.Digest
import Sprawling.Storage.Error
import Sprawling.Storage.FaultFs

/-! Content-addressed storage: objects named by their digest, written through temp files of their
own, by any number of handles in any number of processes at once. -/

namespace Sprawling

open Digest

namespace Cas

/-- A disk by the paths under the store's directory. -/
abbrev Disk := OrdMap FileName FileState

def shardDir (hash : Bytes) : FileName :=
  let hex := writeHex hash
  "b3/".toList ++ (if hex.length < 2 then "00".toList else hex.take 2)

def objectPath (hash : Bytes) : FileName := shardDir hash ++ '/' :: writeHex hash

def tmpDir : FileName := "tmp".toList

def parent (path : FileName) : Option FileName := (Text.rsplitOnce '/' path).map Prod.fst

/-- A put's temp file name: the digest, the process, and how many puts that process had begun. -/
def tmpName (hash : Bytes) (pid count : Nat) : FileName :=
  writeHex hash ++ '.' :: (Text.decimal pid ++ '.' :: (Text.decimal count ++ ".part".toList))

def tmpPath (hash : Bytes) (pid count : Nat) : FileName := tmpDir ++ '/' :: tmpName hash pid count

/-- Whether the process `pid` wrote the temp file at `path`. -/
def writtenHere (pid : Nat) (path : FileName) : Bool :=
  match Text.rsplitOnce '/' path with
  | none => false
  | some (_, name) => (name.splitOn '.')[1]? = some (Text.decimal pid)

section Store

variable (blake3 : Bytes → Bytes)

/-- Full read, re-verified against the address. -/
def get (files : Disk) (hash : Bytes) : Except StorageError Bytes :=
  match files[objectPath hash]? with
  | none => .error (.casMissing (writeHex hash))
  | some file =>
    if blake3 file.live ≠ hash then
      .error (.casCorrupt (writeHex hash) (objectPath hash))
    else .ok file.live

/-- Where a put stands: the operation it does next. -/
inductive Stage where
  /-- Does the named object exist? -/
  | look
  /-- A repair asks again, in `get`. -/
  | confirm
  /-- A repair reads the object and hashes it. -/
  | reread
  | createShard
  /-- The put is counted and has its temp name. -/
  | name
  /-- Does a temp file of that name exist? -/
  | tidy
  | reset
  | fill
  | syncData
  | rename
  | makeReadonly
  | syncDir

/-- One call of `put` or `put_repair` in flight. -/
structure Put where
  pid : Nat
  bytes : Bytes
  repair : Bool
  stage : Stage
  count : Nat

def Put.hash (put : Put) : Bytes := blake3 put.bytes

def Put.object (put : Put) : FileName := objectPath (put.hash blake3)

def Put.tmp (put : Put) : FileName := tmpPath (put.hash blake3) put.pid put.count

/-- How an operation left a put: on to its next operation, or answered. -/
inductive Turn where
  | goes (put : Put)
  | answers
  | fails

/-- One operation of a put. `failed` is a failure without power loss, with how much of an append
had landed; the count is of the puts the process has begun. -/
def Put.step (put : Put) (files : Disk) (begun : Nat) (failed : Option Nat) : Disk × Nat × Turn :=
  let go (files : Disk) (stage : Stage) : Disk × Nat × Turn :=
    (files, begun, .goes { put with stage })
  let refuse : Disk × Nat × Turn := (files, begun, .fails)
  let exists_ : Bool := (files[put.object blake3]?).isSome
  match put.stage with
  | .look =>
    if exists_ then
      if put.repair then go files .confirm else (files, begun, .answers)
    else go files .createShard
  | .confirm => if exists_ then go files .reread else refuse
  | .reread =>
    if failed.isSome then refuse
    else
      match files[put.object blake3]? with
      | none => refuse
      | some file =>
        if blake3 file.live = put.hash blake3 then (files, begun, .answers)
        else go files .createShard
  | .createShard => if failed.isSome then refuse else go files .name
  | .name => (files, begun + 1, .goes { put with stage := .tidy, count := begun })
  | .tidy => if (files[put.tmp blake3]?).isSome then go files .reset else go files .fill
  | .reset =>
    match files[put.tmp blake3]? with
    | none => refuse
    | some file =>
      if failed.isSome then refuse
      else go (files.insert (put.tmp blake3) { file with live := FaultFs.resize file.live 0 }) .fill
  | .fill =>
    match failed with
    | some landed =>
      (FaultFs.extend files (put.tmp blake3) (put.bytes.take landed), begun, .fails)
    | none => go (FaultFs.extend files (put.tmp blake3) put.bytes) .syncData
  | .syncData =>
    if failed.isSome then refuse
    else
      match files[put.tmp blake3]? with
      | none => refuse
      | some file =>
        go (files.insert (put.tmp blake3) { file with durable := file.live }) .rename
  | .rename =>
    match files[put.tmp blake3]? with
    | none => refuse
    | some file =>
      if failed.isSome then refuse
      else
        go ((files.erase (put.tmp blake3)).insert (put.object blake3)
          { file with durableEntry := false }) .makeReadonly
  | .makeReadonly =>
    if exists_ && failed.isNone then go files .syncDir else refuse
  | .syncDir =>
    if failed.isSome then refuse
    else
      (FaultFs.promoteIn (fun path => parent path = some (shardDir (put.hash blake3))) files, begun,
        .answers)

/-- The store and everyone at work on it. `answered` holds what every put that returned `Ok` has
returned, with the bytes it was given. -/
structure World where
  files : Disk
  begun : Nat → Nat
  puts : Nat → Option Put
  answered : List (Bytes × Bytes)

/-- What can happen next, in any order. -/
inductive Event where
  /-- A handle of the process `pid` that is free begins a put. -/
  | put (handle pid : Nat) (bytes : Bytes) (repair : Bool)
  /-- The put of a handle does its next operation, which may fail. -/
  | step (handle : Nat) (failed : Option Nat)
  /-- Opening a handle in the process `pid` removes one temp file another process wrote. -/
  | sweep (pid : Nat) (leftover : FileName)
  /-- The process `pid` ends, and its puts with it. -/
  | exit (pid : Nat)
  /-- Power is lost, and every process with it. -/
  | cut (torn : Nat)

namespace World

def empty : World := { files := ∅, begun := fun _ => 0, puts := fun _ => none, answered := [] }

def setPut (world : World) (handle : Nat) (put : Option Put) : World :=
  { world with puts := fun other => if other = handle then put else world.puts other }

/-- The put of a handle does its next operation. -/
def stepPut (world : World) (handle : Nat) (put : Put) (failed : Option Nat) : World :=
  let done := put.step blake3 world.files (world.begun put.pid) failed
  let world := { world with
    files := done.1
    begun := fun pid => if pid = put.pid then done.2.1 else world.begun pid }
  match done.2.2 with
  | .goes put => world.setPut handle (some put)
  | .answers =>
    { world.setPut handle none with
      answered := (put.hash blake3, put.bytes) :: world.answered }
  | .fails => world.setPut handle none

def apply (world : World) : Event → World
  | .put handle pid bytes repair =>
    match world.puts handle with
    | some _ => world
    | none => world.setPut handle (some { pid, bytes, repair, stage := .look, count := 0 })
  | .step handle failed =>
    match world.puts handle with
    | none => world
    | some put => world.stepPut blake3 handle put failed
  | .sweep pid leftover =>
    if parent leftover = some tmpDir ∧ writtenHere pid leftover = false then
      { world with files := world.files.erase leftover }
    else world
  | .exit pid =>
    { world with
      begun := fun other => if other = pid then 0 else world.begun other
      puts := fun handle => (world.puts handle).filter fun put => put.pid ≠ pid }
  | .cut torn =>
    { world with
      files := FaultFs.cut torn world.files
      begun := fun _ => 0
      puts := fun _ => none }

def after (events : List Event) : World := events.foldl (apply blake3) empty

end World

end Store

end Cas

end Sprawling
