import Sprawling.Kernel.EventKind
import Sprawling.Kernel.LocatorText
import Sprawling.Kernel.Payload
import Sprawling.Kernel.RunId
import Sprawling.Storage.Ledger

/-! A ledger line as its record writes it and reads it back. -/

namespace Sprawling

open JsonText List

namespace EventLine

/-- What a recording party supplies. -/
structure EventDraft where
  run : RunId
  t : UInt64
  who : List Char
  addr : Option Address
  kind : EventKind
  data : Payload
  ig : Bool

/-- The fields of a line, in the order they are written. -/
inductive EventField where
  | v
  | run
  | seq
  | prev
  | t
  | who
  | addr
  | kind
  | data
  | ig
deriving DecidableEq

namespace EventField

def key : EventField → List Char
  | .v => ['v']
  | .run => ['r', 'u', 'n']
  | .seq => ['s', 'e', 'q']
  | .prev => ['p', 'r', 'e', 'v']
  | .t => ['t']
  | .who => ['w', 'h', 'o']
  | .addr => ['a', 'd', 'd', 'r']
  | .kind => ['k', 'i', 'n', 'd']
  | .data => ['d', 'a', 't', 'a']
  | .ig => ['i', 'g']

def all : List EventField := [.v, .run, .seq, .prev, .t, .who, .addr, .kind, .data, .ig]

def ofKey (text : List Char) : Option EventField := all.find? fun field => field.key = text

theorem ofKey_key (field : EventField) : ofKey field.key = some field := by
  cases field <;> rfl

end EventField

/-- A record of the ledger. -/
abbrev Recorded := EventRecord B3Hash EventDraft

/-- How many containers the reader opens in one another, the first one past it refused. -/
def recursionLimit : Nat := 128

/-- A count as a number. -/
def unsigned (count : Nat) : Value :=
  .number (if fits : count < 2 ^ 64 then .posInt count fits else .float (Text.decimal count))

/-- What a record writes of each field; an address that is absent and a flag that is down are left
out. -/
def fieldsOf (record : Recorded) : List (EventField × Value) :=
  [(.v, unsigned record.v), (.run, .string record.draft.run.display),
    (.seq, unsigned record.seq.value), (.prev, .string record.prev.display),
    (.t, unsigned record.draft.t.toNat), (.who, .string record.draft.who)] ++
  (record.draft.addr.map fun addr => (EventField.addr, Value.string addr.text)).toList ++
  [(.kind, .string record.draft.kind.name.toList), (.data, .object record.draft.data.entries)] ++
  (if record.draft.ig then [(.ig, .bool true)] else [])

/-- The canonical text of a record. -/
def lineText (record : Recorded) : List Char :=
  (Value.object ((fieldsOf record).map fun field => (field.1.key, field.2))).write

def canonicalLine (record : Recorded) : Bytes := Utf8.encode (lineText record)

def count (bound : Nat) : Value → Option Nat
  | .number (.posInt value _) => if value < bound then some value else none
  | _ => none

def text : Value → Option (List Char)
  | .string text => some text
  | _ => none

/-- A kind as its word, or as an object that says the word once and nothing of it. -/
def readKind : Value → Option EventKind
  | .string word => EventKind.ofName word
  | .object [(word, .null)] => EventKind.ofName word
  | _ => none

def readData : Value → Option Payload
  | .object entries =>
    (Payload.new (collect (settleEntries entries)) (ordered_settle (.object entries))).toOption
  | _ => none

/-- An address that is absent or null is none. -/
def readAddr : Option Value → Option (Option Address)
  | none | some .null => some none
  | some (.string text) => (Address.parse text).toOption.map some
  | some _ => none

/-- A flag that is absent is down. -/
def readFlag : Option Value → Option Bool
  | none => some false
  | some (.bool flag) => some flag
  | some _ => none

/-- The record with these fields. -/
def readFields (fields : List (EventField × Value)) : Option Recorded := do
  let v ← count (2 ^ 32) (← fields.lookup .v)
  let run ← (RunId.parse (← text (← fields.lookup .run))).toOption
  let seq ← count (2 ^ 64) (← fields.lookup .seq)
  let prev ← Digest.decodeHexFixed 32 (← text (← fields.lookup .prev))
  let t ← count (2 ^ 64) (← fields.lookup .t)
  let who ← text (← fields.lookup .who)
  let addr ← readAddr (fields.lookup .addr)
  let kind ← readKind (← fields.lookup .kind)
  let data ← readData (← fields.lookup .data)
  let ig ← readFlag (fields.lookup .ig)
  if bounded : seq < 2 ^ 64 then
    return { v, seq := ⟨seq, bounded⟩, prev
             draft := { run, t := UInt64.ofNat t, who, addr, kind, data, ig } }
  else none

/-- The fields of a text: an object that says each of them once at most and nothing else, or an array
of them in their order. -/
def readText (line : List Char) : Option (List (EventField × Value)) :=
  match skip line with
  | '{' :: rest => do
      let (found, rest) ← entries (value (recursionLimit - 2)) rest
      let fields ← found.mapM fun entry => (EventField.ofKey entry.1).map fun field => (field, entry.2)
      if skip rest = [] ∧ (fields.map Prod.fst).Nodup then some fields else none
  | '[' :: rest => do
      let (found, rest) ← items (value (recursionLimit - 2)) rest
      if skip rest = [] ∧ found.length ≤ EventField.all.length then some (EventField.all.zip found)
      else none
  | _ => none

def readLine (raw : Bytes) : Option Recorded := do
  readFields (← readText (← Utf8.decode raw))

/-- Read-side entrance; `sentence` is what the JSON crate says of a line it refuses. -/
def parseLine (sentence : Bytes → String) (raw : Bytes) : Except AxError Recorded :=
  match readLine raw with
  | some record => .ok record
  | none => .error (.failure .invalidArgs "parse event line" (sentence raw)
      "the line is not a canonical EventRecord")

/-- A codec whose records are read and written so. -/
def codecOf (rest : Codec B3Hash Recorded) (sentence : Bytes → String) : Codec B3Hash Recorded :=
  { rest with
    parseLine := fun raw => (parseLine sentence raw).mapError AxError.display
    canonicalLine := fun record => .ok (canonicalLine record) }

section Reading

variable {record : Recorded}

theorem unsigned_eq {value : Nat} (fits : value < 2 ^ 64) :
    unsigned value = .number (.posInt value fits) := by
  rw [unsigned, dif_pos fits]

theorem count_unsigned {bound value : Nat} (low : value < bound) (fits : value < 2 ^ 64) :
    count bound (unsigned value) = some value := by
  rw [unsigned_eq fits, count, if_pos low]

theorem readData_entries (payload : Payload) : readData (.object payload.entries) = some payload := by
  have settled := settle_of_ordered _ payload.ordered
  rw [Value.settle, Value.object.injEq] at settled
  have accepted : rejectFloatsAndDepth (collect (settleEntries payload.entries)) = .ok () := by
    rw [settled]
    exact payload.accepted
  unfold readData Payload.new
  simp only
  split
  · exact congrArg some (Payload.ext_entries settled)
  · next refused =>
      rw [accepted] at refused
      cases refused

theorem fieldsOf_written (bounded : record.v < 2 ^ 32) :
    ∀ field ∈ fieldsOf record, field.2.whole = true ∧ field.2.depth ≤ recursionLimit - 2 := by
  have number : ∀ {value : Nat}, value < 2 ^ 64 →
      (unsigned value).whole = true ∧ (unsigned value).depth ≤ recursionLimit - 2 := by
    intro value fits
    rw [unsigned_eq fits]
    exact ⟨rfl, Nat.zero_le _⟩
  have string : ∀ text : List Char, (Value.string text).whole = true ∧
      (Value.string text).depth ≤ recursionLimit - 2 := fun _ => ⟨rfl, Nat.zero_le _⟩
  intro field member
  simp only [fieldsOf, mem_append, mem_cons, not_mem_nil, or_false, Option.mem_toList,
    Option.map_eq_some_iff] at member
  rcases member with ((((rfl | rfl | rfl | rfl | rfl | rfl) | ⟨addr, -, rfl⟩) | rfl | rfl) | flag)
  · exact number (by omega)
  · exact string _
  · exact number record.seq.lt
  · exact string _
  · exact number record.draft.t.toNat_lt
  · exact string _
  · exact string _
  · exact string _
  · exact ⟨record.draft.data.whole, record.draft.data.depth_le⟩
  · split at flag
    · rw [mem_singleton.mp flag]
      exact ⟨rfl, Nat.zero_le _⟩
    · cases flag

theorem nodup_fieldsOf (record : Recorded) : ((fieldsOf record).map Prod.fst).Nodup := by
  unfold fieldsOf
  cases record.draft.addr <;> cases record.draft.ig <;> simp

theorem readText_lineText (bounded : record.v < 2 ^ 32) :
    readText (lineText record) = some (fieldsOf record) := by
  have written := fieldsOf_written bounded
  have reads : ∀ one ∈ (fieldsOf record).map (fun field => (field.1.key, field.2)),
      JsonText.Takes (JsonText.value (recursionLimit - 2)) one.2 := by
    intro one member
    obtain ⟨field, inside, rfl⟩ := mem_map.mp member
    exact value_write field.2 (written field inside).1 _ (written field inside).2
  obtain ⟨body, text, read⟩ := entries_write reads []
  have opens : JsonText.Opens ('{' :: body) := ⟨'{', body, rfl, by decide⟩
  have keyed : ((fieldsOf record).map fun field => (field.1.key, field.2)).mapM
      (fun entry => (EventField.ofKey entry.1).map fun field => (field, entry.2)) =
        some (fieldsOf record) := by
    induction fieldsOf record with
    | nil => rfl
    | cons field others ih =>
      rw [map_cons, mapM_cons, EventField.ofKey_key, Option.map_some, ih]
      rfl
  rw [append_nil] at read
  rw [lineText, text, readText, opens.skip]
  simp only [read, keyed, Option.bind_eq_bind, Option.bind_some]
  exact if_pos ⟨rfl, nodup_fieldsOf record⟩

theorem lookup_fieldsOf (record : Recorded) (field : EventField) :
    (fieldsOf record).lookup field = match field with
      | .v => some (unsigned record.v)
      | .run => some (.string record.draft.run.display)
      | .seq => some (unsigned record.seq.value)
      | .prev => some (.string record.prev.display)
      | .t => some (unsigned record.draft.t.toNat)
      | .who => some (.string record.draft.who)
      | .addr => record.draft.addr.map fun addr => Value.string addr.text
      | .kind => some (.string record.draft.kind.name.toList)
      | .data => some (.object record.draft.data.entries)
      | .ig => if record.draft.ig then some (.bool true) else none := by
  unfold fieldsOf
  cases record.draft.addr <;> cases record.draft.ig <;> cases field <;> rfl

theorem readFields_fieldsOf (bounded : record.v < 2 ^ 32) : readFields (fieldsOf record) = some record := by
  have v := count_unsigned bounded (Nat.lt_trans bounded (by decide))
  have seq := count_unsigned record.seq.lt record.seq.lt
  have t := count_unsigned record.draft.t.toNat_lt record.draft.t.toNat_lt
  have run := RunId.parse_display record.draft.run
  have prev := Digest.decodeHexFixed_display record.prev
  have kind := EventKind.ofName_name record.draft.kind
  have data := readData_entries record.draft.data
  have addr : readAddr (record.draft.addr.map fun addr => Value.string addr.text) =
      some record.draft.addr := by
    cases record.draft.addr with
    | none => rfl
    | some addr =>
      rw [Option.map_some, readAddr, Address.parse_text]
      rfl
  have ig : readFlag (if record.draft.ig then some (Value.bool true) else none) =
      some record.draft.ig := by
    cases record.draft.ig <;> rfl
  unfold readFields
  simp only [lookup_fieldsOf, Option.bind_eq_bind, Option.bind_some, v, seq, t, text, run, prev, kind,
    readKind, data, addr, ig, Except.toOption, dif_pos record.seq.lt, UInt64.ofNat_toNat]
  rfl

theorem readLine_canonicalLine (bounded : record.v < 2 ^ 32) :
    readLine (canonicalLine record) = some record := by
  simp only [readLine, canonicalLine, Utf8.decode_encode, Option.bind_eq_bind, Option.bind_some,
    readText_lineText bounded, readFields_fieldsOf bounded]

theorem newline_not_mem_canonicalLine (bounded : record.v < 2 ^ 32) : newline ∉ canonicalLine record := by
  have whole : (Value.object ((fieldsOf record).map fun field => (field.1.key, field.2))).whole = true := by
    rw [Value.whole, wholeEntries_iff, forall_mem_map]
    exact fun field member => (fieldsOf_written bounded field member).1
  have plain := plain_write _ whole
  intro member
  obtain ⟨c, inside, byte⟩ := mem_flatMap.mp member
  have high := plain c inside
  rw [← Utf8.toNat_of_ascii byte (by decide)] at high
  exact absurd high (by decide)

theorem canonicalRecord_canonicalLine (codec : Codec B3Hash Recorded) (sentence : Bytes → String)
    (bounded : record.v < 2 ^ 32) :
    canonicalRecord (codecOf codec sentence) (canonicalLine record) = .ok record := by
  simp only [canonicalRecord, codecOf, parseLine, readLine_canonicalLine bounded, Except.mapError,
    ne_eq, not_true_eq_false, if_false]

end Reading

/-- A payload is taken exactly when it nests no deeper than the limit and has no float, and the record
of any taken payload writes one line, which reads back as the record, is written the same again, and
passes the ledger's check. -/
theorem written_lines :
    (∀ map : List (List Char × Value), rejectFloatsAndDepth map = .ok () ↔
      (Value.object map).depth ≤ payloadDepthMax ∧ (Value.object map).whole = true) ∧
    ∀ (codec : Codec B3Hash Recorded) (sentence : Bytes → String) (v : UInt32) (seq : Seq)
      (prev : B3Hash) (draft : EventDraft),
      let record : Recorded := { v := v.toNat, seq, prev, draft }
      newline ∉ canonicalLine record ∧
        parseLine sentence (canonicalLine record) = .ok record ∧
        (parseLine sentence (canonicalLine record)).map canonicalLine = .ok (canonicalLine record) ∧
        canonicalRecord (codecOf codec sentence) (canonicalLine record) = .ok record := by
  refine ⟨reject_ok, fun codec sentence v seq prev draft => ?_⟩
  intro record
  have bounded : record.v < 2 ^ 32 := v.toNat_lt
  have read : parseLine sentence (canonicalLine record) = .ok record := by
    rw [parseLine, readLine_canonicalLine bounded]
  refine ⟨newline_not_mem_canonicalLine bounded, read, ?_, canonicalRecord_canonicalLine codec sentence bounded⟩
  rw [read]
  rfl

end EventLine

end Sprawling
