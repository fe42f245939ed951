import Sprawling.Base.Outcome
import Sprawling.Runtime.Prefix

namespace Sprawling

open List Prefix Elision Utf8 Json Elision.Boundary

open Utf8 (byteLen splitAtChecked)

namespace Replay

/-- The value, or the refusal that names its absence. -/
def okOr {α : Type} (value : Option α) (refusal : AxError) : Except AxError α :=
  match value with
  | some value => .ok value
  | none => .error refusal

@[simp] theorem okOr_some {α : Type} (value : α) (refusal : AxError) :
    okOr (some value) refusal = .ok value := rfl

section Rebuilding

variable (blake3 : Bytes → B3Hash) (usizeMax : Nat) (resolver : Address → Option Bytes)

/-- The hash a row carries. A row without one, or with a null one, predates it. -/
def recordedHash (slot addrRaw : List Char) (source : Json) : Except AxError (Option (List Char)) :=
  match source.get "hash" with
  | none | some .null => .ok none
  | some value =>
    match value.asStr with
    | some text => .ok (some text)
    | none =>
      .error (.failure .invalidArgs "rebuild prefix"
        (String.ofList slot ++ ": " ++ String.ofList addrRaw
          ++ ": the recorded hash is not a string")
        ("replay a run whose source rows were written by sprawling; this "
          ++ "row's hash was altered after it was recorded"))

/-- A row's piece of its document, with its marker, behind the text so far. -/
def rebuildSource (slot : List Char) (text : List Char) (source : Json) :
    Except AxError (List Char) := do
  let addrRaw ← okOr ((source.get "addr").bind Json.asStr)
    (.failure .invalidArgs "rebuild prefix" "source without addr"
      ("replay a run whose every source note carries `addr`; "
        ++ "without it the document cannot be found again"))
  let addr ← Address.parse addrRaw
  let bytes ← okOr (resolver addr)
    (.failure .pathNotFound "rebuild prefix" (String.ofList addrRaw)
      "supply the source document at its recorded address")
  let body ← okOr (Utf8.decode bytes)
    (.failure .invalidArgs "rebuild prefix" (String.ofList addrRaw ++ ": not utf-8")
      ("restore " ++ String.ofList addrRaw ++ " to the UTF-8 text it held when the run "
        ++ "recorded it; the bytes on disk today are something else"))
  let kept ← okOr (some (((source.get "kept").bind Json.asU64).getD 0) |>.filter (· ≤ usizeMax))
    (.failure .invalidArgs "rebuild prefix" "kept exceeds usize"
      ("replay this run on a 64-bit machine: the recorded kept span "
        ++ "is longer than this one can address"))
  let marker := ((source.get "marker").bind asBool).getD false
  let dropped := ((source.get "dropped").bind Json.asU64).getD 0
  let sides ← okOr (splitAtChecked body kept)
    (.failure .invalidArgs "rebuild prefix"
      (String.ofList addrRaw ++ ": kept span exceeds the document")
      ("restore " ++ String.ofList addrRaw ++ " to the text it held when the run recorded it; "
        ++ "the file on disk today is shorter than the span the run kept"))
  let recorded ← recordedHash slot addrRaw source
  if recorded.any (· ≠ (blake3 (Utf8.encode sides.1)).display) then
    .error (.failure .casCorrupt "rebuild prefix"
      (String.ofList slot ++ ": " ++ String.ofList addrRaw
        ++ ": the kept bytes differ from the ones recorded")
      ("restore " ++ String.ofList addrRaw ++ " to the text it held when the run recorded it; the "
        ++ "model was given those bytes, not the ones on disk today"))
  else
    return text ++ (if text.isEmpty then [] else docJoin) ++ sides.1
      ++ (if marker then Elision.marker dropped else [])

/-- One segment's hash, recomputed from its rows and checked against the recorded one. -/
def rebuildSegment (segment : Json) : Except AxError B3Hash := do
  let slot := ((segment.get "slot").bind Json.asStr).getD ['?']
  let sources ← okOr ((segment.get "sources").bind asArray)
    (.failure .invalidArgs "rebuild prefix"
      (String.ofList slot ++ ": payload lacks source notes (hand-assembled prefix?)")
      ("replay a run whose " ++ String.ofList slot ++ " segment lists the documents it was "
        ++ "built from; a prefix assembled by hand names none"))
  let text ← sources.foldlM (rebuildSource blake3 usizeMax resolver slot) []
  let rebuilt := blake3 (Utf8.encode text)
  if ((segment.get "hash").bind Json.asStr).any (· ≠ rebuilt.display) then
    .error (.failure .casCorrupt "rebuild prefix"
      (String.ofList slot ++ ": rebuilt hash differs from the recorded one")
      "the source documents no longer match the recorded assembly")
  else return rebuilt

/-- The four segment hashes, from a `prompt_assembled` payload and the documents it names. -/
def rebuildPrefix (data : Json) : Except AxError (List B3Hash) := do
  let segments ← okOr ((data.get "segments").bind asArray)
    (.failure .invalidArgs "rebuild prefix" "payload has no segments"
      ("replay a run whose `prompt_assembled` line carries `segments`; a "
        ++ "hand-written line cannot be rebuilt"))
  if segments.length ≠ 4 then
    .error (.failure .invalidArgs "rebuild prefix"
      ("expected 4 segments, found " ++ toString segments.length)
      ("replay a run recorded by this build: a prefix is four segments, city, "
        ++ "building, resident and run"))
  else segments.mapM (rebuildSegment blake3 usizeMax resolver)

end Rebuilding

/-! ### What became of each document -/

/-- What a slot did with a document it was offered. -/
inductive Fate where
  | taken (source : SegmentSource)
  | skipped (reason : SkipReason)

namespace Fate

def source? : Fate → Option SegmentSource
  | .taken source => some source
  | .skipped _ => none

def reason? : Fate → Option SkipReason
  | .taken _ => none
  | .skipped reason => some reason

end Fate

abbrev Entry := SourceDoc × Fate

def takenOf (entries : List Entry) : List SegmentSource :=
  entries.filterMap fun entry => entry.2.source?

def skippedOf (entries : List Entry) : List PromptSkip :=
  entries.filterMap fun entry => entry.2.reason?.map fun reason => ⟨entry.1.addr, reason⟩

def carriedOf (entries : List Entry) : List Address := (takenOf entries).map SegmentSource.addr

variable (first second : List Entry)

@[simp] theorem takenOf_append :
    takenOf (first ++ second) = takenOf first ++ takenOf second := filterMap_append ..

@[simp] theorem skippedOf_append :
    skippedOf (first ++ second) = skippedOf first ++ skippedOf second := filterMap_append ..

@[simp] theorem carriedOf_append :
    carriedOf (first ++ second) = carriedOf first ++ carriedOf second := by
  simp only [carriedOf, takenOf_append, map_append]

section Judging

variable (blake3 : Bytes → B3Hash)

/-- A row says what was kept of a document: its first bytes, how many more there were, and the
hash of the kept ones. -/
def Describes (doc : SourceDoc) (source : SegmentSource) : Prop :=
  ∃ bytes head tail, doc.bytes = some bytes ∧ Utf8.decode bytes = some (head ++ tail) ∧
    source.addr = doc.addr ∧ source.kept = byteLen head ∧
    source.dropped = saturatingLen (byteLen tail) ∧ source.hash = blake3 (Utf8.encode head)

/-- How many bytes the row's document takes in its segment, its marker counted. -/
def pieceSize (source : SegmentSource) : Nat :=
  source.kept + if 0 < source.dropped then byteLen (Elision.marker source.dropped) else 0

/-- The bytes of a join behind so many. -/
def joinSize (size : Nat) : Nat := if size = 0 then 0 else byteLen docJoin

/-- How many bytes a segment of these rows holds. -/
def textSize (sources : List SegmentSource) : Nat :=
  sources.foldl (fun size source => size + joinSize size + pieceSize source) 0

/-- What a slot's budget leaves to the next document behind these rows. -/
def roomLeft (cap : Nat) (sources : List SegmentSource) : Nat :=
  cap - (textSize sources + joinSize (textSize sources))

/-- A text has room: whole when it fits, cut when more is left than a marker may need. -/
def HasRoom (room : Nat) (body : List Char) : Prop :=
  byteLen body ≤ room ∨ markerRoom (byteLen body) < room

/-- What is taken of a text with room: all of it, or what leaves room for the marker. -/
def TakenIn (room : Nat) (body : List Char) (source : SegmentSource) : Prop :=
  if byteLen body ≤ room then source.dropped = 0
  else 0 < source.dropped ∧ source.kept + markerRoom (byteLen body) ≤ room

/-- The fate of a document is right, given the addresses already carried and the bytes its slot has
room for. -/
def Judged (room : Nat) (carried : List Address) (entry : Entry) : Prop :=
  match entry.2 with
  | .skipped .duplicate => entry.1.addr ∈ carried
  | .skipped .unreadable => entry.1.addr ∉ carried ∧ entry.1.bytes = none
  | .skipped .notUtf8 =>
    entry.1.addr ∉ carried ∧ ∃ bytes, entry.1.bytes = some bytes ∧ Utf8.decode bytes = none
  | .skipped .noBudget =>
    entry.1.addr ∉ carried ∧ ∃ bytes body, entry.1.bytes = some bytes ∧
      Utf8.decode bytes = some body ∧ ¬ HasRoom room body
  | .taken source =>
    entry.1.addr ∉ carried ∧ Describes blake3 entry.1 source ∧ ∃ bytes body,
      entry.1.bytes = some bytes ∧ Utf8.decode bytes = some body ∧ HasRoom room body ∧
        TakenIn room body source

/-- Every fate in a slot is right, given its budget and what the slots before it carried. -/
def Lawful (cap : Nat) (carried : List Address) (entries : List Entry) : Prop :=
  ∀ before entry after, entries = before ++ entry :: after →
    Judged blake3 (roomLeft cap (takenOf before)) (carried ++ carriedOf before) entry

variable {blake3} in
theorem Lawful.concat {cap : Nat} {carried : List Address} {entries : List Entry} {entry : Entry}
    (lawful : Lawful blake3 cap carried entries)
    (judged : Judged blake3 (roomLeft cap (takenOf entries)) (carried ++ carriedOf entries) entry) :
    Lawful blake3 cap carried (entries ++ [entry]) := by
  intro before here after split
  rcases eq_nil_or_concat after with rfl | ⟨rest, last, rfl⟩
  · obtain ⟨rfl, same⟩ := append_inj' split rfl
    cases same
    exact judged
  · rw [concat_eq_append, ← cons_append, ← append_assoc] at split
    exact lawful before here rest (append_inj' split rfl).1

/-- A resolver answers every taken document with the bytes it had. -/
def Honest (resolver : Address → Option Bytes) (entries : List Entry) : Prop :=
  ∀ doc source, (doc, Fate.taken source) ∈ entries → resolver doc.addr = doc.bytes

theorem Honest.of_subset {resolver : Address → Option Bytes} {few many : List Entry}
    (honest : Honest resolver many) (inside : few ⊆ many) : Honest resolver few :=
  fun doc source member => honest doc source (inside member)

theorem named_once {entries : List Entry}
    (own : ∀ doc source, (doc, Fate.taken source) ∈ entries → source.addr = doc.addr) :
    ((takenOf entries).map SegmentSource.addr ++ (skippedOf entries).map PromptSkip.addr).Perm
      (entries.map fun entry => entry.1.addr) := by
  induction entries with
  | nil => exact List.Perm.refl _
  | cons entry entries ih =>
    obtain ⟨doc, fate⟩ := entry
    have rest := ih fun doc source member => own doc source (mem_cons_of_mem _ member)
    cases fate with
    | taken source =>
      show (source.addr :: _).Perm _
      rw [own doc source mem_cons_self]
      exact rest.cons _
    | skipped reason =>
      show (_ ++ doc.addr :: _).Perm _
      exact perm_middle.trans (rest.cons _)

end Judging

section Agreement

variable {blake3 : Bytes → B3Hash} {usizeMax : Nat} {resolver : Address → Option Bytes}

variable (source : SegmentSource)

theorem row_addr : source.row.get "addr" = some (.str source.addr.text) :=
  rfl

theorem row_kept : source.row.get "kept" = some (.num source.kept) := rfl

theorem row_marker : source.row.get "marker" = some (.bool (0 < source.dropped)) := rfl

theorem row_dropped : source.row.get "dropped" = some (.num source.dropped) := rfl

/-- The text a row stands for. -/
def pieceOf (head : List Char) (source : SegmentSource) : List Char :=
  head ++ (if 0 < source.dropped then Elision.marker source.dropped else [])

variable {doc : SourceDoc} {bytes : Bytes} {source : SegmentSource}

theorem rebuildSource_row {head tail : List Char}
    (held : doc.bytes = some bytes) (spelt : Utf8.decode bytes = some (head ++ tail))
    (addr : source.addr = doc.addr) (kept : source.kept = byteLen head)
    (fits : source.kept ≤ usizeMax) (small : source.kept < 2 ^ 64) (few : source.dropped < 2 ^ 64)
    (hash : source.hash = blake3 (Utf8.encode head)) (answers : resolver doc.addr = doc.bytes)
    (slot text : List Char) :
    rebuildSource blake3 usizeMax resolver slot text source.row =
      .ok (text ++ (if text.isEmpty then [] else docJoin) ++ pieceOf head source) := by
  have splits : splitAtChecked (head ++ tail) source.kept = some (head, tail) :=
    splitAtChecked_eq_some.mpr ⟨rfl, kept.symm⟩
  have found : resolver source.addr = some bytes := by rw [addr, answers, held]
  have hashed : recordedHash slot source.addr.text source.row = .ok (some source.hash.display) := rfl
  have bounded : (some source.kept).filter (fun kept => kept ≤ usizeMax) = some source.kept := by
    simp [fits]
  simp only [rebuildSource, row_addr, row_kept, row_marker, row_dropped, Option.bind_some, Json.asStr,
    asU64_natCast, asBool, small, few, if_true, Option.getD_some, okOr_some, Address.parse_text,
    Outcome.bind_ok, found, spelt, bounded, splits, hashed, hash, Option.any_some, ne_eq, not_true,
    if_false, pieceOf, append_assoc, decide_eq_true_eq]
  rfl

/-- What is added to a slot's text with a row is what the row is rebuilt as. -/
def Rebuilds (blake3 : Bytes → B3Hash) (cap : Nat) (doc : SourceDoc) (text : List Char)
    (source : SegmentSource) (grown : List Char) : Prop :=
  ∀ usizeMax resolver slot, cap ≤ usizeMax → resolver doc.addr = doc.bytes →
    rebuildSource blake3 usizeMax resolver slot text source.row = .ok grown

theorem carrying_text (state : Prefix.Gathering) (piece : List Char) (source : SegmentSource) :
    (state.carrying piece source).text =
      state.text ++ (if state.text.isEmpty then [] else docJoin) ++ piece := rfl

variable {cap : Nat} {body : List Char}

theorem describes_whole (blake3 : Bytes → B3Hash)
    (held : doc.bytes = some bytes) (spelt : Utf8.decode bytes = some body) (small : cap < 2 ^ 64)
    (fits : byteLen body ≤ cap) (state : Prefix.Gathering) :
    Describes blake3 doc (sourceWhole blake3 doc.addr bytes) ∧
      byteLen body = pieceSize (sourceWhole blake3 doc.addr bytes) ∧
      Rebuilds blake3 cap doc state.text (sourceWhole blake3 doc.addr bytes)
        (state.carrying body (sourceWhole blake3 doc.addr bytes)).text := by
  have written := encode_of_decode spelt
  have length : bytes.length = byteLen body := by rw [← written, length_encode]
  have kept : (sourceWhole blake3 doc.addr bytes).kept = byteLen body := by
    show min bytes.length u64Max = _
    simp only [u64Max]
    omega
  have hash : (sourceWhole blake3 doc.addr bytes).hash = blake3 (Utf8.encode body) := by
    rw [written]
    rfl
  have whole : Utf8.decode bytes = some (body ++ []) := by rw [spelt, append_nil]
  refine ⟨⟨bytes, body, [], held, whole, rfl, kept, rfl, hash⟩, kept.symm, ?_⟩
  · intro usizeMax resolver slot room answers
    rw [rebuildSource_row held whole rfl kept (by omega) (by omega)
        (show 0 < 2 ^ 64 by decide) hash answers,
      carrying_text, pieceOf]
    simp [sourceWhole, sourceCut]

theorem describes_cut (blake3 : Bytes → B3Hash) {room : Nat}
    (held : doc.bytes = some bytes) (spelt : Utf8.decode bytes = some body) (small : cap < 2 ^ 64)
    (within : room ≤ cap) (longer : room < byteLen body) (state : Prefix.Gathering) :
    let kept := Elision.boundaryBefore body room
    let cut := Elision.splice body kept (byteLen body) .tail
    let source := sourceCut blake3 doc.addr ((Utf8.encode body).take kept) cut.dropped
    Describes blake3 doc source ∧ (0 < source.dropped ∧ source.kept ≤ room) ∧
      byteLen cut.text = pieceSize source ∧
      Rebuilds blake3 cap doc state.text source (state.carrying cut.text source).text := by
  intro kept cut source
  have sides := before_sides body room
  have cutShape := splice_tail body room
  have offset : kept ≤ room := offset_before_le body room
  generalize headIs : (Elision.Boundary.before body room).head = head at sides cutShape
  generalize (Elision.Boundary.before body room).tail = tail at sides
  have keptIs : kept = byteLen head := by
    rw [← headIs]
    rfl
  have size := congrArg byteLen sides
  rw [byteLen_append] at size
  have prefixIs : (Utf8.encode body).take kept = Utf8.encode head := by
    rw [← sides, Utf8.encode_append, take_left']
    rw [length_encode, keptIs]
  have dropped : cut.dropped = saturatingLen (byteLen tail) := by
    rw [show cut = _ from cutShape]
    show saturatingLen (byteLen body - kept) = _
    congr 1
    omega
  have text : cut.text = head ++ Elision.marker cut.dropped := by
    rw [show cut = _ from cutShape]
  have keptField : source.kept = byteLen head := by
    show min ((Utf8.encode body).take kept).length u64Max = _
    rw [prefixIs, length_encode]
    simp only [u64Max]
    omega
  have hash : source.hash = blake3 (Utf8.encode head) := by
    show blake3 ((Utf8.encode body).take kept) = _
    rw [prefixIs]
  have spelt : Utf8.decode bytes = some (head ++ tail) := by rw [spelt, sides]
  have some_dropped : 0 < source.dropped ∧ source.dropped < 2 ^ 64 := by
    show 0 < cut.dropped ∧ cut.dropped < 2 ^ 64
    rw [dropped, saturatingLen, u64Max]
    omega
  refine ⟨⟨bytes, head, tail, held, spelt, rfl, keptField, dropped, hash⟩,
    ⟨some_dropped.1, by omega⟩, ?_, ?_⟩
  · rw [text, byteLen_append, pieceSize, keptField, if_pos some_dropped.1]
    rfl
  · intro usizeMax resolver slot room answers
    rw [rebuildSource_row held spelt rfl keptField (by omega) (by omega) some_dropped.2 hash answers,
      carrying_text, pieceOf, if_pos some_dropped.1, text]
    rfl

variable {state : Prefix.Gathering} {carried : List Address}

theorem offer_spec {after : Prefix.Gathering} (small : cap < 2 ^ 64)
    (same : ∀ addr : Address, addr.text ∈ state.seen ↔ addr ∈ carried)
    (offered : Prefix.offer blake3 cap state doc = .ok after) :
    (∃ reason, after = state.leftOut doc reason ∧
        Judged blake3 (state.remaining cap) carried (doc, .skipped reason)) ∨
      ∃ source piece, after = state.carrying piece source ∧
        Judged blake3 (state.remaining cap) carried (doc, .taken source) ∧
        byteLen piece = pieceSize source ∧ Rebuilds blake3 cap doc state.text source after.text := by
  simp only [Prefix.offer] at offered
  split at offered
  · next duplicate =>
      cases offered
      exact Or.inl ⟨.duplicate, rfl, (same doc.addr).mp duplicate⟩
  · next fresh =>
      have fresh : doc.addr ∉ carried := fun member => fresh ((same doc.addr).mpr member)
      split at offered
      · next unreadable =>
          cases offered
          exact Or.inl ⟨.unreadable, rfl, fresh, unreadable⟩
      · next bytes held =>
          split at offered
          · next undecoded =>
              cases offered
              exact Or.inl ⟨.notUtf8, rfl, fresh, bytes, held, undecoded⟩
          · next body spelt =>
              have within : state.remaining cap ≤ cap := Nat.sub_le _ _
              split at offered
              · next fits =>
                  cases offered
                  have told := describes_whole blake3 held spelt small
                    (Nat.le_trans fits within) state
                  refine Or.inr ⟨_, _, rfl, ⟨fresh, told.1, bytes, body, held, spelt, Or.inl fits, ?_⟩,
                    told.2⟩
                  rw [TakenIn, if_pos fits]
                  rfl
              · next wide =>
                  split at offered
                  · next short =>
                      cases offered
                      refine Or.inl ⟨.noBudget, rfl, fresh, bytes, body, held, spelt, ?_⟩
                      rintro (fits | roomy)
                      · exact wide fits
                      · exact Nat.not_lt.mpr short roomy
                  · next roomy =>
                    split at offered
                    · cases offered
                      let room := state.remaining cap - markerRoom (byteLen body)
                      have room_le : room ≤ state.remaining cap := Nat.sub_le _ _
                      have told := describes_cut blake3 held spelt small
                        (Nat.le_trans room_le within) (by omega) state
                      have cut := told.2.1
                      refine Or.inr ⟨_, _, rfl, ⟨fresh, told.1, bytes, body, held, spelt,
                        Or.inr (Nat.lt_of_not_le roomy), ?_⟩, told.2.2⟩
                      rw [TakenIn, if_neg wide]
                      exact ⟨cut.1, Nat.add_le_of_le_sub (Nat.le_of_not_le roomy) cut.2⟩
                    · cases offered

/-- The rows of these entries, rebuilt from nothing, give the text. -/
def RowsRebuild (blake3 : Bytes → B3Hash) (cap : Nat) (entries : List Entry) (text : List Char) :
    Prop :=
  ∀ usizeMax resolver slot, cap ≤ usizeMax → Honest resolver entries →
    ((takenOf entries).map SegmentSource.row).foldlM (rebuildSource blake3 usizeMax resolver slot) []
      = .ok text

/-- What a slot has gathered is what became of the documents it was offered so far. -/
structure Tells (blake3 : Bytes → B3Hash) (cap : Nat) (carried : List Address)
    (docs : List SourceDoc) (entries : List Entry) (state : Prefix.Gathering) : Prop where
  offered : entries.map Prod.fst = docs
  sources : state.sources = takenOf entries
  skips : state.skipped = skippedOf entries
  seen : ∀ addr : Address, addr.text ∈ state.seen ↔ addr ∈ carried ++ carriedOf entries
  size : byteLen state.text = textSize (takenOf entries)
  lawful : Lawful blake3 cap carried entries
  rebuilt : RowsRebuild blake3 cap entries state.text

variable {docs : List SourceDoc} {entries : List Entry}

variable (tells : Tells blake3 cap carried docs entries state)

include tells

theorem Tells.remaining :
    state.remaining cap = roomLeft cap (takenOf entries) := by
  have empty : state.text.isEmpty = true ↔ textSize (takenOf entries) = 0 := by
    rw [← tells.size, byteLen_eq_zero, List.isEmpty_iff]
  simp only [Prefix.Gathering.remaining, roomLeft, joinSize, tells.size, empty]

theorem Tells.leftOut {reason : SkipReason}
    (judged : Judged blake3 (state.remaining cap) (carried ++ carriedOf entries)
      (doc, .skipped reason)) :
    Tells blake3 cap carried (docs ++ [doc]) (entries ++ [(doc, .skipped reason)])
      (state.leftOut doc reason) where
  offered := by rw [map_append, tells.offered]; rfl
  sources := by
    rw [takenOf_append]
    exact tells.sources.trans (append_nil _).symm
  skips := by
    rw [skippedOf_append, ← tells.skips]
    rfl
  seen := by
    intro addr
    have none_more : carriedOf [(doc, Fate.skipped reason)] = [] := rfl
    rw [carriedOf_append, none_more, append_nil]
    exact tells.seen addr
  size := by
    rw [takenOf_append]
    exact tells.size.trans (congrArg textSize (append_nil _).symm)
  lawful := tells.lawful.concat (tells.remaining ▸ judged)
  rebuilt := by
    intro usizeMax resolver slot room honest
    have none_more : takenOf [(doc, Fate.skipped reason)] = [] := rfl
    rw [takenOf_append, none_more, append_nil]
    exact tells.rebuilt usizeMax resolver slot room
      (honest.of_subset (subset_append_left _ _))

theorem Tells.carrying {piece : List Char}
    (judged : Judged blake3 (state.remaining cap) (carried ++ carriedOf entries)
      (doc, .taken source))
    (sized : byteLen piece = pieceSize source)
    (rebuilds : Rebuilds blake3 cap doc state.text source (state.carrying piece source).text) :
    Tells blake3 cap carried (docs ++ [doc]) (entries ++ [(doc, .taken source)])
      (state.carrying piece source) where
  offered := by rw [map_append, tells.offered]; rfl
  sources := by
    rw [takenOf_append, ← tells.sources]
    rfl
  skips := by
    rw [skippedOf_append]
    exact tells.skips.trans (append_nil _).symm
  seen := by
    intro addr
    have one_more : carriedOf [(doc, Fate.taken source)] = [source.addr] := rfl
    have text_eq : addr.text = source.addr.text ↔ addr = source.addr := by
      constructor
      · intro same
        cases addr
        cases held : source.addr
        rw [held] at same
        cases same
        rfl
      · exact congrArg Address.text
    have before := tells.seen addr
    rw [carriedOf_append, one_more]
    simp only [Prefix.Gathering.carrying, mem_cons, before, mem_append, not_mem_nil,
      or_false, text_eq]
    tauto
  size := by
    have one_more : takenOf [(doc, Fate.taken source)] = [source] := rfl
    have empty : state.text.isEmpty = true ↔ textSize (takenOf entries) = 0 := by
      rw [← tells.size, byteLen_eq_zero, List.isEmpty_iff]
    rw [carrying_text, byteLen_append, byteLen_append, takenOf_append, one_more, textSize,
      foldl_append, sized, tells.size]
    show _ = textSize _ + joinSize (textSize _) + pieceSize source
    simp only [joinSize, empty]
    split <;> rfl
  lawful := tells.lawful.concat (tells.remaining ▸ judged)
  rebuilt := by
    intro usizeMax resolver slot room honest
    have one_more : takenOf [(doc, Fate.taken source)] = [source] := rfl
    rw [takenOf_append, one_more, map_append, foldlM_append,
      tells.rebuilt usizeMax resolver slot room (honest.of_subset (subset_append_left _ _))]
    have answers := honest doc source (mem_append_right _ mem_cons_self)
    have step := rebuilds usizeMax resolver slot room answers
    rw [Outcome.bind_ok, map_cons, map_nil, foldlM_cons, step]
    rfl

omit tells

variable {slot : SegmentSlot}

theorem buildSegment_spec {cap : UInt64} {seen after : List (List Char)}
    {segment : FrozenSegment} {note : List PromptSkip}
    (same : ∀ addr : Address, addr.text ∈ seen ↔ addr ∈ carried)
    (built : buildSegment blake3 usizeMax slot docs cap seen = .ok (segment, note, after)) :
    ∃ entries final, Tells blake3 cap.toNat carried docs entries final ∧ cap.toNat ≤ usizeMax ∧
      segment = Prefix.assembled blake3 slot (Utf8.encode final.text) final.sources ∧
      note = final.skipped ∧ after = final.seen := by
  simp only [buildSegment] at built
  split at built
  · cases built
  · next room =>
      obtain ⟨final, gathered, same_built⟩ := Outcome.bind_eq_ok.mp built
      cases same_built
      have start : ∃ entries, Tells blake3 cap.toNat carried [] entries ⟨[], [], [], seen⟩ := by
        refine ⟨[], rfl, rfl, rfl, ?_, rfl, ?_, fun _ _ _ _ _ => rfl⟩
        · simpa [carriedOf, takenOf] using same
        · exact fun before _ _ split => absurd split (by simp)
      have turn : ∀ done doc held next,
          (∃ entries, Tells blake3 cap.toNat carried done entries held) →
          Prefix.offer blake3 cap.toNat held doc = .ok next →
          ∃ entries, Tells blake3 cap.toNat carried (done ++ [doc]) entries next := by
        rintro done doc held next ⟨entries, tells⟩ offered
        rcases offer_spec cap.toNat_lt tells.seen offered with
          ⟨reason, rfl, judged⟩ | ⟨source, piece, rfl, judged, sized, rebuilds⟩
        · exact ⟨_, tells.leftOut judged⟩
        · exact ⟨_, tells.carrying judged sized rebuilds⟩
      obtain ⟨entries, tells⟩ := Outcome.foldlM_holds start turn gathered
      exact ⟨entries, final, tells, Nat.le_of_not_lt room, rfl, rfl, rfl⟩

theorem rebuildSegment_row {final : Prefix.Gathering}
    (tells : Tells blake3 cap carried docs entries final) (room : cap ≤ usizeMax)
    (honest : Honest resolver entries) {frozen : FrozenPrefix} {index : Nat} {row : Json}
    (written : frozen.segmentRow index (Prefix.assembled blake3 slot (Utf8.encode final.text) final.sources) = .ok row) :
    rebuildSegment blake3 usizeMax resolver row = .ok (blake3 (Utf8.encode final.text)) := by
  simp only [FrozenPrefix.segmentRow] at written
  split at written
  · cases written
  · cases written
    have text := tells.rebuilt usizeMax resolver slot.asStr.toList room honest
    rw [← tells.sources] at text
    simp [rebuildSegment, Json.get, lookup_cons, Json.asStr, asArray, Prefix.assembled, text,
      Outcome.bind_ok]
    rfl

end Agreement

/-! ### A built prefix and its record -/

/-- One thing for each slot. -/
def perSlot {α : Type} (city building resident run : α) : SegmentSlot → α
  | .city => city
  | .building => building
  | .resident => resident
  | .run => run

def docsAt (plan : PrefixPlan) : SegmentSlot → List SourceDoc :=
  perSlot plan.city plan.building plan.resident plan.run

def capAt (plan : PrefixPlan) : SegmentSlot → Nat :=
  perSlot plan.caps.city.toNat plan.caps.building.toNat plan.caps.resident.toNat plan.caps.run.toNat

def segmentAt (frozen : FrozenPrefix) : SegmentSlot → FrozenSegment :=
  perSlot frozen.city frozen.building frozen.resident frozen.run

def place : SegmentSlot → Nat := perSlot 0 1 2 3

/-- What became of the documents of the slots before this one. -/
def earlier (fates : SegmentSlot → List Entry) (slot : SegmentSlot) : List Entry :=
  (SegmentSlot.all.take (place slot)).flatMap fates

/-- A frozen prefix accounts for a plan: every document has a fate, told once and in order by its
slot's sources or skips; the first document under an address that reads as text and has room is
taken, and no later one; and the record rebuilds to the frozen hashes from the bytes of the
documents taken. -/
structure Accounts (blake3 : Bytes → B3Hash) (usizeMax : Nat) (plan : PrefixPlan)
    (frozen : FrozenPrefix) (fates : SegmentSlot → List Entry) : Prop where
  offered : ∀ slot, (fates slot).map Prod.fst = docsAt plan slot
  sources : ∀ slot, (segmentAt frozen slot).sources = takenOf (fates slot)
  skips : ∀ slot, frozen.skippedAt (place slot) = skippedOf (fates slot)
  once : ∀ slot, ((segmentAt frozen slot).sources.map SegmentSource.addr ++
    (frozen.skippedAt (place slot)).map PromptSkip.addr).Perm
      ((docsAt plan slot).map SourceDoc.addr)
  firstWins : ∀ slot before entry after, fates slot = before ++ entry :: after →
    Judged blake3 (roomLeft (capAt plan slot) (takenOf before))
      (carriedOf (earlier fates slot ++ before)) entry
  rebuilt : ∀ resolver, Honest resolver (SegmentSlot.all.flatMap fates) →
    ∀ tools breakpoints payload,
      ({ frozen with tools } : FrozenPrefix).promptPayload breakpoints = .ok payload →
      rebuildPrefix blake3 usizeMax resolver payload = .ok frozen.segmentHashes

section Built

variable {blake3 : Bytes → B3Hash} {usizeMax : Nat}

/-- What one slot gathered is what its segment and note say. -/
structure Gathered (blake3 : Bytes → B3Hash) (usizeMax : Nat) (slot : SegmentSlot)
    (docs : List SourceDoc) (cap : Nat) (carried : List Address) (entries : List Entry)
    (segment : FrozenSegment) (note : List PromptSkip) : Prop where
  placed : segment.slot = slot
  offered : entries.map Prod.fst = docs
  sources : segment.sources = takenOf entries
  skips : note = skippedOf entries
  lawful : Lawful blake3 cap carried entries
  rebuilt : ∀ resolver, Honest resolver entries → ∀ (frozen : FrozenPrefix) index row,
    frozen.segmentRow index segment = .ok row →
      rebuildSegment blake3 usizeMax resolver row = .ok segment.hash

variable {carried : List Address}

theorem buildNext_spec {built after : Prefix.Built} {slot : SegmentSlot × List SourceDoc × UInt64} (same : ∀ addr : Address, addr.text ∈ built.seen ↔ addr ∈ carried)
    (stepped : buildNext blake3 usizeMax built slot = .ok after) :
    ∃ entries segment note,
      Gathered blake3 usizeMax slot.1 slot.2.1 slot.2.2.toNat carried entries segment note ∧
      after.segments = built.segments ++ [segment] ∧ after.skipped = built.skipped ++ [note] ∧
      ∀ addr : Address, addr.text ∈ after.seen ↔ addr ∈ carried ++ carriedOf entries := by
  obtain ⟨⟨segment, note, seen⟩, built_segment, same_after⟩ := Outcome.bind_eq_ok.mp stepped
  cases same_after
  obtain ⟨entries, final, tells, room, rfl, rfl, rfl⟩ := buildSegment_spec same built_segment
  refine ⟨entries, _, _, ⟨rfl, tells.offered, tells.sources, tells.skips, tells.lawful, ?_⟩, rfl, rfl,
    tells.seen⟩
  intro resolver honest frozen index row written
  exact rebuildSegment_row tells room honest written

variable {segment : FrozenSegment}

theorem Gathered.once {slot : SegmentSlot} {docs : List SourceDoc} {cap : Nat} {entries : List Entry} {note : List PromptSkip}
    (gathered : Gathered blake3 usizeMax slot docs cap carried entries segment note) :
    (segment.sources.map SegmentSource.addr ++ note.map PromptSkip.addr).Perm
      (docs.map SourceDoc.addr) := by
  have own : ∀ doc source, (doc, Fate.taken source) ∈ entries → source.addr = doc.addr := by
    intro doc source member
    obtain ⟨before, after, split⟩ := append_of_mem member
    obtain ⟨-, ⟨-, -, -, -, -, same, -⟩, -⟩ := gathered.lawful before _ after split
    exact same
  have named := named_once own
  rw [gathered.sources, gathered.skips, ← gathered.offered, map_map]
  exact named

theorem assemble_in_order {city building resident run : FrozenSegment} (first : city.slot = .city)
    (second : building.slot = .building) (third : resident.slot = .resident)
    (fourth : run.slot = .run) :
    Prefix.assemble city building resident run =
      .ok { city, building, resident, run, skipped := none, tools := none } := by
  simp [Prefix.assemble, first, second, third, fourth]

variable {frozen : FrozenPrefix}

theorem buildPrefix_spec {plan : PrefixPlan}
    (built : buildPrefix blake3 usizeMax plan = .ok frozen) :
    ∃ fates notes, frozen.skipped = some (SegmentSlot.all.map notes) ∧
      ∀ slot, Gathered blake3 usizeMax slot (docsAt plan slot) (capAt plan slot)
        (carriedOf (earlier fates slot)) (fates slot) (segmentAt frozen slot) (notes slot) := by
  obtain ⟨all, folded, finished⟩ := Outcome.bind_eq_ok.mp built
  simp only [Prefix.slots, foldlM_cons, foldlM_nil] at folded
  obtain ⟨first, cityBuilt, folded⟩ := Outcome.bind_eq_ok.mp folded
  obtain ⟨second, buildingBuilt, folded⟩ := Outcome.bind_eq_ok.mp folded
  obtain ⟨third, residentBuilt, folded⟩ := Outcome.bind_eq_ok.mp folded
  obtain ⟨fourth, runBuilt, folded⟩ := Outcome.bind_eq_ok.mp folded
  cases folded
  -- `all` is the state after the fourth slot.
  have nothing : ∀ addr : Address, addr.text ∈ ([] : List (List Char)) ↔ addr ∈ ([] : List Address) :=
    fun addr => ⟨nofun, nofun⟩
  obtain ⟨city, citySegment, cityNote, cityGathered, segments₁, notes₁, seen₁⟩ :=
    buildNext_spec nothing cityBuilt
  obtain ⟨building, buildingSegment, buildingNote, buildingGathered, segments₂, notes₂, seen₂⟩ :=
    buildNext_spec seen₁ buildingBuilt
  obtain ⟨resident, residentSegment, residentNote, residentGathered, segments₃, notes₃, seen₃⟩ :=
    buildNext_spec seen₂ residentBuilt
  obtain ⟨run, runSegment, runNote, runGathered, segments₄, notes₄, -⟩ :=
    buildNext_spec seen₃ runBuilt
  have segments : all.segments = [citySegment, buildingSegment, residentSegment, runSegment] := by
    rw [segments₄, segments₃, segments₂, segments₁]
    rfl
  have notes : all.skipped = [cityNote, buildingNote, residentNote, runNote] := by
    rw [notes₄, notes₃, notes₂, notes₁]
    rfl
  rw [segments] at finished
  simp only [assemble_in_order cityGathered.placed buildingGathered.placed residentGathered.placed
    runGathered.placed, Outcome.bind_ok] at finished
  cases finished
  refine ⟨perSlot city building resident run,
    perSlot cityNote buildingNote residentNote runNote, congrArg some notes, ?_⟩
  intro slot
  cases slot with
  | city => exact cityGathered
  | building =>
    simpa [earlier, SegmentSlot.all, place, perSlot, docsAt, capAt, segmentAt] using buildingGathered
  | resident =>
    simpa [earlier, SegmentSlot.all, place, perSlot, docsAt, capAt, segmentAt] using residentGathered
  | run => simpa [earlier, SegmentSlot.all, place, perSlot, docsAt, capAt, segmentAt] using runGathered

theorem skippedAt_place {notes : SegmentSlot → List PromptSkip}
    (skipped : frozen.skipped = some (SegmentSlot.all.map notes)) (slot : SegmentSlot) :
    frozen.skippedAt (place slot) = notes slot := by
  rw [FrozenPrefix.skippedAt, skipped]
  cases slot <;> rfl

theorem rebuild_rows {resolver : Address → Option Bytes} {recorded : FrozenPrefix}
    {segments : List FrozenSegment} {start : Nat} {rows : List Json}
    (rebuilds : ∀ segment ∈ segments, ∀ index row, recorded.segmentRow index segment = .ok row →
      rebuildSegment blake3 usizeMax resolver row = .ok segment.hash)
    (written : (segments.zipIdx start).mapM (fun entry => recorded.segmentRow entry.2 entry.1)
      = .ok rows) :
    rows.length = segments.length ∧
      rows.mapM (rebuildSegment blake3 usizeMax resolver) = .ok (segments.map FrozenSegment.hash) := by
  induction segments generalizing start rows with
  | nil =>
    cases written
    exact ⟨rfl, rfl⟩
  | cons segment segments ih =>
    rw [zipIdx_cons, mapM_cons] at written
    obtain ⟨row, first, written⟩ := Outcome.bind_eq_ok.mp written
    obtain ⟨others, rest, written⟩ := Outcome.bind_eq_ok.mp written
    cases written
    have here := rebuilds segment mem_cons_self start row first
    have later := ih (fun other member => rebuilds other (mem_cons_of_mem _ member)) rest
    refine ⟨congrArg (· + 1) later.1, ?_⟩
    rw [mapM_cons, here, Outcome.bind_ok, later.2]
    rfl

theorem mem_segments (member : segment ∈ frozen.segments) :
    ∃ slot, segment = segmentAt frozen slot := by
  simp only [FrozenPrefix.segments, mem_cons, not_mem_nil, or_false] at member
  rcases member with rfl | rfl | rfl | rfl
  · exact ⟨.city, rfl⟩
  · exact ⟨.building, rfl⟩
  · exact ⟨.resident, rfl⟩
  · exact ⟨.run, rfl⟩

theorem mem_all (slot : SegmentSlot) : slot ∈ SegmentSlot.all := by
  cases slot <;> decide

/-- Whatever plan is accepted, its prefix accounts for it. -/
theorem build_accounts {plan : PrefixPlan} {frozen : FrozenPrefix}
    (built : buildPrefix blake3 usizeMax plan = .ok frozen) :
    ∃ fates, Accounts blake3 usizeMax plan frozen fates := by
  obtain ⟨fates, notes, skipped, gathered⟩ := buildPrefix_spec built
  have noted := skippedAt_place skipped
  refine ⟨fates, fun slot => (gathered slot).offered, fun slot => (gathered slot).sources, ?_, ?_, ?_,
    ?_⟩
  · intro slot
    rw [noted slot]
    exact (gathered slot).skips
  · intro slot
    rw [noted slot]
    exact (gathered slot).once
  · intro slot before entry after split
    rw [carriedOf_append]
    exact (gathered slot).lawful before entry after split
  · intro resolver honest tools breakpoints payload written
    obtain ⟨rows, mapped, encoded⟩ := Outcome.bind_eq_ok.mp written
    cases encoded
    have rebuilds : ∀ segment ∈ frozen.segments, ∀ index row,
        ({ frozen with tools } : FrozenPrefix).segmentRow index segment = .ok row →
          rebuildSegment blake3 usizeMax resolver row = .ok segment.hash := by
      intro segment member index row rowWritten
      obtain ⟨slot, rfl⟩ := mem_segments member
      have inside : fates slot ⊆ SegmentSlot.all.flatMap fates :=
        fun entry member => mem_flatMap.mpr ⟨slot, mem_all slot, member⟩
      exact (gathered slot).rebuilt resolver (honest.of_subset inside) _ index row rowWritten
    obtain ⟨four, hashes⟩ := rebuild_rows rebuilds mapped
    have listed : (Json.obj ([("segments", Json.arr rows), ("breakpoints",
        Json.arr (breakpoints.breakpoints.map fun name => .str name.toList))] ++
          (tools.map fun tools => ("tools", tools)).toList)).get "segments" = some (.arr rows) := rfl
    simp only [rebuildPrefix, listed, Option.bind_some, asArray, okOr_some, Outcome.bind_ok, four]
    exact hashes

/-- The digests BLAKE3 gives the texts below. -/
def sampleDigests : List (String × String) :=
  [("", "af1349b9f5f9a1a6a0404dea36dcc9499bcb25c9adc112b7cc9a93cae41f3262"),
    ("hi", "85052e9aab1b67b6622d94a08441b09fd5b7aca61ee360416d70de5da67d86ca"),
    ("yo", "c166f8750a82a1937f6353258d7342201454464a741288018629c3ccacbcad5b"),
    ("hi\n\nyo", "422a3c7bdbd09f01bab30f4a78bc0eb2301ddb5128b572ed4348ec46affb48f0"),
    ("é", "46d0ec742ceaad149f9a3d109d1bd9e9ece7858161b43cf0008906478418e807"),
    ("é[truncated: 28 bytes]", "f6cffae344b752745ede7e538915c2f55183f34e2b91142d3d0a3d4b183f8df9")]

/-- BLAKE3 where the table knows it. -/
def sampleBlake3 (bytes : Bytes) : B3Hash :=
  let known := sampleDigests.find? fun entry => Utf8.encode entry.1.toList == bytes
  ((known.bind fun entry => Digest.decodeHexFixed 32 entry.2.toList).getD
    ⟨List.replicate 32 0, Digest.zeros_sized⟩)

def sampleDoc (name : String) (canonical : Address.refuse name.toList = none)
    (text : Option String) : SourceDoc :=
  ⟨⟨name.toList, canonical⟩, text.map fun text => Utf8.encode text.toList⟩

/-- Two documents under one address, the first of them unreadable, beside a third; in the next slot
the same address again and a document that does not fit; and in the third one without room. -/
def samplePlan : PrefixPlan where
  city := [sampleDoc "a.md" (by decide +kernel) none, sampleDoc "a.md" (by decide +kernel) "hi",
    sampleDoc "b.md" (by decide +kernel) "yo"]
  building := [sampleDoc "a.md" (by decide +kernel) "hi",
    sampleDoc "c.md" (by decide +kernel) (String.ofList (List.replicate 15 'é'))]
  resident := [sampleDoc "d.md" (by decide +kernel) "hi"]
  run := []
  caps := ⟨64, 24, 1, 0⟩

def sampleBuilt : Except AxError FrozenPrefix :=
  buildPrefix sampleBlake3 u64Max samplePlan

def readBuilt {α : Type} (read : FrozenPrefix → α) : Option α := sampleBuilt.toOption.map read

theorem build_accounts_sample :
    ∃ frozen, buildPrefix sampleBlake3 u64Max samplePlan = .ok frozen ∧
      frozen.building.bytes = Utf8.encode "é[truncated: 28 bytes]".toList ∧
      (frozen.skippedAt 2).map PromptSkip.reason = [.noBudget] ∧
      ∃ fates, Accounts sampleBlake3 u64Max samplePlan frozen fates := by
  have read : readBuilt (fun frozen =>
      (frozen.building.bytes, (frozen.skippedAt 2).map PromptSkip.reason)) =
        some (Utf8.encode "é[truncated: 28 bytes]".toList, [.noBudget]) := by decide +kernel
  obtain ⟨frozen, built, told⟩ := Outcome.of_map_toOption read
  exact ⟨frozen, built, congrArg Prod.fst told, congrArg Prod.snd told, build_accounts built⟩

/-- Two documents of one slot are both taken, and of the two under one address it is the second
that is. -/
theorem samplePlan_first_loses :
    ∃ frozen, buildPrefix sampleBlake3 u64Max samplePlan = .ok frozen ∧
      samplePlan.city.map (fun doc => (String.ofList doc.addr.text, doc.bytes.isSome)) =
        [("a.md", false), ("a.md", true), ("b.md", true)] ∧
      frozen.city.sources.map (fun source => (String.ofList source.addr.text, source.kept)) =
        [("a.md", 2), ("b.md", 2)] ∧
      (frozen.skippedAt 0).map (fun skip => (String.ofList skip.addr.text, skip.reason)) =
        [("a.md", .unreadable)] := by
  have read : readBuilt (fun frozen =>
      (frozen.city.sources.map (fun source => (String.ofList source.addr.text, source.kept)),
        (frozen.skippedAt 0).map fun skip => (String.ofList skip.addr.text, skip.reason))) =
      some ([("a.md", 2), ("b.md", 2)], [("a.md", .unreadable)]) := by decide +kernel
  obtain ⟨frozen, built, told⟩ := Outcome.of_map_toOption read
  exact ⟨frozen, built, by decide +kernel, congrArg Prod.fst told, congrArg Prod.snd told⟩

end Built

end Replay

end Sprawling
