import Sprawling.Base.Outcome
import Sprawling.Documents.Encoding
import Sprawling.Kernel.Digest

/-! One save of a document: edits against the version they were made on. -/

namespace Sprawling.Documents

open List

/-- A half-open byte interval of one document version. -/
structure Span where
  start : Nat
  stop : Nat
  ordered : start ≤ stop
deriving DecidableEq

namespace Span

def new (start stop : Nat) : Except AxError Span :=
  if ordered : start ≤ stop then .ok ⟨start, stop, ordered⟩
  else .error (AxError.failure .invalidArgs "name a stretch of a document"
    (String.ofList (Text.decimal start ++ ['.', '.'] ++ Text.decimal stop))
    "give the start first: a span runs from its start up to its end")

def point (offset : Nat) : Span := ⟨offset, offset, Nat.le_refl _⟩

def between (one other : Nat) : Span := ⟨min one other, max one other, by omega⟩

theorem between_of_le {one other : Nat} (ordered : one ≤ other) :
    between one other = ⟨one, other, ordered⟩ := by
  simp [between, Nat.min_eq_left ordered, Nat.max_eq_right ordered]

def isEmpty (span : Span) : Bool := span.start = span.stop

/-- The span as indices into a slice of `len` bytes. -/
def within (span : Span) (len : Nat) : Option (Nat × Nat) :=
  if span.stop ≤ len then some (span.start, span.stop) else none

/-- Spans are ordered by where they start, then by where they end. -/
def le (first second : Span) : Prop :=
  first.start < second.start ∨ first.start = second.start ∧ first.stop ≤ second.stop

instance (first second : Span) : Decidable (le first second) :=
  inferInstanceAs (Decidable (_ ∨ _))

/-- The span as the errors write it. -/
def display (span : Span) : String :=
  String.ofList (Text.decimal span.start ++ ['.', '.'] ++ Text.decimal span.stop)

end Span

/-- The bytes from one index up to another, when both lie inside and in order. -/
def stretch (source : Bytes) (start stop : Nat) : Option Bytes :=
  if start ≤ stop ∧ stop ≤ source.length then some ((source.take stop).drop start) else none

/-- One edit as a page sends it. -/
structure TextEdit where
  span : Span
  text : List Char
deriving DecidableEq

/-- One replacement: the bytes of `span` in the baseline become `bytes`. -/
structure Edit where
  span : Span
  bytes : Bytes
deriving DecidableEq

/-- Edits against one version. -/
structure Transaction where
  baseline : B3Hash
  edits : List Edit
deriving DecidableEq

/-- What applying a transaction left, and the transaction that takes it back. -/
structure Applied where
  baseline : B3Hash
  bytes : Bytes
  version : B3Hash
  undo : Transaction
deriving DecidableEq

def notTextError (why : String) : AxError :=
  AxError.failure .invalidArgs "save a document" why
    "read the document again: its answer says whether and how it reads as text"

def pastTheEnd (span : Span) (len : Nat) : AxError :=
  AxError.failure .invalidArgs "save a document"
    ("the edit at " ++ span.display ++ " reaches past the end of "
      ++ String.ofList (Text.decimal len) ++ " bytes")
    "read the document again: the edit was made on a longer version"

namespace Transaction

/-- The first edit that starts before the one ahead of it ends. -/
def tangled : List Edit → Option Span
  | earlier :: later :: rest =>
    if later.span.start < earlier.span.stop then some later.span else tangled (later :: rest)
  | _ => none

def new (baseline : B3Hash) (edits : List Edit) : Except AxError Transaction :=
  match tangled edits with
  | some span => .error (AxError.failure .invalidArgs "save a document"
      ("the edit at " ++ span.display ++ " starts before the edit ahead of it ends")
      "send the edits in document order, each apart from the next")
  | none => .ok ⟨baseline, edits⟩

/-- What one pass over the edits has written, what undoes it, and how far it has read. -/
structure Spliced where
  bytes : Bytes
  undo : List Edit
  cursor : Nat

/-- An option's value, or a refusal. -/
def orElse {α : Type} (found : Option α) (reason : AxError) : Except AxError α :=
  match found with
  | some value => .ok value
  | none => .error reason

def spliceOne (source : Bytes) (held : Spliced) (edit : Edit) : Except AxError Spliced := do
  let outside := pastTheEnd edit.span source.length
  let (start, stop) ← orElse (edit.span.within source.length) outside
  let copied ← orElse (stretch source held.cursor start) outside
  let replaced ← orElse (stretch source start stop) outside
  let bytes := held.bytes ++ copied
  let written := bytes ++ edit.bytes
  return { bytes := written
           undo := held.undo ++ [⟨Span.between bytes.length written.length, replaced⟩]
           cursor := stop }

/-- Applies the edits to a source already known to be the baseline. -/
def splice (digest : Bytes → B3Hash) (transaction : Transaction) (source : Bytes) :
    Except AxError Applied := do
  let held ← transaction.edits.foldlM (spliceOne source) ⟨[], [], 0⟩
  let rest ← orElse (stretch source held.cursor source.length)
    (pastTheEnd (Span.point held.cursor) source.length)
  let bytes := held.bytes ++ rest
  let version := digest bytes
  return ⟨transaction.baseline, bytes, version, ⟨version, held.undo⟩⟩

end Transaction

/-- Whether both ends of a span fall on a character of the source. -/
def onCharacters (encoding : Encoding) (source : Bytes) (span : Span) : Except AxError Unit :=
  let starts := fun index => index == source.length || encoding.beginsAt source index 0
  if starts span.start && starts span.stop then .ok ()
  else .error (notTextError
    ("the edit at " ++ span.display ++ " starts or ends inside a character"))

/-- The edit in the version's own bytes. -/
def encodeEdit (encoding : Encoding) (source : Bytes) (edit : TextEdit) : Except AxError Edit := do
  onCharacters encoding source edit.span
  return ⟨edit.span, encoding.encode edit.text⟩

/-- A save once the source is known to be `baseline`. -/
def savedOn (digest : Bytes → B3Hash) (source : Bytes) (baseline : B3Hash)
    (edits : List TextEdit) : Except AxError Applied :=
  match Reading.of source with
  | .notText => .error (notTextError "the version is not text in any encoding this city reads")
  | .text encoding => do
      let bytes ← edits.mapM (encodeEdit encoding source)
      let transaction ← Transaction.new baseline bytes
      let applied ← transaction.splice digest source
      if Reading.of applied.bytes ≠ .text encoding then
        throw (notTextError "the saved bytes would not read as text in the version's own encoding")
      return applied

/-! ### What a save comes to -/

/-- The bytes with one stretch replaced. -/
def replaced (edit : Edit) (bytes : Bytes) : Bytes :=
  bytes.take edit.span.start ++ edit.bytes ++ bytes.drop edit.span.stop

/-- The bytes with every stretch replaced, from the last edit to the first, so that no replacement
moves a stretch still to be replaced. -/
def rewritten (source : Bytes) (edits : List Edit) : Bytes := edits.foldr replaced source

/-- Each edit ends before the next one starts. -/
def Apart (edits : List Edit) : Prop :=
  edits.Pairwise fun earlier later => earlier.span.stop ≤ later.span.start

theorem stretch_eq_some {source piece : Bytes} {start stop : Nat} :
    stretch source start stop = some piece ↔
      (start ≤ stop ∧ stop ≤ source.length) ∧ (source.take stop).drop start = piece := by
  unfold stretch
  by_cases inside : start ≤ stop ∧ stop ≤ source.length
  · rw [if_pos inside, Option.some.injEq]
    exact ⟨fun same => ⟨inside, same⟩, fun both => both.2⟩
  · rw [if_neg inside]
    constructor
    · intro impossible
      cases impossible
    · intro both
      exact absurd both.1 inside

variable {source : Bytes} {edits : List Edit}

theorem take_rewritten {bound : Nat}
    (later : ∀ edit ∈ edits, bound ≤ edit.span.start) (inside : bound ≤ source.length) :
    (rewritten source edits).take bound = source.take bound := by
  induction edits with
  | nil => rfl
  | cons edit rest ih =>
    have same := ih fun other member => later other (mem_cons_of_mem _ member)
    have first := later edit mem_cons_self
    have size := congrArg List.length same
    rw [length_take, length_take] at size
    show (replaced edit (rewritten source rest)).take bound = _
    rw [replaced, append_assoc, take_append_of_le_length, take_take, Nat.min_eq_left first, same]
    rw [length_take]
    omega

namespace Transaction

/-- Edits in order are apart. -/
theorem tangled_eq_none : tangled edits = none ↔ Apart edits := by
  induction edits with
  | nil => exact ⟨fun _ => List.Pairwise.nil, fun _ => rfl⟩
  | cons earlier rest ih =>
    cases rest with
    | nil => exact ⟨fun _ => pairwise_singleton _ _, fun _ => rfl⟩
    | cons later rest =>
      unfold tangled Apart
      rw [pairwise_cons]
      by_cases overlap : later.span.start < earlier.span.stop
      · rw [if_pos overlap]
        constructor
        · intro impossible
          cases impossible
        · intro apart
          have first := apart.1 later mem_cons_self
          omega
      · rw [if_neg overlap, ih]
        constructor
        · intro apart
          refine ⟨?_, apart⟩
          intro other member
          rcases mem_cons.mp member with rfl | member
          · omega
          · have next := (pairwise_cons.mp apart).1 other member
            have inner := later.span.ordered
            omega
        · exact fun apart => apart.2

theorem orElse_eq_ok {α : Type} {found : Option α} {reason : AxError} {value : α} :
    orElse found reason = .ok value ↔ found = some value := by
  cases found <;> simp [orElse]

variable {held after : Spliced}

theorem spliceOne_ok {edit : Edit}
    (done : spliceOne source held edit = .ok after) :
    (held.cursor ≤ edit.span.start ∧ edit.span.stop ≤ source.length) ∧
      after.cursor = edit.span.stop ∧
      after.bytes =
        held.bytes ++ (source.take edit.span.start).drop held.cursor ++ edit.bytes := by
  unfold spliceOne at done
  simp only [Outcome.bind_eq_ok, orElse_eq_ok, stretch_eq_some, Span.within] at done
  obtain ⟨⟨start, stop⟩, inside, copied, ⟨⟨first, -⟩, rfl⟩, piece, -, made⟩ := done
  split at inside
  · next fits =>
      cases inside
      cases made
      exact ⟨⟨first, fits⟩, rfl, rfl⟩
  · cases inside

theorem foldlM_spliceOne (apart : Apart edits) (done : edits.foldlM (spliceOne source) held = .ok after) :
    (∀ edit ∈ edits, edit.span.stop ≤ source.length) ∧
      after.bytes ++ source.drop after.cursor =
        held.bytes ++ (rewritten source edits).drop held.cursor := by
  induction edits generalizing held with
  | nil =>
    cases done
    exact ⟨fun edit member => (nomatch member), rfl⟩
  | cons edit rest ih =>
    rw [foldlM_cons, Outcome.bind_eq_ok] at done
    obtain ⟨middle, one, later⟩ := done
    obtain ⟨⟨order, fits⟩, cursorIs, bytesIs⟩ := spliceOne_ok one
    obtain ⟨following, apart⟩ := pairwise_cons.mp apart
    obtain ⟨inside, whole⟩ := ih apart later
    have inner := edit.span.ordered
    have untouched : (rewritten source rest).take edit.span.start =
        source.take edit.span.start := by
      apply take_rewritten
      · intro other member
        have next := following other member
        omega
      · omega
    constructor
    · intro other member
      rcases mem_cons.mp member with rfl | member
      · exact fits
      · exact inside other member
    · have copied : held.cursor ≤ (source.take edit.span.start).length := by
        rw [length_take]
        omega
      rw [whole, cursorIs, bytesIs]
      show _ = held.bytes ++ (replaced edit (rewritten source rest)).drop held.cursor
      rw [replaced, untouched, append_assoc (source.take _), drop_append_of_le_length copied]
      simp only [append_assoc]

theorem splice_ok {digest : Bytes → B3Hash} {transaction : Transaction}
    {applied : Applied} (apart : Apart transaction.edits)
    (done : transaction.splice digest source = .ok applied) :
    (∀ edit ∈ transaction.edits, edit.span.stop ≤ source.length) ∧
      applied.bytes = rewritten source transaction.edits := by
  unfold splice at done
  simp only [Outcome.bind_eq_ok, orElse_eq_ok, stretch_eq_some] at done
  obtain ⟨held, pass, rest, ⟨-, rfl⟩, made⟩ := done
  cases made
  obtain ⟨inside, whole⟩ := foldlM_spliceOne apart pass
  rw [take_length]
  exact ⟨inside, whole⟩

end Transaction

/-- The edit in the version's own bytes. -/
def TextEdit.encoded (encoding : Encoding) (edit : TextEdit) : Edit :=
  ⟨edit.span, encoding.encode edit.text⟩

/-- A save that succeeds: its edits are apart and inside the source, and its bytes are the source
with each stretch replaced by its text in the source's encoding. -/
theorem savedOn_ok {digest : Bytes → B3Hash} {baseline : B3Hash}
    {edits : List TextEdit} {applied : Applied}
    (saved : savedOn digest source baseline edits = .ok applied) :
    ∃ encoding, Reading.of source = .text encoding ∧
      Apart (edits.map (TextEdit.encoded encoding)) ∧
      (∀ edit ∈ edits, edit.span.stop ≤ source.length) ∧
      applied.bytes = rewritten source (edits.map (TextEdit.encoded encoding)) := by
  unfold savedOn at saved
  split at saved
  · cases saved
  · next encoding reading =>
      simp only [Outcome.bind_eq_ok] at saved
      obtain ⟨bytes, encoded, transaction, made, spliced, done, rest⟩ := saved
      have bytesAre : bytes = edits.map (TextEdit.encoded encoding) := by
        apply Outcome.mapM_ok _ encoded
        intro edit result one
        unfold encodeEdit at one
        rw [Outcome.bind_eq_ok] at one
        obtain ⟨-, -, same⟩ := one
        cases same
        rfl
      have kept : spliced = applied := by
        split at rest
        · obtain ⟨_, impossible, -⟩ := rest
        · exact (Except.ok.inj rest)
      unfold Transaction.new at made
      split at made
      · cases made
      · next untangled =>
          cases made
          have apart := Transaction.tangled_eq_none.mp untangled
          obtain ⟨inside, whole⟩ := Transaction.splice_ok apart done
          rw [bytesAre] at apart inside whole
          refine ⟨encoding, reading, apart, ?_, kept ▸ whole⟩
          intro edit member
          exact inside _ (mem_map_of_mem member)

end Sprawling.Documents
