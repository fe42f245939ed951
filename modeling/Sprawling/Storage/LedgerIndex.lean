import Sprawling.Storage.Tail

/-! The side index a fold of the ledger builds while it streams the lines: where each seq starts. -/

namespace Sprawling

open List Reading Lines LineCheck

/-- seq to the segment that holds the line and the byte it starts at, and how far each segment was
folded. -/
structure LedgerIndex where
  scanned : OrdMap FileName Nat
  entries : OrdMap Nat (FileName × Nat)

namespace LedgerIndex

def empty : LedgerIndex := ⟨∅, ∅⟩

def insertLocated (index : LedgerIndex) (name : FileName) (offset seq : Nat) : LedgerIndex :=
  { index with entries := index.entries.insert seq (name, offset) }

def tailSeq (index : LedgerIndex) : Option Nat := index.entries.keys.getLast?

def len (index : LedgerIndex) : Nat := index.entries.size

/-- The records of a segment read forward one window at a time, the window doubling, up to the
first window that ends in zeros. -/
def readRecordsLoop (bytes : Bytes) : Nat → Nat → Nat → Bytes → Bytes
  | 0, _, _, records => records
  | fuel + 1, read, window, records =>
    let asked := min window (bytes.length - read)
    if asked = 0 then records
    else
      let chunk := readAt bytes read asked
      let filled := recordsEnd chunk
      let records := records ++ chunk.take filled
      if filled < chunk.length ∨ chunk.length < asked then records
      else readRecordsLoop bytes fuel (read + chunk.length) (window * 2) records

def readRecords (bytes : Bytes) : Bytes :=
  readRecordsLoop bytes (bytes.length + 1) 0 Tail.firstWindowBytes []

/-- The line that starts at `offset`, without its newline. -/
def lineFrom (bytes : Bytes) (offset : Nat) : Bytes :=
  (bytes.drop offset).takeWhile (· != newline)

/-- The line at a seq, read where the index says it starts. -/
def lineAt (index : LedgerIndex) (dir : Directory) (seq : Nat) : Except AxError Bytes :=
  match index.entries[seq]? with
  | none =>
    .error (AxError.failure .invalidArgs "read ledger line" (toString seq)
      "ask for a seq the ledger actually holds")
  | some (name, offset) =>
    match dir[name]? with
    | none =>
      .error (AxError.failure .storageFatal "open segment" (String.ofList name)
        ("storage failed (No such file or directory (os error 2)); halt cleanly — reopening "
          ++ "will tail-truncate"))
    | some bytes => .ok (lineFrom bytes offset)

/-- The last line the index holds, with its seq. -/
def lastLine (index : LedgerIndex) (dir : Directory) : Except AxError (Option (Nat × Bytes)) :=
  match index.tailSeq with
  | none => .ok none
  | some seq => (index.lineAt dir seq).map fun line => some (seq, line)

section Folding

variable {σ ε : Type} (each : σ → Bytes → Except ε (Nat × σ))

/-- One complete line of a segment: lent to `each`, then indexed at the offset it starts at. -/
def foldLine (name : FileName) (state : LedgerIndex × Nat × σ) (body : Bytes) :
    Except ε (LedgerIndex × Nat × σ) :=
  let offset := state.2.1 + body.length + 1
  if body.isEmpty then .ok (state.1, offset, state.2.2)
  else
    (each state.2.2 body).map fun located =>
      (state.1.insertLocated name state.2.1 located.1, offset, located.2)

/-- One segment's complete lines. -/
def foldSegment (state : LedgerIndex × σ) (segment : FileName × Bytes) :
    Except ε (LedgerIndex × σ) :=
  ((complete newline (readRecords segment.2)).foldlM (foldLine each segment.1)
    (state.1, 0, state.2)).map fun done =>
      ({ done.1 with scanned := done.1.scanned.insert segment.1 done.2.1 }, done.2.2)

/-- The ledger read once for a fold and for the index together. -/
def folding (dir : Directory) (start : σ) : Except ε (LedgerIndex × σ) :=
  dir.segments.foldlM (foldSegment each) (empty, start)

end Folding

section Scanning

variable (locate : Bytes → Option Nat)

/-- What indexing one line means. A line that names no seq is skipped. -/
def insertLine (name : FileName) (state : OrdMap Nat (FileName × Nat) × Nat) (body : Bytes) :
    OrdMap Nat (FileName × Nat) × Nat :=
  let entries := if body.isEmpty then state.1
    else (locate body).elim state.1 fun seq => state.1.insert seq (name, state.2)
  (entries, state.2 + body.length + 1)

/-- The complete lines of `tail`, which begins at `start` in the segment. -/
def foldTail (name : FileName) (start : Nat) (tail : Bytes)
    (entries : OrdMap Nat (FileName × Nat)) : OrdMap Nat (FileName × Nat) × Nat :=
  (complete newline tail).foldl (insertLine locate name) (entries, start)

def scanSegment (index : LedgerIndex) (segment : FileName × Bytes) : LedgerIndex :=
  let done := foldTail locate segment.1 0 (readRecords segment.2) index.entries
  ⟨index.scanned.insert segment.1 done.2, done.1⟩

/-- Every line indexed by the rule the index owns. -/
def scan (dir : Directory) : LedgerIndex := dir.segments.foldl (scanSegment locate) empty

end Scanning

/-! ### What a window read lifts -/

theorem readRecordsLoop_spec (bytes : Bytes) (fuel read window : Nat) (positive : 0 < window)
    (within : read ≤ bytes.length) (enough : bytes.length - read < fuel) :
    ∃ kept, readRecordsLoop bytes fuel read window (bytes.take read) = bytes.take kept ∧
      ∀ front, front <+: bytes → 0 ∉ front → front.length ≤ kept := by
  induction fuel generalizing read window with
  | zero => omega
  | succ fuel ih =>
    simp only [readRecordsLoop]
    by_cases done : min window (bytes.length - read) = 0
    · rw [if_pos done]
      refine ⟨read, rfl, fun front early _ => ?_⟩
      have size := early.length_le
      omega
    · rw [if_neg done]
      generalize asked : min window (bytes.length - read) = want at done
      have size : (readAt bytes read want).length = want := by
        rw [readAt, length_take, length_drop]
        omega
      have bound : recordsEnd (readAt bytes read want) ≤ want := by
        have most := endOfLast_le (fun byte : UInt8 => byte != 0)
          (readAt bytes read want)
        rw [size] at most
        exact most
      have lifted : bytes.take read ++ (readAt bytes read want).take
          (recordsEnd (readAt bytes read want)) =
          bytes.take (read + recordsEnd (readAt bytes read want)) := by
        rw [readAt, take_take, take_add]
        congr 2
        have most := bound
        simp only [readAt] at most
        omega
      rw [lifted, size]
      by_cases zeros : recordsEnd (readAt bytes read want) < want ∨ want < want
      · rw [if_pos zeros]
        refine ⟨_, rfl, fun front early nonzero => ?_⟩
        -- The byte the records end at is a zero of the window, so it is past the front.
        by_contra longer
        generalize ended : recordsEnd (readAt bytes read want) = filled at *
        have place : filled < (readAt bytes read want).length := by omega
        have inFront : read + filled < front.length := by omega
        have zero := unwanted_of_endOfLast_le (Nat.le_of_eq ended)
          (getElem?_eq_getElem place)
        have same : (readAt bytes read want)[filled] = front[read + filled] := by
          rw [early.getElem inFront]
          simp [readAt]
        rw [same] at zero
        have isZero : front[read + filled] = 0 := by simpa using zero
        exact nonzero (isZero ▸ getElem_mem inFront)
      · rw [if_neg zeros]
        have whole : recordsEnd (readAt bytes read want) = want := by omega
        rw [whole]
        exact ih (read + want) (window * 2) (by omega) (by omega) (by omega)

theorem complete_readRecords {bytes : Bytes} (nonzero : 0 ∉ Lines.whole newline bytes) :
    complete newline (readRecords bytes) = complete newline bytes := by
  obtain ⟨kept, read, reaches⟩ := readRecordsLoop_spec bytes (bytes.length + 1) 0
    Tail.firstWindowBytes (by decide) (Nat.zero_le _) (by omega)
  have shape : Lines.whole newline bytes ++ Lines.tail newline bytes = bytes :=
    whole_append_tail bytes
  have far := reaches (Lines.whole newline bytes) ⟨_, shape⟩ nonzero
  have lifted : readRecords bytes = Lines.whole newline bytes ++
      (Lines.tail newline bytes).take (kept - (Lines.whole newline bytes).length) := by
    rw [readRecords]
    rw [take_zero] at read
    rw [read]
    conv => lhs; rw [← shape]
    rw [take_append, take_of_length_le far]
  have unended : newline ∉ (Lines.tail newline bytes).take
      (kept - (Lines.whole newline bytes).length) := fun member =>
    mark_not_mem_tail bytes (mem_of_mem_take member)
  rw [lifted, complete_whole_append, complete_unended unended, append_nil]

section FoldingSpec

variable {σ ε : Type} {each : σ → Bytes → Except ε (Nat × σ)}

/-- No record of the directory holds a zero byte: zeros are space no write has reached. -/
def Unzeroed (dir : Directory) : Prop :=
  ∀ segment ∈ dir.segments, 0 ∉ Lines.whole newline segment.2

variable {segment : FileName × Bytes}

theorem foldSegment_snd (nonzero : 0 ∉ Lines.whole newline segment.2) (state : LedgerIndex × σ) :
    (foldSegment each state segment).map Prod.snd =
      (segmentLines segment.2).foldlM (fun held raw => (each held raw).map Prod.snd)
        state.2 := by
  have turn : ∀ body ∈ complete newline segment.2, ∀ held : LedgerIndex × Nat × σ,
      (foldLine each segment.1 held body).map (fun done => done.2.2) =
        if !body.isEmpty then (each held.2.2 body).map Prod.snd else pure held.2.2 := by
    intro body _ held
    cases blank : body.isEmpty with
    | true => simp [foldLine, blank, Except.map, pure, Except.pure]
    | false =>
      simp only [foldLine, blank, Bool.not_false, if_true]
      cases each held.2.2 body with
      | error reason => rfl
      | ok located => rfl
  rw [segmentLines, foldlM_filter]
  rw [foldSegment, complete_readRecords nonzero]
  refine Eq.trans ?_ (@Outcome.foldlM_map ε Bytes (LedgerIndex × Nat × σ) σ _ _
    (fun done => done.2.2) _ (state.1, 0, state.2) turn)
  cases (complete newline segment.2).foldlM (foldLine each segment.1)
    (state.1, 0, state.2) with
  | error reason => rfl
  | ok done => rfl

theorem folding_snd {dir : Directory} (unzeroed : Unzeroed dir) (start : σ) :
    (folding each dir start).map Prod.snd =
      (readRawLinesAt dir).foldlM (fun held raw => (each held raw).map Prod.snd) start := by
  rw [readRawLinesAt_eq, Outcome.foldlM_flatMap]
  exact Outcome.foldlM_map (empty, start) fun segment member state =>
    foldSegment_snd (unzeroed segment member) state

variable {locate : Bytes → Option Nat}

variable (reads : ∀ state raw seq after, each state raw = .ok (seq, after) → locate raw = some seq)

include reads

theorem foldLines_locate {name : FileName} {lines : List Bytes} {state done : LedgerIndex × Nat × σ}
    (ran : lines.foldlM (foldLine each name) state = .ok done) :
    done.1.scanned = state.1.scanned ∧ (done.1.entries, done.2.1) =
      lines.foldl (insertLine locate name) (state.1.entries, state.2.1) := by
  induction lines generalizing state with
  | nil =>
    cases ran
    exact ⟨rfl, rfl⟩
  | cons line lines ih =>
    rw [foldlM_cons] at ran
    obtain ⟨middle, stepped, later⟩ := Outcome.bind_eq_ok.mp ran
    have turn : middle.1.scanned = state.1.scanned ∧ (middle.1.entries, middle.2.1) =
        insertLine locate name (state.1.entries, state.2.1) line := by
      unfold foldLine at stepped
      by_cases blank : line.isEmpty
      · simp only [blank, if_true, Except.ok.injEq] at stepped
        subst stepped
        simp [insertLine, blank]
      · simp only [blank] at stepped
        obtain ⟨located, lent, rfl⟩ := Outcome.map_eq_ok.mp stepped
        simp [insertLine, blank, reads _ _ _ _ lent, insertLocated]
    obtain ⟨scanned, entries⟩ := ih later
    rw [foldl_cons, ← turn.2]
    exact ⟨scanned.trans turn.1, entries⟩

/-- A fold that lends each line builds the index a scan does. -/
theorem folding_scan {dir : Directory} {start : σ} {done : LedgerIndex × σ}
    (ran : folding each dir start = .ok done) : done.1 = scan locate dir := by
  have turn : ∀ segment (state after : LedgerIndex × σ), foldSegment each state segment = .ok after →
      after.1 = scanSegment locate state.1 segment := by
    intro segment state after folded
    obtain ⟨final, lines, rfl⟩ := Outcome.map_eq_ok.mp folded
    obtain ⟨scanned, entries⟩ := foldLines_locate reads lines
    rw [scanSegment, foldTail, ← entries, ← scanned]
  exact Outcome.foldlM_eq_foldl turn ran

end FoldingSpec

end LedgerIndex

section Fold

variable {Hash Record : Type} (codec : Codec Hash Record) [DecidableEq Hash]

/-- A fold over verified records between two lines. -/
structure Folding (Hash F : Type) where
  check : LineCheck Hash
  lineNo : Nat
  folded : F

variable {F : Type} (absorb : F → Record → Except AxError F)

/-- A checked line folded in: a record this build knows is absorbed, an ignorable one is not. -/
def absorbChecked (folded : F) : CheckedLine Record → Except AxError F
  | .known record => absorb folded record
  | .ignoredUnknown _ => .ok folded

/-- One line through the check and into the fold. -/
def foldRecord (state : Folding Hash F) (raw : Bytes) : Except AxError (Folding Hash F) :=
  let lineNo := saturatingAdd state.lineNo 1
  match state.check.advance codec raw with
  | .error fault => .error (fault.intoAx lineNo)
  | .ok (checked, check) =>
    (absorbChecked absorb state.folded checked).map fun folded => { check, lineNo, folded }

def Folding.start (folded : F) : Folding Hash F := ⟨atGenesis codec, 0, folded⟩

/-- The history of a ledger folded from genesis, with the index it built. A line that passes
names the seq the check expected, which is where it is indexed. -/
def foldLedgerDir (dir : Directory) (folded : F) : Except AxError (LedgerIndex × F) :=
  (LedgerIndex.folding (fun state raw =>
      (foldRecord codec absorb state raw).map fun after => (state.check.expected.value, after))
    dir (Folding.start codec folded)).map fun done => (done.1, done.2.folded)

/-- The index a fold of the ledger builds, whatever it folds. -/
def indexOf (dir : Directory) : LedgerIndex :=
  match foldLedgerDir codec (fun (_ : Unit) _ => .ok ()) dir () with
  | .ok done => done.1
  | .error _ => LedgerIndex.empty

/-- The lines lead from one chain state to another, and are these. -/
inductive Passes : LineCheck Hash → List Bytes → List (CheckedLine Record) → LineCheck Hash → Prop
  | nil (check : LineCheck Hash) : Passes check [] [] check
  | cons {check middle after : LineCheck Hash} {raw : Bytes} {lines : List Bytes}
      {checked : CheckedLine Record} {rest : List (CheckedLine Record)}
      (passed : check.advance codec raw = .ok (checked, middle))
      (later : Passes middle lines rest after) : Passes check (raw :: lines) (checked :: rest) after

variable {codec}

namespace Passes

variable {check after : LineCheck Hash} {lines : List Bytes}

theorem exists_of_advanceAll (passed : check.advanceAll codec lines = .ok after) :
    ∃ checked, Passes codec check lines checked after := by
  induction lines generalizing check with
  | nil =>
    cases passed
    exact ⟨[], .nil _⟩
  | cons raw lines ih =>
    obtain ⟨first, middle, here, rest⟩ := advanceAll_cons.mp passed
    obtain ⟨checked, later⟩ := ih rest
    exact ⟨first :: checked, .cons here later⟩

variable {checked : List (CheckedLine Record)}

theorem advanceAll (passes : Passes codec check lines checked after) :
    check.advanceAll codec lines = .ok after := by
  induction passes with
  | nil check => rfl
  | cons passed _ ih => exact advanceAll_cons.mpr ⟨_, _, passed, ih⟩

variable {first second : List Bytes}

theorem append {middle : LineCheck Hash}
    {early late : List (CheckedLine Record)} (front : Passes codec check first early middle)
    (back : Passes codec middle second late after) :
    Passes codec check (first ++ second) (early ++ late) after := by
  induction front with
  | nil check => exact back
  | cons passed _ ih => exact .cons passed (ih back)

theorem split (passes : Passes codec check (first ++ second) checked after) :
    ∃ early late middle, checked = early ++ late ∧ Passes codec check first early middle ∧
      Passes codec middle second late after := by
  induction first generalizing check checked with
  | nil => exact ⟨[], checked, check, rfl, .nil _, passes⟩
  | cons raw first ih =>
    cases passes with
    | cons passed later =>
      obtain ⟨early, late, middle, rfl, front, back⟩ := ih later
      exact ⟨_ :: early, late, middle, rfl, .cons passed front, back⟩

variable (passes : Passes codec check lines checked after)

include passes

theorem expected :
    after.expected.value = check.expected.value + lines.length := by
  induction passes with
  | nil check => rfl
  | cons passed _ ih =>
    have step := Seq.next_eq_ok.mp (advance_eq_ok.mp passed).2.1
    rw [ih, step, length_cons]
    omega

theorem unique {other : LineCheck Hash} {again : List (CheckedLine Record)}
    (repeats : Passes codec check lines again other) : checked = again ∧ after = other := by
  induction passes generalizing again with
  | nil check =>
    cases repeats
    exact ⟨rfl, rfl⟩
  | cons passed _ ih =>
    cases repeats with
    | cons repeated later =>
      have same := Except.ok.inj (passed.symm.trans repeated)
      cases same
      obtain ⟨rfl, rfl⟩ := ih later
      exact ⟨rfl, rfl⟩

theorem envelope {line : Bytes}
    (member : line ∈ lines) : ∃ envelope, codec.envelope line = .ok envelope := by
  induction passes with
  | nil check => cases member
  | cons passed _ ih =>
    rcases mem_cons.mp member with rfl | later
    · exact envelope_of_advance passed
    · exact ih later

theorem foldlM_foldRecord (lineNo : Nat) :
    ∃ last, ∀ folded : F, lines.foldlM (foldRecord codec absorb) ⟨check, lineNo, folded⟩ =
      (checked.foldlM (absorbChecked absorb) folded).map fun folded => ⟨after, last, folded⟩ := by
  induction passes generalizing lineNo with
  | nil check => exact ⟨lineNo, fun folded => rfl⟩
  | @cons _ _ _ _ _ first _ passed _ ih =>
    obtain ⟨last, rest⟩ := ih (saturatingAdd lineNo 1)
    refine ⟨last, fun folded => ?_⟩
    rw [foldlM_cons, foldlM_cons]
    simp only [foldRecord, passed]
    cases absorbChecked absorb folded first with
    | error reason => rfl
    | ok next => exact rest next

end Passes

theorem foldLedgerDir_snd {dir : Directory} (unzeroed : LedgerIndex.Unzeroed dir) (folded : F) :
    (foldLedgerDir codec absorb dir folded).map Prod.snd =
      ((readRawLinesAt dir).foldlM (foldRecord codec absorb)
        (Folding.start codec folded)).map Folding.folded := by
  have plain : (fun (held : Folding Hash F) raw => ((foldRecord codec absorb held raw).map
      fun after => (held.check.expected.value, after)).map Prod.snd) =
      foldRecord codec absorb := by
    funext held raw
    cases foldRecord codec absorb held raw with
    | error reason => rfl
    | ok after => rfl
  have spec := @LedgerIndex.folding_snd _ _ (fun (held : Folding Hash F) raw =>
    (foldRecord codec absorb held raw).map fun after => (held.check.expected.value, after))
    dir unzeroed (Folding.start codec folded)
  rw [plain] at spec
  rw [← spec, foldLedgerDir]
  cases LedgerIndex.folding _ dir (Folding.start codec folded) with
  | error reason => rfl
  | ok done => rfl

theorem foldlM_unit (checked : List (CheckedLine Record)) :
    checked.foldlM (absorbChecked fun (_ : Unit) _ => .ok ()) () = .ok () := by
  induction checked with
  | nil => rfl
  | cons first checked ih =>
    rw [foldlM_cons]
    cases first with
    | known record => exact ih
    | ignoredUnknown seq => exact ih

variable {absorb} {dir : Directory} {index : LedgerIndex} {folded final : F}

section Located

variable {locate : Bytes → Option Nat}
  (located : ∀ {raw seq}, claimedSeq codec raw = some seq → locate raw = some seq.value)

include located

theorem foldLedgerDir_scan (ran : foldLedgerDir codec absorb dir folded = .ok (index, final)) :
    index = LedgerIndex.scan locate dir := by
  obtain ⟨⟨built, state⟩, walked, same⟩ := Outcome.map_eq_ok.mp ran
  cases same
  refine LedgerIndex.folding_scan ?_ walked
  intro state raw seq after stepped
  obtain ⟨next, folded, same⟩ := Outcome.map_eq_ok.mp stepped
  cases same
  unfold foldRecord at folded
  cases passed : state.check.advance codec raw with
  | error fault => simp [passed] at folded
  | ok moved => exact located (claimedSeq_of_judge (advance_eq_ok.mp passed).1)

variable {dir : Directory} (unzeroed : LedgerIndex.Unzeroed dir)
  {checked : List (CheckedLine Record)} {after : LineCheck Hash}
  (passes : Passes codec (atGenesis codec) (readRawLinesAt dir) checked after)

include unzeroed passes

theorem foldLedgerDir_eq_scan (folded : F) : foldLedgerDir codec absorb dir folded =
    (checked.foldlM (absorbChecked absorb) folded).map
      fun final => (LedgerIndex.scan locate dir, final) := by
  obtain ⟨last, lines⟩ := passes.foldlM_foldRecord absorb 0
  have whole : (foldLedgerDir codec absorb dir folded).map Prod.snd =
      checked.foldlM (absorbChecked absorb) folded := by
    rw [foldLedgerDir_snd absorb unzeroed, Folding.start, lines]
    cases checked.foldlM (absorbChecked absorb) folded <;> rfl
  rw [Outcome.eq_map_of_snd fun done ran => foldLedgerDir_scan located ran, whole]

theorem indexOf_scan : indexOf codec dir = LedgerIndex.scan locate dir := by
  rw [indexOf, foldLedgerDir_eq_scan located unzeroed passes, foldlM_unit]
  rfl

omit located

/-- A ledger whose lines pass folds to what they hold, with the ledger's index. -/
theorem foldLedgerDir_eq (folded : F) : foldLedgerDir codec absorb dir folded =
    (checked.foldlM (absorbChecked absorb) folded).map fun final => (indexOf codec dir, final) := by
  have located : ∀ {raw seq}, claimedSeq codec raw = some seq →
      (claimedSeq codec raw).map Seq.value = some seq.value := fun claimed => by rw [claimed]; rfl
  rw [indexOf_scan located unzeroed passes]
  exact foldLedgerDir_eq_scan located unzeroed passes folded

end Located

/-! ### The last line an index names -/

/-- The last of a ledger's lines, with its seq. -/
def lastOf (lines : List Bytes) : Option (Nat × Bytes) :=
  lines.getLast?.map fun line => (lines.length - 1, line)

/-- An index over these lines of a directory: it holds a seq for each and none past them, and reads
the last of them back. -/
structure Marks (dir : Directory) (lines : List Bytes) (index : LedgerIndex) (expected : Nat) :
    Prop where
  expected : expected = lines.length
  size : index.len = lines.length
  below : ∀ seq, seq ∈ index.entries → seq < lines.length
  last : ∀ line, lines.getLast? = some line → ∃ name offset bytes,
    index.entries[lines.length - 1]? = some (name, offset) ∧ dir[name]? = some bytes ∧
      LedgerIndex.lineFrom bytes offset = line

theorem lineFrom_join {before : List Bytes} {line rest : Bytes} (unended : newline ∉ line) :
    LedgerIndex.lineFrom (join newline before ++ (line ++ newline :: rest))
      (join newline before).length = line := by
  rw [LedgerIndex.lineFrom, drop_left, takeWhile_append_of_pos]
  · simp
  · intro byte member
    simp only [bne_iff_ne, ne_eq]
    rintro rfl
    exact unended member

variable {lines : List Bytes} {name : FileName} {expected : Nat}

theorem Marks.insert (marks : Marks dir lines index expected)
    {bytes line : Bytes} {offset : Nat} (here : dir[name]? = some bytes)
    (reads : LedgerIndex.lineFrom bytes offset = line) :
    Marks dir (lines ++ [line]) (index.insertLocated name offset expected) (expected + 1) := by
  have size := marks.expected
  constructor
  · rw [length_append, size]
    rfl
  · have fresh : expected ∉ index.entries := by
      intro member
      have := marks.below expected member
      omega
    have absent : ¬ index.entries.contains expected = true := fresh
    rw [LedgerIndex.len, LedgerIndex.insertLocated, Std.ExtTreeMap.size_insert, if_neg absent,
      length_append]
    exact congrArg (· + 1) marks.size
  · intro seq member
    rw [length_append]
    rw [LedgerIndex.insertLocated, Std.ExtTreeMap.mem_insert] at member
    rcases member with same | old
    · have : expected = seq := by simpa using same
      simp only [length_singleton]
      omega
    · have := marks.below seq old
      omega
  · intro other same
    have : line = other := by simpa using same
    refine ⟨name, offset, bytes, ?_, here, this ▸ reads⟩
    rw [LedgerIndex.insertLocated, OrdMap.get_insert, if_pos]
    rw [length_append, size]
    rfl

theorem Marks.foldLines {dir : Directory} {bytes : Bytes}
    (here : dir[name]? = some bytes) {before work : List Bytes} {rest : Bytes}
    (shape : bytes = join newline (before ++ work) ++ rest)
    (unended : ∀ line ∈ work, newline ∉ line) {lines : List Bytes}
    {state done : LedgerIndex × Nat × Folding Hash F}
    (start : state.2.1 = (join newline before).length)
    (marks : Marks dir lines state.1 state.2.2.check.expected.value)
    (ran : work.foldlM (LedgerIndex.foldLine (fun state raw =>
      (foldRecord codec absorb state raw).map fun after => (state.check.expected.value, after))
      name) state = .ok done) :
    Marks dir (lines ++ work.filter fun line => !line.isEmpty) done.1
      done.2.2.check.expected.value := by
  induction work generalizing before lines state with
  | nil =>
    cases ran
    simpa using marks
  | cons line work ih =>
    rw [foldlM_cons] at ran
    obtain ⟨middle, stepped, later⟩ := Outcome.bind_eq_ok.mp ran
    have shape' : bytes = join newline (before ++ [line] ++ work) ++ rest := by
      rw [shape, append_assoc, singleton_append]
    have next : (join newline (before ++ [line])).length =
        state.2.1 + line.length + 1 := by
      rw [join_append, length_append, start]
      simp [Nat.add_assoc]
    have rest' : ∀ other ∈ work, newline ∉ other := fun other member =>
      unended other (mem_cons_of_mem _ member)
    unfold LedgerIndex.foldLine at stepped
    by_cases blank : line.isEmpty
    · simp only [blank, if_true, Except.ok.injEq] at stepped
      subst stepped
      have passedOver := @ih (before ++ [line]) shape' rest' lines
        (state.1, state.2.1 + line.length + 1, state.2.2) next.symm marks later
      simpa [filter_cons, blank] using passedOver
    · simp only [blank] at stepped
      obtain ⟨located, lent, rfl⟩ := Outcome.map_eq_ok.mp stepped
      obtain ⟨after, folded, same⟩ := Outcome.map_eq_ok.mp lent
      cases same
      have counted : after.check.expected.value = state.2.2.check.expected.value + 1 := by
        unfold foldRecord at folded
        cases passed : state.2.2.check.advance codec line with
        | error fault => simp [passed] at folded
        | ok moved =>
          simp only [passed] at folded
          obtain ⟨kept, _, rfl⟩ := Outcome.map_eq_ok.mp folded
          exact Seq.next_eq_ok.mp (advance_eq_ok.mp passed).2.1
      have reads : LedgerIndex.lineFrom bytes state.2.1 = line := by
        rw [shape, start, join_append, join_cons, append_assoc, append_assoc, cons_append]
        exact lineFrom_join (unended line mem_cons_self)
      have marked := marks.insert here reads
      rw [← counted] at marked
      have passedOver := ih shape' rest' next.symm marked later
      simpa [filter_cons, blank] using passedOver

theorem Marks.folding {segments : List (FileName × Bytes)}
    (held : ∀ segment ∈ segments, dir[segment.1]? = some segment.2 ∧ 0 ∉ Lines.whole newline segment.2)
    {state done : LedgerIndex × Folding Hash F}
    (marks : Marks dir lines state.1 state.2.check.expected.value)
    (ran : segments.foldlM (LedgerIndex.foldSegment fun state raw => (foldRecord codec absorb state raw).map fun after => (state.check.expected.value, after)) state = .ok done) :
    Marks dir (lines ++ segments.flatMap fun segment => segmentLines segment.2) done.1
      done.2.check.expected.value := by
  induction segments generalizing lines state with
  | nil =>
    cases ran
    simpa using marks
  | cons segment segments ih =>
    rw [foldlM_cons] at ran
    obtain ⟨middle, stepped, later⟩ := Outcome.bind_eq_ok.mp ran
    obtain ⟨here, nonzero⟩ := held segment mem_cons_self
    obtain ⟨final, walked, rfl⟩ := Outcome.map_eq_ok.mp stepped
    rw [LedgerIndex.complete_readRecords nonzero] at walked
    have shape : segment.2 = join newline ([] ++ complete newline segment.2) ++
        Lines.tail newline segment.2 := (whole_append_tail segment.2).symm
    have marked := Marks.foldLines here shape
      (fun _ member => mark_not_mem_complete member) rfl marks walked
    have scanned : Marks dir (lines ++ segmentLines segment.2)
        { final.1 with scanned := final.1.scanned.insert segment.1 final.2.1 }
        final.2.2.check.expected.value := ⟨marked.expected, marked.size, marked.below, marked.last⟩
    have rest := ih (fun other member => held other (mem_cons_of_mem _ member)) scanned later
    rwa [append_assoc] at rest

theorem marks_of_foldLedgerDir (unzeroed : LedgerIndex.Unzeroed dir)
    (ran : foldLedgerDir codec absorb dir folded = .ok (index, final)) :
    ∃ expected, Marks dir (readRawLinesAt dir) index expected := by
  obtain ⟨⟨built, state⟩, walked, same⟩ := Outcome.map_eq_ok.mp ran
  cases same
  have held : ∀ segment ∈ dir.segments, dir[segment.1]? = some segment.2 ∧
      0 ∉ Lines.whole newline segment.2 := by
    intro segment member
    have listed := (mem_filter.mp member).1
    exact ⟨Std.ExtTreeMap.mem_toList_iff_getElem?_eq_some.mp listed, unzeroed segment member⟩
  have start : Marks dir [] LedgerIndex.empty
      (Folding.start codec folded).check.expected.value :=
    ⟨rfl, rfl, fun seq member => by simp [LedgerIndex.empty] at member,
      fun line last => by cases last⟩
  have marks := Marks.folding held start walked
  rw [nil_append, ← readRawLinesAt_eq] at marks
  exact ⟨_, marks⟩

theorem Marks.lastLine (marks : Marks dir lines index expected) :
    index.lastLine dir = .ok (lastOf lines) := by
  cases ended : lines.getLast? with
  | none =>
    have blank : lines = [] := getLast?_eq_none_iff.mp ended
    have absent : index.tailSeq = none := by
      rw [LedgerIndex.tailSeq, getLast?_eq_none_iff, eq_nil_iff_forall_not_mem]
      intro seq member
      have := marks.below seq (Std.ExtTreeMap.mem_keys.mp member)
      rw [blank] at this
      cases this
    rw [LedgerIndex.lastLine, absent, blank]
    rfl
  | some line =>
    obtain ⟨name, offset, bytes, entry, here, reads⟩ := marks.last line ended
    have tail : index.tailSeq = some (lines.length - 1) := by
      apply OrdMap.getLast?_keys ((OrdMap.mem_iff_get _ _).mpr ⟨_, entry⟩)
      intro seq member
      have bound := marks.below seq member
      omega
    simp only [LedgerIndex.lastLine, tail, LedgerIndex.lineAt, entry, here, lastOf, ended, reads]
    rfl

variable {checked : List (CheckedLine Record)} {after : LineCheck Hash}

theorem marks_indexOf (unzeroed : LedgerIndex.Unzeroed dir)
    (passes : Passes codec (atGenesis codec) (readRawLinesAt dir) checked after) :
    ∃ expected, Marks dir (readRawLinesAt dir) (indexOf codec dir) expected := by
  have built := @foldLedgerDir_eq _ _ codec _ _ (fun (_ : Unit) _ => .ok ()) _ unzeroed _ _ passes ()
  rw [foldlM_unit] at built
  exact marks_of_foldLedgerDir unzeroed built

theorem lastLine_indexOf (unzeroed : LedgerIndex.Unzeroed dir)
    (passes : Passes codec (atGenesis codec) (readRawLinesAt dir) checked after) :
    (indexOf codec dir).lastLine dir = .ok (lastOf (readRawLinesAt dir)) := by
  obtain ⟨_, marks⟩ := marks_indexOf unzeroed passes
  exact marks.lastLine

end Fold

end Sprawling
