import Sprawling.Storage.ProveChain
import Sprawling.Storage.SnapshotStart

namespace Sprawling

open List ChainAudit CityWire Segment LineCheck Reading Digest

open Reading (readRawLinesAt segmentLines)

/-! ### Numbers of a fixed width, least byte first -/

def leBytes : (width : Nat) → Nat → Bytes
  | 0, _ => []
  | width + 1, value => UInt8.ofNat value :: leBytes width (value / 256)

def fromLeBytes (bytes : Bytes) : Nat := bytes.foldr (fun byte rest => byte.toNat + 256 * rest) 0

theorem length_leBytes (width value : Nat) : (leBytes width value).length = width := by
  induction width generalizing value with
  | zero => rfl
  | succ width ih => rw [leBytes, length_cons, ih]

theorem fromLeBytes_leBytes {width value : Nat} (fits : value < 256 ^ width) :
    fromLeBytes (leBytes width value) = value := by
  induction width generalizing value with
  | zero =>
    rw [Nat.pow_zero, Nat.lt_one_iff] at fits
    rw [fits]
    rfl
  | succ width ih =>
    have smaller : value / 256 < 256 ^ width := by
      rw [Nat.pow_succ] at fits
      omega
    have rest := ih smaller
    have byte : (UInt8.ofNat value).toNat = value % 256 := UInt8.toNat_ofNat'
    show (UInt8.ofNat value).toNat + 256 * fromLeBytes (leBytes width (value / 256)) = value
    rw [rest, byte]
    exact Nat.mod_add_div value 256

/-! ### The snapshot's file -/

namespace ChainSnapshot

def magic : Bytes := "SPRSNAP1".toList.map fun c => UInt8.ofNat c.toNat

variable (blake3 : Bytes → B3Hash)

/-- The magic, the fold version, the seq, the line's hash, the digest of the views, and the
views. -/
def encode (snapshot : ChainSnapshot B3Hash) : Bytes :=
  magic ++ (leBytes 4 snapshot.foldVersion ++ (leBytes 8 snapshot.seq.value ++
    (snapshot.lineHash.bytes ++ ((blake3 snapshot.views).bytes ++ snapshot.views))))

def short : String := "the file ends inside its header"

/-- The first bytes of a file and the rest, unless it ends inside them. -/
def splitFirstChunk (width : Nat) (bytes : Bytes) : Except String (Bytes × Bytes) :=
  if width ≤ bytes.length then .ok (bytes.take width, bytes.drop width) else .error short

/-- The first bytes of a file as a digest, and the rest. -/
def splitDigest (bytes : Bytes) : Except String (B3Hash × Bytes) :=
  if sized : (bytes.take 32).length = 32 then .ok (⟨bytes.take 32, sized⟩, bytes.drop 32)
  else .error short

def seqFromLe (bytes : Bytes) : Seq :=
  if fits : fromLeBytes bytes < 2 ^ 64 then ⟨fromLeBytes bytes, fits⟩ else Seq.last

def decode (bytes : Bytes) : Except String (ChainSnapshot B3Hash) := do
  let (head, rest) ← splitFirstChunk 8 bytes
  if head ≠ magic then throw "the file does not start with the snapshot magic"
  let (foldVersion, rest) ← splitFirstChunk 4 rest
  let (seq, rest) ← splitFirstChunk 8 rest
  let (lineHash, rest) ← splitDigest rest
  let (digest, views) ← splitDigest rest
  if blake3 views ≠ digest then
    throw "the views do not hash to the digest written beside them"
  return { foldVersion := fromLeBytes foldVersion, seq := seqFromLe seq, lineHash, views }

/-- What the snapshot directory holds, given the bytes of its file when it has one. -/
def readSnapshot : Option Bytes → StoredSnapshot B3Hash
  | none => .absent
  | some bytes =>
    match decode blake3 bytes with
    | .ok snapshot => .present snapshot
    | .error reason => .damaged reason

theorem splitFirstChunk_append {width : Nat} {head : Bytes} (sized : head.length = width)
    (rest : Bytes) : splitFirstChunk width (head ++ rest) = .ok (head, rest) := by
  subst sized
  rw [splitFirstChunk, if_pos (by rw [length_append]; omega), take_left, drop_left]

theorem splitDigest_append (digest : B3Hash) (rest : Bytes) :
    splitDigest (digest.bytes ++ rest) = .ok (digest, rest) := by
  have taken : (digest.bytes ++ rest).take 32 = digest.bytes := take_left' digest.sized
  have left : (digest.bytes ++ rest).drop 32 = rest := drop_left' digest.sized
  rw [splitDigest, dif_pos (by rw [taken]; exact digest.sized), left]
  exact congrArg Except.ok (Prod.ext (ext_bytes taken) rfl)

theorem seqFromLe_leBytes (seq : Seq) : seqFromLe (leBytes 8 seq.value) = seq := by
  have same := @fromLeBytes_leBytes 8 seq.value seq.lt
  have fits : fromLeBytes (leBytes 8 seq.value) < 2 ^ 64 := by
    rw [same]
    exact seq.lt
  rw [seqFromLe, dif_pos fits]
  exact Seq.ext_value same

theorem decode_encode (snapshot : ChainSnapshot B3Hash) (version : snapshot.foldVersion < 2 ^ 32) :
    decode blake3 (encode blake3 snapshot) = .ok snapshot := by
  have read := @fromLeBytes_leBytes 4 snapshot.foldVersion version
  simp only [decode, encode, splitFirstChunk_append (show magic.length = 8 from rfl),
    splitFirstChunk_append (length_leBytes 4 _), splitFirstChunk_append (length_leBytes 8 _),
    splitDigest_append, bind, Except.bind, ne_eq, not_true_eq_false, if_false, pure, Except.pure,
    read, seqFromLe_leBytes]

end ChainSnapshot

/-! ### The line at a seq -/

namespace SnapshotStart

/-- Where folding a ledger starts, given the snapshot stored and the fold rules' version. -/
def startFromSnapshot {Hash Record : Type} (codec : Codec Hash Record) [DecidableEq Hash]
    (dir : Directory) (stored : StoredSnapshot Hash) (foldVersion : Nat) : SnapshotStart :=
  match stored with
  | .absent => .whole .noSnapshot
  | .damaged reason => .whole (.damaged reason)
  | .present snapshot =>
    if snapshot.foldVersion ≠ foldVersion then .whole (.otherFoldVersion snapshot.foldVersion)
    else tailAfter codec dir snapshot

/-- The segments are named, from a seq on, by the seq of their first line; one that holds no line
by the seq its first would have. -/
def NamedFrom : (seq : Nat) → List (FileName × Bytes) → Prop
  | _, [] => True
  | seq, segment :: rest =>
    segmentFirstSeq segment.1 = some seq ∧
      NamedFrom (seq + (Reading.segmentLines segment.2).length) rest

instance : (seq : Nat) → (segments : List (FileName × Bytes)) → Decidable (NamedFrom seq segments)
  | _, [] => inferInstanceAs (Decidable True)
  | seq, segment :: rest =>
    have := instDecidableNamedFrom (seq + (Reading.segmentLines segment.2).length) rest
    inferInstanceAs (Decidable (_ ∧ _))

def Named (dir : Directory) : Prop := NamedFrom 0 dir.segments

def linesOf (segments : List (FileName × Bytes)) : List Bytes :=
  segments.flatMap fun segment => Reading.segmentLines segment.2

@[simp] theorem linesOf_nil : linesOf [] = [] := rfl

@[simp] theorem linesOf_cons (segment : FileName × Bytes) (rest : List (FileName × Bytes)) :
    linesOf (segment :: rest) = segmentLines segment.2 ++ linesOf rest :=
  flatMap_cons

@[simp] theorem linesOf_append (first second : List (FileName × Bytes)) :
    linesOf (first ++ second) = linesOf first ++ linesOf second :=
  flatMap_append

variable {segments : List (FileName × Bytes)} {seq base : Nat}

theorem holding_none
    (named : NamedFrom base segments) (before : seq < base) : holding seq segments = none := by
  induction segments generalizing base with
  | nil => rfl
  | cons segment rest ih =>
    rw [holding, ih named.2 (by omega)]
    simp only [named.1, if_neg (Nat.not_le.mpr before)]

theorem holding_some
    (named : NamedFrom base segments) (onward : base ≤ seq) (some_segment : segments ≠ []) :
    ∃ before segment after, segments = before ++ segment :: after ∧
      holding seq segments = some (base + (linesOf before).length, segment, after) ∧
      base + (linesOf before).length ≤ seq ∧
      (after = [] ∨
        seq < base + (linesOf before).length + (segmentLines segment.2).length) := by
  induction segments generalizing base with
  | nil => exact absurd rfl some_segment
  | cons segment rest ih =>
    obtain ⟨here, later⟩ := named
    by_cases inside : rest = [] ∨ seq < base + (segmentLines segment.2).length
    · refine ⟨[], segment, rest, rfl, ?_, onward, inside⟩
      have behind : holding seq rest = none := by
        rcases inside with rfl | early
        · rfl
        · exact holding_none later early
      rw [holding, behind]
      simp only [here, if_pos onward]
      rfl
    · rw [not_or, Nat.not_lt] at inside
      obtain ⟨before, held, after, rfl, found, reached, ends⟩ := ih later inside.2 inside.1
      have counted : base + (linesOf (segment :: before)).length =
          base + (segmentLines segment.2).length + (linesOf before).length := by
        rw [linesOf_cons, length_append]
        omega
      refine ⟨segment :: before, held, after, rfl, ?_, ?_, ?_⟩
      · rw [holding, found, counted]
      · rwa [counted]
      · rwa [counted]

section Placed

variable {Hash Record : Type} {codec : Codec Hash Record}

/-- Every line of a run claims the seq of its place. -/
def Numbered (codec : Codec Hash Record) (base : Nat) (lines : List Bytes) : Prop :=
  ∀ i line, lines[i]? = some line → (claimedSeq codec line).map Seq.value = some (base + i)

theorem Numbered.of_append {base : Nat} {first second : List Bytes}
    (numbered : Numbered codec base (first ++ second)) :
    Numbered codec base first ∧ Numbered codec (base + first.length) second := by
  refine ⟨fun i line here => ?_, fun i line here => ?_⟩
  · have inside := (List.getElem?_eq_some_iff.mp here).1
    exact numbered i line (by rw [getElem?_append_left inside, here])
  · have known := numbered (first.length + i) line
      (by rw [getElem?_append_right (by omega), Nat.add_sub_cancel_left, here])
    rw [known, Nat.add_assoc]

variable {base seq : Nat} {bytes : Bytes}

theorem fromTheEnd_inside
    (numbered : Numbered codec base (segmentLines bytes)) (onward : base ≤ seq)
    (inside : seq < base + (segmentLines bytes).length) :
    fromTheEnd codec bytes seq = (segmentLines bytes)[seq - base]?.map fun line =>
      ⟨line, (segmentLines bytes).drop (seq - base + 1)⟩ := by
  unfold fromTheEnd
  generalize segmentLines bytes = lines at *
  have some_lines : 0 < lines.length := by omega
  have newest : ∃ newest, lines.reverse.head?.bind (claimedSeq codec) = some newest ∧
      newest.value = base + (lines.length - 1) := by
    have last : lines[lines.length - 1]? = some lines[lines.length - 1] :=
      getElem?_eq_getElem (by omega)
    obtain ⟨newest, claimed, value⟩ := Option.map_eq_some_iff.mp (numbered _ _ last)
    refine ⟨newest, ?_, value⟩
    rw [head?_reverse, getLast?_eq_getElem?, last]
    exact claimed
  obtain ⟨newest, claimed, value⟩ := newest
  have back : newest.value - seq = lines.length - (seq - base + 1) := by omega
  simp only [claimed]
  rw [if_neg (by omega), back]
  rw [if_neg (by rw [length_take, length_reverse]; omega)]
  rw [getElem?_reverse (by omega), take_reverse, reverse_reverse]
  have index : lines.length - 1 - (lines.length - (seq - base + 1)) = seq - base := by omega
  have cut : lines.length - (lines.length - (seq - base + 1)) = seq - base + 1 := by omega
  rw [index, cut]

theorem searches_beyond (numbered : Numbered codec base (segmentLines bytes))
    (beyond : base + (segmentLines bytes).length ≤ seq) :
    fromTheEnd codec bytes seq = none ∧ fromTheStart bytes base seq = none := by
  unfold fromTheEnd fromTheStart
  generalize segmentLines bytes = lines at *
  constructor
  · cases claimed : lines.reverse.head?.bind (claimedSeq codec) with
    | none => simp only [claimed]
    | some newest =>
      obtain ⟨last, here, claims⟩ := Option.bind_eq_some_iff.mp claimed
      rw [head?_reverse, getLast?_eq_getElem?] at here
      have some_lines := (List.getElem?_eq_some_iff.mp here).1
      have known := numbered _ _ here
      rw [claims, Option.map_some, Option.some.injEq] at known
      simp only [claimed]
      exact if_pos (by omega)
  · rw [if_neg (by omega), drop_eq_nil_of_le (by omega)]

variable {dir : Directory}

theorem linesFromCut_eq (named : Named dir)
    (numbered : Numbered codec 0 (readRawLinesAt dir)) (seq : Nat) :
    linesFromCut codec dir seq = (readRawLinesAt dir)[seq]?.map fun line =>
      ⟨line, (readRawLinesAt dir).drop (seq + 1)⟩ := by
  have whole : readRawLinesAt dir = linesOf dir.segments := readRawLinesAt_eq dir
  rw [whole] at numbered ⊢
  unfold linesFromCut
  rw [Named] at named
  generalize dir.segments = segments at *
  cases segments with
  | nil => rfl
  | cons first rest =>
    obtain ⟨before, segment, after, shape, found, reached, ends⟩ :=
      holding_some named (Nat.zero_le seq) (cons_ne_nil first rest)
    rw [Nat.zero_add] at found reached ends
    rw [found, shape]
    rw [shape, linesOf_append, linesOf_cons] at numbered
    obtain ⟨inner, -⟩ := numbered.of_append.2.of_append
    rw [Nat.zero_add] at inner
    simp only [linesOf_append, linesOf_cons]
    by_cases inside :
        seq < (linesOf before).length + (segmentLines segment.2).length
    · have line := getElem?_eq_getElem (l := segmentLines segment.2)
        (i := seq - (linesOf before).length) (by omega)
      have tail : (linesOf before ++ (segmentLines segment.2 ++ linesOf after)).drop
          (seq + 1) = (segmentLines segment.2).drop (seq - (linesOf before).length + 1) ++
            linesOf after := by
        rw [drop_append, drop_eq_nil_of_le (by omega), nil_append,
          drop_append_of_le_length (by omega)]
        have counted : seq + 1 - (linesOf before).length = seq - (linesOf before).length + 1 := by
          omega
        rw [counted]
      rw [fromTheEnd_inside inner reached inside, getElem?_append_right reached,
        getElem?_append_left (by omega), line, tail]
      rfl
    · obtain ⟨ending, starting⟩ := searches_beyond inner (Nat.le_of_not_lt inside)
      have last : after = [] := ends.resolve_right inside
      rw [ending, starting, last, linesOf_nil, append_nil,
        getElem?_eq_none (by rw [length_append]; omega)]
      rfl

variable [DecidableEq Hash]

theorem numbered_of_passes {check after : LineCheck Hash} {lines : List Bytes}
    {checked : List (CheckedLine Record)} (passes : Passes codec check lines checked after) :
    Numbered codec check.expected.value lines := by
  induction passes with
  | nil check =>
    intro i line here
    cases here
  | @cons check middle after raw lines checked rest passed _ ih =>
    obtain ⟨judged, counted, -⟩ := advance_eq_ok.mp passed
    intro i line here
    cases i with
    | zero =>
      cases here
      rw [claimedSeq_of_judge judged]
      rfl
    | succ i =>
      rw [ih i line here, Seq.next_eq_ok.mp counted, Nat.add_assoc, Nat.add_comm 1]

theorem numbered_of_audit {version count : Nat}
    (audits : auditChain codec version dir = .whole count) :
    Numbered codec 0 (readRawLinesAt dir) := by
  rw [auditChain_eq, strictAudit] at audits
  cases walked : (readRawLinesAt dir).foldlM (strictLine codec)
    (atGenesis codec, 0) with
  | error reason => simp [walked] at audits
  | ok ended =>
    obtain ⟨checked, passes⟩ :=
      Passes.exists_of_advanceAll (advanceAll_of_strict walked)
    exact numbered_of_passes passes

theorem tailAfter_eq (named : Named dir)
    (numbered : Numbered codec 0 (readRawLinesAt dir)) (snapshot : ChainSnapshot Hash) :
    tailAfter codec dir snapshot =
      match (readRawLinesAt dir)[snapshot.seq.value]? with
      | none => .whole .missing
      | some line =>
        if codec.chainHash line = snapshot.lineHash then
          .resume ((readRawLinesAt dir).drop (snapshot.seq.value + 1))
        else .whole .stale := by
  rw [tailAfter, linesFromCut_eq named numbered]
  cases (readRawLinesAt dir)[snapshot.seq.value]? with
  | none => rfl
  | some line =>
    simp only [Option.map_some, ChainSnapshot.fit]
    by_cases same : codec.chainHash line = snapshot.lineHash
    · simp only [same, if_true]
    · simp only [same, if_false]

end Placed

/-! ### Starting from a snapshot -/

section Starting

variable {Record : Type} (codec : Codec B3Hash Record)

/-- What a start makes of a ledger and the bytes of a snapshot's file: a snapshot cut at a line of
the ledger is resumed with the lines after it, and one cut at no line of it is not resumed. -/
structure Resumes (dir : Directory) : Prop where
  fits : ∀ (foldVersion : Nat) (before : List Bytes) (line : Bytes) (tail : List Bytes) (seq : Seq)
      (views : Bytes), foldVersion < 2 ^ 32 →
    Reading.readRawLinesAt dir = before ++ line :: tail → claimedSeq codec line = some seq →
      startFromSnapshot codec dir (ChainSnapshot.readSnapshot codec.blake3 (some
        (ChainSnapshot.encode codec.blake3 (ChainSnapshot.cut codec foldVersion seq line views))))
        foldVersion = .resume tail
  folds : ∀ (file : Option Bytes) (foldVersion : Nat) (snapshot : ChainSnapshot B3Hash)
      (tail : List Bytes), ChainSnapshot.readSnapshot codec.blake3 file = .present snapshot →
    startFromSnapshot codec dir (ChainSnapshot.readSnapshot codec.blake3 file) foldVersion =
        .resume tail →
      ∃ before line, Reading.readRawLinesAt dir = before ++ line :: tail ∧
        claimedSeq codec line = some snapshot.seq ∧ codec.chainHash line = snapshot.lineHash ∧
        ∀ {σ : Type} (load : Bytes → σ) (step : σ → Bytes → σ) (start : σ),
          load snapshot.views = (before ++ [line]).foldl step start →
            tail.foldl step (load snapshot.views) =
              (Reading.readRawLinesAt dir).foldl step start
  stale : ∀ (file : Option Bytes) (foldVersion : Nat) (snapshot : ChainSnapshot B3Hash),
    ChainSnapshot.readSnapshot codec.blake3 file = .present snapshot →
      (∀ line ∈ Reading.readRawLinesAt dir, claimedSeq codec line = some snapshot.seq →
        codec.chainHash line ≠ snapshot.lineHash) →
      ∃ because, startFromSnapshot codec dir (ChainSnapshot.readSnapshot codec.blake3 file)
        foldVersion = .whole because

theorem seq_of_numbered {lines : List Bytes} (numbered : Numbered codec 0 lines) {i : Nat}
    {line : Bytes} {seq : Seq} (here : lines[i]? = some line) (value : seq.value = i) :
    claimedSeq codec line = some seq := by
  obtain ⟨claimed, claims, same⟩ := Option.map_eq_some_iff.mp (numbered i line here)
  rw [claims, Seq.ext_value (same.trans ((Nat.zero_add i).trans value.symm))]

/-- In a ledger that audits whole and whose segments are named by the seq of their first line, a
snapshot is resumed exactly at its own line, and folding the tail is folding the ledger. -/
theorem start_resumes {version count : Nat} {dir : Directory}
    (audits : auditChain codec version dir = .whole count) (named : Named dir) :
    Resumes codec dir := by
  have numbered := numbered_of_audit audits
  -- A start that resumes went on from the line at the snapshot's seq.
  have resumed : ∀ (foldVersion : Nat) (snapshot : ChainSnapshot B3Hash) (tail : List Bytes),
      startFromSnapshot codec dir (.present snapshot) foldVersion = .resume tail →
      ∃ line, (Reading.readRawLinesAt dir)[snapshot.seq.value]? = some line ∧
        codec.chainHash line = snapshot.lineHash ∧
        tail = (Reading.readRawLinesAt dir).drop (snapshot.seq.value + 1) := by
    intro foldVersion snapshot tail resumes
    simp only [startFromSnapshot] at resumes
    split at resumes
    · cases resumes
    · rw [tailAfter_eq named numbered] at resumes
      split at resumes
      · cases resumes
      · next line here =>
          split at resumes
          · next same => exact ⟨line, here, same, (SnapshotStart.resume.inj resumes).symm⟩
          · cases resumes
  refine ⟨?_, ?_, ?_⟩
  · intro foldVersion before line tail seq views version listed claimed
    have here : (Reading.readRawLinesAt dir)[before.length]? = some line := by
      rw [listed, getElem?_append_right (Nat.le_refl _), Nat.sub_self]
      rfl
    have place : seq.value = before.length := by
      have known := numbered _ _ here
      rw [claimed, Option.map_some, Option.some.injEq] at known
      omega
    rw [ChainSnapshot.readSnapshot, ChainSnapshot.decode_encode codec.blake3 _ version]
    simp only [startFromSnapshot, ChainSnapshot.cut, ne_eq, not_true_eq_false, if_false,
      tailAfter_eq named numbered, place, here, if_true]
    rw [listed, drop_append, drop_eq_nil_of_le (Nat.le_succ _), Nat.add_sub_cancel_left]
    rfl
  · intro file foldVersion snapshot tail present resumes
    rw [present] at resumes
    obtain ⟨line, here, same, rfl⟩ := resumed foldVersion snapshot tail resumes
    have whole : Reading.readRawLinesAt dir =
        (Reading.readRawLinesAt dir).take snapshot.seq.value ++
          line :: (Reading.readRawLinesAt dir).drop (snapshot.seq.value + 1) := by
      obtain ⟨inside, rfl⟩ := List.getElem?_eq_some_iff.mp here
      rw [getElem_cons_drop, take_append_drop]
    refine ⟨_, line, whole, seq_of_numbered codec numbered here rfl, same, ?_⟩
    intro σ load step start loaded
    conv => rhs; rw [whole]
    rw [loaded, ← foldl_append, append_assoc]
    rfl
  · intro file foldVersion snapshot present apart
    rw [present]
    cases started : startFromSnapshot codec dir (.present snapshot) foldVersion with
    | whole because => exact ⟨because, rfl⟩
    | resume tail =>
      obtain ⟨line, here, same, -⟩ := resumed foldVersion snapshot tail started
      exact absurd same (apart line (mem_of_getElem? here)
        (seq_of_numbered codec numbered here rfl))

end Starting

/-! ### Two lines in two segments -/

/-- A digest of any bytes: those of another length stand for no hash. -/
def hashOf (bytes : Bytes) : B3Hash :=
  if sized : bytes.length = 32 then ⟨bytes, sized⟩ else ⟨List.replicate 32 0, zeros_sized⟩

/-- The city's lines, with hashes of the length BLAKE3 answers. -/
def shortCodec : Codec B3Hash CityWire.CityRecord where
  envelope raw := (grownCodec.envelope raw).map fun envelope =>
    { v := envelope.v
      seq := envelope.seq
      prev := hashOf envelope.prev
      kind := envelope.kind
      ig := envelope.ig }
  isEventKind := grownCodec.isEventKind
  parseLine := grownCodec.parseLine
  canonicalLine := grownCodec.canonicalLine
  blake3 bytes := hashOf (grownCodec.blake3 bytes)
  genesisPrev := hashOf grownCodec.genesisPrev

def genesisRecord : CityWire.CityRecord :=
  .fromDraft (.cityInitialized 0) Seq.first (List.replicate 32 0)

def secondRecord : CityWire.CityRecord :=
  .fromDraft (.cityInitialized 0) ⟨1, Seq.one_fits⟩ genesisDigest

variable {dir : Directory}

theorem audit_two {Hash Record : Type} [DecidableEq Hash] {codec : Codec Hash Record} {first second : Bytes} {one two : CheckedLine Record}
    {middle after : LineCheck Hash} (listed : readRawLinesAt dir = [first, second])
    (passed : (atGenesis codec).advance codec first = .ok (one, middle))
    (later : middle.advance codec second = .ok (two, after)) :
    auditChain codec 1 dir = .whole 2 := by
  rw [auditChain_eq, strictAudit, listed]
  simp only [foldlM_cons, foldlM_nil, strictLine, passed, later, bind,
    Except.bind, pure, Except.pure]
  rfl

theorem shortCodec_envelope (record : CityWire.CityRecord) :
    shortCodec.envelope (CityWire.ascii (CityWire.text record)) = .ok
      ⟨record.v, record.seq, hashOf record.prev, kindText record.draft, false⟩ := by
  simp only [shortCodec, grownCodec, envelope_text, Except.map]

theorem shortCodec_judge {record : CityWire.CityRecord}
    (current : readableLogV record.v = .current) :
    LineCheck.judge shortCodec (CityWire.ascii (CityWire.text record)) =
      .ok ⟨record.seq, hashOf record.prev, .known record⟩ := by
  have parsed : shortCodec.parseLine (CityWire.ascii (CityWire.text record)) = .ok record := by
    simp only [shortCodec, grownCodec, CityWire.wire, read_text]
  exact judge_canonical (shortCodec_envelope record) current
    ((wire_lawful grownDigests).line_kind record.draft) parsed rfl

theorem shortCodec_chainHash (line : Bytes) :
    shortCodec.chainHash line = hashOf (tabled grownDigests line) := rfl

theorem audit_shortCodec (listed : readRawLinesAt dir = [genesisLine, secondLine]) :
    auditChain shortCodec 1 dir = .whole 2 := by
  have digested : shortCodec.chainHash genesisLine = hashOf genesisDigest := by
    rw [shortCodec_chainHash, grownDigests]
    exact congrArg hashOf (tabled_text genesisRecord _ _)
  have first : (atGenesis shortCodec).advance shortCodec genesisLine =
      .ok (.known genesisRecord, ⟨hashOf genesisDigest, ⟨1, by decide⟩⟩) :=
    advance_eq_ok.mpr ⟨shortCodec_judge rfl, rfl, digested.symm⟩
  have second : LineCheck.advance shortCodec ⟨hashOf genesisDigest, ⟨1, by decide⟩⟩
      secondLine =
        .ok (.known secondRecord, ⟨shortCodec.chainHash secondLine, ⟨2, by decide⟩⟩) :=
    advance_eq_ok.mpr ⟨shortCodec_judge rfl, rfl, rfl⟩
  exact audit_two listed first second

/-- A line in each of two segments, and the start of a third line. -/
def twoSegments : Directory :=
  ((∅ : Directory).insert (segmentFileName Seq.first)
    (genesisLine ++ [newline])).insert (segmentFileName ⟨1, Seq.one_fits⟩)
    (secondLine ++ newline :: genesisLine.take 9)

theorem start_resumes_twoSegments :
    auditChain shortCodec 1 twoSegments = .whole 2 ∧ Named twoSegments ∧
      Resumes shortCodec twoSegments := by
  have segments : twoSegments.segments =
      [(segmentFileName Seq.first, genesisLine ++ [newline]),
        (segmentFileName ⟨1, by decide⟩,
          secondLine ++ newline :: genesisLine.take 9)] := rfl
  have one := @CityWire.segmentLines_join [genesisLine] [] not_mem_nil
    (forall_mem_singleton.mpr ⟨genesisRecord, rfl⟩)
  have torn : newline ∉ genesisLine.take 9 := fun member =>
    (ascii_bytes (plain_text genesisRecord)).1 (mem_of_mem_take member)
  have two := @CityWire.segmentLines_join [secondLine] _ torn
    (forall_mem_singleton.mpr ⟨_, rfl⟩)
  have listed : readRawLinesAt twoSegments = [genesisLine, secondLine] := by
    rw [readRawLinesAt_eq, segments]
    simp only [Lines.join, flatMap_singleton, append_nil, append_assoc, singleton_append] at one two
    rw [flatMap_cons, flatMap_singleton, one, two]
    rfl
  have audits := audit_shortCodec listed
  have named : Named twoSegments := by
    unfold Named
    decide +kernel
  exact ⟨audits, named, start_resumes shortCodec audits named⟩

/-- The same two lines in one segment that is named for a later one. -/
def misnamed : Directory :=
  (∅ : Directory).insert (segmentFileName ⟨5, by decide⟩)
    (genesisLine ++ newline :: (secondLine ++ [newline]))

theorem misnamed_lines :
    readRawLinesAt misnamed = [genesisLine, secondLine] := by
  have segments : misnamed.segments = [(segmentFileName ⟨5, by decide⟩,
      genesisLine ++ newline :: (secondLine ++ [newline]))] := rfl
  have joined : genesisLine ++ newline :: (secondLine ++ [newline]) =
      Lines.join newline [genesisLine, secondLine] := by
    simp [Lines.join]
  have written : ∀ line ∈ [genesisLine, secondLine],
      ∃ record, line = CityWire.ascii (CityWire.text record) := by
    simp only [forall_mem_cons]
    exact ⟨⟨_, rfl⟩, ⟨_, rfl⟩, fun _ member => absurd member not_mem_nil⟩
  have read := @CityWire.segmentLines_join _ [] not_mem_nil written
  rw [append_nil] at read
  rw [readRawLinesAt_eq, segments, flatMap_singleton, joined, read]

/-- Segments are picked by their names, so a line in a misnamed one is missed. -/
theorem misnamed_missed :
    auditChain shortCodec 1 misnamed = .whole 2 ∧
      Reading.readRawLinesAt misnamed = [genesisLine, secondLine] ∧
      claimedSeq shortCodec genesisLine = some Seq.first ∧
      startFromSnapshot shortCodec misnamed (ChainSnapshot.readSnapshot shortCodec.blake3 (some
        (ChainSnapshot.encode shortCodec.blake3
          (ChainSnapshot.cut shortCodec 1 Seq.first genesisLine [])))) 1 =
        .whole .missing := by
  refine ⟨audit_shortCodec misnamed_lines, misnamed_lines, ?_, ?_⟩
  · exact claimedSeq_of_judge (@shortCodec_judge genesisRecord rfl)
  · rw [ChainSnapshot.readSnapshot, ChainSnapshot.decode_encode _ _ (by decide)]
    decide +kernel

end SnapshotStart

end Sprawling
