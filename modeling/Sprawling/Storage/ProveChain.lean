import Sprawling.Storage.ChainAudit
import Sprawling.Storage.CityWire

/-! Proofs of the chain that reuse records, over the records earlier proofs have written. -/

namespace Sprawling

open CityWire Segment

namespace ChainAudit

section Records

variable {Hash Record : Type} [DecidableEq Hash] {codec : Codec Hash Record} {version : Nat}

/-- A record some earlier proof over some earlier content of the directory has written, with the
same version of the line check. A record of another version is not reused (`SoundRecords`). -/
inductive Written (codec : Codec Hash Record) (version : Nat) :
    FileName → SegmentRecord Hash → Prop where
  | proved (dir : Directory) (records : ProofRecords Hash)
      (earlier : ∀ name record, records.read name = some record → Written codec version name record)
      {name : FileName} {record : SegmentRecord Hash}
      (stored : (proveChain codec version dir records).2.read name = some record) :
      Written codec version name record

/-- Every record of the store was written by an earlier proof. -/
def AllWritten (codec : Codec Hash Record) (version : Nat) (records : ProofRecords Hash) : Prop :=
  ∀ name record, records.read name = some record → Written codec version name record

variable {records : ProofRecords Hash} (injective : Function.Injective codec.blake3)

include injective

theorem soundRecords_of_all
    (sound : ∀ name record, records.read name = some record → record.version = version →
      Sound codec record) : SoundRecords codec version (some records) := by
  intro held same
  cases same
  exact ⟨injective, sound⟩

/-- A record that was written stands for what it says: the proof that wrote it had checked every
line, itself or through records of which the same holds. -/
theorem sound_of_written {name : FileName}
    {record : SegmentRecord Hash} (written : Written codec version name record) :
    record.version = version → Sound codec record := by
  induction written with
  | proved dir records earlier stored ih =>
    intro current
    have sound := soundRecords_of_all injective ih
    have after := (walk_strict version dir (some records) sound).2
    simp only [proveChain] at stored
    cases left : (walk codec version dir (some records)).2 with
    | none =>
      rw [left] at stored
      exact ih _ _ stored current
    | some held =>
      rw [left] at stored
      exact (after held left).2 _ _ stored current

theorem soundRecords_of_written (written : AllWritten codec version records) :
    SoundRecords codec version (some records) :=
  soundRecords_of_all injective fun name record stored =>
    sound_of_written injective (written name record stored)

omit injective

/-- A proof that reuses records written by earlier proofs answers what the audit answers, and
leaves records written by proofs. -/
theorem proveChain_answers_audit (injective : Function.Injective codec.blake3) (version : Nat)
    (dir : Directory) (records : ProofRecords Hash) (written : AllWritten codec version records) :
    (proveChain codec version dir records).1.audit = auditChain codec version dir ∧
      AllWritten codec version (proveChain codec version dir records).2 := by
  have sound := soundRecords_of_written injective written
  refine ⟨?_, fun name record stored => .proved dir records written stored⟩
  rw [auditChain_eq]
  exact (walk_strict version dir (some records) sound).1

end Records

/-! ### A segment proved once and grown by a line -/

def genesisLine : Bytes :=
  CityWire.ascii (CityWire.text (.fromDraft (.cityInitialized 0) Seq.first (List.replicate 32 0)))

def genesisDigest : Bytes :=
  unhex "56e8fab2b412993af328ab11af6c6c50f03c22b08d39c14fe189d8f3c9c38b22".toList

def secondLine : Bytes :=
  CityWire.ascii (CityWire.text (.fromDraft (.cityInitialized 0) ⟨1, Seq.one_fits⟩ genesisDigest))

/-- The digests of the first line, of the segment it fills, and of the line after it. -/
def grownDigests : List (Bytes × Bytes) :=
  [(genesisLine, genesisDigest),
    (genesisLine ++ [newline],
      unhex "9c79eb3d5885a6e649175bc70ca3a1507552ae398f9efa58aebc0068a361ba6f".toList),
    (secondLine,
      unhex "012361849f5b6cf5cefab33b9b113e4f548038df4852c964f0c686c9b2d36629".toList)]

def grownCodec : Codec Bytes CityWire.CityRecord := (CityWire.wire grownDigests).toCodec

def oneSegment (content : Bytes) : Directory :=
  (∅ : Directory).insert (segmentFileName Seq.first) content

theorem segments_oneSegment (content : Bytes) :
    (oneSegment content).segments = [(segmentFileName Seq.first, content)] := by
  have listed := OrdMap.toList_insert_perm (∅ : Directory) (segmentFileName Seq.first)
    content
  have one : (oneSegment content).toList = [(segmentFileName Seq.first, content)] := by
    have none : (∅ : Directory).toList = [] := rfl
    rw [none, List.filter_nil] at listed
    exact List.perm_singleton.mp listed
  rw [Directory.segments, one, List.filter_cons, if_pos (isSegment_segmentFileName _)]
  rfl

def noRecords : ProofRecords Bytes :=
  { held := fun _ => none, may := .readAndWrite, disk := fun _ => { landed := true, refused := none } }

/-- What a proof of the first line leaves. -/
def firstRecords : ProofRecords Bytes :=
  (proveChain grownCodec 1 (oneSegment (genesisLine ++ [newline])) noRecords).2

def grown : Directory := oneSegment (genesisLine ++ newline :: (secondLine ++ [newline]))

theorem grownDigests_distinct : Digest.Distinct grownDigests := by
  delta grownDigests genesisDigest
  repeat rw [String.toList_ofList]
  decide +kernel

/-- The record of the first line is reused once the segment has grown by a second one. -/
theorem proveChain_of_grown_segment :
    (proveChain grownCodec 1 grown firstRecords).1.counted.segmentsByDigest = 1 ∧
      (proveChain grownCodec 1 grown firstRecords).1.audit = auditChain grownCodec 1 grown ∧
        AllWritten grownCodec 1 (proveChain grownCodec 1 grown firstRecords).2 := by
  have written : AllWritten grownCodec 1 firstRecords := fun _ _ stored =>
    .proved _ noRecords (fun _ _ absent => nomatch absent) stored
  refine ⟨?_, proveChain_answers_audit (Digest.tabled_injective grownDigests_distinct) 1 grown
    firstRecords written⟩
  delta grown firstRecords grownCodec grownDigests secondLine genesisLine genesisDigest CityWire.wire
    CityWire.read CityWire.fields CityWire.text CityWire.beforeV beforeSeq
    beforePrev beforeT beforeKind beforeData beforeDropped
    ending CityWire.CityDraft.kind kindText
  simp only [List.append_assoc]
  repeat rw [String.toList_ofList]
  decide +kernel

end ChainAudit

end Sprawling
