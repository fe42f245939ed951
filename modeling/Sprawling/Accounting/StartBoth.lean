import Sprawling.Accounting.SnapshotFold
import Sprawling.Storage.SnapshotResume

/-! What two folds started on one pass stand at, against two whole folds. -/

namespace Sprawling

open List ChainAudit LineCheck SnapshotStart CityWire Reading Digest

namespace StartBoth

variable {Hash Record : Type} {codec : Codec Hash Record} [DecidableEq Hash]

section Onward

variable {E L : Type} {early : SnapshotFold Record E} {late : SnapshotFold Record L}
  {atLate : ChainSnapshot Hash} {began : L}

/-- The pass after these lines of the ledger: the earlier fold holds all of them; the later one
holds them too once its snapshot was found to fit, and is as it was decoded until then. -/
structure Riding (codec : Codec Hash Record) (early : SnapshotFold Record E)
    (late : SnapshotFold Record L) (atLate : ChainSnapshot Hash) (began : L) (lines : List Bytes)
    (state : Onward Hash E L) : Prop where
  early : Held codec early lines state.early
  fitted : state.lateFits = some true → Held codec late lines state.late ∧
    state.lateTail + atLate.seq.value + 1 = lines.length
  unfitted : state.lateFits ≠ some true → state.late = began ∧ state.lateTail = 0

theorem Riding.line (collisionFree : Function.Injective codec.chainHash)
    (lawful : Lawful codec early) (lawfulLate : Lawful codec late)
    (cut : CutBy codec late atLate) (decoded : late.decode atLate.views = .ok began)
    {lines : List Bytes} {state : Onward Hash E L} {before : List (CheckedLine Record)}
    {checked : CheckedLine Record} {raw : Bytes} {after : LineCheck Hash} {one : E} {other : L}
    (riding : Riding codec early late atLate began lines state)
    (front : Passes codec (atGenesis codec) lines before state.check)
    (passed : state.check.advance codec raw = .ok (checked, after))
    (folds : (before ++ [checked]).foldlM (absorbChecked early.absorb) early.empty = .ok one)
    (foldsLate : (before ++ [checked]).foldlM (absorbChecked late.absorb) late.empty = .ok other) :
    ∃ next, onwardLine codec early late atLate state raw = .ok next ∧ next.check = after ∧
      Riding codec early late atLate began (lines ++ [raw]) next := by
  have place : state.check.expected.value = lines.length := by
    have counted := front.expected
    rw [counted]
    exact Nat.zero_add _
  have chained : (atGenesis codec).advanceAll codec (lines ++ [raw]) = .ok after :=
    (front.append (.cons passed (.nil _))).advanceAll
  obtain ⟨earlier, absorbed⟩ := lawful.absorbs riding.early front passed folds
  have grew := Held.line riding.early front.advanceAll passed absorbed
  have size : (lines ++ [raw]).length = lines.length + 1 := length_append
  simp only [onwardLine, passed, absorbed, Outcome.bind_ok]
  by_cases here : state.check.expected = atLate.seq
  · -- The line the later snapshot names: here it is judged, and folded by neither answer.
    have seq : atLate.seq.value = lines.length := by rw [← here, place]
    have still : state.lateFits ≠ some true := by
      intro fits
      have := (riding.fitted fits).2
      omega
    obtain ⟨same, none⟩ := riding.unfitted still
    have behind : ¬ atLate.seq.value < state.check.expected.value := by omega
    simp only [here, if_true, Nat.lt_irrefl, decide_false, Bool.false_and, Bool.false_eq_true,
      if_false]
    refine ⟨_, rfl, rfl, grew, ?_, ?_⟩
    · intro fits
      have hashed : codec.chainHash raw = atLate.lineHash := by
        by_contra different
        simp [ChainSnapshot.fit, different] at fits
      obtain ⟨_, holds⟩ := cut.held collisionFree lawfulLate decoded chained hashed
      refine ⟨?_, ?_⟩
      · rw [same]
        exact holds
      · rw [none, size]
        omega
    · exact fun _ => ⟨same, none⟩
  · simp only [here, if_false]
    by_cases fits : state.lateFits = some true
    · obtain ⟨holds, counted⟩ := riding.fitted fits
      obtain ⟨later, absorbedLate⟩ := lawfulLate.absorbs holds front passed foldsLate
      have ahead : atLate.seq.value < state.check.expected.value := by omega
      have room : state.lateTail + 1 ≤ u64Max := by
        have bound := state.check.expected.lt
        have most : u64Max = 2 ^ 64 - 1 := rfl
        omega
      simp only [ahead, fits, decide_true, beq_self_eq_true, Bool.and_self, if_true, absorbedLate]
      refine ⟨_, rfl, rfl, grew, ?_, ?_⟩
      · intro _
        refine ⟨Held.line holds front.advanceAll passed absorbedLate, ?_⟩
        rw [size, saturatingAdd, Nat.min_eq_left room]
        show state.lateTail + 1 + atLate.seq.value + 1 = lines.length + 1
        omega
      · exact fun different => absurd rfl different
    · have unlike : (state.lateFits == some true) = false := by simpa using fits
      simp only [unlike, Bool.and_false, Bool.false_eq_true, if_false]
      refine ⟨_, rfl, rfl, grew, ?_, ?_⟩
      · exact fun same => absurd same fits
      · exact fun _ => riding.unfitted fits

theorem Riding.tail (collisionFree : Function.Injective codec.chainHash)
    (lawful : Lawful codec early) (lawfulLate : Lawful codec late)
    (cut : CutBy codec late atLate) (decoded : late.decode atLate.views = .ok began)
    {lines tail : List Bytes} {state : Onward Hash E L} {before rest : List (CheckedLine Record)}
    {final : LineCheck Hash} {one : E} {other : L}
    (riding : Riding codec early late atLate began lines state)
    (front : Passes codec (atGenesis codec) lines before state.check)
    (back : Passes codec state.check tail rest final)
    (folds : (before ++ rest).foldlM (absorbChecked early.absorb) early.empty = .ok one)
    (foldsLate : (before ++ rest).foldlM (absorbChecked late.absorb) late.empty = .ok other) :
    ∃ done, tail.foldlM (onwardLine codec early late atLate) state = .ok done ∧
      Riding codec early late atLate began (lines ++ tail) done := by
  induction tail generalizing lines state before rest with
  | nil => exact ⟨state, rfl, by rwa [append_nil]⟩
  | cons raw tail ih =>
    cases back with
    | @cons _ middle _ _ _ checked rest passed later =>
      rw [append_cons] at folds foldsLate
      have part : ∃ some, (before ++ [checked]).foldlM (absorbChecked early.absorb)
          early.empty = .ok some := by
        rw [foldlM_append] at folds
        exact (Outcome.bind_eq_ok.mp folds).imp fun _ => And.left
      have partLate : ∃ some, (before ++ [checked]).foldlM (absorbChecked late.absorb)
          late.empty = .ok some := by
        rw [foldlM_append] at foldsLate
        exact (Outcome.bind_eq_ok.mp foldsLate).imp fun _ => And.left
      obtain ⟨_, reached⟩ := part
      obtain ⟨_, reachedLate⟩ := partLate
      obtain ⟨next, stepped, moved, rides⟩ := riding.line collisionFree lawful lawfulLate cut
        decoded front passed reached reachedLate
      subst moved
      obtain ⟨done, ran, holds⟩ := ih rides (front.append (.cons passed (.nil _))) later
        folds foldsLate
      refine ⟨done, ?_, by rwa [append_cons]⟩
      rw [foldlM_cons, stepped]
      exact ran

end Onward

section Claim

variable {A B : Type} {first : SnapshotFold Record A} {second : SnapshotFold Record B}

/-- The snapshot's line still sits at its seq. -/
def Resumes (codec : Codec Hash Record) (dir : Directory) (snapshot : ChainSnapshot Hash) : Prop :=
  ∃ tail, tailAfter codec dir snapshot = .resume tail

variable {dir : Directory}

variable {checked : List (CheckedLine Record)} {final : LineCheck Hash}

end Claim

/-! ### A city of one line, with the snapshots of a longer one -/

def secondDigest : Bytes :=
  unhex "012361849f5b6cf5cefab33b9b113e4f548038df4852c964f0c686c9b2d36629".toList

def thirdLine : Bytes :=
  CityWire.ascii (CityWire.text (.fromDraft (.cityInitialized 0) ⟨2, Seq.two_fits⟩ secondDigest))

/-- The digests of three lines in a row. -/
def cityDigests : List (Bytes × Bytes) :=
  [(genesisLine, genesisDigest), (secondLine, secondDigest),
    (thirdLine,
      unhex "89e4efea6898d08726983c8eac6c7a4e9b868fd2bd9ab050301ffd6ab50a3937".toList)]

def cityCodec : Codec Bytes CityWire.CityRecord := (CityWire.wire cityDigests).toCodec

/-- How many records were folded, with no index. -/
def standing : SnapshotFold CityWire.CityRecord (Nat × Unit) :=
  keeping (fun folded _ => .ok (folded + 1)) (fun _ _ => .ok ()) cityCodec 1 (0, ())
    (fun bytes => .ok (bytes.length, ())) (fun folded => .ok (List.replicate folded.1 1))

def genesis : Bytes := genesisLine

def second : Bytes := secondLine

variable {lines : List Bytes} {final : LineCheck Bytes}

variable {checked : List (CheckedLine CityWire.CityRecord)}

variable (passes : Passes cityCodec (atGenesis cityCodec) lines checked final)

include passes

omit passes

def cityRecord (seq : Seq) (prev : Bytes) : CityWire.CityRecord :=
  .fromDraft (.cityInitialized 0) seq prev

def secondRecord : CityWire.CityRecord := cityRecord ⟨1, Seq.one_fits⟩ genesisDigest

end StartBoth

end Sprawling
