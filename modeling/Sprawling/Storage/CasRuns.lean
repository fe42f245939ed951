import Mathlib.Data.List.Induction
import Sprawling.Storage.Cas

/-! What every run of puts keeps: named objects hold their bytes, and the temp file of a put in
flight is its own. -/

namespace Sprawling

open List Digest FaultFs Text OrdMap
open OrdMap (get_erase)

namespace Cas

section Paths

theorem slash_not_mem_writeHex (bytes : Bytes) : '/' ∉ writeHex bytes := fun member =>
  absurd (mem_hexDigits_of_mem_writeHex member) (by decide)

theorem dot_not_mem_writeHex (bytes : Bytes) : '.' ∉ writeHex bytes := fun member =>
  absurd (mem_hexDigits_of_mem_writeHex member) (by decide)

theorem rsplit_object (hash : Bytes) :
    rsplitOnce '/' (objectPath hash) = some (shardDir hash, writeHex hash) :=
  rsplitOnce_eq_some.mpr ⟨rfl, slash_not_mem_writeHex hash⟩

theorem slash_not_mem_tmpName (hash : Bytes) (pid count : Nat) : '/' ∉ tmpName hash pid count := by
  have digits := not_mem_decimal (show '/'.isDigit = false by decide)
  simp only [tmpName, mem_append, mem_cons, not_or]
  exact ⟨slash_not_mem_writeHex hash, by decide, digits pid, by decide, digits count, by decide⟩

theorem rsplit_tmp (hash : Bytes) (pid count : Nat) :
    rsplitOnce '/' (tmpPath hash pid count) = some (tmpDir, tmpName hash pid count) :=
  rsplitOnce_eq_some.mpr ⟨rfl, slash_not_mem_tmpName hash pid count⟩

theorem parent_object (hash : Bytes) : parent (objectPath hash) = some (shardDir hash) := by
  rw [parent, rsplit_object]
  rfl

theorem parent_tmp (hash : Bytes) (pid count : Nat) : parent (tmpPath hash pid count) = some tmpDir := by
  rw [parent, rsplit_tmp]
  rfl

theorem objectPath_injective {first second : Bytes} (same : objectPath first = objectPath second) :
    first = second := by
  have sides := rsplit_object first
  rw [same, rsplit_object second, Option.some.injEq, Prod.mk.injEq] at sides
  exact writeHex_injective sides.2.symm

theorem shardDir_ne_tmpDir (hash : Bytes) : shardDir hash ≠ tmpDir := by
  intro same
  have first := congrArg List.head? same
  simp only [shardDir] at first
  revert first
  simp [tmpDir]

theorem tmpPath_ne_objectPath (hash other : Bytes) (pid count : Nat) :
    tmpPath hash pid count ≠ objectPath other := by
  intro same
  have parents := parent_tmp hash pid count
  rw [same, parent_object] at parents
  exact shardDir_ne_tmpDir other (Option.some.inj parents)

theorem append_mark_inj {mark : Char} {first second rest others : List Char} (clean : mark ∉ first)
    (other : mark ∉ second) (same : first ++ mark :: rest = second ++ mark :: others) :
    first = second ∧ rest = others := by
  have left : splitOnce mark (first ++ mark :: rest) = some (first, rest) :=
    Text.splitOnce_eq_some.mpr ⟨rfl, clean⟩
  rw [same, Text.splitOnce_eq_some.mpr ⟨rfl, other⟩, Option.some.injEq, Prod.mk.injEq] at left
  exact ⟨left.1.symm, left.2.symm⟩

theorem tmpPath_inj {hash other : Bytes} {pid pid' count count' : Nat}
    (same : tmpPath hash pid count = tmpPath other pid' count') : pid = pid' ∧ count = count' := by
  have sides := rsplit_tmp hash pid count
  rw [same, rsplit_tmp, Option.some.injEq, Prod.mk.injEq] at sides
  have names := append_mark_inj (dot_not_mem_writeHex other) (dot_not_mem_writeHex hash) sides.2
  have digits := not_mem_decimal (show '.'.isDigit = false by decide)
  have pids := append_mark_inj (digits pid') (digits pid) names.2
  have counts := append_cancel_right pids.2
  exact ⟨(decimal_injective pids.1).symm, (decimal_injective counts).symm⟩

end Paths

section Step

variable {blake3 : Bytes → Bytes}

/-- The stages at which a put owns the temp file of its name. -/
def Stage.named : Stage → Bool
  | .tidy | .reset | .fill | .syncData | .rename => true
  | _ => false

/-- What a put relies on at its stage: its temp file as it left it, unless another process has
swept it, and the object once it is renamed. -/
def Put.Holds (blake3 : Bytes → Bytes) (files : Disk) (put : Put) : Prop :=
  match put.stage with
  | .fill => ∀ file, files[put.tmp blake3]? = some file → file.live = []
  | .syncData => ∀ file, files[put.tmp blake3]? = some file → file.live = put.bytes
  | .rename =>
    ∀ file, files[put.tmp blake3]? = some file → file.live = put.bytes ∧ file.durable = put.bytes
  | .makeReadonly | .syncDir => (files[put.object blake3]?).isSome = true
  | _ => True

/-- The object path of one put taken by its temp file. -/
def placed (blake3 : Bytes → Bytes) (put : Put) (file : FileState) (files : Disk) : Disk :=
  (files.erase (put.tmp blake3)).insert (put.object blake3) { file with durableEntry := false }

/-- The entries of the shard of one put made durable. -/
def published (blake3 : Bytes → Bytes) (put : Put) (files : Disk) : Disk :=
  promoteIn (fun path => parent path = some (shardDir (put.hash blake3))) files

/-- What one operation of a put can do: to the disk, to the count of its process, to the put. -/
inductive Did (blake3 : Bytes → Bytes) (put : Put) (files : Disk) (begun : Nat)
    (failed : Option Nat) : Disk × Nat × Turn → Prop where
  | fails : Did blake3 put files begun failed (files, begun, .fails)
  | torn (at_ : put.stage = .fill) (landed : Nat) :
      Did blake3 put files begun failed
        (FaultFs.extend files (put.tmp blake3) (put.bytes.take landed), begun, .fails)
  | found (at_ : put.stage = .look) (plain : put.repair = false) {file : FileState}
      (present : files[put.object blake3]? = some file) :
      Did blake3 put files begun failed (files, begun, .answers)
  | intact (at_ : put.stage = .reread) (done : failed = none) {file : FileState}
      (present : files[put.object blake3]? = some file) :
      Did blake3 put files begun failed (files, begun, .answers)
  | passes (stage : Stage) (early : put.stage.named = false) (free : stage.named = false)
      (light : ∀ files, { put with stage }.Holds blake3 files) :
      Did blake3 put files begun failed (files, begun, .goes { put with stage })
  | names (at_ : put.stage = .name) :
      Did blake3 put files begun failed
        (files, begun + 1, .goes { put with stage := .tidy, count := begun })
  | occupied (at_ : put.stage = .tidy) :
      Did blake3 put files begun failed (files, begun, .goes { put with stage := .reset })
  | absent (at_ : put.stage = .tidy) (none : files[put.tmp blake3]? = none) :
      Did blake3 put files begun failed (files, begun, .goes { put with stage := .fill })
  | emptied (at_ : put.stage = .reset) (file : FileState) :
      Did blake3 put files begun failed
        (files.insert (put.tmp blake3) { file with live := resize file.live 0 }, begun,
          .goes { put with stage := .fill })
  | filled (at_ : put.stage = .fill) :
      Did blake3 put files begun failed
        (FaultFs.extend files (put.tmp blake3) put.bytes, begun, .goes { put with stage := .syncData })
  | synced (at_ : put.stage = .syncData) {file : FileState}
      (present : files[put.tmp blake3]? = some file) :
      Did blake3 put files begun failed
        (files.insert (put.tmp blake3) { file with durable := file.live }, begun,
          .goes { put with stage := .rename })
  | renamed (at_ : put.stage = .rename) (done : failed = none) {file : FileState}
      (present : files[put.tmp blake3]? = some file) :
      Did blake3 put files begun failed
        (placed blake3 put file files, begun, .goes { put with stage := .makeReadonly })
  | sealed (at_ : put.stage = .makeReadonly) (present : (files[put.object blake3]?).isSome = true) :
      Did blake3 put files begun failed (files, begun, .goes { put with stage := .syncDir })
  | publishes (at_ : put.stage = .syncDir) :
      Did blake3 put files begun failed (published blake3 put files, begun, .answers)

theorem step_did (put : Put) (files : Disk) (begun : Nat) (failed : Option Nat) :
    Did blake3 put files begun failed (put.step blake3 files begun failed) := by
  have light : ∀ stage : Stage, stage = .confirm ∨ stage = .reread ∨ stage = .createShard ∨
      stage = .name → ∀ files, { put with stage }.Holds blake3 files := by
    intro stage one files
    rcases one with rfl | rfl | rfl | rfl <;> trivial
  unfold Put.step
  cases at_ : put.stage with
  | look =>
    simp only
    cases present : files[put.object blake3]? with
    | none =>
      rw [Option.isSome_none, if_neg (by decide)]
      exact .passes .createShard (by rw [at_]; rfl) rfl (light _ (by simp))
    | some file =>
      rw [Option.isSome_some, if_pos rfl]
      by_cases repair : put.repair = true
      · rw [if_pos repair]
        exact .passes .confirm (by rw [at_]; rfl) rfl (light _ (by simp))
      · rw [if_neg repair]
        exact .found at_ (by simpa using repair) present
  | confirm =>
    simp only
    split
    · exact .passes .reread (by rw [at_]; rfl) rfl (light _ (by simp))
    · exact .fails
  | reread =>
    simp only
    cases failed with
    | some landed => exact .fails
    | none =>
      rw [Option.isSome_none, if_neg (by decide)]
      cases present : files[put.object blake3]? with
      | none => exact .fails
      | some file =>
        simp only
        split
        · exact .intact at_ rfl present
        · exact .passes .createShard (by rw [at_]; rfl) rfl (light _ (by simp))
  | createShard =>
    simp only
    split
    · exact .fails
    · exact .passes .name (by rw [at_]; rfl) rfl (light _ (by simp))
  | name => exact .names at_
  | tidy =>
    simp only
    cases present : files[put.tmp blake3]? with
    | none => exact .absent at_ present
    | some file => exact .occupied at_
  | reset =>
    simp only
    cases files[put.tmp blake3]? with
    | none => exact .fails
    | some file =>
      simp only
      split
      · exact .fails
      · exact .emptied at_ file
  | fill =>
    simp only
    cases failed with
    | some landed => exact .torn at_ landed
    | none => exact .filled at_
  | syncData =>
    simp only
    split
    · exact .fails
    · cases present : files[put.tmp blake3]? with
      | none => exact .fails
      | some file => exact .synced at_ present
  | rename =>
    simp only
    cases present : files[put.tmp blake3]? with
    | none => exact .fails
    | some file =>
      cases failed with
      | some landed => exact .fails
      | none => exact .renamed at_ rfl present
  | makeReadonly =>
    simp only
    split
    · next both =>
        rw [Bool.and_eq_true] at both
        exact .sealed at_ both.1
    · exact .fails
  | syncDir =>
    simp only
    split
    · exact .fails
    · exact .publishes at_

theorem tmp_ne_object (put other : Put) : put.tmp blake3 ≠ other.object blake3 :=
  tmpPath_ne_objectPath _ _ _ _

theorem get_extend_of_ne {files : Disk} {path other : FileName} (bytes : Bytes) (ne : path ≠ other) :
    (FaultFs.extend files path bytes)[other]? = files[other]? := by
  rw [FaultFs.extend, OrdMap.get_insert, if_neg ne]

variable {put : Put} {files : Disk} {begun : Nat} {failed : Option Nat} {done : Disk × Nat × Turn}

variable (did : Did blake3 put files begun failed done)

include did

theorem Did.tmp_frame (other : Put)
    (apart : put.stage.named = true → ¬ (put.pid = other.pid ∧ put.count = other.count)) :
    done.1[other.tmp blake3]? = files[other.tmp blake3]? := by
  have ne : put.stage.named = true → put.tmp blake3 ≠ other.tmp blake3 :=
    fun named same => apart named (tmpPath_inj same)
  cases did with
  | fails | found | intact | passes | names | occupied | absent | sealed => rfl
  | torn at_ landed => exact get_extend_of_ne _ (ne (by rw [at_]; rfl))
  | filled at_ => exact get_extend_of_ne _ (ne (by rw [at_]; rfl))
  | emptied at_ file => simp only [OrdMap.get_insert, if_neg (ne (by rw [at_]; rfl))]
  | synced at_ present => simp only [OrdMap.get_insert, if_neg (ne (by rw [at_]; rfl))]
  | renamed at_ _ present =>
    simp only [placed, OrdMap.get_insert, get_erase, if_neg (ne (by rw [at_]; rfl)),
      if_neg (tmp_ne_object other put).symm]
  | publishes at_ =>
    have elsewhere : ¬ parent (other.tmp blake3) = some (shardDir (put.hash blake3)) := by
      rw [Put.tmp, parent_tmp, Option.some.injEq]
      exact (shardDir_ne_tmpDir _).symm
    simp [published, elsewhere]

theorem Did.object_cases (hash : Bytes) :
    (put.stage = .rename ∧ failed = none ∧ hash = put.hash blake3 ∧
      ∃ file, files[put.tmp blake3]? = some file ∧
        done.1[objectPath hash]? = some { file with durableEntry := false }) ∨
    done.1[objectPath hash]? = files[objectPath hash]? ∨
    ∃ file, files[objectPath hash]? = some file ∧
      done.1[objectPath hash]? = some { file with durableEntry := true } := by
  have ne : put.tmp blake3 ≠ objectPath hash := tmpPath_ne_objectPath _ _ _ _
  cases did with
  | fails | found | intact | passes | names | occupied | absent | sealed => exact .inr (.inl rfl)
  | torn at_ landed => exact .inr (.inl (get_extend_of_ne _ ne))
  | filled at_ => exact .inr (.inl (get_extend_of_ne _ ne))
  | emptied at_ file =>
    right; left
    simp only [OrdMap.get_insert, if_neg ne]
  | synced at_ present =>
    right; left
    simp only [OrdMap.get_insert, if_neg ne]
  | renamed at_ finished present =>
    by_cases same : put.object blake3 = objectPath hash
    · left
      refine ⟨at_, finished, (objectPath_injective same).symm, _, present, ?_⟩
      simp only [placed, OrdMap.get_insert, if_pos same]
    · right; left
      simp only [placed, OrdMap.get_insert, get_erase, if_neg same, if_neg ne]
  | publishes at_ =>
    by_cases here : parent (objectPath hash) = some (shardDir (put.hash blake3))
    · cases present : files[objectPath hash]? with
      | none =>
        right; left
        simp [published, present]
      | some file =>
        right; right
        refine ⟨file, rfl, ?_⟩
        simp [published, present, here]
    · right; left
      simp [published, here]

theorem Did.present_of_answers (held : put.Holds blake3 files) (answers : done.2.2 = .answers) :
    ∃ file, done.1[put.object blake3]? = some file ∧
      (put.stage = .syncDir ∧ file.durableEntry = true ∨
        (put.stage = .look ∧ put.repair = false ∨ put.stage = .reread ∧ failed = none) ∧
          done.1 = files) := by
  cases did with
  | found at_ plain present => exact ⟨_, present, .inr ⟨.inl ⟨at_, plain⟩, rfl⟩⟩
  | intact at_ finished present => exact ⟨_, present, .inr ⟨.inr ⟨at_, finished⟩, rfl⟩⟩
  | publishes at_ =>
    simp only [Put.Holds, at_] at held
    rcases Option.isSome_iff_exists.mp held with ⟨file, present⟩
    refine ⟨{ file with durableEntry := true }, ?_, .inl ⟨at_, rfl⟩⟩
    have here : parent (put.object blake3) = some (shardDir (put.hash blake3)) := parent_object _
    simp [published, present, here]
  | fails | torn | passes | names | occupied | absent | emptied | filled | synced | renamed
  | sealed => cases answers

theorem Did.holds_of_goes {next : Put}
    (held : put.Holds blake3 files) (goes : done.2.2 = .goes next) : next.Holds blake3 done.1 := by
  cases did with
  | fails | torn | found | intact | publishes => cases goes
  | passes stage early free light =>
    cases goes
    exact light files
  | names at_ =>
    cases goes
    trivial
  | occupied at_ =>
    cases goes
    trivial
  | absent at_ none =>
    cases goes
    intro file present
    have gone : files[put.tmp blake3]? = some file := present
    rw [none] at gone
    cases gone
  | emptied at_ file =>
    cases goes
    intro other present
    have here : (files.insert (put.tmp blake3)
        { file with live := resize file.live 0 })[put.tmp blake3]? = some other := present
    rw [OrdMap.get_insert, if_pos rfl, Option.some.injEq] at here
    rw [← here]
    simp [resize]
  | filled at_ =>
    cases goes
    intro other present
    have here : (FaultFs.extend files (put.tmp blake3) put.bytes)[put.tmp blake3]? = some other :=
      present
    rw [FaultFs.extend, OrdMap.get_insert, if_pos rfl, Option.some.injEq] at here
    simp only [Put.Holds, at_] at held
    rw [← here, fileAt]
    show _ ++ put.bytes = put.bytes
    cases before : files[put.tmp blake3]? with
    | none => rfl
    | some file => rw [Option.getD_some, held file before, nil_append]
  | synced at_ found =>
    cases goes
    intro other present
    have here : (files.insert (put.tmp blake3) _)[put.tmp blake3]? = some other := present
    rw [OrdMap.get_insert, if_pos rfl, Option.some.injEq] at here
    simp only [Put.Holds, at_] at held
    have full := held _ found
    rw [← here]
    exact ⟨full, full⟩
  | renamed at_ finished found =>
    cases goes
    show ((placed blake3 put _ files)[put.object blake3]?).isSome = true
    rw [placed, OrdMap.get_insert, if_pos rfl]
    rfl
  | sealed at_ present =>
    cases goes
    exact present

theorem Did.goes_same {next : Put}
    (goes : done.2.2 = .goes next) :
    next.pid = put.pid ∧ next.bytes = put.bytes ∧ begun ≤ done.2.1 ∧
      (next.stage.named = true → (put.stage.named = true ∧ next.count = put.count) ∨
        (next.count = begun ∧ done.2.1 = begun + 1)) := by
  cases did with
  | fails | torn | found | intact | publishes => cases goes
  | passes stage early free light =>
    cases goes
    refine ⟨rfl, rfl, Nat.le_refl _, fun named => ?_⟩
    rw [show Stage.named _ = false from free] at named
    cases named
  | names at_ =>
    cases goes
    exact ⟨rfl, rfl, Nat.le_succ _, fun _ => .inr ⟨rfl, rfl⟩⟩
  | occupied at_ | absent at_ | emptied at_ | filled at_ | synced at_ =>
    cases goes
    exact ⟨rfl, rfl, Nat.le_refl _, fun _ => .inl ⟨by rw [at_]; rfl, rfl⟩⟩
  | renamed at_ | sealed at_ =>
    cases goes
    exact ⟨rfl, rfl, Nat.le_refl _, fun named => nomatch named⟩

theorem Did.begun_le : begun ≤ done.2.1 := by
  cases did with
  | names => exact Nat.le_succ _
  | fails | torn | found | intact | passes | occupied | absent | emptied | filled | synced | renamed
  | sealed | publishes => exact Nat.le_refl _

end Step

section Runs

variable {blake3 : Bytes → Bytes}

/-- What holds whatever puts did and however they failed. -/
structure Kept (blake3 : Bytes → Bytes) (world : World) : Prop where
  /-- A named object holds the bytes of its name, synced. -/
  objects : ∀ hash file, world.files[objectPath hash]? = some file →
    blake3 file.live = hash ∧ file.durable = file.live
  holds : ∀ handle put, world.puts handle = some put → put.Holds blake3 world.files
  counted : ∀ handle put, world.puts handle = some put → put.stage.named = true →
    put.count < world.begun put.pid
  apart : ∀ handle other put put', handle ≠ other → world.puts handle = some put →
    world.puts other = some put' → put.stage.named = true → put'.stage.named = true →
    ¬ (put.pid = put'.pid ∧ put.count = put'.count)

theorem kept_empty : Kept blake3 World.empty where
  objects := by
    intro hash file present
    simp [World.empty] at present
  holds := fun _ _ absent => nomatch absent
  counted := fun _ _ absent => nomatch absent
  apart := fun _ _ _ _ _ absent => nomatch absent

variable {put : Put} {files : Disk}

theorem holds_of_frame {later : Disk} (held : put.Holds blake3 files)
    (tmp : put.stage.named = true → ∀ file, later[put.tmp blake3]? = some file → files[put.tmp blake3]? = some file)
    (object : (files[put.object blake3]?).isSome = true → (later[put.object blake3]?).isSome = true) :
    put.Holds blake3 later := by
  unfold Put.Holds at held ⊢
  cases at_ : put.stage with
  | look | confirm | reread | createShard | name | tidy | reset => trivial
  | fill | syncData | rename =>
    rw [at_] at held
    exact fun file present => held file (tmp (by rw [at_]; rfl) file present)
  | makeReadonly | syncDir =>
    rw [at_] at held
    exact object held

variable {failed : Option Nat} {done : Disk × Nat × Turn} {begun : Nat}

theorem Did.object_stays (did : Did blake3 put files begun failed done) (hash : Bytes)
    (present : (files[objectPath hash]?).isSome = true) :
    (done.1[objectPath hash]?).isSome = true := by
  rcases did.object_cases hash with ⟨-, -, -, file, -, placed⟩ | same | ⟨file, -, kept⟩
  · rw [placed]
    rfl
  · rw [same]
    exact present
  · rw [kept]
    rfl

theorem Did.objects (did : Did blake3 put files begun failed done)
    (objects : ∀ hash file, files[objectPath hash]? = some file → blake3 file.live = hash ∧ file.durable = file.live)
    (held : put.Holds blake3 files) (hash : Bytes) (file : FileState)
    (present : done.1[objectPath hash]? = some file) :
    blake3 file.live = hash ∧ file.durable = file.live := by
  rcases did.object_cases hash with ⟨at_, -, rfl, tmp, found, placed⟩ | same | ⟨old, found, kept⟩
  · simp only [Put.Holds, at_] at held
    rw [placed, Option.some.injEq] at present
    rw [← present]
    have full := held tmp found
    exact ⟨congrArg blake3 full.1, full.2.trans full.1.symm⟩
  · rw [same] at present
    exact objects hash file present
  · rw [kept, Option.some.injEq] at present
    rw [← present]
    exact objects hash old found

theorem setPut_puts (world : World) (handle other : Nat) (put : Option Put) :
    (world.setPut handle put).puts other = if other = handle then put else world.puts other := rfl

theorem stepPut_eq (blake3 : Bytes → Bytes) (world : World) (handle : Nat) (put : Put) (failed : Option Nat) :
    let done := put.step blake3 world.files (world.begun put.pid) failed
    (world.stepPut blake3 handle put failed).files = done.1 ∧
    ((world.stepPut blake3 handle put failed).begun = fun pid =>
      if pid = put.pid then done.2.1 else world.begun pid) ∧
    (∀ other put', (world.stepPut blake3 handle put failed).puts other = some put' →
      (other = handle ∧ done.2.2 = .goes put') ∨ (other ≠ handle ∧ world.puts other = some put')) ∧
    ((world.stepPut blake3 handle put failed).answered = world.answered ∧ done.2.2 ≠ .answers ∨
      (world.stepPut blake3 handle put failed).answered =
        (put.hash blake3, put.bytes) :: world.answered ∧ done.2.2 = .answers) := by
  intro done
  unfold World.stepPut
  simp only [show put.step blake3 world.files (world.begun put.pid) failed = done from rfl]
  cases turn : done.2.2 with
  | goes next =>
    refine ⟨rfl, rfl, fun other put' held => ?_, .inl ⟨rfl, nofun⟩⟩
    simp only [setPut_puts] at held
    split at held
    · next same =>
        cases held
        exact .inl ⟨same, rfl⟩
    · next other => exact .inr ⟨other, held⟩
  | answers =>
    refine ⟨rfl, rfl, fun other put' held => ?_, .inr ⟨rfl, rfl⟩⟩
    simp only [setPut_puts] at held
    split at held
    · cases held
    · next other => exact .inr ⟨other, held⟩
  | fails =>
    refine ⟨rfl, rfl, fun other put' held => ?_, .inl ⟨rfl, nofun⟩⟩
    simp only [setPut_puts] at held
    split at held
    · cases held
    · next other => exact .inr ⟨other, held⟩

variable {world : World} {handle : Nat} (kept : Kept blake3 world)

include kept

theorem kept_stepPut (flying : world.puts handle = some put) :
    Kept blake3 (world.stepPut blake3 handle put failed) := by
  have did : Did blake3 put world.files (world.begun put.pid) failed _ := step_did _ _ _ _
  have held := kept.holds handle put flying
  rcases stepPut_eq blake3 world handle put failed with ⟨files, begun, puts, -⟩
  generalize put.step blake3 world.files (world.begun put.pid) failed = done at did files begun puts
  have grown : ∀ pid, world.begun pid ≤ (world.stepPut blake3 handle put failed).begun pid := by
    intro pid
    rw [begun]
    simp only
    split
    · next same => exact same ▸ did.begun_le
    · exact Nat.le_refl _
  constructor
  · rw [files]
    exact did.objects kept.objects held
  · intro other put' flying'
    rw [files]
    rcases puts other put' flying' with ⟨-, goes⟩ | ⟨different, before⟩
    · exact did.holds_of_goes held goes
    · apply holds_of_frame (kept.holds other put' before)
      · intro named file present
        rw [did.tmp_frame put' fun mine =>
          kept.apart handle other put put' (Ne.symm different) flying before mine named] at present
        exact present
      · exact did.object_stays _
  · intro other put' flying' named
    rcases puts other put' flying' with ⟨-, goes⟩ | ⟨-, before⟩
    · rcases did.goes_same goes with ⟨pid, -, -, count⟩
      rw [begun]
      simp only [pid, if_true]
      rcases count named with ⟨mine, same⟩ | ⟨same, next⟩
      · rw [same]
        exact Nat.lt_of_lt_of_le (kept.counted handle put flying mine) did.begun_le
      · rw [same, next]
        exact Nat.lt_succ_self _
    · exact Nat.lt_of_lt_of_le (kept.counted other put' before named) (grown _)
  · -- A name just taken is above every count of its process.
    have fresh : ∀ other put' next, other ≠ handle → world.puts other = some put' →
        put'.stage.named = true → done.2.2 = .goes next → next.stage.named = true →
        ¬ (next.pid = put'.pid ∧ next.count = put'.count) := by
      intro other put' next different before named goes mine same
      rcases did.goes_same goes with ⟨pid, -, -, count⟩
      rcases count mine with ⟨earlier, unchanged⟩ | ⟨taken, -⟩
      · exact kept.apart handle other put put' (Ne.symm different) flying before earlier named
          ⟨pid.symm.trans same.1, unchanged.symm.trans same.2⟩
      · have below := kept.counted other put' before named
        rw [← same.1, ← same.2, pid, taken] at below
        exact Nat.lt_irrefl _ below
    intro first second put₁ put₂ different flying₁ flying₂ named₁ named₂ same
    rcases puts first put₁ flying₁ with ⟨rfl, goes₁⟩ | ⟨away₁, before₁⟩
    · rcases puts second put₂ flying₂ with ⟨rfl, goes₂⟩ | ⟨away₂, before₂⟩
      · exact different rfl
      · exact fresh second put₂ put₁ away₂ before₂ named₂ goes₁ named₁ same
    · rcases puts second put₂ flying₂ with ⟨rfl, goes₂⟩ | ⟨away₂, before₂⟩
      · exact fresh first put₁ put₂ away₁ before₁ named₁ goes₂ named₂ ⟨same.1.symm, same.2.symm⟩
      · exact kept.apart first second put₁ put₂ different before₁ before₂ named₁ named₂ same

theorem kept_sweep {leftover : FileName}
    (tmp : parent leftover = some tmpDir) :
    Kept blake3 { world with files := world.files.erase leftover } := by
  have ne : ∀ hash, leftover ≠ objectPath hash := by
    intro hash same
    rw [same, parent_object, Option.some.injEq] at tmp
    exact shardDir_ne_tmpDir hash tmp
  refine ⟨fun hash file present => ?_, fun handle put flying => ?_, kept.counted, kept.apart⟩
  · simp only [get_erase, if_neg (ne hash)] at present
    exact kept.objects hash file present
  · apply holds_of_frame (kept.holds handle put flying)
    · intro _ file present
      rw [get_erase] at present
      split at present
      · cases present
      · exact present
    · intro present
      rw [get_erase, if_neg (show leftover ≠ put.object blake3 from ne _)]
      exact present

theorem kept_exit (pid : Nat) :
    Kept blake3 (world.apply blake3 (.exit pid)) := by
  have alive : ∀ handle put, ((world.puts handle).filter fun put => put.pid ≠ pid) = some put →
      world.puts handle = some put ∧ put.pid ≠ pid := by
    intro handle put found
    rw [Option.filter_eq_some_iff] at found
    exact ⟨found.1, by simpa using found.2⟩
  refine ⟨kept.objects, fun handle put flying => ?_, fun handle put flying named => ?_,
    fun handle other put put' different flying flying' => ?_⟩
  · exact kept.holds handle put (alive handle put flying).1
  · show put.count < if put.pid = pid then 0 else world.begun put.pid
    rw [if_neg (alive handle put flying).2]
    exact kept.counted handle put (alive handle put flying).1 named
  · exact kept.apart handle other put put' different (alive handle put flying).1
      (alive other put' flying').1

theorem kept_cut (torn : Nat) :
    Kept blake3 (world.apply blake3 (.cut torn)) := by
  refine ⟨fun hash file present => ?_, fun _ _ absent => (nomatch absent),
    fun _ _ absent => (nomatch absent), fun _ _ _ _ _ absent => (nomatch absent)⟩
  simp only [World.apply, get_cut, Option.map_eq_some_iff, Option.filter_eq_some_iff] at present
  rcases present with ⟨before, ⟨found, -⟩, rfl⟩
  have whole := kept.objects hash before found
  rw [settle_synced torn whole.2]
  exact whole

variable {bytes : Bytes}

theorem kept_put {pid : Nat} {repair : Bool} :
    Kept blake3 (world.setPut handle (some { pid, bytes, repair, stage := .look, count := 0 })) := by
  have flying : ∀ other put, (world.setPut handle
      (some { pid, bytes, repair, stage := .look, count := 0 })).puts other = some put →
        put.stage = .look ∨ world.puts other = some put := by
    intro other put held
    rw [setPut_puts] at held
    split at held
    · cases held
      exact .inl rfl
    · exact .inr held
  have unnamed : ∀ put : Put, put.stage = .look → put.stage.named = true → False := by
    intro put at_ named
    rw [at_] at named
    cases named
  refine ⟨kept.objects, fun other put held => ?_, fun other put held named => ?_,
    fun first second put put' different held held' named named' => ?_⟩
  · rcases flying other put held with at_ | before
    · simp only [Put.Holds, at_]
    · exact kept.holds other put before
  · rcases flying other put held with at_ | before
    · exact (unnamed put at_ named).elim
    · exact kept.counted other put before named
  · rcases flying first put held with at_ | before
    · exact (unnamed put at_ named).elim
    · rcases flying second put' held' with at_ | before'
      · exact (unnamed put' at_ named').elim
      · exact kept.apart first second put put' different before before' named named'

theorem kept_apply (event : Event) :
    Kept blake3 (world.apply blake3 event) := by
  cases event with
  | put handle pid bytes repair =>
    simp only [World.apply]
    cases world.puts handle with
    | some _ => exact kept
    | none => exact kept_put kept
  | step handle failed =>
    simp only [World.apply]
    cases flying : world.puts handle with
    | none => exact kept
    | some put => exact kept_stepPut kept flying
  | sweep pid leftover =>
    simp only [World.apply]
    split
    · next swept => exact kept_sweep kept swept.1
    · exact kept
  | exit pid => exact kept_exit kept pid
  | cut torn => exact kept_cut kept torn

omit kept

theorem after_concat (events : List Event) (event : Event) :
    World.after blake3 (events ++ [event]) = (World.after blake3 events).apply blake3 event := by
  rw [World.after, foldl_append]
  rfl

theorem kept_after (events : List Event) : Kept blake3 (World.after blake3 events) := by
  induction events using List.reverseRecOn with
  | nil => exact kept_empty
  | append_singleton events event ih =>
    rw [after_concat]
    exact kept_apply ih event

/-- What the store promises: whatever a put answered for reads back as its bytes, now and after
power loss, and no object reads as corrupt. -/
structure Durable (blake3 : Bytes → Bytes) (world : World) : Prop where
  reads : ∀ hash bytes, (hash, bytes) ∈ world.answered → get blake3 world.files hash = .ok bytes
  survives : ∀ hash bytes, (hash, bytes) ∈ world.answered → ∀ torn,
    get blake3 (FaultFs.cut torn world.files) hash = .ok bytes
  honest : ∀ hash path, get blake3 world.files hash ≠ .error (.casCorrupt (writeHex hash) path)
  honest_cut : ∀ hash path torn, get blake3 (FaultFs.cut torn world.files) hash ≠
    .error (.casCorrupt (writeHex hash) path)

/-- A step that answers from an object already there finds its entry durable, and no step renames
over an object that was answered for. -/
def Careful (blake3 : Bytes → Bytes) (world : World) : Event → Prop
  | .step handle failed => ∀ put, world.puts handle = some put →
      ((put.stage = .look ∧ put.repair = false ∨ put.stage = .reread ∧ failed = none) →
        ∀ file, world.files[put.object blake3]? = some file → file.durableEntry = true) ∧
      (put.stage = .rename → failed = none → (world.files[put.tmp blake3]?).isSome = true →
        (put.hash blake3, put.bytes) ∉ world.answered)
  | _ => True

/-- Whatever was answered for is there, with a durable entry. -/
def Acked (blake3 : Bytes → Bytes) (world : World) : Prop :=
  ∀ hash bytes, (hash, bytes) ∈ world.answered →
    hash = blake3 bytes ∧
      ∃ file, world.files[objectPath hash]? = some file ∧ file.durableEntry = true

variable {hash : Bytes} {file : FileState}

theorem get_of_present (present : files[objectPath hash]? = some file)
    (named : blake3 file.live = hash) : get blake3 files hash = .ok file.live := by
  rw [get, present]
  simp only [named, ne_eq, not_true_eq_false, if_false]

theorem get_not_corrupt
    (named : ∀ file, files[objectPath hash]? = some file → blake3 file.live = hash)
    (path : FileName) :
    get blake3 files hash ≠ .error (.casCorrupt (writeHex hash) path) := by
  cases present : files[objectPath hash]? with
  | none =>
    rw [get, present]
    simp
  | some file =>
    rw [get_of_present present (named file present)]
    simp

theorem durable_of_acked (injective : Function.Injective blake3) (kept : Kept blake3 world)
    (acked : Acked blake3 world) : Durable blake3 world := by
  have cut := fun torn => kept_cut kept torn
  have live : ∀ hash bytes, (hash, bytes) ∈ world.answered → ∃ file,
      world.files[objectPath hash]? = some file ∧ file.durableEntry = true ∧
        file.live = bytes ∧ file.durable = file.live := by
    intro hash bytes answered
    rcases acked hash bytes answered with ⟨rfl, file, present, entry⟩
    have whole := kept.objects _ file present
    exact ⟨file, present, entry, injective whole.1, whole.2⟩
  refine ⟨fun hash bytes answered => ?_, fun hash bytes answered torn => ?_,
    fun hash => get_not_corrupt fun file present => (kept.objects hash file present).1,
    fun hash path torn =>
      get_not_corrupt (fun file present => ((cut torn).objects hash file present).1) path⟩
  · rcases live hash bytes answered with ⟨file, present, -, rfl, -⟩
    exact get_of_present present (kept.objects hash file present).1
  · rcases live hash bytes answered with ⟨file, present, entry, rfl, synced⟩
    have after : (FaultFs.cut torn world.files)[objectPath hash]? = some file := by
      simp [present, Option.filter, entry, settle_synced torn synced]
    exact get_of_present after (kept.objects hash file present).1

theorem acked_stepPut (injective : Function.Injective blake3) (kept : Kept blake3 world)
    (acked : Acked blake3 world) (flying : world.puts handle = some put)
    (careful : Careful blake3 world (.step handle failed)) :
    Acked blake3 (world.stepPut blake3 handle put failed) := by
  have did : Did blake3 put world.files (world.begun put.pid) failed _ := step_did _ _ _ _
  have held := kept.holds handle put flying
  rcases careful put flying with ⟨found, over_⟩
  rcases stepPut_eq blake3 world handle put failed with ⟨files, -, -, answered⟩
  generalize put.step blake3 world.files (world.begun put.pid) failed = done at did files answered
  have earlier : ∀ hash bytes, (hash, bytes) ∈ world.answered → hash = blake3 bytes ∧
      ∃ file, done.1[objectPath hash]? = some file ∧ file.durableEntry = true := by
    intro hash bytes member
    rcases acked hash bytes member with ⟨named, file, present, entry⟩
    refine ⟨named, ?_⟩
    rcases did.object_cases hash with ⟨at_, finished, same, tmp, there, -⟩ | same | ⟨old, -, kept⟩
    · have bytes_eq : bytes = put.bytes := injective (named.symm.trans same)
      rw [same, bytes_eq] at member
      exact absurd member (over_ at_ finished (by rw [there]; rfl))
    · exact ⟨file, same ▸ present, entry⟩
    · exact ⟨_, kept, rfl⟩
  intro hash bytes member
  rw [files]
  rcases answered with ⟨same, -⟩ | ⟨same, answers⟩
  · rw [same] at member
    exact earlier hash bytes member
  · rw [same] at member
    rcases mem_cons.mp member with new | old
    · cases new
      refine ⟨rfl, ?_⟩
      rcases did.present_of_answers held answers with ⟨file, present, ⟨-, entry⟩ | ⟨dedup, same⟩⟩
      · exact ⟨file, present, entry⟩
      · exact ⟨file, present, found dedup file (same ▸ present)⟩
    · exact earlier hash bytes old

variable {event : Event}

theorem acked_apply (injective : Function.Injective blake3)
    (kept : Kept blake3 world) (acked : Acked blake3 world) (careful : Careful blake3 world event) :
    Acked blake3 (world.apply blake3 event) := by
  cases event with
  | put handle pid bytes repair =>
    simp only [World.apply]
    cases world.puts handle <;> exact acked
  | step handle failed =>
    simp only [World.apply]
    cases flying : world.puts handle with
    | none => exact acked
    | some put => exact acked_stepPut injective kept acked flying careful
  | sweep pid leftover =>
    simp only [World.apply]
    split
    · next swept =>
        intro hash bytes member
        rcases acked hash bytes member with ⟨named, file, present, entry⟩
        refine ⟨named, file, ?_, entry⟩
        rw [get_erase, if_neg]
        · exact present
        · intro same
          rw [same, parent_object, Option.some.injEq] at swept
          exact shardDir_ne_tmpDir hash swept.1
    · exact acked
  | exit pid => exact acked
  | cut torn =>
    intro hash bytes member
    rcases acked hash bytes member with ⟨named, file, present, entry⟩
    refine ⟨named, file, ?_, entry⟩
    have synced := (kept.objects hash file present).2
    simp [World.apply, present, Option.filter, entry, settle_synced torn synced]

theorem entry_of_survives {torn : Nat}
    (present : files[objectPath hash]? = some file)
    (survived : get blake3 (FaultFs.cut torn files) hash = .ok bytes) :
    file.durableEntry = true := by
  cases entry : file.durableEntry with
  | true => rfl
  | false =>
    have gone : (FaultFs.cut torn files)[objectPath hash]? = none := by
      simp [present, Option.filter, entry]
    rw [get, gone] at survived
    cases survived

theorem careful_of_durable (kept : Kept blake3 world)
    (durable : Durable blake3 (world.apply blake3 event)) : Careful blake3 world event := by
  cases event with
  | put | sweep | exit | cut => trivial
  | step handle failed =>
    intro put flying
    have step : world.apply blake3 (.step handle failed) =
        world.stepPut blake3 handle put failed := by
      simp only [World.apply, flying]
    rw [step] at durable
    rcases stepPut_eq blake3 world handle put failed with ⟨files, -, -, answered⟩
    constructor
    · intro dedup file present
      have answers : put.step blake3 world.files (world.begun put.pid) failed =
          (world.files, world.begun put.pid, .answers) := by
        unfold Put.step
        rcases dedup with ⟨at_, plain⟩ | ⟨at_, finished⟩
        · simp [at_, present, plain]
        · have named : blake3 file.live = put.hash blake3 := (kept.objects _ file present).1
          simp [at_, finished, present, named]
      rw [answers] at files answered
      rcases answered with ⟨-, impossible⟩ | ⟨same, -⟩
      · exact absurd rfl impossible
      · have survived := durable.survives (put.hash blake3) put.bytes
          (by rw [same]; exact mem_cons_self) 0
        rw [files] at survived
        exact entry_of_survives present survived
    · intro at_ finished there member
      rcases Option.isSome_iff_exists.mp there with ⟨file, present⟩
      have placing : put.step blake3 world.files (world.begun put.pid) failed =
          (placed blake3 put file world.files, world.begun put.pid,
            .goes { put with stage := .makeReadonly }) := by
        unfold Put.step
        simp [at_, present, finished, placed]
      rw [placing] at files answered
      rcases answered with ⟨same, -⟩ | ⟨-, impossible⟩
      · have survived := durable.survives (put.hash blake3) put.bytes (by rw [same]; exact member) 0
        have here : (placed blake3 put file world.files)[put.object blake3]? =
            some { file with durableEntry := false } := by
          rw [placed, OrdMap.get_insert, if_pos rfl]
        rw [files] at survived
        exact absurd (entry_of_survives here survived) Bool.false_ne_true
      · cases impossible

/-- A run keeps the store's promise at every point exactly when each of its steps is careful. -/
theorem run_durable_iff (injective : Function.Injective blake3) (events : List Event) :
    (∀ early, early <+: events → Durable blake3 (World.after blake3 early)) ↔
      ∀ early event, early ++ [event] <+: events →
        Careful blake3 (World.after blake3 early) event := by
  constructor
  · intro durable early event within
    apply careful_of_durable (kept_after early)
    rw [← after_concat]
    exact durable _ within
  · intro careful early
    suffices acked : early <+: events → Acked blake3 (World.after blake3 early) from
      fun within => durable_of_acked injective (kept_after early) (acked within)
    induction early using List.reverseRecOn with
    | nil =>
      intro _ hash bytes member
      cases member
    | append_singleton early event ih =>
      intro within
      rw [after_concat]
      exact acked_apply injective (kept_after early)
        (ih ((prefix_append early [event]).trans within)) (careful early event within)

end Runs

/-! ### A put whose last barrier fails, and the same bytes put again -/

def abcBytes : Bytes := [97, 98, 99]

def abcDigest : Bytes :=
  (decodeHex "6437b3ac38465133ffb63b75273a8db548c558465d79db03fd359c6cd5bd9d85".toList).getD []

def abcHash : Bytes → Bytes := tabled [(abcBytes, abcDigest)]

/-- A put up to the barrier of its shard, which is refused, and a second put. -/
def refusedBarrier : List Event :=
  [.put 0 1 abcBytes false, .step 0 none, .step 0 none, .step 0 none, .step 0 none, .step 0 none,
    .step 0 none, .step 0 none, .step 0 none, .step 0 (some 0), .put 0 1 abcBytes false,
    .step 0 none]

theorem run_durable_iff_refusedBarrier :
    (∀ early, early <+: refusedBarrier → Durable abcHash (World.after abcHash early)) ↔
      ∀ early event, early ++ [event] <+: refusedBarrier →
        Careful abcHash (World.after abcHash early) event :=
  run_durable_iff (tabled_injective (by decide +kernel)) refusedBarrier

/-- The second put finds the object and answers; power loss then takes the object. -/
theorem refusedBarrier_loses_object :
    Function.Injective abcHash ∧
      (abcDigest, abcBytes) ∈ (World.after abcHash refusedBarrier).answered ∧
        get abcHash (FaultFs.cut 0 (World.after abcHash refusedBarrier).files) abcDigest =
          .error (.casMissing (writeHex abcDigest)) := by
  exact ⟨tabled_injective (by decide +kernel), by decide +kernel, by decide +kernel⟩

end Cas

end Sprawling
