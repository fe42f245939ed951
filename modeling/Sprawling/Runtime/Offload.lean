import Mathlib.Data.List.Induction
import Sprawling.Base.Utf8
import Sprawling.Kernel.Locator
import Sprawling.Storage.Cas

/-! The shared shrink primitive: the original is pinned in the content store and written out as a
rest file a model can keep reading from, under the room it was made in. -/

namespace Sprawling

open List

namespace Offload

open Effect

/-- The directory inside the room that holds materialized rest files. -/
def restDir : List Char := ".rest".toList

/-- The rest files of a room, by their city addresses. -/
abbrev RestFiles := OrdMap (List Char) Bytes

/-- What the disk does with one call: which step is refused, if one is, and what a refused write
leaves. A process that ends partway leaves what a refusal there does. -/
structure Trouble where
  /-- The content store refuses the block. -/
  put : Option StorageError
  /-- The content store's files, when a block is asked for. -/
  store : Cas.Disk
  createDir : Option String
  /-- The write is refused; `some n` when the file was created and took `n` bytes. -/
  write : Option (String × Option Nat)
  /-- Making the file read-only is refused. -/
  readonly : Option String

/-- A step of the room's rest directory. -/
abbrev RestStep := Effect AxError RestFiles

structure Tee where
  original : Locator
  restPath : List Char

structure OffloadRecord where
  substitute : Bytes
  original : Locator
  restPath : List Char
  originalLen : Nat

def restFileName (locator : Locator) : List Char :=
  let tail := (locator.display.reverse.take 16).reverse.filter Char.isAlphanum
  "rest-".toList ++ tail ++ ".dat".toList

/-- The rest file's city address. -/
def restPath (room : Address) (locator : Locator) : List Char :=
  room.text ++ '/' :: restDir ++ '/' :: restFileName locator

def hintLine (total : Nat) (restPath : List Char) (locator : Locator) : List Char :=
  "\n[offloaded: total ".toList ++ Text.decimal total ++ " bytes; rest at ".toList ++ restPath
    ++ "; original ".toList ++ locator.display ++ "]".toList

def notMaterialized (err : String) : AxError :=
  .failure .storageFatal "materialize rest file" err
    "free space on the disk holding the city, or fix the permissions of the run's environment directory, then ask for the result again"

/-- Writes the rest file unless one stands there. -/
def materialize (trouble : Trouble) (bytes : Bytes) (path : List Char) : RestStep Unit := do
  let files ← look
  if (files[path]?).isSome then pure ()
  else
    match trouble.createDir with
    | some err => refuse (notMaterialized err)
    | none =>
      match trouble.write with
      | some (err, none) => refuse (notMaterialized err)
      | some (err, some landed) => do
          update fun files => files.insert path (bytes.take landed)
          refuse (notMaterialized err)
      | none => do
          update fun files => files.insert path bytes
          match trouble.readonly with
          | some err => refuse (notMaterialized err)
          | none => pure ()

section Site

variable (blake3 : Bytes → B3Hash) (intoAx : StorageError → AxError) (room : Address)

def materialized (trouble : Trouble) (bytes : Bytes) (locator : Locator) :
    RestStep (List Char) := do
  materialize trouble bytes (restPath room locator)
  pure (restPath room locator)

/-- Pins the full original before anything is cut from it. -/
def tee (trouble : Trouble) (bytes : Bytes) : RestStep Tee :=
  match trouble.put with
  | some err => refuse (intoAx err)
  | none => do
      let original := Locator.cas (blake3 bytes) none
      let restPath ← materialized room trouble bytes original
      pure { original, restPath }

def refusedOffload (subject recovery : String) : AxError :=
  .failure .invalidArgs "offload result" subject recovery

/-- Shrinks `bytes` to at most `cap` bytes. -/
def offload (trouble : Trouble) (bytes : Bytes) (cap : UInt64) : RestStep OffloadRecord :=
  if bytes.length ≥ 2 ^ 64 then
    refuse (refusedOffload "length exceeds u64"
      "ask the tool for less at a time: this result is larger than a byte count this city can hold")
  else if bytes.length ≤ cap.toNat then
    refuse (refusedOffload "lossless input: only lossy transforms store (invariant 3)"
      "pass this result through unchanged; it already fits the cap, and offload stores only what it has to cut")
  else do
    let teed ← tee blake3 intoAx room trouble bytes
    let hint := hintLine bytes.length teed.restPath teed.original
    let hintLen := Utf8.byteLen hint
    if cap.toNat < hintLen then
      refuse (refusedOffload s!"cap {cap} cannot even hold the {hintLen}-byte hint"
        "raise the cap or skip offload for this result")
    else
      let substitute := bytes.take (min (cap.toNat - hintLen) bytes.length) ++ Utf8.encode hint
      if substitute.length > cap.toNat ∨ substitute.length > bytes.length then
        refuse (refusedOffload "substitute outgrew its bounds (invariant 2)"
          "report this against runtime::offload: the shortened result must stay within both the cap and the original length, and it did not")
      else
        pure {
          substitute
          original := teed.original
          restPath := teed.restPath
          originalLen := bytes.length }

/-- What the content store reads back, proved against its address. -/
def fetched (trouble : Trouble) (hash : B3Hash) : Except StorageError Bytes :=
  Cas.get (fun bytes => (blake3 bytes).bytes) trouble.store hash.bytes

/-- Restores the rest file from the content store after external cleanup. -/
def rematerialize (trouble : Trouble) (locator : Locator) : RestStep (List Char) :=
  match locator with
  | .cas hash _ =>
    match fetched blake3 trouble hash with
    | .error err => refuse (intoAx err)
    | .ok bytes => materialized room trouble bytes locator
  | .file _ _ _ =>
    refuse (.failure .invalidArgs "rematerialize rest file" "locator is not cas-addressed"
      "pass the `cas:` locator the offload record carries under `original`; a `file:` locator names a path that cleanup already removed")

/-- A call on the room's rest directory. -/
inductive Call where
  | tee (bytes : Bytes)
  | offload (bytes : Bytes) (cap : UInt64)
  | rematerialize (locator : Locator)

/-- The rest path a call answers with. -/
def Call.run (trouble : Trouble) : Call → RestStep (List Char)
  | .tee bytes => do
      let teed ← Offload.tee blake3 intoAx room trouble bytes
      pure teed.restPath
  | .offload bytes cap => do
      let record ← Offload.offload blake3 intoAx room trouble bytes cap
      pure record.restPath
  | .rematerialize locator => Offload.rematerialize blake3 intoAx room trouble locator

/-- The original text a call writes out, and its locator, where the call gets as far as its rest
file. -/
def Call.due (trouble : Trouble) : Call → Option (Locator × Bytes)
  | .tee bytes => if trouble.put = none then some (.cas (blake3 bytes) none, bytes) else none
  | .offload bytes cap =>
    if bytes.length < 2 ^ 64 ∧ cap.toNat < bytes.length ∧ trouble.put = none then
      some (.cas (blake3 bytes) none, bytes)
    else none
  | .rematerialize (.cas hash range) =>
    (fetched blake3 trouble hash).toOption.map fun bytes => (.cas hash range, bytes)
  | .rematerialize (.file _ _ _) => none

/-- Whether the answer has room for the line that names the rest file. -/
def Call.roomy (path : List Char) (locator : Locator) : Call → Bool
  | .offload bytes cap =>
    Utf8.byteLen (hintLine bytes.length path locator) ≤ cap.toNat
  | _ => true

/-- The room's rest files, and the rest paths answered so far, each with the call's text. -/
structure World where
  files : RestFiles
  answered : List (List Char × Bytes)

namespace World

def empty : World := ⟨∅, []⟩

def apply (world : World) (event : Call × Trouble) : World :=
  match run (event.1.run blake3 intoAx room event.2) world.files with
  | (.ok path, files) =>
    { files
      answered := (path, ((event.1.due blake3 event.2).map Prod.snd).getD []) :: world.answered }
  | (.error _, files) => { world with files }

def after (events : List (Call × Trouble)) : World := events.foldl (apply blake3 intoAx room) empty

end World

/-- Every rest path answered so far holds exactly the bytes of its call's text. -/
def Right (world : World) : Prop :=
  ∀ path text, (path, text) ∈ world.answered → world.files[path]? = some text

/-- The files answered so far stay as they were. -/
def Steady (world later : World) : Prop :=
  ∀ path text, (path, text) ∈ world.answered → later.files[path]? = world.files[path]?

/-- A call that goes through finds no file at its rest path with other bytes than its text's. -/
def Clear (world : World) (event : Call × Trouble) : Prop :=
  ∀ locator text, event.1.due blake3 event.2 = some (locator, text) →
    event.1.roomy (restPath room locator) locator = true →
      ∀ held, world.files[restPath room locator]? = some held → held = text

end Site

section Materialize

variable {trouble : Trouble} {bytes : Bytes} {path : List Char} {files : RestFiles}

variable {held : Bytes}

theorem materialize_present (present : files[path]? = some held) :
    run (materialize trouble bytes path) files = (.ok (), files) := by
  rw [materialize, run_bind, run_look]
  simp only [present, Option.isSome_some, if_true]
  rfl

theorem materialize_absent (absent : files[path]? = none) :
    run (materialize trouble bytes path) files = (.ok (), files.insert path bytes) ∨
      ∃ err, run (materialize trouble bytes path) files = (.error err, files) ∨
        ∃ left, run (materialize trouble bytes path) files = (.error err, files.insert path left) := by
  unfold materialize
  rw [run_bind, run_look]
  simp only [absent, Option.isSome_none, Bool.false_eq_true, if_false]
  cases trouble.createDir with
  | some err => exact .inr ⟨_, .inl rfl⟩
  | none =>
    cases trouble.write with
    | none =>
      cases trouble.readonly with
      | none => exact .inl rfl
      | some err => exact .inr ⟨_, .inr ⟨_, rfl⟩⟩
    | some refused =>
      obtain ⟨err, left⟩ := refused
      cases left with
      | none => exact .inr ⟨_, .inl rfl⟩
      | some landed => exact .inr ⟨_, .inr ⟨_, rfl⟩⟩

theorem materialize_frame {other : List Char} (stands : files[other]? = some held) :
    (run (materialize trouble bytes path) files).2[other]? = some held := by
  cases here : files[path]? with
  | some kept => rw [materialize_present here, stands]
  | none =>
    have apart : path ≠ other := fun same => by
      rw [same, stands] at here
      cases here
    rcases @materialize_absent trouble bytes _ _ here with done | ⟨err, done | ⟨left, done⟩⟩
    · rw [done, OrdMap.get_insert, if_neg apart, stands]
    · rw [done, stands]
    · rw [done, OrdMap.get_insert, if_neg apart, stands]

theorem materialize_ok {after : RestFiles}
    (answered : run (materialize trouble bytes path) files = (.ok (), after)) :
    after[path]? = some ((files[path]?).getD bytes) := by
  cases here : files[path]? with
  | some kept =>
    rw [materialize_present here] at answered
    cases answered
    rw [here, Option.getD_some]
  | none =>
    rcases @materialize_absent trouble bytes _ _ here with done | ⟨err, done | ⟨left, done⟩⟩
    · rw [done] at answered
      cases answered
      rw [OrdMap.get_insert, if_pos rfl, Option.getD_none]
    · rw [done] at answered
      cases answered
    · rw [done] at answered
      cases answered

end Materialize

section Calls

variable {blake3 : Bytes → B3Hash} {intoAx : StorageError → AxError} {room : Address}
variable {trouble : Trouble} {call : Call} {files : RestFiles}

theorem run_materialized (bytes : Bytes) (locator : Locator) :
    run (materialized room trouble bytes locator) files =
      ((run (materialize trouble bytes (restPath room locator)) files).1.map
          fun _ => restPath room locator,
        (run (materialize trouble bytes (restPath room locator)) files).2) := by
  rw [materialized, run_bind]
  rcases run (materialize trouble bytes (restPath room locator)) files with ⟨answer, after⟩
  cases answer <;> rfl

theorem run_tee (bytes : Bytes) (stored : trouble.put = none) :
    run (tee blake3 intoAx room trouble bytes) files =
      ((run (materialize trouble bytes (restPath room (.cas (blake3 bytes) none))) files).1.map
          fun _ => ⟨.cas (blake3 bytes) none, restPath room (.cas (blake3 bytes) none)⟩,
        (run (materialize trouble bytes (restPath room (.cas (blake3 bytes) none))) files).2) := by
  rw [tee, stored]
  simp only
  rw [run_bind, run_materialized]
  rcases run (materialize trouble bytes (restPath room (.cas (blake3 bytes) none))) files
    with ⟨answer, after⟩
  cases answer <;> rfl

theorem substitute_fits {cap : UInt64} {hint : List Char} {bytes : Bytes}
    (lossy : cap.toNat < bytes.length) (fits : Utf8.byteLen hint ≤ cap.toNat) :
    ¬ ((bytes.take (min (cap.toNat - Utf8.byteLen hint) bytes.length) ++ Utf8.encode hint).length >
        cap.toNat ∨
      (bytes.take (min (cap.toNat - Utf8.byteLen hint) bytes.length) ++ Utf8.encode hint).length >
        bytes.length) := by
  rw [length_append, length_take, Utf8.length_encode]
  omega

theorem run_of_not_due (none_ : call.due blake3 trouble = none) :
    ∃ err, run (call.run blake3 intoAx room trouble) files = (.error err, files) := by
  cases call with
  | tee bytes =>
    cases stored : trouble.put with
    | none => simp [Call.due, stored] at none_
    | some err =>
      refine ⟨intoAx err, ?_⟩
      rw [Call.run, run_bind, tee, stored]
      rfl
  | offload bytes cap =>
    rw [Call.run, run_bind, offload]
    by_cases large : bytes.length ≥ 2 ^ 64
    · rw [if_pos large]
      exact ⟨_, rfl⟩
    · rw [if_neg large]
      by_cases small : bytes.length ≤ cap.toNat
      · rw [if_pos small]
        exact ⟨_, rfl⟩
      · rw [if_neg small]
        cases stored : trouble.put with
        | none =>
          have guard : bytes.length < 2 ^ 64 ∧ cap.toNat < bytes.length ∧ trouble.put = none :=
            ⟨Nat.lt_of_not_le large, Nat.lt_of_not_le small, stored⟩
          rw [Call.due, if_pos guard] at none_
          cases none_
        | some err =>
          refine ⟨intoAx err, ?_⟩
          rw [run_bind, tee, stored]
          rfl
  | rematerialize locator =>
    cases locator with
    | file address oid range => exact ⟨_, rfl⟩
    | cas hash range =>
      cases read : fetched blake3 trouble hash with
      | ok bytes => simp [Call.due, read, Except.toOption] at none_
      | error err =>
        refine ⟨intoAx err, ?_⟩
        rw [Call.run, rematerialize, read]
        rfl

/-- What a call answers is what writing out its rest file answers, where there is room for the line
that names it. -/
theorem run_of_due {locator : Locator} {text : Bytes}
    (due : call.due blake3 trouble = some (locator, text)) :
    (run (call.run blake3 intoAx room trouble) files).2 =
        (run (materialize trouble text (restPath room locator)) files).2 ∧
      ((∃ path, (run (call.run blake3 intoAx room trouble) files).1 = .ok path) ↔
        (run (materialize trouble text (restPath room locator)) files).1 = .ok () ∧
          call.roomy (restPath room locator) locator = true) ∧
      ∀ path, (run (call.run blake3 intoAx room trouble) files).1 = .ok path →
        path = restPath room locator := by
  cases call with
  | tee bytes =>
    have stored : trouble.put = none := by
      by_contra wrong
      simp [Call.due, wrong] at due
    simp only [Call.due, stored, if_true, Option.some.injEq, Prod.mk.injEq] at due
    obtain ⟨rfl, rfl⟩ := due
    rw [Call.run, run_bind, run_tee bytes stored]
    rcases run (materialize trouble bytes (restPath room (.cas (blake3 bytes) none))) files
      with ⟨answer, after⟩
    cases answer with
    | error err => simp [Except.map, Call.roomy]
    | ok done => simp [Except.map, Call.roomy]
  | offload bytes cap =>
    have guard : bytes.length < 2 ^ 64 ∧ cap.toNat < bytes.length ∧ trouble.put = none := by
      by_contra wrong
      rw [Call.due, if_neg wrong] at due
      cases due
    obtain ⟨countable, lossy, stored⟩ := guard
    simp only [Call.due, countable, lossy, stored, and_self, if_true, Option.some.injEq,
      Prod.mk.injEq] at due
    obtain ⟨rfl, rfl⟩ := due
    rw [Call.run, run_bind, offload, if_neg (by omega), if_neg (by omega), run_bind,
      run_tee bytes stored]
    rcases run (materialize trouble bytes (restPath room (.cas (blake3 bytes) none))) files
      with ⟨answer, after⟩
    cases answer with
    | error err => simp [Except.map]
    | ok done =>
      simp only [Except.map, Call.roomy]
      by_cases fits : Utf8.byteLen (hintLine bytes.length
          (restPath room (.cas (blake3 bytes) none)) (.cas (blake3 bytes) none)) ≤ cap.toNat
      · rw [if_neg (Nat.not_lt.mpr fits), if_neg (substitute_fits lossy fits)]
        simp [fits]
      · rw [if_pos (Nat.lt_of_not_le fits)]
        simp [fits]
  | rematerialize where_ =>
    cases where_ with
    | file address oid range => simp [Call.due] at due
    | cas hash range =>
      cases read : fetched blake3 trouble hash with
      | error err => simp [Call.due, read, Except.toOption] at due
      | ok bytes =>
        simp only [Call.due, read, Except.toOption, Option.map_some, Option.some.injEq,
          Prod.mk.injEq] at due
        obtain ⟨rfl, rfl⟩ := due
        rw [Call.run, rematerialize, read]
        simp only
        rw [run_materialized]
        rcases run (materialize trouble bytes (restPath room (.cas hash range))) files
          with ⟨answer, after⟩
        cases answer with
        | error err => simp [Except.map, Call.roomy]
        | ok done => simp [Except.map, Call.roomy]

end Calls

section Runs

variable {blake3 : Bytes → B3Hash} {intoAx : StorageError → AxError} {room : Address}
variable {world : World} {event : Call × Trouble}

theorem after_concat (events : List (Call × Trouble)) (event : Call × Trouble) :
    World.after blake3 intoAx room (events ++ [event]) =
      (World.after blake3 intoAx room events).apply blake3 intoAx room event := by
  rw [World.after, World.after, foldl_append, foldl_cons, foldl_nil]

theorem apply_frame {path : List Char} {held : Bytes} (stands : world.files[path]? = some held) :
    (world.apply blake3 intoAx room event).files[path]? = some held := by
  have left : (run (event.1.run blake3 intoAx room event.2) world.files).2[path]? = some held := by
    cases due : event.1.due blake3 event.2 with
    | none =>
      obtain ⟨err, done⟩ := @run_of_not_due _ intoAx room _ _ world.files due
      rw [done, stands]
    | some wanted =>
      rw [(@run_of_due _ _ room _ _ _ _ _ due).1]
      exact materialize_frame stands
  unfold World.apply
  split
  · next answered => rwa [answered] at left
  · next refused => rwa [refused] at left

theorem apply_answered :
    (world.apply blake3 intoAx room event).answered = world.answered ∨
      ∃ locator text, event.1.due blake3 event.2 = some (locator, text) ∧
        event.1.roomy (restPath room locator) locator = true ∧
        (world.apply blake3 intoAx room event).answered =
          (restPath room locator, text) :: world.answered ∧
        (world.apply blake3 intoAx room event).files[restPath room locator]? =
          some ((world.files[restPath room locator]?).getD text) := by
  unfold World.apply
  split
  · next path files answered =>
      right
      have ok : (run (event.1.run blake3 intoAx room event.2) world.files).1 = .ok path := by
        rw [answered]
      cases due : event.1.due blake3 event.2 with
      | none =>
        obtain ⟨err, done⟩ := @run_of_not_due _ intoAx room _ _ world.files due
        rw [done] at ok
        cases ok
      | some wanted =>
        obtain ⟨locator, text⟩ := wanted
        obtain ⟨files_, answers, names⟩ := @run_of_due _ intoAx room _ _ world.files _ _ due
        obtain ⟨written, roomy⟩ := answers.mp ⟨path, ok⟩
        refine ⟨locator, text, rfl, roomy, ?_, ?_⟩
        · rw [names path ok]
          rfl
        · rw [answered] at files_
          change files[restPath room locator]? = _
          rw [show files = _ from files_]
          exact materialize_ok (Prod.ext written rfl)
  · exact .inl rfl

theorem after_present (events : List (Call × Trouble)) :
    ∀ path text, (path, text) ∈ (World.after blake3 intoAx room events).answered →
      ∃ held, (World.after blake3 intoAx room events).files[path]? = some held := by
  induction events using List.reverseRecOn with
  | nil =>
    intro path text member
    cases member
  | append_singleton events event ih =>
    intro path text member
    rw [after_concat] at member ⊢
    rcases @apply_answered blake3 intoAx room (World.after blake3 intoAx room events) event
      with same | ⟨locator, wanted, due, roomy, grown, stands⟩
    · rw [same] at member
      obtain ⟨held, before⟩ := ih path text member
      exact ⟨held, apply_frame before⟩
    · rw [grown] at member
      rcases mem_cons.mp member with new | old
      · cases new
        exact ⟨_, stands⟩
      · obtain ⟨held, before⟩ := ih path text old
        exact ⟨held, apply_frame before⟩

theorem after_steady (events : List (Call × Trouble)) (event : Call × Trouble) :
    Steady (World.after blake3 intoAx room events)
      (World.after blake3 intoAx room (events ++ [event])) := by
  intro path text member
  obtain ⟨held, before⟩ := after_present events path text member
  rw [after_concat, before]
  exact apply_frame before

theorem right_apply (right : Right world) (clear : Clear blake3 room world event) :
    Right (world.apply blake3 intoAx room event) := by
  intro path text member
  rcases @apply_answered blake3 intoAx room world event with same | ⟨locator, wanted, due, roomy, grown, stands⟩
  · rw [same] at member
    exact apply_frame (right path text member)
  · rw [grown] at member
    rcases mem_cons.mp member with new | old
    · cases new
      rw [stands]
      cases before : world.files[restPath room locator]? with
      | none => rfl
      | some held => rw [Option.getD_some, clear locator text due roomy held before]
    · exact apply_frame (right path text old)

theorem clear_of_right (right : Right (world.apply blake3 intoAx room event)) :
    Clear blake3 room world event := by
  intro locator text due roomy held before
  obtain ⟨files, answers, names⟩ := @run_of_due _ intoAx room _ _ world.files _ _ due
  obtain ⟨path, ok⟩ := answers.mpr ⟨by rw [materialize_present before], roomy⟩
  have path_ := names path ok
  have answered : run (event.1.run blake3 intoAx room event.2) world.files =
      (.ok path, (run (event.1.run blake3 intoAx room event.2) world.files).2) := Prod.ext ok rfl
  have named : (restPath room locator, text) ∈ (world.apply blake3 intoAx room event).answered := by
    unfold World.apply
    rw [answered, due, path_]
    exact mem_cons_self
  have after := right _ _ named
  rw [apply_frame before] at after
  exact Option.some.inj after

/-- Over a whole run every rest path answered holds its call's text and no later call changes the
file, exactly when each call that goes through finds no other bytes at its rest path. -/
theorem restFiles_iff (blake3 : Bytes → B3Hash) (intoAx : StorageError → AxError) (room : Address)
    (events : List (Call × Trouble)) :
    ((∀ early, early <+: events → Right (World.after blake3 intoAx room early)) ∧
        ∀ early event, early ++ [event] <+: events →
          Steady (World.after blake3 intoAx room early)
            (World.after blake3 intoAx room (early ++ [event]))) ↔
      ∀ early event, early ++ [event] <+: events →
        Clear blake3 room (World.after blake3 intoAx room early) event := by
  constructor
  · rintro ⟨right, -⟩ early event within
    have next := right _ within
    rw [after_concat] at next
    exact clear_of_right next
  · intro clear
    refine ⟨fun early => ?_, fun early event _ => after_steady early event⟩
    induction early using List.reverseRecOn with
    | nil =>
      intro _ path text member
      cases member
    | append_singleton early event ih =>
      intro within
      rw [after_concat]
      exact right_apply (ih ((prefix_append early [event]).trans within))
        (clear early event within)

end Runs

/-! ### A write that stops partway, and the same text again -/

/-- The digest BLAKE3 gives `abc`. -/
def abcBlake3 (bytes : Bytes) : B3Hash :=
  ((Digest.decodeHexFixed 32 (if bytes = [97, 98, 99] then
      "6437b3ac38465133ffb63b75273a8db548c558465d79db03fd359c6cd5bd9d85".toList
    else [])).getD ⟨List.replicate 32 0, Digest.zeros_sized⟩)

def hallRoom : Address := ⟨"hall/desk".toList, by decide +kernel⟩

def calmDisk : Trouble where
  put := none
  store := ∅
  createDir := none
  write := none
  readonly := none

/-- The disk is full after one byte. -/
def fullDisk : Trouble :=
  { calmDisk with write := some ("No space left on device (os error 28)", some 1) }

/-- The text `abc` on a full disk, and again once there is space. -/
def cutShort : List (Call × Trouble) :=
  [(.tee [97, 98, 99], fullDisk), (.tee [97, 98, 99], calmDisk)]

/-- The second call answers with the file the first one left, which holds one byte of three. -/
theorem cutShort_answered :
    ("hall/desk/.rest/rest-fd359c6cd5bd9d85.dat".toList, [97, 98, 99]) ∈
        (World.after abcBlake3 (fun _ => notMaterialized "") hallRoom cutShort).answered ∧
      (World.after abcBlake3 (fun _ => notMaterialized "") hallRoom cutShort).files[
          "hall/desk/.rest/rest-fd359c6cd5bd9d85.dat".toList]? = some [97] ∧
        ¬ Right (World.after abcBlake3 (fun _ => notMaterialized "") hallRoom cutShort) := by
  have named : ("hall/desk/.rest/rest-fd359c6cd5bd9d85.dat".toList, [97, 98, 99]) ∈
      (World.after abcBlake3 (fun _ => notMaterialized "") hallRoom cutShort).answered := by
    decide +kernel
  have stands : (World.after abcBlake3 (fun _ => notMaterialized "") hallRoom cutShort).files[
      "hall/desk/.rest/rest-fd359c6cd5bd9d85.dat".toList]? = some [97] := by
    decide +kernel
  refine ⟨named, stands, fun right => ?_⟩
  have wanted := right _ _ named
  rw [stands] at wanted
  exact absurd (Option.some.inj wanted) (by decide)

end Offload

end Sprawling
