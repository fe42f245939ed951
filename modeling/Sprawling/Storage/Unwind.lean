import Mathlib.Data.List.Induction
import Sprawling.Base.Machine
import Sprawling.Storage.Append

/-! What the restores of one failed wave do to the disk, over as many attempts as it takes. -/

namespace Sprawling

open List Effect FaultFs Vfs

/-- A call that the disk carried out. -/
inductive VfsCall where
  | removed (path : FileName)
  | syncedDir
  | truncated (path : FileName) (len : Nat)
  | synced (path : FileName)
deriving DecidableEq

/-- A ledger on its disk, and the calls the disk has carried out for it. -/
structure Watched (Hash : Type) where
  site : Site Hash
  calls : List VfsCall

abbrev WatchedStep (Hash : Type) (α : Type) : Type := Effect StorageError (Watched Hash) α

namespace Watched

variable {Hash : Type}

/-- A step that asks nothing of the disk that is counted. -/
def quiet {α : Type} (step : LedgerStep Hash α) : WatchedStep Hash α := fun watched =>
  let done := Effect.run step watched.site
  (done.1, { watched with site := done.2 })

/-- A call of the disk, counted when it is carried out. -/
def noted (call : VfsCall) (step : LedgerStep Hash Unit) : WatchedStep Hash Unit := fun watched =>
  match Effect.run step watched.site with
  | (.ok (), site) => (.ok (), { site, calls := watched.calls ++ [call] })
  | (.error reason, site) => (.error reason, { watched with site })

def removeCreated : List FileName → WatchedStep Hash Bool
  | [] => pure false
  | path :: rest => do
      let site ← quiet Effect.look
      if site.fileExists path then
        noted (.removed path) (removeFile "remove a segment the failed wave created" path)
        let _ ← removeCreated rest
        pure true
      else removeCreated rest

/-- Puts the current segment back where the in-memory position says it ends. -/
def cutBack (created : List FileName) : WatchedStep Hash Unit := do
  let site ← quiet Effect.look
  if site.ledger.segPath ∉ created then
    noted (.truncated site.ledger.segPath site.ledger.segLen)
      (Vfs.truncate "truncate a segment back before the failed wave" site.ledger.segPath
        site.ledger.segLen)
    noted (.synced site.ledger.segPath)
      (Vfs.syncData "sync a segment cut back before the failed wave" site.ledger.segPath)

def restore (created : List FileName) : WatchedStep Hash Unit := do
  let removed ← removeCreated created
  if removed then noted .syncedDir (Vfs.syncDir "sync ledger dir")
  cutBack created

/-- `JsonlLedger.finishUnwind` with the calls of the disk counted. -/
def finishUnwind : WatchedStep Hash Unit := do
  let site ← quiet Effect.look
  match site.ledger.pendingUnwind with
  | none => pure ()
  | some created =>
    quiet (JsonlLedger.setLedger fun ledger => { ledger with pendingUnwind := none })
    match ← Effect.attempt (restore created) with
    | .ok () => quiet (JsonlLedger.setLedger fun ledger => { ledger with barrier := .whole })
    | .error e =>
      quiet (JsonlLedger.setLedger fun ledger => { ledger with pendingUnwind := some created })
      Effect.refuse e

section Erasure

variable {α β : Type}

/-- A watched step does to the ledger what the plain step does. -/
def Erases (watched : WatchedStep Hash α) (plain : LedgerStep Hash α) : Prop :=
  ∀ state, (Effect.run watched state).1 = (Effect.run plain state.site).1 ∧
    (Effect.run watched state).2.site = (Effect.run plain state.site).2

theorem erases_quiet (step : LedgerStep Hash α) : Erases (quiet step) step :=
  fun _ => ⟨rfl, rfl⟩

theorem erases_noted (call : VfsCall) (step : LedgerStep Hash Unit) :
    Erases (noted call step) step := by
  intro state
  show (noted call step state).1 = _ ∧ (noted call step state).2.site = _
  unfold noted
  cases Effect.run step state.site with
  | mk answer site =>
    cases answer with
    | ok value => exact ⟨rfl, rfl⟩
    | error reason => exact ⟨rfl, rfl⟩

theorem erases_pure (value : α) : Erases (pure value : WatchedStep Hash α) (pure value) :=
  fun _ => ⟨rfl, rfl⟩

theorem erases_refuse (reason : StorageError) :
    Erases (Effect.refuse reason : WatchedStep Hash α) (Effect.refuse reason) :=
  fun _ => ⟨rfl, rfl⟩

variable {plain : LedgerStep Hash α}

theorem erases_bind {first : WatchedStep Hash α}
    {next : α → WatchedStep Hash β} {plainNext : α → LedgerStep Hash β}
    (start : Erases first plain) (rest : ∀ value, Erases (next value) (plainNext value)) :
    Erases (first >>= next) (plain >>= plainNext) := by
  intro state
  have here := start state
  rw [run_bind, run_bind]
  generalize Effect.run first state = watched at here
  generalize Effect.run plain state.site = done at here
  obtain ⟨answer, after⟩ := watched
  obtain ⟨plainAnswer, site⟩ := done
  obtain ⟨rfl, rfl⟩ := here
  cases answer with
  | ok value => exact rest value after
  | error reason => exact ⟨rfl, rfl⟩

theorem erases_attempt {effect : WatchedStep Hash α}
    (same : Erases effect plain) : Erases (Effect.attempt effect) (Effect.attempt plain) := by
  intro state
  rw [run_attempt, run_attempt]
  exact ⟨congrArg Except.ok (same state).1, (same state).2⟩

theorem erases_removeCreated (created : List FileName) :
    Erases (removeCreated created : WatchedStep Hash Bool) (JsonlLedger.removeCreated created) := by
  induction created with
  | nil => exact erases_pure false
  | cons path rest ih =>
    apply erases_bind (erases_quiet _)
    intro site
    split
    · apply erases_bind (erases_noted _ _)
      intro _
      exact erases_bind ih fun _ => erases_pure true
    · exact ih

theorem erases_restore (created : List FileName) :
    Erases (restore created : WatchedStep Hash Unit) (JsonlLedger.restore created) := by
  apply erases_bind (erases_removeCreated created)
  intro removed
  have last : Erases (cutBack created : WatchedStep Hash Unit) (do
      let site ← Effect.look
      if site.ledger.segPath ∉ created then
        Vfs.truncate "truncate a segment back before the failed wave" site.ledger.segPath
          site.ledger.segLen
        Vfs.syncData "sync a segment cut back before the failed wave" site.ledger.segPath) := by
    apply erases_bind (erases_quiet _)
    intro site
    split
    · exact erases_bind (erases_noted _ _) fun _ => erases_noted _ _
    · exact erases_pure ()
  cases removed with
  | true => exact erases_bind (erases_noted _ _) fun _ => last
  | false => exact last

theorem erases_finishUnwind :
    Erases (finishUnwind : WatchedStep Hash Unit) JsonlLedger.finishUnwind := by
  apply erases_bind (erases_quiet _)
  intro site
  cases site.ledger.pendingUnwind with
  | none => exact erases_pure ()
  | some created =>
    apply erases_bind (erases_quiet _)
    intro _
    apply erases_bind (erases_attempt (erases_restore created))
    intro outcome
    cases outcome with
    | ok value => exact erases_quiet _
    | error reason => exact erases_bind (erases_quiet _) fun _ => erases_refuse reason

end Erasure

section Attempts

variable {state : Watched Hash} {created : List FileName}

/-- No power is lost while the attempts are made: a loss of power ends the handle. -/
def Powered (site : Site Hash) : Prop := ∀ torn, Outcome.powerLost torn ∉ site.script

/-- The disk refuses this call of those to come. -/
def refuses (site : Site Hash) (call : Nat) : Bool :=
  match site.script[call]? with
  | some (.refused _) => true
  | _ => false

/-- The segments of the wave an attempt finds and removes, in the order it meets them. -/
def standing (files : OrdMap FileName FileState) : List FileName → List FileName
  | [] => []
  | path :: rest =>
    if (files[path]?).isSome then path :: standing (files.erase path) rest
    else standing files rest

/-- The sync that an attempt owes after it has removed the last of the wave's segments is not
refused. -/
def Clean (state : Watched Hash) : Prop :=
  ∀ created ∈ state.site.ledger.pendingUnwind,
    standing state.site.files created ≠ [] →
    (∀ call < (standing state.site.files created).length, refuses state.site call = false) →
    refuses state.site (standing state.site.files created).length = false

instance (state : Watched Hash) : Decidable (Clean state) :=
  inferInstanceAs (Decidable (∀ created ∈ state.site.ledger.pendingUnwind, _ → _ → _))

/-- Whether a removal has not been followed by a sync of the directory. -/
def owed (calls : List VfsCall) : Bool :=
  calls.foldl (fun owes call =>
    match call with
    | .removed _ => true
    | .syncedDir => false
    | .truncated _ _ | .synced _ => owes) false

theorem owed_concat (calls : List VfsCall) (call : VfsCall) :
    owed (calls ++ [call]) =
      match call with
      | .removed _ => true
      | .syncedDir => false
      | .truncated _ _ | .synced _ => owed calls := by
  rw [owed, foldl_append]
  rfl

theorem owed_eq_false {calls : List VfsCall} :
    owed calls = false ↔ ∀ before path after, calls = before ++ .removed path :: after →
      .syncedDir ∈ after := by
  induction calls using List.reverseRecOn with
  | nil =>
    constructor
    · intro _ before path after split
      cases before <;> cases split
    · exact fun _ => rfl
  | append_singleton calls call ih =>
    rw [owed_concat]
    constructor
    · intro settled before path after split
      rcases eq_nil_or_concat after with rfl | ⟨rest, last, rfl⟩
      · obtain ⟨-, same⟩ := append_inj' split rfl
        cases same
        cases settled
      · rw [concat_eq_append, ← cons_append, ← append_assoc] at split
        obtain ⟨rfl, same⟩ := append_inj' split rfl
        cases same
        rw [concat_eq_append, mem_append]
        cases call with
        | removed other => cases settled
        | syncedDir => exact Or.inr mem_cons_self
        | truncated other len => exact Or.inl (ih.mp settled before path rest rfl)
        | synced other => exact Or.inl (ih.mp settled before path rest rfl)
    · intro followed
      have earlier : call ≠ .syncedDir → owed calls = false := by
        intro other
        apply ih.mpr
        intro before path after split
        have found := followed before path (after ++ [call]) (by rw [split]; simp)
        rcases mem_append.mp found with inside | last
        · exact inside
        · exact absurd (mem_singleton.mp last).symm other
      cases call with
      | removed path =>
        have found := followed calls path [] rfl
        cases found
      | syncedDir => rfl
      | truncated path len => exact earlier (by simp)
      | synced path => exact earlier (by simp)

theorem standing_eq_nil {files : OrdMap FileName FileState} :
    standing files created = [] ↔ ∀ path ∈ created, files[path]? = none := by
  induction created generalizing files with
  | nil => simp [standing]
  | cons path rest ih =>
    rw [standing]
    split
    · next found =>
        rw [forall_mem_cons]
        constructor
        · intro empty
          cases empty
        · intro gone
          rw [gone.1] at found
          cases found
    · next gone =>
        rw [ih, forall_mem_cons, and_iff_right]
        simpa using gone

/-- A step of the disk leaves the writer and the directory's names. -/
structure Still (before after : Watched Hash) : Prop where
  ledger : after.site.ledger = before.site.ledger
  names : ∀ path : FileName, after.site.files[path]? = none ↔ before.site.files[path]? = none
  powered : Powered before.site → Powered after.site

theorem Still.refl (state : Watched Hash) : Still state state := ⟨rfl, fun _ => Iff.rfl, id⟩

theorem Still.trans {first second third : Watched Hash} (one : Still first second)
    (two : Still second third) : Still first third :=
  ⟨two.ledger.trans one.ledger, fun path => (two.names path).trans (one.names path),
    fun powered => two.powered (one.powered powered)⟩

theorem Still.standing {before after : Watched Hash} (still : Still before after)
    (created : List FileName) :
    Watched.standing after.site.files created = [] ↔
      Watched.standing before.site.files created = [] := by
  rw [standing_eq_nil, standing_eq_nil]
  exact forall₂_congr fun path _ => still.names path

theorem charge_cases (powered : Powered state.site) :
    (refuses state.site 0 = true ∧ ∃ landed, state.site.charge =
      (.refused landed, { state.site with script := state.site.script.tail })) ∨
    (refuses state.site 0 = false ∧
      state.site.charge = (.done, { state.site with script := state.site.script.tail })) := by
  obtain ⟨⟨files, script, ledger⟩, calls⟩ := state
  cases script with
  | nil => exact Or.inr ⟨rfl, rfl⟩
  | cons outcome rest =>
    cases outcome with
    | done => exact Or.inr ⟨rfl, rfl⟩
    | refused landed => exact Or.inl ⟨rfl, landed, rfl⟩
    | powerLost torn => exact absurd mem_cons_self (powered torn)

theorem powered_tail {site : Site Hash} (powered : Powered site) :
    Powered { site with script := site.script.tail } :=
  fun torn member => powered torn (mem_of_mem_tail member)

variable (powered : Powered state.site)

include powered

theorem run_removed {path : FileName} {op : String}
    (found : (state.site.files[path]?).isSome = true) :
    Effect.run (noted (.removed path) (removeFile op path)) state =
      if refuses state.site 0 then
        (.error (.io op path),
          { state with site := { state.site with script := state.site.script.tail } })
      else
        (.ok (),
          { site :=
              { state.site with
                files := state.site.files.erase path
                script := state.site.script.tail }
            calls := state.calls ++ [.removed path] }) := by
  obtain ⟨file, held⟩ := Option.isSome_iff_exists.mp found
  show noted (.removed path) (removeFile op path) state = _
  unfold noted
  have ran : Effect.run (removeFile op path) state.site = removeFile op path state.site := rfl
  rw [ran, removeFile, held]
  rcases charge_cases powered with ⟨refused, landed, charged⟩ | ⟨fine, charged⟩
  · simp only [charged, refused, if_true]
  · simp only [charged, fine, Bool.false_eq_true, if_false]

theorem run_syncedDir (op : String) :
    Effect.run (noted .syncedDir (Vfs.syncDir op)) state =
      if refuses state.site 0 then
        (.error (.io op []),
          { state with site := { state.site with script := state.site.script.tail } })
      else
        (.ok (),
          { site :=
              { state.site with
                files := promoteEntries state.site.files
                script := state.site.script.tail }
            calls := state.calls ++ [.syncedDir] }) := by
  show noted .syncedDir (Vfs.syncDir op) state = _
  unfold noted
  have ran : Effect.run (Vfs.syncDir op) state.site = Vfs.syncDir op state.site := rfl
  rw [ran, Vfs.syncDir]
  rcases charge_cases powered with ⟨refused, landed, charged⟩ | ⟨fine, charged⟩
  · simp only [charged, refused, if_true]
  · simp only [charged, fine, Bool.false_eq_true, if_false]

theorem still_truncated (op : String) (path : FileName) (len : Nat) :
    Still state (Effect.run (noted (.truncated path len) (Vfs.truncate op path len)) state).2 := by
  show Still state (noted (.truncated path len) (Vfs.truncate op path len) state).2
  unfold noted
  have ran : Effect.run (Vfs.truncate op path len) state.site = Vfs.truncate op path len state.site :=
    rfl
  rw [ran, Vfs.truncate]
  cases held : state.site.files[path]? with
  | none => exact Still.refl state
  | some file =>
    rcases charge_cases powered with ⟨refused, landed, charged⟩ | ⟨fine, charged⟩
    · simp only [charged]
      exact ⟨rfl, fun _ => Iff.rfl, powered_tail⟩
    · simp only [charged]
      refine ⟨rfl, fun other => ?_, powered_tail⟩
      rw [OrdMap.get_insert]
      split
      · next same => simp [← same, held]
      · exact Iff.rfl

theorem still_synced (op : String) (path : FileName) :
    Still state (Effect.run (noted (.synced path) (Vfs.syncData op path)) state).2 := by
  show Still state (noted (.synced path) (Vfs.syncData op path) state).2
  unfold noted
  have ran : Effect.run (Vfs.syncData op path) state.site = Vfs.syncData op path state.site := rfl
  rw [ran, Vfs.syncData]
  rcases charge_cases powered with ⟨refused, landed, charged⟩ | ⟨fine, charged⟩
  · simp only [charged]
    exact ⟨rfl, fun _ => Iff.rfl, powered_tail⟩
  · simp only [charged]
    cases held : state.site.files[path]? with
    | none => exact ⟨rfl, fun _ => Iff.rfl, powered_tail⟩
    | some file =>
      refine ⟨rfl, fun other => ?_, powered_tail⟩
      rw [OrdMap.get_insert]
      split
      · next same => simp [← same, held]
      · exact Iff.rfl

omit powered

theorem noted_calls (call : VfsCall) (step : LedgerStep Hash Unit) (state : Watched Hash) :
    (Effect.run (noted call step) state).2.calls =
      match (Effect.run (noted call step) state).1 with
      | .ok _ => state.calls ++ [call]
      | .error _ => state.calls := by
  show (noted call step state).2.calls = match (noted call step state).1 with
    | .ok _ => state.calls ++ [call]
    | .error _ => state.calls
  unfold noted
  cases Effect.run step state.site with
  | mk answer site =>
    cases answer with
    | ok value => rfl
    | error reason => rfl

theorem refuses_tail (site : Site Hash) (call : Nat) :
    refuses { site with script := site.script.tail } call = refuses site (call + 1) := by
  simp [refuses]

/-- Where no removal is refused all of the segments are gone, and else one of them still stands. -/
theorem run_removeCreated (powered : Powered state.site) :
    ((∀ call < (standing state.site.files created).length, refuses state.site call = false) ∧
      ∃ files : OrdMap FileName FileState,
        (∀ path : FileName, path ∈ created ∨ state.site.files[path]? = none → files[path]? = none) ∧
        Effect.run (removeCreated created) state =
          (.ok (standing state.site.files created ≠ [] : Bool),
            { site :=
                { state.site with
                  files
                  script := state.site.script.drop (standing state.site.files created).length }
              calls := state.calls ++ (standing state.site.files created).map .removed })) ∨
    ((∃ call < (standing state.site.files created).length, refuses state.site call = true) ∧
      ∃ reason after, Effect.run (removeCreated created) state = (.error reason, after) ∧
        after.site.ledger = state.site.ledger ∧ Powered after.site ∧
        ∃ path ∈ created, after.site.files[path]? ≠ none) := by
  induction created generalizing state with
  | nil =>
    refine .inl ⟨nofun, state.site.files, ?_, ?_⟩
    · rintro path (inside | gone)
      · cases inside
      · exact gone
    · simp [removeCreated, standing]
  | cons path rest ih =>
    have step : Effect.run (removeCreated (path :: rest)) state =
        Effect.run (if state.site.fileExists path then (do
          noted (.removed path) (removeFile "remove a segment the failed wave created" path)
          let _ ← removeCreated rest
          pure true) else removeCreated rest) state := rfl
    rw [step]
    by_cases here : (state.site.files[path]?).isSome = true
    · rw [if_pos (show state.site.fileExists path = true from here), run_bind,
        run_removed powered here]
      have stands : standing state.site.files (path :: rest) =
          path :: standing (state.site.files.erase path) rest := by rw [standing, if_pos here]
      rw [stands]
      by_cases first : refuses state.site 0 = true
      · rw [if_pos first]
        exact .inr ⟨⟨0, Nat.succ_pos _, first⟩, _, _, rfl, rfl, powered_tail powered, path,
          mem_cons_self, Option.isSome_iff_ne_none.mp here⟩
      · rw [if_neg first]
        have turns := fun call => refuses_tail
          { state.site with files := state.site.files.erase path } call
        rcases @ih
          { site :=
              { state.site with
                files := state.site.files.erase path
                script := state.site.script.tail }
            calls := state.calls ++ [.removed path] }
          (powered_tail powered) with
          ⟨fine, files, gone, ran⟩ | ⟨⟨call, less, found⟩, reason, after, ran, ledger, on_, other, inside, left⟩
        · refine .inl ⟨?_, files, ?_, ?_⟩
          · intro call less
            cases call with
            | zero => exact Bool.eq_false_iff.mpr first
            | succ call => exact (turns call).symm.trans (fine call (Nat.lt_of_succ_lt_succ less))
          · rintro other (inside | absent)
            · rcases mem_cons.mp inside with rfl | later
              · exact gone other (Or.inr (by simp))
              · exact gone other (Or.inl later)
            · apply gone other (Or.inr _)
              simp only [OrdMap.get_erase, absent, ite_self]
          · simp only
            rw [run_bind_ok ran, run_pure]
            simp
        · refine .inr ⟨⟨call + 1, Nat.succ_lt_succ less, (turns call).symm.trans found⟩, reason,
            after, ?_, ledger, on_, other, mem_cons_of_mem _ inside, left⟩
          simp only
          rw [run_bind_error ran]
    · rw [if_neg (show ¬state.site.fileExists path = true from here)]
      have stands : standing state.site.files (path :: rest) = standing state.site.files rest := by
        rw [standing, if_neg here]
      rw [stands]
      rcases ih powered with
        ⟨fine, files, gone, ran⟩ | ⟨refused, reason, after, ran, ledger, on_, other, inside, left⟩
      · refine .inl ⟨fine, files, ?_, ran⟩
        rintro other (inside | absent)
        · rcases mem_cons.mp inside with rfl | later
          · exact gone other (Or.inr (by simpa using here))
          · exact gone other (Or.inl later)
        · exact gone other (Or.inr absent)
      · exact .inr ⟨refused, reason, after, ran, ledger, on_, other, mem_cons_of_mem _ inside, left⟩

/-- Cutting the current segment back leaves what is owed, and when it answers it was the last thing
done. -/
theorem cutBack_spec (powered : Powered state.site) :
    Still state (Effect.run (cutBack created) state).2 ∧
    owed (Effect.run (cutBack created) state).2.calls = owed state.calls ∧
    ((Effect.run (cutBack created) state).1 = .ok () → state.site.ledger.segPath ∉ created →
      ∃ earlier, (Effect.run (cutBack created) state).2.calls = earlier ++
        [.truncated state.site.ledger.segPath state.site.ledger.segLen,
          .synced state.site.ledger.segPath]) := by
  by_cases inside : state.site.ledger.segPath ∈ created
  · have ran : Effect.run (cutBack created) state = (.ok (), state) := by
      rw [cutBack, run_bind]
      show Effect.run (if state.site.ledger.segPath ∉ created then _ else _) state = _
      rw [if_neg (not_not_intro inside)]
      rfl
    rw [ran]
    exact ⟨Still.refl state, rfl, fun _ absent => absurd inside absent⟩
  · have ran : Effect.run (cutBack created) state = Effect.run (do
        noted (.truncated state.site.ledger.segPath state.site.ledger.segLen)
          (Vfs.truncate "truncate a segment back before the failed wave" state.site.ledger.segPath
            state.site.ledger.segLen)
        noted (.synced state.site.ledger.segPath)
          (Vfs.syncData "sync a segment cut back before the failed wave"
            state.site.ledger.segPath)) state := by
      rw [cutBack, run_bind]
      show Effect.run (if state.site.ledger.segPath ∉ created then _ else _) state = _
      rw [if_pos inside]
    have cut := still_truncated powered "truncate a segment back before the failed wave"
      state.site.ledger.segPath state.site.ledger.segLen
    have counted := noted_calls (.truncated state.site.ledger.segPath state.site.ledger.segLen)
      (Vfs.truncate "truncate a segment back before the failed wave" state.site.ledger.segPath
        state.site.ledger.segLen) state
    rw [ran, run_bind]
    generalize Effect.run (noted (.truncated state.site.ledger.segPath state.site.ledger.segLen)
      (Vfs.truncate "truncate a segment back before the failed wave" state.site.ledger.segPath
        state.site.ledger.segLen)) state = truncated at cut counted ⊢
    obtain ⟨answer, middle⟩ := truncated
    cases answer with
    | error reason =>
      simp only at counted ⊢
      refine ⟨cut, by rw [counted], fun answered => ?_⟩
      cases answered
    | ok value =>
      simp only at counted cut ⊢
      have sync := still_synced (cut.powered powered)
        "sync a segment cut back before the failed wave" state.site.ledger.segPath
      have again := noted_calls (.synced state.site.ledger.segPath)
        (Vfs.syncData "sync a segment cut back before the failed wave"
          state.site.ledger.segPath) middle
      generalize Effect.run (noted (.synced state.site.ledger.segPath)
        (Vfs.syncData "sync a segment cut back before the failed wave"
          state.site.ledger.segPath)) middle = synced at sync again ⊢
      obtain ⟨answer, after⟩ := synced
      refine ⟨cut.trans sync, ?_, ?_⟩
      · cases answer with
        | ok value =>
          rw [show after.calls = _ from again, owed_concat, counted, owed_concat]
        | error reason => rw [show after.calls = _ from again, counted, owed_concat]
      · intro answered _
        simp only at answered
        rw [answered] at again
        refine ⟨state.calls, ?_⟩
        rw [show after.calls = _ from again, counted, append_assoc]
        rfl

/-- Where an attempt removes the last of the segments, the sync of the directory is not refused. -/
def Syncs (created : List FileName) (site : Site Hash) : Prop :=
  standing site.files created ≠ [] →
    (∀ call < (standing site.files created).length, refuses site call = false) →
    refuses site (standing site.files created).length = false

/-- What one attempt at the restore comes to: there was nothing to remove, a removal was refused, the
sync was refused, or all is removed and synced. -/
structure Attempted (created : List FileName) (before : Watched Hash)
    (answer : Except StorageError Unit) (after : Watched Hash) : Prop where
  segPath : after.site.ledger.segPath = before.site.ledger.segPath
  segLen : after.site.ledger.segLen = before.site.ledger.segLen
  powered : Powered after.site
  cut : answer = .ok () → before.site.ledger.segPath ∉ created →
    ∃ earlier, after.calls = earlier ++
      [.truncated before.site.ledger.segPath before.site.ledger.segLen,
        .synced before.site.ledger.segPath]
  outcome :
    (standing before.site.files created = [] ∧ standing after.site.files created = [] ∧
      owed after.calls = owed before.calls ∧ Syncs created before.site) ∨
    (standing before.site.files created ≠ [] ∧ standing after.site.files created ≠ [] ∧
      answer ≠ .ok () ∧ Syncs created before.site) ∨
    (standing before.site.files created ≠ [] ∧ standing after.site.files created = [] ∧
      owed after.calls = true ∧ answer ≠ .ok () ∧ ¬Syncs created before.site) ∨
    (standing before.site.files created ≠ [] ∧ standing after.site.files created = [] ∧
      owed after.calls = false ∧ Syncs created before.site)

theorem owed_removed {paths : List FileName} (some_ : paths ≠ []) (calls : List VfsCall) :
    owed (calls ++ paths.map .removed) = true := by
  rcases eq_nil_or_concat paths with rfl | ⟨rest, last, rfl⟩
  · exact absurd rfl some_
  · rw [concat_eq_append, map_append, ← append_assoc]
    exact owed_concat _ _

theorem attempted_restore (powered : Powered state.site) :
    Attempted created state (Effect.run (restore created) state).1
      (Effect.run (restore created) state).2 := by
  rcases @run_removeCreated _ state created powered with
    ⟨fine, files, gone, ran⟩ | ⟨⟨call, less, found⟩, reason, after, ran, ledger, on_, path, inside, stands⟩
  · have left : standing files created = [] :=
      standing_eq_nil.mpr fun path inside => gone path (Or.inl inside)
    have later : Powered { state.site with
        files, script := state.site.script.drop (standing state.site.files created).length } :=
      fun torn member => powered torn (mem_of_mem_drop member)
    have next : refuses { state.site with
        files, script := state.site.script.drop (standing state.site.files created).length } 0 =
          refuses state.site (standing state.site.files created).length := by
      simp [refuses]
    generalize stand : standing state.site.files created = stands at *
    by_cases empty : stands = []
    · have done : Effect.run (restore created) state = Effect.run (cutBack created)
          { state with site := { state.site with files } } := by
        rw [restore, run_bind_ok ran, empty]
        simp
      rw [done]
      rw [empty, length_nil, drop_zero] at later
      obtain ⟨still, same, last⟩ := @cutBack_spec _
        { state with site := { state.site with files } } created later
      exact ⟨congrArg _ still.ledger, congrArg _ still.ledger, still.powered later, last,
        .inl ⟨stand.trans empty, (still.standing created).mpr left, same,
          fun some_ => absurd (stand.trans empty) some_⟩⟩
    · have step : Effect.run (restore created) state = Effect.run
          (noted .syncedDir (Vfs.syncDir "sync ledger dir") >>= fun _ => cutBack created)
          { site := { state.site with files, script := state.site.script.drop stands.length }
            calls := state.calls ++ stands.map .removed } := by
        rw [restore, run_bind_ok ran]
        simp [empty]
      rw [step, run_bind, run_syncedDir later]
      by_cases sync : refuses state.site stands.length = true
      · rw [next, if_pos sync]
        refine ⟨rfl, rfl, powered_tail later, nofun, .inr (.inr (.inl
          ⟨stand ▸ empty, left, owed_removed empty _, nofun, fun syncs => ?_⟩))⟩
        rw [Syncs, stand, sync] at syncs
        cases syncs empty fine
      · rw [next, if_neg sync]
        simp only
        have promoted : standing (promoteEntries files) created = [] := by
          rw [standing_eq_nil] at left ⊢
          intro path inside
          rw [promoteEntries, Std.ExtTreeMap.getElem?_map, left path inside, Option.map_none]
        obtain ⟨still, same, last⟩ := @cutBack_spec _
          { site :=
              { state.site with
                files := promoteEntries files
                script := (state.site.script.drop stands.length).tail }
            calls := state.calls ++ stands.map .removed ++ [.syncedDir] } created
          (powered_tail later)
        rw [owed_concat] at same
        refine ⟨congrArg _ still.ledger, congrArg _ still.ledger, still.powered (powered_tail later),
          last, .inr (.inr (.inr ⟨stand ▸ empty, (still.standing created).mpr promoted, same, ?_⟩))⟩
        rw [Syncs, stand]
        exact fun _ _ => Bool.eq_false_iff.mpr sync
  · have done : Effect.run (restore created) state = (.error reason, after) :=
      run_bind_error ran
    rw [done]
    refine ⟨congrArg _ ledger, congrArg _ ledger, on_, nofun, .inr (.inl ⟨?_, ?_, nofun, ?_⟩)⟩
    · intro empty
      rw [empty] at less
      cases less
    · exact fun gone => stands (standing_eq_nil.mp gone path inside)
    · intro _ fine
      rw [fine call less] at found
      cases found

/-- The restore has been taken up. -/
def begun (state : Watched Hash) : Watched Hash :=
  { state with
    site := { state.site with ledger := { state.site.ledger with pendingUnwind := none } } }

/-- What a call of `finish_unwind` makes of an attempt: a failed one is pending again. -/
def ended (created : List FileName) (attempt : Except StorageError Unit × Watched Hash) :
    Except StorageError Unit × Watched Hash :=
  match attempt with
  | (.ok (), after) =>
    (.ok (), { after with
      site := { after.site with ledger := { after.site.ledger with barrier := .whole } } })
  | (.error reason, after) =>
    (.error reason, { after with
      site :=
        { after.site with ledger := { after.site.ledger with pendingUnwind := some created } } })

theorem run_finishUnwind (pending : state.site.ledger.pendingUnwind = some created) :
    Effect.run finishUnwind state = ended created (Effect.run (restore created) (begun state)) := by
  rw [finishUnwind, run_bind]
  show Effect.run (match state.site.ledger.pendingUnwind with | none => _ | some created => _) state = _
  rw [pending]
  simp only
  rw [run_bind]
  show Effect.run (Effect.attempt (restore created) >>= _) (begun state) = _
  rw [run_bind, run_attempt]
  generalize Effect.run (restore created) (begun state) = attempt
  obtain ⟨answer, after⟩ := attempt
  cases answer with
  | ok value => rfl
  | error reason => rfl

theorem attempted_finishUnwind (powered : Powered state.site)
    (pending : state.site.ledger.pendingUnwind = some created) :
    Attempted created state (Effect.run finishUnwind state).1 (Effect.run finishUnwind state).2 ∧
      ((Effect.run finishUnwind state).1 ≠ .ok () →
        (Effect.run finishUnwind state).2.site.ledger.pendingUnwind = some created) := by
  have attempt := @attempted_restore _ (begun state) created powered
  rw [run_finishUnwind pending]
  generalize Effect.run (restore created) (begun state) = restored at attempt ⊢
  obtain ⟨answer, after⟩ := restored
  cases answer with
  | ok value =>
    exact ⟨⟨attempt.segPath, attempt.segLen, attempt.powered, attempt.cut, attempt.outcome⟩,
      fun failed => absurd rfl failed⟩
  | error reason =>
    exact ⟨⟨attempt.segPath, attempt.segLen, attempt.powered, attempt.cut, attempt.outcome⟩,
      fun _ => rfl⟩

/-- The state after so many calls of `finish_unwind`. -/
def tried (state : Watched Hash) : Nat → Watched Hash
  | 0 => state
  | calls + 1 => (Effect.run finishUnwind (tried state calls)).2

/-- What the call after so many answers. -/
def answer (state : Watched Hash) (calls : Nat) : Except StorageError Unit :=
  (Effect.run finishUnwind (tried state calls)).1

/-- The disk holds what the restore is for: every removal was followed by a sync of the directory,
and a current segment that the wave did not create was last cut to its length and synced. -/
def Settled (created : List FileName) (ledger : JsonlLedger Hash) (calls : List VfsCall) : Prop :=
  (∀ before path after, calls = before ++ .removed path :: after → .syncedDir ∈ after) ∧
  (ledger.segPath ∉ created → ∃ earlier, calls = earlier ++
    [.truncated ledger.segPath ledger.segLen, .synced ledger.segPath])

/-- What holds between two attempts for the same wave: while every attempt was clean nothing is owed
once nothing stands, and after one that was not the sync is owed for good. -/
structure Between (created : List FileName) (state : Watched Hash) (calls : Nat) : Prop where
  powered : Powered (tried state calls).site
  pending : (tried state calls).site.ledger.pendingUnwind = some created
  segPath : (tried state calls).site.ledger.segPath = state.site.ledger.segPath
  segLen : (tried state calls).site.ledger.segLen = state.site.ledger.segLen
  clean : (∀ call < calls, Clean (tried state call)) →
    standing (tried state calls).site.files created = [] → owed (tried state calls).calls = false
  lost : (∃ call < calls, ¬Clean (tried state call)) →
    standing (tried state calls).site.files created = [] ∧ owed (tried state calls).calls = true

theorem clean_attempt_iff (pending : state.site.ledger.pendingUnwind = some created) :
    Clean state ↔ Syncs created state.site := by
  simp [Clean, Syncs, pending]

/-- Attempts that fail leave the wave as `Between` says. -/
theorem between (powered : Powered state.site)
    (pending : state.site.ledger.pendingUnwind = some created) (fresh : state.calls = [])
    {calls : Nat} (failed : ∀ call < calls, answer state call ≠ .ok ()) :
    Between created state calls := by
  induction calls with
  | zero =>
    refine ⟨powered, pending, rfl, rfl, ?_, ?_⟩
    · intro _ _
      rw [tried, fresh]
      rfl
    · rintro ⟨call, less, -⟩
      cases less
  | succ calls ih =>
    have before := ih fun call less => failed call (Nat.lt_succ_of_lt less)
    obtain ⟨attempt, again⟩ := attempted_finishUnwind before.powered before.pending
    have outcome := attempt.outcome
    rw [← clean_attempt_iff before.pending] at outcome
    refine ⟨attempt.powered, again (failed calls (Nat.lt_succ_self _)),
      attempt.segPath.trans before.segPath, attempt.segLen.trans before.segLen, ?_, ?_⟩
    · intro clean gone
      have earlier := before.clean fun call less => clean call (Nat.lt_succ_of_lt less)
      have here := clean calls (Nat.lt_succ_self _)
      rcases outcome with ⟨empty, -, same, -⟩ | ⟨-, stands, -⟩ | ⟨-, -, -, -, unclean⟩ |
        ⟨-, -, synced, -⟩
      · exact same.trans (earlier empty)
      · exact absurd gone stands
      · exact absurd here unclean
      · exact synced
    · rintro ⟨call, less, unclean⟩
      rcases Nat.lt_succ_iff_lt_or_eq.mp less with before_ | rfl
      · obtain ⟨empty, owes⟩ := before.lost ⟨call, before_, unclean⟩
        rcases outcome with ⟨-, gone, same, -⟩ | ⟨stands, -⟩ | ⟨stands, -⟩ | ⟨stands, -⟩
        · exact ⟨gone, same.trans owes⟩
        · exact absurd empty stands
        · exact absurd empty stands
        · exact absurd empty stands
      · rcases outcome with ⟨-, -, -, clean⟩ | ⟨-, -, -, clean⟩ | ⟨-, gone, owes, -, -⟩ |
          ⟨-, -, -, clean⟩
        · exact absurd clean unclean
        · exact absurd clean unclean
        · exact ⟨gone, owes⟩
        · exact absurd clean unclean

end Attempts

end Watched

open Watched in
/-- Once `finish_unwind` answers for a failed wave, however many attempts it took, the disk is
settled just when no attempt that removed the last of the wave's segments was refused the sync of
the directory. -/
theorem unwind_settles {Hash : Type} (state : Watched Hash) (created : List FileName)
    (powered : Powered state.site) (pending : state.site.ledger.pendingUnwind = some created)
    (fresh : state.calls = []) (calls : Nat) (failed : ∀ call < calls, answer state call ≠ .ok ())
    (answered : answer state calls = .ok ()) :
    Settled created state.site.ledger (tried state (calls + 1)).calls ↔
      ∀ call ≤ calls, Clean (tried state call) := by
  have before := between powered pending fresh failed
  have attempt := (attempted_finishUnwind before.powered before.pending).1
  have outcome := attempt.outcome
  rw [← clean_attempt_iff before.pending] at outcome
  have cut := attempt.cut answered
  rw [before.segPath, before.segLen] at cut
  have settled : Settled created state.site.ledger (tried state (calls + 1)).calls ↔
      owed (tried state (calls + 1)).calls = false := by
    rw [owed_eq_false]
    exact and_iff_left cut
  rw [settled]
  have here : Clean (tried state calls) ∧ (owed (tried state (calls + 1)).calls = false ↔
      (standing (tried state calls).site.files created ≠ [] ∨
        owed (tried state calls).calls = false)) := by
    rcases outcome with ⟨empty, -, same, clean⟩ | ⟨-, -, refused, -⟩ | ⟨-, -, -, refused, -⟩ |
      ⟨stands, -, synced, clean⟩
    · exact ⟨clean, by rw [tried, same]; simp [empty]⟩
    · exact absurd answered refused
    · exact absurd answered refused
    · exact ⟨clean, by rw [tried, synced]; simp [stands]⟩
  rw [here.2]
  constructor
  · intro safe call bound
    by_contra unclean
    rcases Nat.lt_or_eq_of_le bound with less | rfl
    · obtain ⟨empty, owes⟩ := before.lost ⟨call, less, unclean⟩
      rcases safe with stands | none_
      · exact stands empty
      · rw [owes] at none_
        cases none_
    · exact unclean here.1
  · intro clean
    by_cases empty : standing (tried state calls).site.files created = []
    · exact Or.inr (before.clean (fun call less => clean call (Nat.le_of_lt less)) empty)
    · exact Or.inl empty

namespace Watched

/-- A wave rolled from segment `a` to segment `b` and failed; the disk answers as scripted. -/
def rolled (script : List Outcome) : Watched Unit :=
  { site :=
      { files := (∅ : OrdMap FileName FileState).insert "a".toList ⟨[1], [1, 2], true⟩
          |>.insert "b".toList ⟨[], [3], true⟩
        script
        ledger :=
          { segPath := "a".toList, segLen := 1, nextSeq := .first, prev := (), rollBytes := 2
            barrier := .broken, pendingUnwind := some ["b".toList] } }
    calls := [] }

end Watched

open Watched in
/-- The first attempt removes the segment and is refused the sync; the second finds nothing to
remove, syncs nothing, and answers. -/
theorem unwind_forgets_sync :
    (answer (rolled [.done, .refused none]) 0).isOk = false ∧
    (answer (rolled [.done, .refused none]) 1).isOk = true ∧
    (tried (rolled [.done, .refused none]) 2).calls =
      [.removed "b".toList, .truncated "a".toList 1, .synced "a".toList] ∧
    ¬Settled ["b".toList] (rolled [.done, .refused none]).site.ledger
      (tried (rolled [.done, .refused none]) 2).calls := by
  have calls : (tried (rolled [.done, .refused none]) 2).calls =
      [.removed "b".toList, .truncated "a".toList 1, .synced "a".toList] := by decide +kernel
  refine ⟨by decide +kernel, by decide +kernel, calls, ?_⟩
  intro settled
  have found := settled.1 [] "b".toList [.truncated "a".toList 1, .synced "a".toList] calls
  revert found
  decide

open Watched in
/-- A removal that is refused once is made and synced by the next attempt. -/
theorem unwind_settles_removal_refused :
    Settled ["b".toList] (rolled [.refused none]).site.ledger
      (tried (rolled [.refused none]) 2).calls := by
  apply (unwind_settles (rolled [.refused none]) ["b".toList] ?_ rfl rfl 1 ?_ ?_).mpr
  · decide +kernel
  · intro torn member
    cases mem_singleton.mp member
  · intro call less answered
    have first : (answer (rolled [.refused none]) 0).isOk = false := by decide +kernel
    rw [Nat.lt_one_iff.mp less] at answered
    rw [answered] at first
    cases first
  · have second : (answer (rolled [.refused none]) 1).isOk = true := by decide +kernel
    cases given : answer (rolled [.refused none]) 1 with
    | ok value => rfl
    | error reason =>
      rw [given] at second
      cases second

end Sprawling
