import Sprawling.Storage.SegmentFit

/-! The writer on a disk that refuses what it likes: a wave lands, or stops at any of its bytes and is
put back, and between two calls the segments fit their names. -/

namespace Sprawling

open List Option Site Effect Segment FaultFs JsonlLedger OrdMap Tip Vfs

namespace Directory

/-- Every file of the first is in the second, perhaps grown at its end. -/
def Begins (first second : Directory) : Prop :=
  ∀ (path : FileName) (bytes : Bytes), first[path]? = some bytes →
    ∃ more, second[path]? = some more ∧ bytes <+: more

theorem Begins.refl (dir : Directory) : Begins dir dir :=
  fun _ bytes found => ⟨bytes, found, prefix_rfl⟩

theorem Begins.trans {first second third : Directory} (one : Begins first second)
    (two : Begins second third) : Begins first third := by
  intro path bytes found
  obtain ⟨middle, here, begins⟩ := one path bytes found
  obtain ⟨more, there, later⟩ := two path middle here
  exact ⟨more, there, begins.trans later⟩

theorem begins_extend (dir : Directory) (path : FileName) (bytes : Bytes) :
    dir.Begins (dir.extend path bytes) := by
  intro other held found
  by_cases same : path = other
  · subst same
    refine ⟨held ++ bytes, ?_, prefix_append _ _⟩
    rw [get_extend, if_pos rfl, found, getD_some]
  · refine ⟨held, ?_, prefix_rfl⟩
    rw [get_extend, if_neg same, found]

theorem extend_begins (dir : Directory) (path : FileName) {landed bytes : Bytes}
    (begins : landed <+: bytes) : (dir.extend path landed).Begins (dir.extend path bytes) := by
  intro other held found
  rw [get_extend] at found ⊢
  split at found
  · next same =>
      cases found
      rw [if_pos same]
      exact ⟨_, rfl, prefix_append_right_inj _ |>.mpr begins⟩
  · next other_ =>
      rw [if_neg other_]
      exact ⟨held, found, prefix_rfl⟩

theorem begins_landed (dir : Directory) (writes : List WaveWrite) :
    dir.Begins (Calm.landed dir writes) := by
  induction writes generalizing dir with
  | nil => exact Begins.refl dir
  | cons write writes ih => exact (begins_extend dir write.path write.bytes).trans (ih _)

end Directory

namespace WaveDisk

variable {Hash Draft : Type} {wire : Wire Hash Draft} {rollBytes : Nat} {script : List Outcome}

/-- Every file is a segment, and what is written of it and what is synced of it fit its name. -/
def Named (wire : Wire Hash Draft) (rollBytes : Nat) (files : OrdMap FileName FileState) : Prop :=
  ∀ path file, files[path]? = some file → ∃ seq, path = segmentFileName seq ∧
    Segment.Fits wire rollBytes seq file.durable ∧ Segment.Fits wire rollBytes seq file.live

/-- The segments around a wave that may have created some of them, while `owed` is pending. -/
structure Around (wire : Wire Hash Draft) (rollBytes : Nat) (script : List Outcome)
    (owed : Option (List FileName)) (created : List FileName) (site : Site Hash) : Prop where
  left : site.script <:+ script
  owes : site.ledger.pendingUnwind = owed
  rolls : site.ledger.rollBytes = rollBytes
  named : Named wire rollBytes site.files
  place : StandsAt site.directory site.ledger.segPath site.ledger.segLen site.ledger.nextSeq
  within : ∀ bytes, site.directory[site.ledger.segPath]? = some bytes →
    site.ledger.segLen ≤ bytes.length
  own : site.ledger.segPath ∈ created → site.ledger.segLen = 0
  below : ∀ path, (site.files[path]?).isSome → path = site.ledger.segPath ∨ path ∈ created ∨
    ∃ seq, path = segmentFileName seq ∧ seq.value < site.ledger.nextSeq.value

/-- The current segment ends where the writer says. -/
def Exact (site : Site Hash) : Prop :=
  ((site.directory[site.ledger.segPath]?).getD []).length = site.ledger.segLen

/-- None of the wave's segments is there. -/
def Gone (created : List FileName) (site : Site Hash) : Prop :=
  ∀ path ∈ created, site.files[path]? = none

/-- A writer that is ready for a wave. -/
structure Standing (wire : Wire Hash Draft) (rollBytes : Nat) (script : List Outcome)
    (site : Site Hash) : Prop where
  around : Around wire rollBytes script none [] site
  exact : Exact site
  whole : site.ledger.barrier = .whole

/-- A writer between two calls: ready, or still owing the restore of a failed wave. -/
def Running (wire : Wire Hash Draft) (rollBytes : Nat) (script : List Outcome) (site : Site Hash) :
    Prop :=
  Standing wire rollBytes script site ∨
    ∃ created, Around wire rollBytes script (some created) created site

variable {site : Site Hash}

theorem Running.named (running : Running wire rollBytes script site) :
    Named wire rollBytes site.files := by
  cases running with
  | inl standing => exact standing.around.named
  | inr owing =>
    obtain ⟨_, around⟩ := owing
    exact around.named

/-- The tip of a writer that is ready stands. -/
theorem Standing.tip (standing : Standing wire rollBytes script site) :
    Tip.Stands wire rollBytes (Tip.of site.directory site.ledger) := by
  constructor
  · intro path bytes found
    rw [Tip.of, directory_get] at found
    obtain ⟨file, held, same⟩ := map_eq_some_iff.mp found
    obtain ⟨seq, name, -, live⟩ := standing.around.named path file held
    rw [same] at live
    refine ⟨seq, name, live, ?_⟩
    cases standing.around.below path (by rw [held]; rfl) with
    | inl own => exact Or.inl own
    | inr rest =>
      cases rest with
      | inl made => cases made
      | inr earlier =>
        obtain ⟨other, called, less⟩ := earlier
        rw [name] at called
        rw [segmentFileName_inj called]
        exact Or.inr less
  · exact standing.exact
  · exact standing.around.place

section Calls

variable {site : Site Hash}

theorem charge_powered (powered : ∀ torn, Outcome.powerLost torn ∉ script)
    (left : site.script <:+ script) :
    ∃ rest, rest <:+ script ∧ (site.charge = (.done, { site with script := rest }) ∨
      ∃ landed, site.charge = (.refused landed, { site with script := rest })) := by
  cases shape : site.script with
  | nil =>
    refine ⟨[], nil_suffix, Or.inl ?_⟩
    rw [charge, shape]
    simp only [← shape]
  | cons outcome rest =>
    rw [shape] at left
    have later : rest <:+ script := (suffix_cons outcome rest).trans left
    refine ⟨rest, later, ?_⟩
    cases outcome with
    | done =>
      left
      rw [charge, shape]
    | refused landed =>
      right
      refine ⟨landed, ?_⟩
      rw [charge, shape]
    | powerLost torn =>
      exact absurd (left.subset mem_cons_self) (powered torn)

theorem run_append (powered : ∀ torn, Outcome.powerLost torn ∉ script)
    (left : site.script <:+ script) (op : String) (path : FileName) (bytes : Bytes) :
    ∃ rest, rest <:+ script ∧
      ((Vfs.append op path bytes).run site = (.ok (),
          { site with
            files := FaultFs.extend site.files path bytes
            script := rest }) ∨
        (Vfs.append op path bytes).run site = (.error (.io op path), { site with script := rest }) ∨
        ∃ landed, landed <+: bytes ∧ (Vfs.append op path bytes).run site = (.error (.io op path),
          { site with
            files := FaultFs.extend site.files path landed
            script := rest })) := by
  obtain ⟨rest, later, charged⟩ := charge_powered powered left
  have ran : (Vfs.append op path bytes).run site = Vfs.append op path bytes site := rfl
  refine ⟨rest, later, ?_⟩
  rw [ran, Vfs.append]
  cases charged with
  | inl done =>
    left
    rw [done]
  | inr refused =>
    right
    obtain ⟨landed, refused⟩ := refused
    rw [refused]
    cases landed with
    | none => exact Or.inl rfl
    | some landed => exact Or.inr ⟨bytes.take landed, take_prefix _ _, rfl⟩

/-- A call that is carried out and makes its change of the files, or is refused and makes none. -/
def Serves (script : List Outcome) (step : LedgerStep Hash Unit)
    (change : OrdMap FileName FileState → OrdMap FileName FileState → Prop) (site : Site Hash) :
    Prop :=
  ∃ rest, rest <:+ script ∧
    ((∃ files, change site.files files ∧
        step.run site = (.ok (), { site with files := files, script := rest })) ∨
      ∃ e, step.run site = (.error e, { site with script := rest }))

variable (powered : ∀ torn, Outcome.powerLost torn ∉ script)

include powered

variable (left : site.script <:+ script)

include left

theorem serves_truncate (op : String) (path : FileName) (len : Nat) :
    Serves script (Vfs.truncate op path len) (fun files after => ∃ file, files[path]? = some file ∧
      after = files.insert path { file with live := resize file.live len }) site := by
  have ran : (Vfs.truncate op path len).run site = Vfs.truncate op path len site := rfl
  cases found : site.files[path]? with
  | none =>
    refine ⟨site.script, left, Or.inr ⟨.io op path, ?_⟩⟩
    rw [ran, Vfs.truncate]
    simp only [found]
  | some file =>
    obtain ⟨rest, later, charged⟩ := charge_powered powered left
    refine ⟨rest, later, ?_⟩
    rw [ran, Vfs.truncate]
    simp only [found]
    cases charged with
    | inl done =>
      rw [done]
      exact Or.inl ⟨_, ⟨file, rfl, rfl⟩, rfl⟩
    | inr refused =>
      obtain ⟨landed, refused⟩ := refused
      rw [refused]
      exact Or.inr ⟨_, rfl⟩

theorem serves_removeFile (op : String) (path : FileName) :
    Serves script (removeFile op path) (fun files after => after = files.erase path) site := by
  have ran : (removeFile op path).run site = removeFile op path site := rfl
  cases found : site.files[path]? with
  | none =>
    refine ⟨site.script, left, Or.inr ⟨.io op path, ?_⟩⟩
    rw [ran, removeFile]
    simp only [found]
  | some file =>
    obtain ⟨rest, later, charged⟩ := charge_powered powered left
    refine ⟨rest, later, ?_⟩
    rw [ran, removeFile]
    simp only [found]
    cases charged with
    | inl done =>
      rw [done]
      exact Or.inl ⟨_, rfl, rfl⟩
    | inr refused =>
      obtain ⟨landed, refused⟩ := refused
      rw [refused]
      exact Or.inr ⟨_, rfl⟩

theorem serves_syncData (op : String) (path : FileName) :
    Serves script (Vfs.syncData op path) (fun files after => ∃ file, files[path]? = some file ∧
      after = files.insert path { file with durable := file.live }) site := by
  have ran : (Vfs.syncData op path).run site = Vfs.syncData op path site := rfl
  obtain ⟨rest, later, charged⟩ := charge_powered powered left
  refine ⟨rest, later, ?_⟩
  rw [ran, Vfs.syncData]
  cases charged with
  | inl done =>
    rw [done]
    simp only
    cases found : site.files[path]? with
    | none => exact Or.inr ⟨_, rfl⟩
    | some file => exact Or.inl ⟨_, ⟨file, rfl, rfl⟩, rfl⟩
  | inr refused =>
    obtain ⟨landed, refused⟩ := refused
    rw [refused]
    exact Or.inr ⟨_, rfl⟩

theorem serves_syncDir (op : String) :
    Serves script (Vfs.syncDir op) (fun files after => after = promoteEntries files) site := by
  have ran : (Vfs.syncDir op).run site = Vfs.syncDir op site := rfl
  obtain ⟨rest, later, charged⟩ := charge_powered powered left
  refine ⟨rest, later, ?_⟩
  rw [ran, Vfs.syncDir]
  cases charged with
  | inl done =>
    rw [done]
    exact Or.inl ⟨_, rfl, rfl⟩
  | inr refused =>
    obtain ⟨landed, refused⟩ := refused
    rw [refused]
    exact Or.inr ⟨_, rfl⟩

omit left

omit powered

/-- What a call leaves, from what its change leaves and what a refusal does. -/
theorem ensures_serves {step : LedgerStep Hash Unit}
    {change : OrdMap FileName FileState → OrdMap FileName FileState → Prop}
    {before after refused : Site Hash → Prop}
    (serves : ∀ site, before site → Serves script step change site)
    (done : ∀ site files rest, before site → rest <:+ script → change site.files files →
      after { site with files := files, script := rest })
    (error : ∀ site rest, before site → rest <:+ script → refused { site with script := rest }) :
    Effect.Ensures before step (fun _ => after) (fun _ => refused) := by
  intro site start
  obtain ⟨rest, later, ran⟩ := serves site start
  cases ran with
  | inl carried =>
    obtain ⟨files, changed, ran⟩ := carried
    rw [ran]
    exact done site files rest start later changed
  | inr turned =>
    obtain ⟨e, ran⟩ := turned
    rw [ran]
    exact error site rest start later

end Calls

section Restore

variable {owed : Option (List FileName)} {created : List FileName} {site : Site Hash}

variable {rest : List Outcome}

theorem Around.shrink (around : Around wire rollBytes script owed created site)
    {files : OrdMap FileName FileState} (later : rest <:+ script)
    (kept : ∀ (path : FileName) (file : FileState), files[path]? = some file → ∃ old, site.files[path]? = some old ∧ file.live <+: old.live ∧ (file.durable = old.durable ∨ file.durable <+: old.live))
    (current : 0 < site.ledger.segLen → ∀ old : FileState, site.files[site.ledger.segPath]? = some old → ∃ file : FileState, files[site.ledger.segPath]? = some file)
    (enough : ∀ file : FileState, files[site.ledger.segPath]? = some file → site.ledger.segLen ≤ file.live.length) :
    Around wire rollBytes script owed created { site with files := files, script := rest } := by
  constructor
  · exact later
  · exact around.owes
  · exact around.rolls
  · intro path file found
    obtain ⟨old, held, live, durable⟩ := kept path file found
    obtain ⟨seq, name, synced, written⟩ := around.named path old held
    refine ⟨seq, name, ?_, written.of_prefix live⟩
    cases durable with
    | inl same => rwa [same]
    | inr begins => exact written.of_prefix begins
  · apply around.place.congr
    intro some bytes found
    rw [directory_get] at found
    obtain ⟨old, held, same⟩ := map_eq_some_iff.mp found
    obtain ⟨file, here⟩ := current some old held
    obtain ⟨other, there, live, -⟩ := kept _ file here
    rw [held] at there
    cases there
    refine ⟨file.live, by rw [directory_get]; exact congrArg _ here, ?_⟩
    have long := enough file here
    obtain ⟨more, shape⟩ := live
    rw [← same, ← shape, take_append_of_le_length long]
  · intro bytes found
    rw [directory_get] at found
    obtain ⟨file, here, same⟩ := map_eq_some_iff.mp found
    rw [← same]
    exact enough file here
  · exact around.own
  · intro path there
    obtain ⟨file, found⟩ := isSome_iff_exists.mp there
    obtain ⟨old, held, -⟩ := kept path file found
    exact around.below path (by rw [held]; rfl)

theorem Around.rescript (around : Around wire rollBytes script owed created site)
    (later : rest <:+ script) :
    Around wire rollBytes script owed created { site with script := rest } :=
  { around with left := later }

variable {file : FileState} (around : Around wire rollBytes script owed created site)

include around

theorem Around.enough (found : site.files[site.ledger.segPath]? = some file) :
    site.ledger.segLen ≤ file.live.length := by
  apply around.within
  rw [directory_get, found]
  rfl

variable {path : FileName}

theorem Around.erase (made : path ∈ created) (later : rest <:+ script) :
    Around wire rollBytes script owed created
      { site with files := site.files.erase path, script := rest } := by
  apply around.shrink later
  · intro other file found
    rw [get_erase] at found
    split at found
    · cases found
    · exact ⟨file, found, prefix_rfl, Or.inl rfl⟩
  · intro some old held
    have other : path ≠ site.ledger.segPath := by
      intro same
      have zero := around.own (same ▸ made)
      omega
    exact ⟨old, by rw [get_erase, if_neg other, held]⟩
  · intro file found
    rw [get_erase] at found
    split at found
    · cases found
    · exact around.enough found

theorem Around.promote (later : rest <:+ script) :
    Around wire rollBytes script owed created
      { site with files := promoteEntries site.files, script := rest } := by
  have planes : ∀ (path : FileName) (file : FileState), (promoteEntries site.files)[path]? = some file →
      ∃ old, site.files[path]? = some old ∧ file.live = old.live ∧ file.durable = old.durable := by
    intro path file found
    rw [promoteEntries, Std.ExtTreeMap.getElem?_map] at found
    obtain ⟨old, held, same⟩ := map_eq_some_iff.mp found
    exact ⟨old, held, by rw [← same], by rw [← same]⟩
  apply around.shrink later
  · intro path file found
    obtain ⟨old, held, live, durable⟩ := planes path file found
    exact ⟨old, held, live ▸ prefix_rfl, Or.inl durable⟩
  · intro _ old held
    refine ⟨{ old with durableEntry := true }, ?_⟩
    rw [promoteEntries, Std.ExtTreeMap.getElem?_map, held]
    rfl
  · intro file found
    obtain ⟨old, held, live, -⟩ := planes _ file found
    rw [live]
    exact around.enough held

theorem Around.sync (found : site.files[path]? = some file) (later : rest <:+ script) :
    Around wire rollBytes script owed created
      { site with
        files := site.files.insert path { file with durable := file.live }
        script := rest } := by
  have planes : ∀ (other : FileName) (held : FileState),
      (site.files.insert path { file with durable := file.live })[other]? = some held → ∃ old, site.files[other]? = some old ∧ held.live = old.live ∧
        (held.durable = old.durable ∨ held.durable <+: old.live) := by
    intro other held here
    rw [OrdMap.get_insert] at here
    split at here
    · next same =>
        cases here
        rw [← same]
        exact ⟨file, found, rfl, Or.inr prefix_rfl⟩
    · exact ⟨held, here, rfl, Or.inl rfl⟩
  apply around.shrink later
  · intro other held here
    obtain ⟨old, there, live, durable⟩ := planes other held here
    exact ⟨old, there, live ▸ prefix_rfl, durable⟩
  · intro _ old held
    rw [OrdMap.get_insert]
    split
    · exact ⟨_, rfl⟩
    · exact ⟨old, held⟩
  · intro held here
    obtain ⟨old, there, live, -⟩ := planes _ held here
    rw [live]
    exact around.enough there

theorem Around.cut
    (found : site.files[site.ledger.segPath]? = some file) (later : rest <:+ script) :
    Around wire rollBytes script owed created
      { site with
        files := site.files.insert site.ledger.segPath
          { file with live := resize file.live site.ledger.segLen }
        script := rest } := by
  have long := around.enough found
  apply around.shrink later
  · intro other held here
    rw [OrdMap.get_insert] at here
    split at here
    · next same =>
        cases here
        rw [← same]
        refine ⟨file, found, ?_, Or.inl rfl⟩
        rw [Open.resize_of_le long]
        exact take_prefix _ _
    · exact ⟨held, here, prefix_rfl, Or.inl rfl⟩
  · intro _ old held
    rw [OrdMap.get_insert, if_pos rfl]
    exact ⟨_, rfl⟩
  · intro held here
    rw [OrdMap.get_insert, if_pos rfl] at here
    cases here
    rw [Open.resize_of_le long, length_take, Nat.min_eq_left long]

omit around

variable (powered : ∀ torn, Outcome.powerLost torn ∉ script)

include powered in
theorem ensures_removeCreated (gone rest : List FileName) (made : ∀ path ∈ rest, path ∈ created) :
    Effect.Ensures
      (fun site : Site Hash => Around wire rollBytes script owed created site ∧ Gone gone site)
      (JsonlLedger.removeCreated rest)
      (fun _ site => Around wire rollBytes script owed created site ∧ Gone (gone ++ rest) site)
      (fun _ site => Around wire rollBytes script owed created site) := by
  induction rest generalizing gone with
  | nil =>
    rw [append_nil]
    exact fun site start => start
  | cons path rest ih =>
    have later := fun gone => ih gone fun other member => made other (mem_cons_of_mem _ member)
    have shape : gone ++ path :: rest = (gone ++ [path]) ++ rest := by simp
    rw [shape]
    apply ensures_look
    intro here
    split
    · apply @Effect.ensures_bind _ _ _ _ _ _ _ _ (fun _ site =>
        Around wire rollBytes script owed created site ∧ Gone (gone ++ [path]) site)
      · apply ensures_serves
        · intro site start
          exact serves_removeFile powered start.2.1.left _ path
        · intro site files left start suffix change
          rw [change]
          refine ⟨start.2.1.erase (made path mem_cons_self) suffix, ?_⟩
          intro other member
          rw [get_erase]
          split
          · rfl
          · next different =>
              cases mem_append.mp member with
              | inl early => exact start.2.2 other early
              | inr last => exact absurd (mem_singleton.mp last).symm different
        · intro site left start suffix
          exact start.2.1.rescript suffix
      · intro _
        apply Effect.ensures_bind (later (gone ++ [path]))
        exact fun _ site done => done
    · next absent =>
        apply Effect.ensures_consequence (later (gone ++ [path]))
        · intro site start
          refine ⟨start.2.1, ?_⟩
          intro other member
          cases mem_append.mp member with
          | inl early => exact start.2.2 other early
          | inr last =>
            rw [mem_singleton.mp last, start.1]
            rw [fileExists, Bool.not_eq_true, isSome_eq_false_iff, isNone_iff_eq_none] at absent
            exact absent
        · exact fun _ _ done => done
        · exact fun _ _ refused => refused

theorem Gone.insert (gone : Gone created site) (kept : path ∉ created) (file : FileState)
    (rest : List Outcome) :
    Gone created { site with files := site.files.insert path file, script := rest } := by
  intro other member
  have apart : path ≠ other := fun same => kept (same ▸ member)
  rw [OrdMap.get_insert, if_neg apart, gone other member]

theorem Gone.promote (gone : Gone created site) (rest : List Outcome) :
    Gone created { site with files := promoteEntries site.files, script := rest } := by
  intro path member
  rw [promoteEntries, Std.ExtTreeMap.getElem?_map, gone path member, map_none]

include powered in
theorem ensures_cutBack :
    Effect.Ensures
      (fun site : Site Hash => Around wire rollBytes script owed created site ∧ Gone created site)
      (do
        let site ← Effect.look
        if site.ledger.segPath ∉ created then
          Vfs.truncate "truncate a segment back before the failed wave" site.ledger.segPath
            site.ledger.segLen
          Vfs.syncData "sync a segment cut back before the failed wave" site.ledger.segPath)
      (fun _ site => Around wire rollBytes script owed created site ∧ Gone created site ∧ Exact site)
      (fun _ site => Around wire rollBytes script owed created site) := by
  apply ensures_look
  intro here
  split
  · next kept =>
      apply @Effect.ensures_bind _ _ _ _ _ _ _ _ (fun _ site => site.ledger = here.ledger ∧
        Around wire rollBytes script owed created site ∧ Gone created site ∧ Exact site)
      · apply ensures_serves
        · exact fun site start => serves_truncate powered start.2.1.left _ _ _
        · intro site files rest start later change
          obtain ⟨same, around, gone⟩ := start
          cases same
          obtain ⟨file, found, change⟩ := change
          rw [change]
          refine ⟨rfl, around.cut found later, gone.insert kept _ _, ?_⟩
          · rw [Exact, directory_get, OrdMap.get_insert, if_pos rfl]
            simp only [map_some, getD_some]
            rw [Open.resize_of_le (around.enough found), length_take,
              Nat.min_eq_left (around.enough found)]
        · exact fun site rest start later => start.2.1.rescript later
      · intro _
        apply ensures_serves
        · exact fun site start => serves_syncData powered start.2.1.left _ _
        · intro site files rest start later change
          obtain ⟨same, around, gone, ends⟩ := start
          obtain ⟨file, found, change⟩ := change
          rw [change]
          rw [← same] at found kept ⊢
          refine ⟨around.sync found later, gone.insert kept _ _, ?_⟩
          · rw [Exact, directory_get, found] at ends
            rw [Exact, directory_get, OrdMap.get_insert, if_pos rfl]
            exact ends
        · exact fun site rest start later => start.2.1.rescript later
  · next made =>
      intro site start
      obtain ⟨same, around, gone⟩ := start
      cases same
      rw [not_not] at made
      refine ⟨around, gone, ?_⟩
      rw [Exact, directory_get, gone _ made, around.own made]
      rfl

include powered in
theorem ensures_restore :
    Effect.Ensures (fun site : Site Hash => Around wire rollBytes script owed created site)
      (JsonlLedger.restore created)
      (fun _ site => Around wire rollBytes script owed created site ∧ Gone created site ∧ Exact site)
      (fun _ site => Around wire rollBytes script owed created site) := by
  have removed := @ensures_removeCreated Hash Draft wire rollBytes script owed created powered [] created
    fun _ member => member
  apply @Effect.ensures_bind _ _ _ _ _ _ _ _ (fun _ site =>
    Around wire rollBytes script owed created site ∧ Gone created site)
  · apply Effect.ensures_consequence removed
    · exact fun site around => ⟨around, fun _ none_ => absurd none_ not_mem_nil⟩
    · exact fun _ _ done => done
    · exact fun _ _ refused => refused
  · intro some
    cases some with
    | false => exact ensures_cutBack powered
    | true =>
      apply @Effect.ensures_bind _ _ _ _ _ _ _ _ (fun _ site =>
        Around wire rollBytes script owed created site ∧ Gone created site)
      · apply ensures_serves
        · exact fun site start => serves_syncDir powered start.1.left _
        · intro site files rest start later change
          rw [change]
          exact ⟨start.1.promote later, start.2.promote rest⟩
        · exact fun site rest start later => start.1.rescript later
      · exact fun _ => ensures_cutBack powered

theorem Around.settled (around : Around wire rollBytes script owed created site)
    (gone : Gone created site) : Around wire rollBytes script owed [] site := by
  refine { around with own := ?_, below := ?_ }
  · exact fun none_ => absurd none_ not_mem_nil
  · intro path there
    cases around.below path there with
    | inl own => exact Or.inl own
    | inr rest =>
      cases rest with
      | inl made =>
        rw [gone path made] at there
        cases there
      | inr earlier => exact Or.inr (Or.inr earlier)

include powered in
/-- A writer that owes a restore is ready once the restore answers, and owes it still when not. -/
theorem ensures_finishUnwind :
    Effect.Ensures (fun site : Site Hash => Running wire rollBytes script site)
      JsonlLedger.finishUnwind (fun _ site => Standing wire rollBytes script site)
      (fun _ site => Running wire rollBytes script site) := by
  apply ensures_look
  intro here
  cases pending : here.ledger.pendingUnwind with
  | none =>
    intro site start
    obtain ⟨same, running⟩ := start
    cases same
    cases running with
    | inl standing => exact standing
    | inr owing =>
      obtain ⟨created, around⟩ := owing
      rw [around.owes] at pending
      cases pending
  | some created =>
    apply @Effect.ensures_bind _ _ _ _ _ _ _ _ (fun _ site =>
      Around wire rollBytes script none created site)
    · apply ensures_update
      intro site start
      obtain ⟨same, running⟩ := start
      cases same
      cases running with
      | inl standing =>
        rw [standing.around.owes] at pending
        cases pending
      | inr owing =>
        obtain ⟨other, around⟩ := owing
        rw [around.owes] at pending
        cases pending
        exact { around with owes := rfl }
    · intro _
      apply Effect.ensures_bind (ensures_attempt (ensures_restore powered))
      intro outcome
      cases outcome with
      | ok value =>
        apply ensures_update
        intro site done
        obtain ⟨around, gone, ends⟩ := done
        exact ⟨{ around.settled gone with }, ends, rfl⟩
      | error reason =>
        apply @Effect.ensures_bind _ _ _ _ _ _ _ _ (fun _ site =>
          Running wire rollBytes script site)
        · apply ensures_update
          exact fun site around => Or.inr ⟨created, { around with owes := rfl }⟩
        · exact fun _ site running => running

end Restore

section Land

variable {base target : Directory} {writer : JsonlLedger Hash} {site : Site Hash}
  (powered : ∀ torn, Outcome.powerLost torn ∉ script)

/-- A wave on its way from one directory to another: no file is less than it was, none is more than
it will be. -/
structure Amid (wire : Wire Hash Draft) (rollBytes : Nat) (script : List Outcome)
    (base target : Directory) (writer : JsonlLedger Hash) (site : Site Hash) : Prop where
  left : site.script <:+ script
  writer : site.ledger = writer
  above : base.Begins site.directory
  below : site.directory.Begins target
  synced : ∀ (path : FileName) (file : FileState), site.files[path]? = some file →
    ∃ seq, path = segmentFileName seq ∧ Segment.Fits wire rollBytes seq file.durable

/-- The segments a wave makes for: each fits its name. -/
def Aimed (wire : Wire Hash Draft) (rollBytes : Nat) (target : Directory) : Prop :=
  ∀ (path : FileName) (bytes : Bytes), target[path]? = some bytes →
    ∃ seq, path = segmentFileName seq ∧ Segment.Fits wire rollBytes seq bytes

variable {rest : List Outcome}

theorem Amid.extend (amid : Amid wire rollBytes script base target writer site)
    (aimed : Aimed wire rollBytes target) {path : FileName} {bytes : Bytes}
    (later : rest <:+ script) (toward : (site.directory.extend path bytes).Begins target) :
    Amid wire rollBytes script base target writer
      { site with files := FaultFs.extend site.files path bytes, script := rest } := by
  have dir : ({ site with
      files := FaultFs.extend site.files path bytes, script := rest } : Site Hash).directory =
        site.directory.extend path bytes :=
    @Site.directory_extend _ { site with script := rest } path bytes
  constructor
  · exact later
  · exact amid.writer
  · rw [dir]
    exact amid.above.trans (Directory.begins_extend _ _ _)
  · rw [dir]
    exact toward
  · intro other file found
    rw [FaultFs.extend, OrdMap.get_insert] at found
    split at found
    · next same =>
        cases found
        obtain ⟨more, there, -⟩ := toward path _ (by rw [get_extend, if_pos rfl])
        obtain ⟨seq, name, -⟩ := aimed path more there
        refine ⟨seq, same ▸ name, ?_⟩
        rw [fileAt]
        cases old : site.files[path]? with
        | none => exact fits_nil seq
        | some file =>
          obtain ⟨other, called, fits⟩ := amid.synced path file old
          rw [name] at called
          rw [segmentFileName_inj called]
          exact fits
    · exact amid.synced other file found

include powered in
theorem ensures_appends (aimed : Aimed wire rollBytes target) (op : String)
    (writes : List WaveWrite) :
    Effect.Ensures
      (fun site => Amid wire rollBytes script base target writer site ∧
        Calm.landed site.directory writes = target)
      (writes.forM fun write => Vfs.append op write.path write.bytes)
      (fun _ site => Amid wire rollBytes script base target writer site ∧ site.directory = target)
      (fun _ site => Amid wire rollBytes script base target writer site) := by
  induction writes with
  | nil => exact fun site start => start
  | cons write writes ih =>
    apply Effect.ensures_bind _ fun _ => ih
    intro site start
    obtain ⟨amid, lands⟩ := start
    have toward : (site.directory.extend write.path write.bytes).Begins target := by
      rw [← lands]
      exact Directory.begins_landed _ writes
    obtain ⟨rest, later, ran⟩ := @run_append _ _ site powered amid.left op write.path write.bytes
    cases ran with
    | inl done =>
      rw [done]
      refine ⟨amid.extend aimed later toward, ?_⟩
      rw [← lands]
      exact congrArg (Calm.landed · writes)
        (@Site.directory_extend _ { site with script := rest } write.path write.bytes)
    | inr stopped =>
      cases stopped with
      | inl refused =>
        rw [refused]
        exact { amid with left := later }
      | inr partly =>
        obtain ⟨landed, begins, refused⟩ := partly
        rw [refused]
        exact amid.extend aimed later
          ((Directory.extend_begins _ _ begins).trans toward)

theorem Amid.replane (amid : Amid wire rollBytes script base target writer site)
    {files : OrdMap FileName FileState} (later : rest <:+ script)
    (same : ({ site with files := files, script := rest } : Site Hash).directory = site.directory)
    (synced : ∀ (path : FileName) (file : FileState), files[path]? = some file →
      ∃ seq, path = segmentFileName seq ∧ Segment.Fits wire rollBytes seq file.durable) :
    Amid wire rollBytes script base target writer
      { site with files := files, script := rest } := by
  constructor
  · exact later
  · exact amid.writer
  · rw [same]
    exact amid.above
  · rw [same]
    exact amid.below
  · exact synced

include powered in
theorem ensures_syncs (aimed : Aimed wire rollBytes target) (op : String)
    (writes : List WaveWrite) :
    Effect.Ensures
      (fun site => Amid wire rollBytes script base target writer site ∧ site.directory = target)
      (writes.forM fun write => Vfs.syncData op write.path)
      (fun _ site => Amid wire rollBytes script base target writer site ∧ site.directory = target)
      (fun _ site => Amid wire rollBytes script base target writer site) := by
  induction writes with
  | nil => exact fun site start => start
  | cons write writes ih =>
    apply Effect.ensures_bind _ fun _ => ih
    apply ensures_serves
    · exact fun site start => serves_syncData powered start.1.left _ _
    · intro site files rest start later change
      obtain ⟨amid, lands⟩ := start
      obtain ⟨file, found, change⟩ := change
      have live : site.directory[write.path]? = some file.live := by
        rw [directory_get, found]
        rfl
      have same : ({ site with
          files := site.files.insert write.path { file with durable := file.live }
          script := rest } : Site Hash).directory = site.directory := by
        have inserted := @Site.directory_insert _ { site with script := rest } write.path
          { file with durable := file.live }
        exact inserted.trans (insert_same live)
      rw [change]
      refine ⟨amid.replane later same ?_, same.trans lands⟩
      intro path held here
      rw [OrdMap.get_insert] at here
      split at here
      · next equal =>
          cases here
          rw [lands] at live
          rw [← equal]
          exact aimed _ _ live
      · exact amid.synced path held here
    · intro site rest start later
      exact { start.1 with left := later }

include powered in
theorem ensures_land (aimed : Aimed wire rollBytes target) (writes : List WaveWrite)
    (created : List FileName) :
    Effect.Ensures
      (fun site => Amid wire rollBytes script base target writer site ∧
        Calm.landed site.directory writes = target)
      (JsonlLedger.land writes created)
      (fun _ site => Amid wire rollBytes script base target writer site ∧ site.directory = target)
      (fun _ site => Amid wire rollBytes script base target writer site) := by
  apply Effect.ensures_bind (ensures_appends powered aimed _ writes)
  intro _
  apply Effect.ensures_bind (ensures_syncs powered aimed _ writes)
  intro _
  split
  · apply ensures_serves
    · exact fun site start => serves_syncDir powered start.1.left _
    · intro site files rest start later change
      obtain ⟨amid, lands⟩ := start
      have same : ({ site with
          files := promoteEntries site.files
          script := rest } : Site Hash).directory = site.directory :=
        @Site.directory_promote _ { site with script := rest }
      rw [change]
      refine ⟨amid.replane later same ?_, same.trans lands⟩
      intro path file found
      rw [promoteEntries, Std.ExtTreeMap.getElem?_map] at found
      obtain ⟨old, held, shape⟩ := map_eq_some_iff.mp found
      rw [← shape]
      exact amid.synced path old held
    · intro site rest start later
      exact { start.1 with left := later }
  · exact fun site start => start

/-- What a wave being framed may touch: what was there, and the segments it creates, of which the
current one is one only while it is empty. -/
structure Opens (site : Site Hash) (framing : Framing Hash Draft) : Prop where
  made : ∀ path : FileName, ((Calm.landed site.directory framing.writes)[path]?).isSome →
    (site.directory[path]?).isSome ∨ path ∈ framing.created
  current : (site.directory[framing.curPath]?).isSome ∨ framing.curPath ∈ framing.created
  later : site.ledger.nextSeq.value ≤ framing.seq.value
  own : site.ledger.segPath ∈ framing.created → site.ledger.segLen = 0

variable (place : StandsAt site.directory site.ledger.segPath site.ledger.segLen site.ledger.nextSeq)

include place

theorem opens_start : Opens site (startFraming site : Framing Hash Draft) := by
  constructor
  · exact fun path there => Or.inl there
  · show (site.directory[site.ledger.segPath]?).isSome ∨ site.ledger.segPath ∈
      (if site.ledger.segLen == 0 && !site.fileExists site.ledger.segPath
        then [site.ledger.segPath] else [])
    by_cases empty : site.ledger.segLen = 0
    · rw [fileExists_iff]
      cases there : (site.directory[site.ledger.segPath]?).isSome with
      | true => exact Or.inl rfl
      | false => simp [empty]
    · obtain ⟨_, _, _, _, held, _⟩ := place.past (Nat.pos_of_ne_zero empty)
      rw [held]
      exact Or.inl rfl
  · exact Nat.le_refl _
  · show site.ledger.segPath ∈ (if site.ledger.segLen == 0 &&
      !site.fileExists site.ledger.segPath then [site.ledger.segPath] else []) → _
    split
    · next empty =>
        intro _
        simp only [Bool.and_eq_true, beq_iff_eq] at empty
        exact empty.1
    · exact fun none_ => absurd none_ not_mem_nil

theorem Opens.frame {framing next : Framing Hash Draft} {draft : Draft}
    (opens : Opens site framing) (framed : JsonlLedger.frame wire rollBytes framing draft = .ok next) :
    Opens site next := by
  obtain ⟨line, seq, -, counted, seq_eq, -, -, where_⟩ := frame_eq_ok framed
  have after := Seq.next_eq_ok.mp counted
  have later : site.ledger.nextSeq.value ≤ next.seq.value := by
    have before := opens.later
    rw [seq_eq]
    omega
  cases where_ with
  | inl rolled =>
    obtain ⟨-, -, path, -, created, writes⟩ := rolled
    have added : segmentFileName framing.seq ∈ next.created := by
      rw [created]
      simp
    constructor
    · intro other there
      rw [writes, landed_pushWrite, get_extend] at there
      split at there
      · next same => exact Or.inr (same ▸ added)
      · cases opens.made other there with
        | inl held => exact Or.inl held
        | inr early =>
          rw [created]
          exact Or.inr (mem_append_left _ early)
    · rw [path]
      exact Or.inr added
    · exact later
    · intro inside
      rw [created] at inside
      cases mem_append.mp inside with
      | inl early => exact opens.own early
      | inr last =>
        cases place with
        | inl start => exact start.1
        | inr past =>
          obtain ⟨named, _, name, less, _, _⟩ := past
          have same := mem_singleton.mp last
          rw [name] at same
          have equal := segmentFileName_inj same
          have before := opens.later
          rw [← equal] at before
          omega
  | inr stayed =>
    obtain ⟨-, path, -, created, writes⟩ := stayed
    constructor
    · intro other there
      rw [writes, landed_pushWrite, get_extend] at there
      rw [created]
      split at there
      · next same => exact same ▸ opens.current
      · exact opens.made other there
    · rw [path, created]
      exact opens.current
    · exact later
    · rw [created]
      exact opens.own

omit place

variable {framed : Framing Hash Draft}

theorem Opens.frames
    (place : StandsAt site.directory site.ledger.segPath site.ledger.segLen site.ledger.nextSeq)
    {drafts : List Draft}
    (frames : drafts.foldlM (JsonlLedger.frame wire rollBytes) (startFraming site) = .ok framed) :
    Opens site framed :=
  @Outcome.foldlM_holds _ _ _ _ (fun _ => Opens site) [] drafts _ framed (opens_start place)
    (fun _ _ _ _ held here => held.frame place here) frames

variable {before : Site Hash}

theorem Amid.around (standing : Standing wire rollBytes script before)
    (opens : Opens before framed)
    (aimed : Aimed wire rollBytes (Calm.landed before.directory framed.writes))
    (amid : Amid wire rollBytes script before.directory (Calm.landed before.directory framed.writes) writer site)
    (same : writer = { before.ledger with barrier := .broken }) :
    Around wire rollBytes script none framed.created site := by
  have was := standing.around
  have path : site.ledger.segPath = before.ledger.segPath := by rw [amid.writer, same]
  have len : site.ledger.segLen = before.ledger.segLen := by rw [amid.writer, same]
  have seq : site.ledger.nextSeq = before.ledger.nextSeq := by rw [amid.writer, same]
  constructor
  · exact amid.left
  · rw [amid.writer, same]
    exact was.owes
  · rw [amid.writer, same]
    exact was.rolls
  · intro other file found
    obtain ⟨seq, name, synced⟩ := amid.synced other file found
    have live : site.directory[other]? = some file.live := by
      rw [directory_get, found]
      rfl
    obtain ⟨more, there, begins⟩ := amid.below other _ live
    obtain ⟨named, called, fits⟩ := aimed other more there
    rw [name] at called
    rw [← segmentFileName_inj called] at fits
    exact ⟨seq, name, synced, fits.of_prefix begins⟩
  · rw [path, len, seq]
    apply was.place.congr
    intro some bytes found
    obtain ⟨more, there, begins⟩ := amid.above _ bytes found
    refine ⟨more, there, ?_⟩
    obtain ⟨rest, shape⟩ := begins
    rw [← shape, take_append_of_le_length (was.within bytes found)]
  · intro bytes found
    rw [path] at found
    rw [len]
    cases held : before.directory[before.ledger.segPath]? with
    | some old =>
      obtain ⟨more, there, begins⟩ := amid.above _ old held
      rw [found] at there
      cases there
      exact Nat.le_trans (was.within old held) begins.length_le
    | none =>
      have ends := standing.exact
      rw [Exact, held] at ends
      rw [← ends]
      exact Nat.zero_le _
  · rw [path, len]
    exact opens.own
  · intro other there
    rw [path, seq]
    have live : (site.directory[other]?).isSome := by
      rw [directory_get, isSome_map]
      exact there
    obtain ⟨bytes, found⟩ := isSome_iff_exists.mp live
    obtain ⟨more, landed, -⟩ := amid.below other bytes found
    cases opens.made other (by rw [landed]; rfl) with
    | inr made => exact Or.inr (Or.inl made)
    | inl held =>
      rw [directory_get, isSome_map] at held
      cases was.below other held with
      | inl own => exact Or.inl own
      | inr rest =>
        cases rest with
        | inl none_ => cases none_
        | inr earlier => exact Or.inr (Or.inr earlier)

theorem Amid.standing (standing : Standing wire rollBytes script before)
    (tip : Tip.Stands wire rollBytes (Tip.landed wire before.directory framed))
    (amid : Amid wire rollBytes script before.directory (Calm.landed before.directory framed.writes) writer site)
    (lands : site.directory = Calm.landed before.directory framed.writes)
    (same : writer = { before.ledger with barrier := .broken }) :
    Standing wire rollBytes script { site with ledger := Calm.advanced site.ledger framed } := by
  have stays : ({ site with ledger := Calm.advanced site.ledger framed } : Site Hash).directory =
      Calm.landed before.directory framed.writes := lands
  refine ⟨⟨amid.left, ?_, ?_, ?_, ?_, ?_, ?_, ?_⟩, ?_, rfl⟩
  · show site.ledger.pendingUnwind = none
    rw [amid.writer, same]
    exact standing.around.owes
  · show site.ledger.rollBytes = rollBytes
    rw [amid.writer, same]
    exact standing.around.rolls
  · intro path file found
    obtain ⟨seq, name, synced⟩ := amid.synced path file found
    have live : (Calm.landed before.directory framed.writes)[path]? = some file.live := by
      rw [← lands, directory_get]
      exact congrArg _ found
    obtain ⟨other, called, fits, -⟩ := tip.fits path _ live
    rw [name] at called
    rw [← segmentFileName_inj called] at fits
    exact ⟨seq, name, synced, fits⟩
  · rw [stays]
    exact tip.place
  · rw [stays]
    intro bytes found
    have ends := tip.ends
    rw [Tip.landed] at ends
    simp only at ends
    have here : (Calm.landed before.directory framed.writes)[framed.curPath]? = some bytes := found
    rw [here, getD_some] at ends
    exact Nat.le_of_eq ends.symm
  · exact fun none_ => absurd none_ not_mem_nil
  · intro path there
    have live : ((Calm.landed before.directory framed.writes)[path]?).isSome := by
      rw [← lands, directory_get, isSome_map]
      exact there
    obtain ⟨bytes, found⟩ := isSome_iff_exists.mp live
    obtain ⟨seq, name, -, held⟩ := tip.fits path bytes found
    cases held with
    | inl own => exact Or.inl own
    | inr less => exact Or.inr (Or.inr ⟨seq, name, less⟩)
  · rw [Exact, stays]
    exact tip.ends

end Land

section Wave

variable (powered : ∀ torn, Outcome.powerLost torn ∉ script)

/-- A site a wave of the writer `before` sets out from. -/
def Sent (before : Site Hash) : Site Hash :=
  { before with ledger := { before.ledger with barrier := .broken } }

include powered in
theorem ensures_writeWave {before : Site Hash} (standing : Standing wire rollBytes script before)
    {framed : Framing Hash Draft} (opens : Opens before framed)
    (aimed : Aimed wire rollBytes (Calm.landed before.directory framed.writes)) :
    Effect.Ensures (fun site => site = Sent before)
      (writeWave framed.writes framed.created)
      (fun _ site => Amid wire rollBytes script before.directory
        (Calm.landed before.directory framed.writes) (Sent before).ledger site ∧
          site.directory = Calm.landed before.directory framed.writes)
      (fun _ site => Running wire rollBytes script site) := by
  have lands := @ensures_land _ _ wire rollBytes script before.directory
    (Calm.landed before.directory framed.writes) (Sent before).ledger powered aimed framed.writes
    framed.created
  apply Effect.ensures_bind (ensures_attempt (Effect.ensures_consequence lands _
    (fun _ _ done => done) (fun _ _ refused => refused)))
  · intro outcome
    cases outcome with
    | ok value => exact fun site done => done
    | error reason =>
      apply @Effect.ensures_bind _ _ _ _ _ _ _ _ (fun _ site => Running wire rollBytes script site)
      · apply ensures_update
        intro site amid
        have around := amid.around standing opens aimed rfl
        exact Or.inr ⟨framed.created, { around with owes := rfl }⟩
      · intro _
        apply @Effect.ensures_bind _ _ _ _ _ _ _ _
          (fun _ site => Running wire rollBytes script site)
        · apply ensures_weaken (ensures_attempt (ensures_finishUnwind powered))
          · intro outcome site done
            cases outcome with
            | ok value => exact Or.inl done
            | error reason => exact done
          · exact fun _ _ refused => refused
        · exact fun _ site running => running
  · intro site same
    rw [same]
    refine ⟨⟨standing.around.left, rfl, Directory.Begins.refl _, Directory.begins_landed _ _, ?_⟩, rfl⟩
    intro path file found
    obtain ⟨seq, name, synced, -⟩ := standing.around.named path file found
    exact ⟨seq, name, synced⟩

include powered in
/-- A wave leaves the writer ready when it answers, and between two calls either way. -/
theorem ensures_appendAll (lawful : wire.Lawful) (drafts : List Draft) :
    Effect.Ensures (fun site => Running wire rollBytes script site)
      (JsonlLedger.appendAll wire drafts) (fun _ site => Standing wire rollBytes script site)
      (fun _ site => Running wire rollBytes script site) := by
  apply Effect.ensures_bind (ensures_finishUnwind powered)
  intro _
  apply @Effect.ensures_bind _ _ _ _ _ _ _ _ (fun _ site => Standing wire rollBytes script site)
  · apply ensures_look
    intro here
    cases whole : here.ledger.barrier with
    | whole => exact fun site start => start.2
    | broken => exact fun site start => Or.inl start.2
  · intro _
    split
    · exact fun site start => start
    · apply ensures_look
      intro here site start
      obtain ⟨same, standing⟩ := start
      cases same
      have rolls := standing.around.rolls
      rw [run_bind, run_lift, rolls]
      cases frames : drafts.foldlM (JsonlLedger.frame wire rollBytes)
          (startFraming here) with
      | error e => exact Or.inl standing
      | ok framed =>
        have opens := Opens.frames standing.around.place frames
        have started : Tip.Stands wire rollBytes
            (Tip.landed wire here.directory (startFraming here)) := standing.tip
        have tips := @Tip.landed_frames _ _ wire rollBytes here.directory
          (startFraming here) drafts
        rw [frames] at tips
        have tip := started.puts lawful tips.symm
        have aimed : Aimed wire rollBytes (Calm.landed here.directory framed.writes) := by
          intro path bytes found
          obtain ⟨seq, name, fits, -⟩ := tip.fits path bytes found
          exact ⟨seq, name, fits⟩
        have written := ensures_writeWave powered standing opens aimed
        exact Effect.ensures_bind written
          (fun _ site done => done.1.standing standing tip done.2 rfl) (Sent here) rfl

end Wave

end WaveDisk

end Sprawling
