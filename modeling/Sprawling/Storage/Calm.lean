import Sprawling.Storage.TailScan

/-! The ledger on a disk that does what it is asked: every step answers, and only the live
plane matters. -/

namespace Sprawling

open JsonlLedger FaultFs Effect

namespace Directory

/-- The directory after bytes are appended to one of its files. -/
def extend (dir : Directory) (path : FileName) (bytes : Bytes) : Directory :=
  dir.insert path ((dir[path]?).getD [] ++ bytes)

end Directory

namespace Site

variable {Hash : Type}

def Calm (site : Site Hash) : Prop := site.script = []

/-- A directory on a disk without faults. -/
def ofDirectory (dir : Directory) (ledger : JsonlLedger Hash) : Site Hash :=
  { files := dir.map fun _ bytes => { durable := bytes, live := bytes, durableEntry := true }
    script := []
    ledger }

theorem directory_get (site : Site Hash) (path : FileName) :
    site.directory[path]? = (site.files[path]?).map FileState.live := by
  simp [directory]

@[simp] theorem directory_ofDirectory (dir : Directory) (ledger : JsonlLedger Hash) :
    (ofDirectory dir ledger).directory = dir := by
  apply Std.ExtTreeMap.ext_getElem?
  intro path
  rw [directory_get, ofDirectory]
  cases found : dir[path]? <;> simp [found]

theorem directory_insert {site : Site Hash} {path : FileName} {file : FileState} :
    ({ site with files := site.files.insert path file } : Site Hash).directory =
      site.directory.insert path file.live := by
  apply Std.ExtTreeMap.ext_getElem?
  intro other
  rw [directory_get, OrdMap.get_insert, OrdMap.get_insert, directory_get]
  split <;> rfl

theorem directory_erase {site : Site Hash} {path : FileName} :
    ({ site with files := site.files.erase path } : Site Hash).directory =
      site.directory.erase path := by
  apply Std.ExtTreeMap.ext_getElem?
  intro other
  rw [directory_get, OrdMap.get_erase, OrdMap.get_erase, directory_get]
  split <;> rfl

theorem directory_extend {site : Site Hash} {path : FileName} {bytes : Bytes} :
    ({ site with files := FaultFs.extend site.files path bytes } : Site Hash).directory =
      site.directory.extend path bytes := by
  rw [FaultFs.extend, directory_insert, Directory.extend, directory_get, fileAt]
  cases site.files[path]? <;> rfl

theorem directory_promote {site : Site Hash} :
    ({ site with files := promoteEntries site.files } : Site Hash).directory =
      site.directory := by
  apply Std.ExtTreeMap.ext_getElem?
  intro other
  rw [directory_get, directory_get, promoteEntries]
  cases found : site.files[other]? <;> simp [found]

theorem fileExists_iff {site : Site Hash} {path : FileName} :
    site.fileExists path = (site.directory[path]?).isSome := by
  rw [fileExists, directory_get, Option.isSome_map]

end Site

/-- A step that answers `value` and leaves the disk calm with this directory and this writer. -/
def Answers {Hash α : Type} (step : LedgerStep Hash α) (site : Site Hash) (value : α)
    (dir : Directory) (ledger : JsonlLedger Hash) : Prop :=
  ∃ after, step.run site = (.ok value, after) ∧ after.Calm ∧ after.directory = dir ∧
    after.ledger = ledger

namespace Calm

variable {Hash α β : Type} {site : Site Hash}

variable {answer : β} {dir : Directory} {ledger : JsonlLedger Hash}

variable {next : α → LedgerStep Hash β}

theorem answers_bind {first : LedgerStep Hash α} {value : α}
    {last : Directory} {done : JsonlLedger Hash} (here : Answers first site value dir ledger)
    (rest : ∀ after : Site Hash, after.Calm → after.directory = dir → after.ledger = ledger → Answers (next value) after answer last done) :
    Answers (first >>= next) site answer last done := by
  rcases here with ⟨middle, ran, calm, files, writer⟩
  rcases rest middle calm files writer with ⟨after, ran', kept⟩
  refine ⟨after, ?_, kept⟩
  rw [run_bind_ok ran, ran']

theorem answers_pure (calm : site.Calm) (value : α) :
    Answers (pure value : LedgerStep Hash α) site value site.directory site.ledger :=
  ⟨site, rfl, calm, rfl, rfl⟩

theorem answers_look {next : Site Hash → LedgerStep Hash β}
    (rest : Answers (next site) site answer dir ledger) :
    Answers (Effect.look >>= next) site answer dir ledger := rest

theorem answers_lift {decided : Except StorageError α} {value : α}
    (known : decided = .ok value) (rest : Answers (next value) site answer dir ledger) :
    Answers (Effect.lift decided >>= next) site answer dir ledger := by
  subst known
  exact rest

theorem answers_setLedger (calm : site.Calm) (change : JsonlLedger Hash → JsonlLedger Hash) :
    Answers (setLedger change) site () site.directory (change site.ledger) :=
  ⟨{ site with ledger := change site.ledger }, rfl, calm, rfl, rfl⟩

theorem charge_calm (calm : site.Calm) : site.charge = (.done, site) := by
  rw [Site.charge, show site.script = [] from calm]

theorem answers_append (calm : site.Calm) (op : String) (path : FileName) (bytes : Bytes) :
    Answers (Vfs.append op path bytes) site () (site.directory.extend path bytes) site.ledger := by
  refine ⟨{ site with files := FaultFs.extend site.files path bytes }, ?_, calm,
    Site.directory_extend, rfl⟩
  show Vfs.append op path bytes site = _
  simp only [Vfs.append, charge_calm calm]

variable {path : FileName}

theorem answers_syncData (calm : site.Calm) (op : String)
    (present : (site.directory[path]?).isSome) :
    Answers (Vfs.syncData op path) site () site.directory site.ledger := by
  rw [Site.directory_get, Option.isSome_map] at present
  rcases Option.isSome_iff_exists.mp present with ⟨file, found⟩
  refine ⟨{ site with files := site.files.insert path { file with durable := file.live } }, ?_,
    calm, ?_, rfl⟩
  · show Vfs.syncData op path site = _
    simp only [Vfs.syncData, charge_calm calm, found]
  · rw [Site.directory_insert]
    exact OrdMap.insert_same (by rw [Site.directory_get, found]; rfl)

theorem answers_truncate (calm : site.Calm) (op : String) {bytes : Bytes} (len : Nat)
    (present : site.directory[path]? = some bytes) :
    Answers (Vfs.truncate op path len) site () (site.directory.insert path (resize bytes len))
      site.ledger := by
  rw [Site.directory_get, Option.map_eq_some_iff] at present
  rcases present with ⟨file, found, rfl⟩
  refine ⟨{ site with
    files := site.files.insert path { file with live := resize file.live len } }, ?_,
    calm, Site.directory_insert, rfl⟩
  show Vfs.truncate op path len site = _
  simp only [Vfs.truncate, charge_calm calm, found]

theorem answers_removeFile (calm : site.Calm) (op : String)
    (present : (site.directory[path]?).isSome) :
    Answers (Vfs.removeFile op path) site () (site.directory.erase path) site.ledger := by
  rw [Site.directory_get, Option.isSome_map] at present
  rcases Option.isSome_iff_exists.mp present with ⟨file, found⟩
  refine ⟨{ site with files := site.files.erase path }, ?_, calm, Site.directory_erase, rfl⟩
  show Vfs.removeFile op path site = _
  simp only [Vfs.removeFile, charge_calm calm, found]

theorem answers_syncDir (calm : site.Calm) (op : String) :
    Answers (Vfs.syncDir op) site () site.directory site.ledger := by
  refine ⟨{ site with files := promoteEntries site.files }, ?_, calm,
    Site.directory_promote, rfl⟩
  show Vfs.syncDir op site = _
  simp only [Vfs.syncDir, charge_calm calm]

/-- The directory once every write of a wave has landed. -/
def landed (dir : Directory) (writes : List WaveWrite) : Directory :=
  writes.foldl (fun dir write => dir.extend write.path write.bytes) dir

theorem landed_present {writes : List WaveWrite}
    (present : (dir[path]?).isSome ∨ ∃ write ∈ writes, write.path = path) :
    ((landed dir writes)[path]?).isSome := by
  induction writes generalizing dir with
  | nil =>
    rcases present with here | ⟨write, member, -⟩
    · exact here
    · cases member
  | cons write writes ih =>
    apply ih
    rcases present with here | ⟨other, member, same⟩
    · left
      show (((dir.insert _ _) : Directory)[path]?).isSome
      rw [OrdMap.get_insert]
      split
      · rfl
      · exact here
    · rcases List.mem_cons.mp member with rfl | member
      · left
        show (((dir.insert _ _) : Directory)[path]?).isSome
        rw [OrdMap.get_insert, if_pos same]
        rfl
      · right
        exact ⟨other, member, same⟩

variable (calm : site.Calm)

include calm

theorem answers_appends (op : String) (writes : List WaveWrite) :
    Answers (writes.forM fun write => Vfs.append op write.path write.bytes) site ()
      (landed site.directory writes) site.ledger := by
  induction writes generalizing site with
  | nil => exact answers_pure calm ()
  | cons write writes ih =>
    apply answers_bind (answers_append calm op write.path write.bytes)
    intro after calm' files writer
    have rest := ih calm'
    rw [files, writer] at rest
    exact rest

theorem answers_syncs (op : String) (writes : List WaveWrite)
    (present : ∀ write ∈ writes, (site.directory[write.path]?).isSome) :
    Answers (writes.forM fun write => Vfs.syncData op write.path) site () site.directory
      site.ledger := by
  induction writes generalizing site with
  | nil => exact answers_pure calm ()
  | cons write writes ih =>
    apply answers_bind (answers_syncData calm op (present write List.mem_cons_self))
    intro after calm' files writer
    have rest := ih calm' fun other member => by
      rw [files]
      exact present other (List.mem_cons_of_mem _ member)
    rw [files, writer] at rest
    exact rest

theorem answers_land (writes : List WaveWrite) (created : List FileName) :
    Answers (JsonlLedger.land writes created) site () (landed site.directory writes)
      site.ledger := by
  apply answers_bind (answers_appends calm _ writes)
  intro first calm' files writer
  have present : ∀ write ∈ writes, (first.directory[write.path]?).isSome := by
    intro write member
    rw [files]
    exact landed_present (Or.inr ⟨write, member, rfl⟩)
  rw [← files, ← writer]
  apply answers_bind (answers_syncs calm' _ writes present)
  intro second calm'' files' writer'
  rw [← files', ← writer']
  split
  · exact answers_syncDir calm'' _
  · exact answers_pure calm'' ()

theorem answers_writeWave (writes : List WaveWrite) (created : List FileName) :
    Answers (writeWave writes created) site () (landed site.directory writes)
      site.ledger := by
  rcases answers_land calm writes created with ⟨after, ran, calm', files, writer⟩
  refine ⟨after, ?_, calm', files, writer⟩
  have tried : (attempt (JsonlLedger.land writes created)).run site =
      (.ok (.ok ()), after) := by
    rw [run_attempt, ran]
  exact run_bind_ok tried

theorem answers_finishUnwind (settled : site.ledger.pendingUnwind = none) :
    Answers JsonlLedger.finishUnwind site () site.directory site.ledger := by
  refine ⟨site, ?_, calm, rfl, rfl⟩
  have looked : (Effect.look : LedgerStep Hash (Site Hash)).run site = (.ok site, site) := rfl
  refine (run_bind_ok looked).trans ?_
  simp only [settled]
  rfl

theorem answers_admitWave (whole : site.ledger.barrier = .whole) :
    Answers JsonlLedger.admitWave site () site.directory site.ledger := by
  refine ⟨site, ?_, calm, rfl, rfl⟩
  have looked : (Effect.look : LedgerStep Hash (Site Hash)).run site = (.ok site, site) := rfl
  refine (run_bind_ok looked).trans ?_
  simp only [whole]
  rfl

omit calm

section Wave

variable {Draft : Type} {wire : Wire Hash Draft}

theorem startFraming_congr {other : Site Hash} (files : other.directory = site.directory)
    (writer : other.ledger = site.ledger) :
    (startFraming other : Framing Hash Draft) = startFraming site := by
  simp only [startFraming, Site.fileExists_iff, files, writer]

/-- The position after a framed wave. -/
def advanced (ledger : JsonlLedger Hash) (framed : Framing Hash Draft) : JsonlLedger Hash :=
  { ledger with
    barrier := .whole
    segPath := framed.curPath
    segLen := framed.curLen
    nextSeq := framed.seq
    prev := framed.prev }

/-- The references a wave answers. -/
def refsOf (wire : Wire Hash Draft) (framed : Framing Hash Draft) : List EventRef :=
  framed.records.map fun record => { seq := record.seq, kind := wire.kindOf record.draft }

/-- A wave that frames lands. -/
theorem answers_appendAll (calm : site.Calm) (settled : site.ledger.pendingUnwind = none)
    (whole : site.ledger.barrier = .whole) {drafts : List Draft} (some : drafts ≠ [])
    {framed : Framing Hash Draft}
    (frames : drafts.foldlM (JsonlLedger.frame wire site.ledger.rollBytes)
      (startFraming site) = .ok framed) :
    Answers (JsonlLedger.appendAll wire drafts) site (refsOf wire framed)
      (landed site.directory framed.writes) (advanced site.ledger framed) := by
  apply answers_bind (answers_finishUnwind calm settled)
  intro first calm₁ files₁ writer₁
  rw [← files₁, ← writer₁]
  apply answers_bind (answers_admitWave calm₁ (by rw [writer₁, whole]))
  intro second calm₂ files₂ writer₂
  rw [if_neg (by simpa using some)]
  have framing : drafts.foldlM (JsonlLedger.frame wire second.ledger.rollBytes)
      (startFraming second) = .ok framed := by
    rw [writer₂, writer₁, startFraming_congr (files₂.trans files₁) (writer₂.trans writer₁), frames]
  rw [← files₂, ← writer₂]
  apply answers_look
  apply answers_lift framing
  apply answers_bind (answers_setLedger calm₂ _)
  intro third calm₃ files₃ writer₃
  rw [← files₃]
  apply answers_bind (answers_writeWave calm₃ _ _)
  intro fourth calm₄ files₄ writer₄
  rw [← files₄]
  apply answers_bind (answers_setLedger calm₄ _)
  intro last calm₅ files₅ writer₅
  have same : last.ledger = advanced second.ledger framed := by
    rw [writer₅, writer₄, writer₃]
    rfl
  rw [← files₅, ← same]
  exact answers_pure calm₅ _

end Wave

end Calm

end Sprawling
