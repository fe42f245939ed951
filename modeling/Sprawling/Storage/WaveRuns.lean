import Sprawling.Base.Machine
import Sprawling.Storage.OpenReuse
import Sprawling.Storage.WaveDisk

/-! A ledger directory through one process after another: opens, waves and losses of power, and what
any split of drafts into waves comes to after them. -/

namespace Sprawling

open List Effect CityWire Segment FaultFs JsonlLedger ChainAudit Lines Site

namespace Open

variable {Hash Draft : Type} [DecidableEq Hash] {wire : Wire Hash Draft}

/-- The ledger in the directory, opened with a rolling threshold. -/
def openRolling (wire : Wire Hash Draft) (rollBytes now : Nat) (proof : TailProof Hash) :
    LedgerStep Hash OpenReport := do
  setLedger fun _ => { unopened wire with rollBytes }
  let site ← Effect.look
  resume wire now site.directory.segments proof

theorem openRolling_segmentRollBytes (wire : Wire Hash Draft) (now : Nat) (proof : TailProof Hash) :
    openRolling wire segmentRollBytes now proof = openThrough wire now proof := rfl

/-- An open takes the ledger up where its next line goes. -/
def TakesUp (wire : Wire Hash Draft) (dir : Directory) (proof : TailProof Hash) : Prop :=
  ∀ last found, dir.segments.getLast? = some last →
    examineTail wire dir.segments last proof = .ok found →
      StandsAt dir (settledLedger (unopened wire) last.1 found).segPath
        (settledLedger (unopened wire) last.1 found).segLen
        (settledLedger (unopened wire) last.1 found).nextSeq

section Examined

variable {segments : List (FileName × Bytes)} {last : FileName × Bytes} {proof : TailProof Hash}

theorem start_le (wire : Wire Hash Draft) (proof : TailProof Hash) (last : FileName × Bytes)
    (entry : LineCheck Hash) : (proof.start wire last entry).start ≤ last.2.length := by
  cases proof with
  | strict => exact Nat.zero_le _
  | records version held =>
    cases tailStart_cases wire version held last entry with
    | inl stands =>
      obtain ⟨record, standing, start, -⟩ := stands
      show (tailStart wire version held last entry).start ≤ _
      rw [start]
      exact standing.fits
    | inr absent =>
      show (tailStart wire version held last entry).start ≤ _
      rw [absent.2.1]
      exact Nat.zero_le _

theorem examined_bounds (lawful : wire.Lawful) {found : TailFound Hash}
    (examined : examineTail wire segments last proof = .ok found) :
    found.total = last.2.length ∧ found.keep ≤ last.2.length ∧
      ∃ bound, boundary wire segments last.1 = .ok bound ∧ found.prior = bound.prior := by
  cases entering : boundary wire segments last.1 with
  | error e =>
    rw [examineTail, entering] at examined
    cases examined
  | ok bound =>
    have fits := start_le wire proof last bound.check
    by_cases split : ∃ good junk after, Splits wire (proof.start wire last bound.check).check
        (complete newline (last.2.drop (proof.start wire last bound.check).start))
        good junk after
    · obtain ⟨good, junk, after, split⟩ := split
      obtain ⟨counted, same⟩ := examine_of_splits lawful entering fits split
      rw [examined] at same
      cases same
      refine ⟨rfl, ?_, bound, rfl, rfl⟩
      have whole : Lines.whole newline (last.2.drop (proof.start wire last bound.check).start) ++
          Lines.tail newline (last.2.drop (proof.start wire last bound.check).start) = _ :=
        whole_append_tail _
      have length := congrArg List.length whole
      rw [Lines.whole, split.cut, join_append, length_append, length_append,
        length_drop] at length
      simp only
      omega
    · obtain ⟨e, refused⟩ := @examine_of_unsplit _ _ _ wire segments last bound proof lawful entering
        fun good junk after here => split ⟨good, junk, after, here⟩
      rw [examined] at refused
      cases refused

end Examined

end Open

namespace Directory

variable {dir : Directory} {front : List (FileName × Bytes)} {last : FileName × Bytes}

theorem takeWhile_front (shape : dir.segments = front ++ [last]) :
    (dir.segments.takeWhile fun segment => segment.1 ≠ last.1) = front := by
  have below := below_last shape
  rw [shape, takeWhile_append_of_pos]
  · simp
  · intro segment member
    simpa using ne_of_below (below segment member)

theorem below_or_last (named : ∀ (path : FileName) (bytes : Bytes), dir[path]? = some bytes →
      isSegment path = true)
    (shape : dir.segments = front ++ [last]) {path : FileName} {bytes : Bytes}
    (found : dir[path]? = some bytes) : path = last.1 ∨ compare path last.1 = .lt := by
  have member : (path, bytes) ∈ dir.segments := mem_segments.mpr ⟨named path bytes found, found⟩
  rw [shape] at member
  cases mem_append.mp member with
  | inl early => exact Or.inr (below_last shape _ early)
  | inr own =>
    rw [mem_singleton] at own
    exact Or.inl (congrArg Prod.fst own)

end Directory

namespace WaveDisk

open Open

variable {Hash Draft : Type} {wire : Wire Hash Draft} {rollBytes : Nat} {script : List Outcome}

section Opening

/-- A disk whose segments fit their names, with the directory it shows and the writer over it. -/
structure Held (wire : Wire Hash Draft) (rollBytes : Nat) (script : List Outcome) (dir : Directory)
    (writer : JsonlLedger Hash) (site : Site Hash) : Prop where
  left : site.script <:+ script
  named : Named wire rollBytes site.files
  files : site.directory = dir
  writer : site.ledger = writer

variable {dir : Directory} {writer : JsonlLedger Hash}
  (powered : ∀ torn, Outcome.powerLost torn ∉ script)

theorem Named.insert {files : OrdMap FileName FileState} (named : Named wire rollBytes files)
    {path : FileName} {old file : FileState} (found : files[path]? = some old)
    (live : file.live <+: old.live)
    (durable : file.durable = old.durable ∨ file.durable <+: old.live) :
    Named wire rollBytes (files.insert path file) := by
  intro other held here
  rw [OrdMap.get_insert] at here
  split at here
  · next same =>
      cases here
      obtain ⟨seq, name, synced, written⟩ := named path old found
      refine ⟨seq, same ▸ name, ?_, written.of_prefix live⟩
      cases durable with
      | inl kept => rwa [kept]
      | inr begins => exact written.of_prefix begins
  · exact named other held here

include powered in
theorem ensures_truncate (op : String) {path : FileName} {bytes : Bytes} {len : Nat}
    (present : dir[path]? = some bytes) (fits : len ≤ bytes.length) :
    Effect.Ensures (fun site => Held wire rollBytes script dir writer site)
      (Vfs.truncate op path len)
      (fun _ site => Held wire rollBytes script (dir.insert path (bytes.take len)) writer site)
      (fun _ site => Named wire rollBytes site.files) := by
  apply ensures_serves
  · exact fun site held => serves_truncate powered held.left op path len
  · intro site files rest held later change
    obtain ⟨file, found, change⟩ := change
    have live : bytes = file.live := by
      rw [← held.files, directory_get, found] at present
      exact (Option.some.inj present).symm
    have cut : resize file.live len = bytes.take len := by
      rw [← live, resize_of_le fits]
    rw [change]
    refine ⟨later, held.named.insert found ?_ (Or.inl rfl), ?_, held.writer⟩
    · rw [cut, live]
      exact take_prefix _ _
    · have inserted := @Site.directory_insert _ { site with script := rest } path
        { file with live := resize file.live len }
      rw [cut] at inserted
      rw [← held.files, cut]
      exact inserted
  · exact fun site rest held later => held.named

include powered in
theorem ensures_syncData (op : String) (path : FileName) :
    Effect.Ensures (fun site => Held wire rollBytes script dir writer site) (Vfs.syncData op path)
      (fun _ site => Held wire rollBytes script dir writer site)
      (fun _ site => Named wire rollBytes site.files) := by
  apply ensures_serves
  · exact fun site held => serves_syncData powered held.left op path
  · intro site files rest held later change
    obtain ⟨file, found, change⟩ := change
    rw [change]
    refine ⟨later, held.named.insert found prefix_rfl (Or.inr prefix_rfl), ?_, held.writer⟩
    have inserted := @Site.directory_insert _ { site with script := rest } path
      { file with durable := file.live }
    have same := @OrdMap.insert_same _ _ _ _ _ site.directory path file.live _ (by
      rw [directory_get, found]
      rfl)
    rw [← held.files]
    exact inserted.trans same
  · exact fun site rest held later => held.named

include powered in
theorem ensures_removeFile (op : String) (path : FileName) :
    Effect.Ensures (fun site => Held wire rollBytes script dir writer site) (Vfs.removeFile op path)
      (fun _ site => Held wire rollBytes script (dir.erase path) writer site)
      (fun _ site => Named wire rollBytes site.files) := by
  apply ensures_serves
  · exact fun site held => serves_removeFile powered held.left op path
  · intro site files rest held later change
    rw [change]
    refine ⟨later, ?_, ?_, held.writer⟩
    · intro other file found
      rw [OrdMap.get_erase] at found
      split at found
      · cases found
      · exact held.named other file found
    · rw [← held.files]
      exact @Site.directory_erase _ { site with script := rest } path
  · exact fun site rest held later => held.named

include powered in
theorem ensures_syncDir (op : String) :
    Effect.Ensures (fun site => Held wire rollBytes script dir writer site) (Vfs.syncDir op)
      (fun _ site => Held wire rollBytes script dir writer site)
      (fun _ site => Named wire rollBytes site.files) := by
  apply ensures_serves
  · exact fun site held => serves_syncDir powered held.left op
  · intro site files rest held later change
    rw [change]
    refine ⟨later, ?_, ?_, held.writer⟩
    · intro path file found
      rw [promoteEntries, Std.ExtTreeMap.getElem?_map] at found
      obtain ⟨old, there, same⟩ := Option.map_eq_some_iff.mp found
      rw [← same]
      exact held.named path old there
    · rw [← held.files]
      exact @Site.directory_promote _ { site with script := rest }
  · exact fun site rest held later => held.named

theorem ensures_setLedger (change : JsonlLedger Hash → JsonlLedger Hash) :
    Effect.Ensures (fun site => Held wire rollBytes script dir writer site)
      (setLedger change)
      (fun _ site => Held wire rollBytes script dir (change writer) site)
      (fun _ site => Named wire rollBytes site.files) := by
  apply ensures_update
  intro site held
  exact ⟨held.left, held.named, held.files, congrArg change held.writer⟩

include powered in
theorem ensures_settleTail {last : FileName × Bytes} {found : TailFound Hash}
    (present : dir[last.1]? = some last.2) (total : found.total = last.2.length) :
    Effect.Ensures (fun site => Held wire rollBytes script dir writer site)
      (settleTail last.1 found)
      (fun _ site => Held wire rollBytes script (settledDirectory dir last found)
        (settledLedger writer last.1 found) site)
      (fun _ site => Named wire rollBytes site.files) := by
  unfold settleTail settledDirectory settledLedger
  by_cases torn : found.keep < found.total
  · by_cases bare : found.keep = 0
    · rw [if_pos torn, if_pos bare, if_pos torn, if_pos bare, if_pos ⟨torn, bare⟩]
      apply Effect.ensures_bind (ensures_truncate powered _ present (Nat.zero_le _))
      intro _
      apply Effect.ensures_bind (ensures_syncData powered _ _)
      intro _
      apply Effect.ensures_bind (ensures_removeFile powered _ _)
      intro _
      apply Effect.ensures_bind (ensures_syncDir powered _)
      intro _
      rw [insert_erase]
      apply Effect.ensures_bind (ensures_setLedger _)
      intro _
      exact ensures_setLedger _
    · rw [if_pos torn, if_neg bare, if_pos torn, if_neg bare, if_neg (fun both => bare both.2)]
      apply Effect.ensures_bind (ensures_truncate powered _ present (by omega))
      intro _
      apply Effect.ensures_bind (ensures_syncData powered _ _)
      intro _
      apply Effect.ensures_bind (ensures_setLedger _)
      intro _
      exact ensures_setLedger _
  · rw [if_neg torn, if_neg torn, if_neg fun both => torn both.1]
    apply Effect.ensures_bind (ensures_setLedger _)
    intro _
    exact ensures_setLedger _

/-- How a writer lies on a directory: the current segment is the last one and ends where the writer
says, and its next line has its place. -/
structure Lies (dir : Directory) (path : FileName) (len : Nat) (next : Seq) : Prop where
  ends : ((dir[path]?).getD []).length = len
  last : ∀ (other : FileName) (bytes : Bytes), dir[other]? = some bytes →
    other = path ∨ compare other path = .lt
  place : StandsAt dir path len next

theorem lies_prior {front : List (FileName × Bytes)} {last : FileName × Bytes} {next : Seq}
    (named : ∀ (path : FileName) (bytes : Bytes), dir[path]? = some bytes →
      isSegment path = true)
    (shape : dir.segments = front ++ [last]) {position : FileName × Nat}
    (prior : position = ((front.getLast?).map fun prior => (prior.1, prior.2.length)).getD
      (segmentFileName Seq.first, 0))
    (place : StandsAt dir position.1 position.2 next) :
    Lies (dir.erase last.1) position.1 position.2 next := by
  have kept : ∀ (path : FileName) (bytes : Bytes), (dir.erase last.1)[path]? = some bytes →
      dir[path]? = some bytes := by
    intro path bytes found
    rw [OrdMap.get_erase] at found
    split at found
    · cases found
    · exact found
  have erased : Directory.segments (dir.erase last.1) = front := Directory.segments_erase_last shape
  have still : ∀ (path : FileName) (bytes : Bytes), (dir.erase last.1)[path]? = some bytes →
      isSegment path = true := fun path bytes found => named path bytes (kept path bytes found)
  cases back : front.getLast? with
  | none =>
    rw [back] at prior
    have empty : ∀ (path : FileName) (bytes : Bytes), (dir.erase last.1)[path]? ≠ some bytes := by
      intro path bytes found
      have member := Directory.mem_segments.mpr ⟨still path bytes found, found⟩
      rw [erased, getLast?_eq_none_iff.mp back] at member
      cases member
    have len : position.2 = 0 := by rw [prior]; rfl
    refine ⟨?_, fun other bytes found => absurd found (empty other bytes), ?_⟩
    · cases found : (dir.erase last.1)[position.1]? with
      | none => exact len.symm
      | some bytes => exact absurd found (empty _ bytes)
    · apply place.congr
      intro some
      omega
  | some segment =>
    rw [back] at prior
    obtain ⟨before, cut⟩ := getLast?_eq_some_iff.mp back
    have path : position.1 = segment.1 := by rw [prior]; rfl
    have len : position.2 = segment.2.length := by rw [prior]; rfl
    have member : (segment.1, segment.2) ∈ Directory.segments (dir.erase last.1) := by
      rw [erased, cut]
      simp
    have here := Directory.get_of_mem member
    rw [path, len] at place ⊢
    refine ⟨by rw [here]; rfl, ?_, ?_⟩
    · intro other bytes found
      exact Directory.below_or_last still (erased.trans cut) found
    · apply place.congr
      intro _ bytes found
      rw [kept _ _ here] at found
      cases found
      exact ⟨segment.2, here, rfl⟩

theorem lies_settled [DecidableEq Hash] (lawful : wire.Lawful) {last : FileName × Bytes} {proof : TailProof Hash}
    {found : TailFound Hash}
    (named : ∀ (path : FileName) (bytes : Bytes), dir[path]? = some bytes →
      isSegment path = true)
    (some : dir.segments.getLast? = some last)
    (examined : examineTail wire dir.segments last proof = .ok found)
    (place : StandsAt dir (settledLedger writer last.1 found).segPath
      (settledLedger writer last.1 found).segLen (settledLedger writer last.1 found).nextSeq) :
    Lies (settledDirectory dir last found) (settledLedger writer last.1 found).segPath
      (settledLedger writer last.1 found).segLen (settledLedger writer last.1 found).nextSeq := by
  obtain ⟨front, shape⟩ := getLast?_eq_some_iff.mp some
  obtain ⟨total, fits, bound, entered, prior⟩ := examined_bounds lawful examined
  rw [boundary_prior wire entered, Directory.takeWhile_front shape] at prior
  have here : dir[last.1]? = Option.some last.2 := mem_of_last some
  unfold settledDirectory
  unfold settledLedger at place ⊢
  by_cases torn : found.keep < found.total
  · by_cases bare : found.keep = 0
    · rw [if_pos torn, if_pos bare]
      rw [if_pos ⟨torn, bare⟩] at place ⊢
      exact lies_prior named shape (by rw [prior]) place
    · rw [if_pos torn, if_neg bare]
      rw [if_neg fun both => bare both.2] at place ⊢
      have cut : (dir.insert last.1 (last.2.take found.keep))[last.1]? =
          Option.some (last.2.take found.keep) := by
        rw [OrdMap.get_insert, if_pos rfl]
      refine ⟨?_, ?_, ?_⟩
      · show (((dir.insert last.1 (last.2.take found.keep))[last.1]?).getD []).length = found.keep
        rw [cut, Option.getD_some, length_take, Nat.min_eq_left fits]
      · intro other bytes there
        rw [OrdMap.get_insert] at there
        split at there
        · next same => exact Or.inl same.symm
        · exact Directory.below_or_last named shape there
      · apply place.congr
        intro _ bytes there
        have same : bytes = last.2 := Option.some.inj (there.symm.trans here)
        refine ⟨_, cut, ?_⟩
        rw [same, take_take, Nat.min_self]
  · rw [if_neg torn]
    rw [if_neg fun both => torn both.1] at place ⊢
    refine ⟨?_, fun other bytes there => Directory.below_or_last named shape there, place⟩
    show ((dir[last.1]?).getD []).length = found.keep
    rw [here, Option.getD_some]
    omega

theorem standing_of_lies {site : Site Hash}
    (held : Held wire rollBytes script dir writer site)
    (lies : Lies dir writer.segPath writer.segLen writer.nextSeq)
    (rolls : writer.rollBytes = rollBytes) (settled : writer.pendingUnwind = none)
    (whole : writer.barrier = .whole) : Standing wire rollBytes script site := by
  obtain ⟨left, named, files, same⟩ := held
  subst same
  subst files
  refine ⟨⟨left, settled, rolls, named, lies.place, ?_, ?_, ?_⟩, lies.ends, whole⟩
  · intro bytes found
    have ends := lies.ends
    rw [found] at ends
    exact Nat.le_of_eq ends.symm
  · exact fun none_ => absurd none_ not_mem_nil
  · intro path there
    obtain ⟨file, found⟩ := Option.isSome_iff_exists.mp there
    obtain ⟨seq, name, -, -⟩ := named path file found
    have shown : site.directory[path]? = some file.live := by
      rw [directory_get, found]
      rfl
    cases lies.last path _ shown with
    | inl own => exact Or.inl own
    | inr less =>
      obtain ⟨current, called, bound⟩ := lies.place.named
      rw [name, called, compare_segmentFileName, Nat.compare_eq_lt] at less
      exact Or.inr (Or.inr ⟨seq, name, by omega⟩)

include powered in
theorem ensures_reportRecovery (lawful : wire.Lawful) (now dropped : Nat) (counted : ProofCount) :
    Effect.Ensures (fun site => Standing wire rollBytes script site)
      (reportRecovery wire now dropped counted) (fun _ site => Standing wire rollBytes script site)
      (fun _ site => Named wire rollBytes site.files) := by
  have recorded : Effect.Ensures (fun site => Standing wire rollBytes script site)
      (appendLogTruncated wire now dropped)
      (fun _ site => Standing wire rollBytes script site)
      (fun _ site => Named wire rollBytes site.files) := by
    apply Effect.ensures_bind
    · apply Effect.ensures_consequence (ensures_appendAll powered lawful _)
      · exact fun site standing => Or.inl standing
      · exact fun _ _ done => done
      · exact fun _ _ refused => refused.named
    · exact fun _ site standing => standing
  unfold reportRecovery
  split
  · apply ensures_look
    intro here
    by_cases started : here.ledger.nextSeq ≠ Seq.first
    · rw [if_pos started]
      apply Effect.ensures_bind
      · exact Effect.ensures_consequence recorded (fun site start => start.2) (fun _ _ done => done)
          fun _ _ refused => refused
      · exact fun _ site standing => standing
    · rw [if_neg started]
      exact fun site start => start.2
  · exact fun site standing => standing

include powered in
/-- An open that answers leaves a writer that is ready; one that does not leaves segments that fit
their names. -/
theorem ensures_openRolling [DecidableEq Hash] (lawful : wire.Lawful) (now : Nat)
    (proof : TailProof Hash) :
    Effect.Ensures
      (fun site => site.script <:+ script ∧ Named wire rollBytes site.files ∧
        TakesUp wire site.directory proof)
      (openRolling wire rollBytes now proof)
      (fun _ site => Standing wire rollBytes script site)
      (fun _ site => Named wire rollBytes site.files) := by
  apply @Effect.ensures_bind _ _ _ _ _ _ _ _ (fun _ site =>
    Held wire rollBytes script site.directory { unopened wire with rollBytes } site ∧
      TakesUp wire site.directory proof)
  · apply ensures_update
    intro site start
    exact ⟨⟨start.1, start.2.1, rfl, rfl⟩, start.2.2⟩
  intro _
  apply ensures_look
  intro here site start
  obtain ⟨same, held, takes⟩ := start
  cases same
  have segment : ∀ (path : FileName) (bytes : Bytes), here.directory[path]? = some bytes →
      isSegment path = true := by
    intro path bytes found
    rw [directory_get] at found
    obtain ⟨file, there, -⟩ := Option.map_eq_some_iff.mp found
    obtain ⟨seq, name, -⟩ := held.named path file there
    rw [name]
    exact isSegment_segmentFileName seq
  unfold resume
  cases last : here.directory.segments.getLast? with
  | none =>
    have empty : ∀ (path : FileName) (bytes : Bytes), here.directory[path]? ≠ some bytes := by
      intro path bytes found
      have member := Directory.mem_segments.mpr ⟨segment path bytes found, found⟩
      rw [getLast?_eq_none_iff.mp last] at member
      cases member
    apply standing_of_lies held _ rfl rfl rfl
    refine ⟨?_, fun other bytes found => absurd found (empty other bytes), Or.inl ⟨rfl, rfl⟩⟩
    cases found : here.directory[(unopened wire).segPath]? with
    | none => rfl
    | some bytes => exact absurd found (empty _ bytes)
  | some segment_ =>
    have present : here.directory[segment_.1]? = some segment_.2 := mem_of_last last
    have steps : Effect.Ensures
        (fun site => Held wire rollBytes script here.directory { unopened wire with rollBytes } site)
        (do
          Effect.lift (probeVersion wire here.directory.segments)
          let done ← recoverTail wire here.directory.segments segment_ proof
          reportRecovery wire now done.1 done.2)
        (fun _ site => Standing wire rollBytes script site)
        (fun _ site => Named wire rollBytes site.files) := by
      apply Effect.ensures_bind
      · apply ensures_lift
        · exact fun _ site _ held => held
        · exact fun _ site _ held => held.named
      · intro _
        apply @Effect.ensures_bind _ _ _ _ _ _ _ _ (fun _ site =>
          Standing wire rollBytes script site)
        · apply @Effect.ensures_bind _ _ _ _ _ _ _ _ (fun found site =>
            Held wire rollBytes script here.directory { unopened wire with rollBytes } site ∧
              examineTail wire here.directory.segments segment_ proof = .ok found)
          · apply ensures_lift
            · exact fun found site examined held => ⟨held, examined⟩
            · exact fun _ site _ held => held.named
          · intro found
            apply ensures_of_fact
            intro examined
            obtain ⟨total, -⟩ := examined_bounds lawful examined
            apply Effect.ensures_bind (ensures_settleTail powered present total)
            intro _ site settled
            exact standing_of_lies settled
              (lies_settled lawful segment last examined (takes segment_ found last examined)) rfl rfl
              rfl
        · exact fun done => ensures_reportRecovery powered lawful now done.1 done.2
    exact steps here held

end Opening

end WaveDisk

/-- What the disk does with a call while it has power. -/
inductive DiskAnswer where
  | done
  | refused (landed : Option Nat)

namespace DiskAnswer

def outcome : DiskAnswer → Outcome
  | done => .done
  | refused landed => .refused landed

theorem powered (answers : List DiskAnswer) (torn : Nat) :
    Outcome.powerLost torn ∉ answers.map outcome := by
  intro lost
  obtain ⟨answer, -, same⟩ := mem_map.mp lost
  cases answer <;> cases same

end DiskAnswer

/-- What happens to a ledger directory. Power that is lost during a call is lost after a call whose
later parts are all refused. -/
inductive LedgerDeed (Hash Draft : Type) where
  | opened (now : Nat) (proof : Open.TailProof Hash) (answers : List DiskAnswer)
  | appended (drafts : List Draft) (answers : List DiskAnswer)
  | exited
  | powerLost (torn : Nat)

/-- A ledger directory, and the writer of the process that holds its lock. -/
structure Life (Hash : Type) where
  files : OrdMap FileName FileState
  writer : Option (JsonlLedger Hash)

namespace Life

variable {Hash Draft : Type} [DecidableEq Hash] (wire : Wire Hash Draft) (rollBytes : Nat)

def bare : Life Hash := { files := ∅, writer := none }

/-- What a disk with these answers makes of the directory and a writer. -/
def site (files : OrdMap FileName FileState) (answers : List DiskAnswer) (ledger : JsonlLedger Hash) :
    Site Hash :=
  { files, script := answers.map DiskAnswer.outcome, ledger }

/-- One writer at a time: the lock refuses an open while it is held. -/
def step (life : Life Hash) : LedgerDeed Hash Draft → Life Hash
  | .opened now proof answers =>
    match life.writer with
    | some _ => life
    | none =>
      match (Open.openRolling wire rollBytes now proof).run
        (site life.files answers (Open.unopened wire)) with
      | (.ok _, after) => { files := after.files, writer := some after.ledger }
      | (.error _, after) => { files := after.files, writer := none }
  | .appended drafts answers =>
    match life.writer with
    | none => life
    | some ledger =>
      let after := ((JsonlLedger.appendAll wire drafts).run (site life.files answers ledger)).2
      { files := after.files, writer := some after.ledger }
  | .exited => { life with writer := none }
  | .powerLost torn => { files := FaultFs.cut torn life.files, writer := none }

/-- Power that is lost splices no first line out of what was synced and what was written: of a file
whose two planes do not begin with one whole line, a beginning of one of them is left. -/
def SplicesNone (torn : Nat) (file : FileState) : Prop :=
  (∃ line : Bytes, newline ∉ line ∧ line ++ [newline] <+: file.durable ∧
    line ++ [newline] <+: file.live) ∨
  (FaultFs.settle torn file).live <+: file.live ∨
  (FaultFs.settle torn file).live <+: file.durable

/-- An open takes the ledger up where its next line goes, and a loss of power splices no segment's
first line. -/
def Meets (life : Life Hash) : LedgerDeed Hash Draft → Prop
  | .opened _ proof _ =>
    life.writer = none → Open.TakesUp wire (life.files.map fun _ file => file.live) proof
  | .appended _ _ => True
  | .exited => True
  | .powerLost torn => ∀ (path : FileName) (file : FileState), life.files[path]? = some file →
      SplicesNone torn file

section Sound

variable {wire rollBytes}

omit [DecidableEq Hash] in
/-- What power leaves of a file whose planes fit a name fits it, unless a first line is spliced. -/
theorem fits_settle {torn : Nat} {file : FileState} {seq : Seq} (whole : SplicesNone torn file)
    (synced : Segment.Fits wire rollBytes seq file.durable)
    (written : Segment.Fits wire rollBytes seq file.live) :
    Segment.Fits wire rollBytes seq (FaultFs.settle torn file).live := by
  cases whole with
  | inr begins =>
    cases begins with
    | inl live => exact written.of_prefix live
    | inr durable => exact synced.of_prefix durable
  | inl both =>
    obtain ⟨line, unended, early, late⟩ := both
    -- A plane over the threshold is that one line, and then one plane begins the other.
    have alone : ∀ bytes : Bytes, line ++ [newline] <+: bytes → newline ∉ bytes.dropLast →
        bytes = line ++ [newline] := by
      intro bytes begins single
      obtain ⟨more, shape⟩ := begins
      cases more with
      | nil => rw [← shape, append_nil]
      | cons byte more =>
        rw [← shape, dropLast_append_of_ne_nil (cons_ne_nil _ _)] at single
        exact absurd (by simp) single
    obtain ⟨reached, past, within, live, -⟩ := settle_live torn file
    cases synced.size with
    | inr single =>
      apply written.of_prefix
      apply settle_of_grown
      rw [alone _ early single]
      exact late
    | inl small =>
      cases written.size with
      | inr single =>
        have cut : file.live <+: file.durable := by
          rw [alone _ late single]
          exact early
        rw [settle_of_cut torn cut]
        exact synced
      | inl short =>
        have lead := length_le_common early late
        have begins : line ++ [newline] <+: (FaultFs.settle torn file).live := by
          rw [live]
          apply List.IsPrefix.trans _ (prefix_append _ _)
          exact prefix_take_iff.mpr ⟨late, by omega⟩
        constructor
        · intro first head
          apply written.first first
          have cut : ∀ bytes : Bytes, line ++ [newline] <+: bytes →
              (complete newline bytes).head? = some line := by
            intro bytes begins
            obtain ⟨more, shape⟩ := begins
            rw [← shape, append_assoc, complete]
            show (Lines.split newline (line ++ newline :: more)).1.head? = _
            rw [split_line_append unended]
            rfl
          rw [cut _ begins] at head
          rw [cut _ late]
          exact head
        · left
          rw [live, length_append, length_take, length_drop]
          omega

omit [DecidableEq Hash] in
theorem named_cut {torn : Nat} {files : OrdMap FileName FileState}
    (named : WaveDisk.Named wire rollBytes files)
    (whole : ∀ (path : FileName) (file : FileState), files[path]? = some file →
      SplicesNone torn file) : WaveDisk.Named wire rollBytes (FaultFs.cut torn files) := by
  intro path file found
  rw [get_cut] at found
  obtain ⟨old, kept, same⟩ := Option.map_eq_some_iff.mp found
  obtain ⟨held, -⟩ := Option.filter_eq_some_iff.mp kept
  obtain ⟨seq, name, synced, written⟩ := named path old held
  have fits := fits_settle (whole path old held) synced written
  obtain ⟨_, _, _, _, planes⟩ := settle_live torn old
  rw [← same]
  exact ⟨seq, name, planes ▸ fits, fits⟩

/-- What holds between two deeds: the segments fit their names, and the writer, if there is one, is
ready or owes the restore of a failed wave. -/
structure Sound (wire : Wire Hash Draft) (rollBytes : Nat) (life : Life Hash) : Prop where
  named : WaveDisk.Named wire rollBytes life.files
  running : ∀ ledger, life.writer = some ledger →
    WaveDisk.Running wire rollBytes [] (site life.files [] ledger)

omit [DecidableEq Hash] in
theorem running_site {script : List Outcome} {before : Site Hash} {answers : List DiskAnswer}
    (running : WaveDisk.Running wire rollBytes script before) :
    WaveDisk.Running wire rollBytes (answers.map DiskAnswer.outcome)
      (site before.files answers before.ledger) := by
  have around : ∀ {owed created}, WaveDisk.Around wire rollBytes script owed created before →
      WaveDisk.Around wire rollBytes (answers.map DiskAnswer.outcome) owed created
        (site before.files answers before.ledger) := fun held =>
    ⟨suffix_rfl, held.owes, held.rolls, held.named, held.place, held.within, held.own,
      held.below⟩
  cases running with
  | inl standing => exact Or.inl ⟨around standing.around, standing.exact, standing.whole⟩
  | inr owing =>
    obtain ⟨created, held⟩ := owing
    exact Or.inr ⟨created, around held⟩

theorem sound_step (lawful : wire.Lawful) (life : Life Hash) (deed : LedgerDeed Hash Draft)
    (sound : Sound wire rollBytes life) (met : Meets wire life deed) :
    Sound wire rollBytes (step wire rollBytes life deed) := by
  have idle : ∀ files : OrdMap FileName FileState, WaveDisk.Named wire rollBytes files →
      Sound wire rollBytes { files, writer := none } :=
    fun _ named => ⟨named, fun _ none_ => nomatch none_⟩
  have live : ∀ {script : List Outcome} {after : Site Hash},
      WaveDisk.Running wire rollBytes script after →
        Sound wire rollBytes { files := after.files, writer := some after.ledger } := by
    intro script after running
    refine ⟨running.named, fun ledger same => ?_⟩
    cases same
    exact @running_site _ _ _ _ _ _ [] running
  cases deed with
  | opened now proof answers =>
    rw [step]
    cases held : life.writer with
    | some ledger => exact sound
    | none =>
      have opens := WaveDisk.ensures_openRolling (DiskAnswer.powered answers) lawful now proof
        (site life.files answers (Open.unopened wire))
        ⟨suffix_rfl, sound.named, met held⟩
      simp only
      generalize (Open.openRolling wire rollBytes now proof).run
        (site life.files answers (Open.unopened wire)) = ran at opens
      obtain ⟨answer, after⟩ := ran
      cases answer with
      | error e => exact idle _ opens
      | ok report => exact live (Or.inl opens)
  | appended drafts answers =>
    rw [step]
    cases held : life.writer with
    | none => exact sound
    | some ledger =>
      have start := @running_site _ _ _ _ _ _ answers (sound.running ledger held)
      have appends := WaveDisk.ensures_appendAll (DiskAnswer.powered answers) lawful drafts
        (site life.files answers ledger) start
      simp only
      generalize (JsonlLedger.appendAll wire drafts).run (site life.files answers ledger) =
        ran at appends
      obtain ⟨answer, after⟩ := ran
      cases answer with
      | error e => exact live appends
      | ok refs => exact live (Or.inl appends)
  | exited => exact idle _ sound.named
  | powerLost torn => exact idle _ (named_cut sound.named met)

theorem sound_run (lawful : wire.Lawful) {deeds : List (LedgerDeed Hash Draft)}
    (met : Machine.Meets (step wire rollBytes) (Meets wire) bare deeds) :
    Sound wire rollBytes (deeds.foldl (step wire rollBytes) bare) := by
  apply Machine.run_keeps (sound_step lawful) _ met
  constructor
  · intro path file found
    rw [bare, Std.ExtTreeMap.getElem?_empty] at found
    cases found
  · intro ledger none_
    cases none_

end Sound

end Life

section Batching

variable {Hash Draft : Type} {wire : Wire Hash Draft} {rollBytes : Nat}

/-- What appended waves come to on a disk that does what it is asked: the references, the directory
and the writer. -/
def laidDown (wire : Wire Hash Draft) (files : OrdMap FileName FileState) (ledger : JsonlLedger Hash)
    (waves : List (List Draft)) : Option (List EventRef × Directory × JsonlLedger Hash) :=
  match (appendWaves wire waves).run (Life.site files [] ledger) with
  | (.ok refs, after) => some (refs, after.directory, after.ledger)
  | (.error _, _) => none

theorem laidDown_ready {site : Site Hash} (standing : WaveDisk.Standing wire rollBytes [] site)
    (waves : List (List Draft)) :
    laidDown wire site.files site.ledger waves =
      (waves.flatten.foldlM (Tip.put wire rollBytes) (Tip.of site.directory site.ledger)).toOption.map
        fun tip => (tip.refs, tip.dir, tip.writer site.ledger) := by
  have calm : site.Calm := eq_nil_of_suffix_nil standing.around.left
  have comes := @Calm.comesTo_appendWaves _ _ wire _ calm standing.around.owes standing.whole waves
  rw [standing.around.rolls] at comes
  have here : Life.site site.files [] site.ledger = site := by
    rw [Life.site, map_nil, ← calm]
  rw [laidDown, here]
  cases ended : waves.flatten.foldlM (Tip.put wire rollBytes) (Tip.of site.directory site.ledger) with
  | error e =>
    rw [ended] at comes
    obtain ⟨reason, after, ran⟩ := comes
    rw [ran]
    rfl
  | ok tip =>
    rw [ended] at comes
    obtain ⟨after, ran, -, files, writer⟩ := comes
    rw [ran]
    simp only [files, writer]
    rfl

theorem appendAll_after_unwind {site after : Site Hash} (wave : List Draft)
    (unwound : JsonlLedger.finishUnwind.run site = (.ok (), after))
    (settled : after.ledger.pendingUnwind = none) :
    (JsonlLedger.appendAll wire wave).run site = (JsonlLedger.appendAll wire wave).run after := by
  have again : JsonlLedger.finishUnwind.run after = (.ok (), after) := by
    have looked : (Effect.look : LedgerStep Hash (Site Hash)).run after = (.ok after, after) := rfl
    refine (run_bind_ok looked).trans ?_
    simp only [settled]
    rfl
  rw [JsonlLedger.appendAll, run_bind_ok unwound, run_bind_ok again]

theorem laidDown_running {site : Site Hash} (running : WaveDisk.Running wire rollBytes [] site) :
    (∃ after, WaveDisk.Standing wire rollBytes [] after ∧ ∀ waves : List (List Draft), waves ≠ [] →
      laidDown wire site.files site.ledger waves = laidDown wire after.files after.ledger waves) ∨
    ∀ waves : List (List Draft), waves ≠ [] →
      laidDown wire site.files site.ledger waves = none := by
  have calm : site.Calm := by
    cases running with
    | inl standing => exact eq_nil_of_suffix_nil standing.around.left
    | inr owing =>
      obtain ⟨_, around⟩ := owing
      exact eq_nil_of_suffix_nil around.left
  have here : Life.site site.files [] site.ledger = site := by
    rw [Life.site, map_nil, ← calm]
  have unwinds := WaveDisk.ensures_finishUnwind (fun _ none_ => absurd none_ not_mem_nil) site
    running
  cases ran : JsonlLedger.finishUnwind.run site with
  | mk answer after =>
    rw [ran] at unwinds
    cases answer with
    | ok value =>
      left
      have calm' : after.Calm := eq_nil_of_suffix_nil unwinds.around.left
      have there : Life.site after.files [] after.ledger = after := by
        rw [Life.site, map_nil, ← calm']
      refine ⟨after, unwinds, fun waves some => ?_⟩
      cases waves with
      | nil => exact absurd rfl some
      | cons wave waves =>
        rw [laidDown, laidDown, here, there, appendWaves, run_bind,
          run_bind, appendAll_after_unwind wave ran unwinds.around.owes]
    | error reason =>
      right
      intro waves some
      cases waves with
      | nil => exact absurd rfl some
      | cons wave waves =>
        have refused : (JsonlLedger.appendAll wire wave).run site = (.error reason, after) := by
          rw [JsonlLedger.appendAll, run_bind_error ran]
        rw [laidDown, here, appendWaves, run_bind_error refused]

end Batching

/-- After any run whose opens take the ledger up where its next line goes and whose losses of power
splice no first line, two splits of the same drafts into waves leave the same references, segments
and writer, and every segment fits its name and the threshold. -/
theorem waves_alike {Hash Draft : Type} [DecidableEq Hash] {wire : Wire Hash Draft}
    (lawful : wire.Lawful) (rollBytes : Nat) (deeds : List (LedgerDeed Hash Draft))
    (met : Machine.Meets (Life.step wire rollBytes) (Life.Meets wire) Life.bare deeds)
    (ledger : JsonlLedger Hash)
    (writer : (deeds.foldl (Life.step wire rollBytes) Life.bare).writer = some ledger)
    (first second : List (List Draft)) (someFirst : first ≠ []) (someSecond : second ≠ [])
    (same : first.flatten = second.flatten) :
    laidDown wire (deeds.foldl (Life.step wire rollBytes) Life.bare).files ledger first =
        laidDown wire (deeds.foldl (Life.step wire rollBytes) Life.bare).files ledger second ∧
      ∀ refs dir after,
        laidDown wire (deeds.foldl (Life.step wire rollBytes) Life.bare).files ledger first =
          some (refs, dir, after) →
        ∀ (path : FileName) (bytes : Bytes), dir[path]? = some bytes →
          ∃ seq, path = segmentFileName seq ∧ Segment.Fits wire rollBytes seq bytes := by
  have running := (Life.sound_run lawful met).running ledger writer
  cases laidDown_running running with
  | inr refused =>
    have none_ := refused first someFirst
    refine ⟨none_.trans (refused second someSecond).symm, fun refs dir after laid => ?_⟩
    have clash := none_.symm.trans laid
    cases clash
  | inl ready =>
    obtain ⟨site, standing, come⟩ := ready
    have one := (come first someFirst).trans (laidDown_ready standing first)
    have two := (come second someSecond).trans (laidDown_ready standing second)
    refine ⟨?_, fun refs dir after laid path bytes found => ?_⟩
    · rw [same] at one
      exact one.trans two.symm
    · have laid := one.symm.trans laid
      obtain ⟨tip, put, shown⟩ := Option.map_eq_some_iff.mp laid
      have ended : first.flatten.foldlM (Tip.put wire rollBytes)
          (Tip.of site.directory site.ledger) = .ok tip := by
        cases answer : first.flatten.foldlM (Tip.put wire rollBytes)
            (Tip.of site.directory site.ledger) with
        | error e =>
          rw [answer] at put
          cases put
        | ok last =>
          rw [answer] at put
          cases put
          rfl
      have stands := standing.tip.puts lawful ended
      have dirs : tip.dir = dir := congrArg (fun shown => shown.2.1) shown
      obtain ⟨seq, name, fits, -⟩ := stands.fits path bytes (by rw [dirs]; exact found)
      exact ⟨seq, name, fits⟩

namespace WaveDisk

/-- The digests of the first three lines, each with its seq for its time. -/
def rolledDigests : List (Bytes × Bytes) :=
  let second :=
    unhex "2db4924fc557494d4c8f0b1a69baaf3a105a194d70b408fb7af124a2050317ed".toList
  [(genesisLine, genesisDigest),
    (CityWire.ascii (CityWire.text
        (.fromDraft (.cityInitialized 1) ⟨1, Seq.one_fits⟩ genesisDigest)), second),
    (CityWire.ascii (CityWire.text (.fromDraft (.cityInitialized 2) ⟨2, Seq.two_fits⟩ second)),
      unhex "7a5852a9bc33f3e3b8358031bacb6c22dc3f485f9514f813c20c80c55b5a48ba".toList)]

def rolledWire : Wire Bytes CityWire.CityDraft := CityWire.wire rolledDigests

/-- A city opened and given its first line, and whatever follows. -/
def founded (later : List (LedgerDeed Bytes CityWire.CityDraft)) : Life Bytes :=
  (LedgerDeed.opened 0 .strict [] :: .appended [.cityInitialized 0] [] :: later).foldl
    (Life.step rolledWire 1) Life.bare

end WaveDisk

open WaveDisk in
/-- Two lines in one wave or in two, after a wave that was refused and put back. -/
theorem waves_alike_founded :
    ∃ ledger, (founded [.appended [.cityInitialized 1] [.refused none]]).writer = some ledger ∧
      laidDown rolledWire (founded [.appended [.cityInitialized 1] [.refused none]]).files ledger
          [[.cityInitialized 1, .cityInitialized 2]] =
        laidDown rolledWire (founded [.appended [.cityInitialized 1] [.refused none]]).files ledger
          [[.cityInitialized 1], [.cityInitialized 2]] := by
  have open_ : (founded [.appended [.cityInitialized 1] [.refused none]]).writer.isSome = true := by
    decide +kernel
  obtain ⟨ledger, writer⟩ := Option.isSome_iff_exists.mp open_
  refine ⟨ledger, writer, ?_⟩
  apply (waves_alike (wire_lawful rolledDigests) 1
    [.opened 0 .strict [], .appended [.cityInitialized 0] [],
      .appended [.cityInitialized 1] [.refused none]]
    ⟨?_, trivial, trivial, trivial⟩ ledger writer [[.cityInitialized 1, .cityInitialized 2]]
    [[.cityInitialized 1], [.cityInitialized 2]] (cons_ne_nil _ _) (cons_ne_nil _ _) rfl).1
  intro _ last found some
  have empty : Directory.segments ((Life.bare : Life Bytes).files.map fun _ file => file.live) = [] := by
    decide +kernel
  rw [empty] at some
  cases some

open WaveDisk in
/-- A wave over two rolls lands its first segment and creates its second empty; the first is removed,
the second is not, and the next open takes it up: the line of seq 1 goes to the segment named for 2. -/
theorem waves_misnamed :
    let left := founded
      [.appended [.cityInitialized 1, .cityInitialized 2]
          [.done, .refused (some 0), .done, .refused none],
        .exited, .opened 0 .strict []]
    (do
      let ledger ← left.writer
      let shown ← laidDown rolledWire left.files ledger [[.cityInitialized 1]]
      let bytes ← shown.2.1[segmentFileName ⟨2, by decide⟩]?
      let line ← (complete newline bytes).head?
      let envelope ← (rolledWire.envelope line).toOption
      pure envelope.seq.value) = some 1 := by
  delta founded rolledWire rolledDigests genesisLine genesisDigest
    CityWire.wire CityWire.read CityWire.fields CityWire.text CityWire.beforeV beforeSeq
    beforePrev beforeT beforeKind beforeData
    beforeDropped ending CityWire.CityDraft.kind kindText
  simp only [append_assoc]
  repeat rw [String.toList_ofList]
  decide +kernel

end Sprawling
