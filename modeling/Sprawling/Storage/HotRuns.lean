import Std.Data.ExtTreeSet.Lemmas
import Sprawling.Kernel.Event
import Sprawling.Kernel.EventKind
import Sprawling.Kernel.RunId
import Mathlib.Data.List.Dedup

/-! The in-memory hot view: which runs exist, which phase each is in, how far each has got. -/

namespace Sprawling.Storage

/-- What the view reads of a ledger record. -/
structure HotRecord where
  seq : Seq
  t : Nat
  run : RunId
  who : List Char
  addr : Option Address
  kind : EventKind
  data : List (String × Json)

/-- A run's phase. Freezing is terminal. -/
inductive RunPhase where
  | active
  | frozen
deriving DecidableEq

/-- The room a run waits on, and until when. -/
structure RunWaiting where
  room : Address
  deadline : Nat

/-- The wait a record states; nothing when either field is missing or does not read. -/
def RunWaiting.statedBy (record : HotRecord) : Option RunWaiting := do
  let spelled ← (record.data.lookup "on").bind Json.asStr
  let room ← (Address.parse spelled).toOption
  let deadline ← (record.data.lookup "deadline_ms").bind Json.asU64
  return { room, deadline }

structure RunHot where
  phase : RunPhase
  lastSeq : Seq
  lastKind : EventKind
  who : List Char
  addr : Option Address
  started : Option Nat
  completion : Option (List Char)
  pr : Option (List Char)
  ask : Option (List Char)
  task : Option (List Char)
  goal : Option (List Char)
  waiting : Option RunWaiting

namespace RunHot

def firstSeen (record : HotRecord) : RunHot where
  phase := .active
  lastSeq := record.seq
  lastKind := record.kind
  who := record.who
  addr := none
  started := none
  completion := none
  pr := none
  ask := none
  task := none
  goal := none
  waiting := none

/-- The text a record states under a field. -/
def stated (record : HotRecord) (field : String) : Option (List Char) :=
  (record.data.lookup field).bind Json.asStr

/-- The text a record states under a field, unless it is empty. -/
def named (record : HotRecord) (field : String) : Option (List Char) :=
  (stated record field).filter fun said => !said.isEmpty

/-- Folds one record that is newer than everything this run has seen. -/
def absorb (hot : RunHot) (record : HotRecord) : RunHot :=
  let phase := if record.kind = .runFrozen then .frozen else hot.phase
  { phase
    lastSeq := record.seq
    lastKind := record.kind
    who := hot.who
    addr := if record.kind = .runStarted then record.addr else hot.addr
    started := if record.kind = .runStarted then some record.t else hot.started
    completion := if record.kind = .runFrozen then stated record "completion" else hot.completion
    pr := if record.kind = .prOpened then stated record "branch" else hot.pr
    ask := if record.kind = .approvalRequested then stated record "action_desc" else none
    task := if record.kind = .runStarted then named record "task" else hot.task
    goal := if record.kind = .runStarted then named record "goal" else hot.goal
    waiting :=
      if record.kind = .signalWaitEnded ∨ record.kind = .runFrozen then none
      else if record.kind = .signalWaitStarted ∧ phase = .active then RunWaiting.statedBy record
      else hot.waiting }

end RunHot

def recentFrozen : Nat := 32

/-- The runs held, and the frozen runs pushed out, by id alone. -/
structure HotView where
  runs : OrdMap RunId RunHot
  evicted : Std.ExtTreeSet RunId

namespace HotView

def new : HotView := { runs := ∅, evicted := ∅ }

/-- The frozen runs held. -/
def frozen (view : HotView) : List (RunId × RunHot) :=
  view.runs.toList.filter fun entry => entry.2.phase = .frozen

/-- Tombstones the frozen run with the lowest last seq when more than `recentFrozen` are held. -/
def evictTheOldestFrozenBeyondRecent (view : HotView) : HotView :=
  if view.frozen.length ≤ recentFrozen then view
  else
    match view.frozen.minOn? fun entry => entry.2.lastSeq.value with
    | none => view
    | some (oldest, _) =>
      { runs := view.runs.erase oldest, evicted := view.evicted.insert oldest }

/-- Records at or below a run's last seq change nothing of it. -/
def fold (view : HotView) (record : HotRecord) : HotView :=
  match view.runs[record.run]? with
  | some hot =>
    if hot.lastSeq.value < record.seq.value then
      { view with runs := view.runs.insert record.run (hot.absorb record) }
    else view
  | none =>
    { view with
      runs := view.runs.insert record.run ((RunHot.firstSeen record).absorb record) }

/-- Folds one record in. City-level records and the tails of evicted runs are left out. -/
def apply (view : HotView) (record : HotRecord) : HotView :=
  if record.run = RunId.city ∨ record.run ∈ view.evicted then view
  else if record.kind = .runFrozen then (view.fold record).evictTheOldestFrozenBeyondRecent
  else view.fold record

def asU64 (count : Nat) : Nat := min count u64Max

def countPhase (view : HotView) (phase : RunPhase) : Nat :=
  asU64 ((view.runs.toList.map Prod.snd).filter fun hot => hot.phase = phase).length

def activeCount (view : HotView) : Nat := view.countPhase .active

def frozenCount (view : HotView) : Nat :=
  saturatingAdd (view.countPhase .frozen) (asU64 view.evicted.size)

end HotView

end Sprawling.Storage

namespace Sprawling.Storage

open List

namespace RunHot

/-- A run's state from its own records. -/
def ofRecords : List HotRecord → Option RunHot
  | [] => none
  | record :: rest => some (rest.foldl absorb ((firstSeen record).absorb record))

/-- The phase says whether a freeze was among the records, and a frozen run waits for nobody. -/
structure Phased (records : List HotRecord) (hot : RunHot) : Prop where
  phase : hot.phase = .frozen ↔ ∃ record ∈ records, record.kind = .runFrozen
  still : hot.phase = .frozen → hot.waiting = none

/-- What a run's state says of its records. -/
structure Traced (records : List HotRecord) (hot : RunHot) : Prop extends Phased records hot where
  last : ∃ final, records.getLast? = some final ∧ hot.lastSeq = final.seq ∧
    (hot.ask ≠ none → final.kind = .approvalRequested)

theorem phased_firstSeen (record : HotRecord) : Phased [] (firstSeen record) :=
  ⟨by simp [firstSeen], fun frozen => by simp [firstSeen] at frozen⟩

variable {records : List HotRecord} {hot : RunHot}

theorem Phased.absorb (phased : Phased records hot)
    (record : HotRecord) : Traced (records ++ [record]) (hot.absorb record) := by
  refine ⟨⟨?_, ?_⟩, record, getLast?_concat, rfl, ?_⟩
  · simp only [RunHot.absorb]
    split
    · next freezes => simp [freezes]
    · next other => simp [other, phased.phase]
  · intro frozen
    simp only [RunHot.absorb] at frozen ⊢
    rw [frozen]
    split
    · rfl
    · next other =>
        rw [if_neg (by simp)]
        rw [not_or] at other
        rw [if_neg other.2] at frozen
        exact phased.still frozen
  · intro asked
    by_contra other
    simp [RunHot.absorb, other] at asked

theorem ofRecords_concat (records : List HotRecord) (record : HotRecord) :
    ofRecords (records ++ [record]) =
      some (((ofRecords records).getD (firstSeen record)).absorb record) := by
  cases records with
  | nil => rfl
  | cons first rest => simp [ofRecords]

theorem traced_of_ofRecords (folded : ofRecords records = some hot) : Traced records hot := by
  induction records using List.reverseRecOn generalizing hot with
  | nil => cases folded
  | append_singleton records record ih =>
    rw [ofRecords_concat, Option.some.injEq] at folded
    rw [← folded]
    cases before : ofRecords records with
    | none =>
      have empty : records = [] := by
        cases records with
        | nil => rfl
        | cons first rest => cases before
      rw [empty]
      exact (phased_firstSeen record).absorb record
    | some held => exact (ih before).toPhased.absorb record

theorem ofRecords_isSome :
    (∃ hot, ofRecords records = some hot) ↔ records ≠ [] := by
  cases records with
  | nil => simp [ofRecords]
  | cons first rest => simp [ofRecords]

end RunHot

open RunHot

/-- A run's own records. -/
def ownRecords (records : List HotRecord) (run : RunId) : List HotRecord :=
  records.filter fun record => record.run = run

theorem ownRecords_concat (records : List HotRecord) (record : HotRecord) (run : RunId) :
    ownRecords (records ++ [record]) run =
      ownRecords records run ++ if record.run = run then [record] else [] := by
  rw [ownRecords, ownRecords, List.filter_append]
  by_cases same : record.run = run
  · simp [same]
  · simp [same]

/-- Seqs rise along the list. -/
def Rising (records : List HotRecord) : Prop :=
  records.Pairwise fun first second => first.seq.value < second.seq.value

variable {records : List HotRecord}

theorem Rising.le_last (rising : Rising records) {record final : HotRecord}
    (member : record ∈ records) (last : records.getLast? = some final) :
    record.seq.value ≤ final.seq.value := by
  obtain ⟨front, rfl⟩ := getLast?_eq_some_iff.mp last
  rcases mem_append.mp member with earlier | here
  · have less := (pairwise_append.mp rising).2.2 record earlier final (mem_singleton_self _)
    omega
  · rw [List.mem_singleton.mp here]

namespace HotView

/-- The view stands where the records have brought it, with at most so many frozen runs held. -/
structure Follows (room : Nat) (records : List HotRecord) (view : HotView) : Prop where
  city : view.runs[RunId.city]? = none ∧ RunId.city ∉ view.evicted
  held : ∀ run, run ≠ RunId.city → run ∉ view.evicted →
    view.runs[run]? = ofRecords (ownRecords records run)
  gone : ∀ run, run ∈ view.evicted →
    view.runs[run]? = none ∧ ∃ record ∈ records, record.run = run ∧ record.kind = .runFrozen
  recent : view.frozen.length ≤ room

theorem follows_new : Follows recentFrozen [] new where
  city := ⟨rfl, Std.ExtTreeSet.not_mem_empty⟩
  held _ _ _ := rfl
  gone _ member := absurd member Std.ExtTreeSet.not_mem_empty
  recent := Nat.zero_le _

section Steps

variable {room : Nat} {records : List HotRecord} {view : HotView} {record : HotRecord}

variable {hot : RunHot}

theorem Follows.traced (follows : Follows room records view) {run : RunId}
    (found : view.runs[run]? = some hot) :
    run ≠ RunId.city ∧ run ∉ view.evicted ∧ ofRecords (ownRecords records run) = some hot := by
  have notCity : run ≠ RunId.city := by
    rintro rfl
    rw [follows.city.1] at found
    cases found
  have stays : run ∉ view.evicted := by
    intro evicted
    rw [(follows.gone run evicted).1] at found
    cases found
  rw [← follows.held run notCity stays]
  exact ⟨notCity, stays, found⟩

theorem Follows.left_out (follows : Follows room records view)
    (out : record.run = RunId.city ∨ record.run ∈ view.evicted) :
    Follows room (records ++ [record]) view where
  city := follows.city
  held run notCity stays := by
    have other : record.run ≠ run := by
      rintro rfl
      exact out.elim notCity stays
    rw [ownRecords_concat, if_neg other, append_nil]
    exact follows.held run notCity stays
  gone run evicted := by
    obtain ⟨absent, freeze, member, facts⟩ := follows.gone run evicted
    exact ⟨absent, freeze, mem_append_left _ member, facts⟩
  recent := follows.recent

theorem Follows.fold_eq (follows : Follows room records view)
    (rising : Rising (records ++ [record])) :
    view.fold record = { view with
      runs := view.runs.insert record.run
        (((view.runs[record.run]?).getD (firstSeen record)).absorb record) } := by
  unfold fold
  cases found : view.runs[record.run]? with
  | none => rfl
  | some hot =>
    obtain ⟨-, -, folded⟩ := follows.traced found
    obtain ⟨final, last, seq, -⟩ := (traced_of_ofRecords folded).last
    have inside : final ∈ records := mem_of_mem_filter (mem_of_getLast? last)
    have newer := (pairwise_append.mp rising).2.2 final inside record
      (mem_singleton_self _)
    simp only [seq, if_pos newer, Option.getD_some]

theorem frozen_length (view : HotView) :
    view.frozen.length = view.runs.toList.countP fun entry => entry.2.phase = .frozen := by
  rw [frozen, countP_eq_length_filter]

theorem Follows.frozen_insert (follows : Follows room records view) (made : hot = ((view.runs[record.run]?).getD (firstSeen record)).absorb record) :
    ({ view with runs := view.runs.insert record.run hot } : HotView).frozen.length ≤
      room + if record.kind = .runFrozen then 1 else 0 := by
  have recent := follows.recent
  rw [frozen_length] at recent ⊢
  have count := OrdMap.countP_insert view.runs record.run hot fun entry => entry.2.phase = .frozen
  show (view.runs.insert record.run hot).toList.countP _ ≤ _
  by_cases freezes : record.kind = .runFrozen
  · rw [if_pos freezes]
    have one : (if decide (hot.phase = RunPhase.frozen) = true then 1 else 0) ≤ 1 := by
      split <;> omega
    simp only at count
    omega
  · rw [if_neg freezes]
    have phase : hot.phase = ((view.runs[record.run]?).getD (firstSeen record)).phase := by
      rw [made]
      simp only [RunHot.absorb, if_neg freezes]
    cases found : view.runs[record.run]? with
    | none =>
      rw [found] at phase count
      have awake : hot.phase = .active := phase
      simp only [awake, Option.any_none, Bool.false_eq_true, reduceCtorEq, decide_false,
        if_false] at count
      omega
    | some old =>
      rw [found] at phase count
      simp only [Option.getD_some] at phase
      simp only [Option.any_some, phase] at count
      omega

theorem Follows.fold (follows : Follows room records view)
    (rising : Rising (records ++ [record])) (notCity : record.run ≠ RunId.city)
    (stays : record.run ∉ view.evicted) :
    Follows (room + if record.kind = .runFrozen then 1 else 0) (records ++ [record])
      (view.fold record) := by
  rw [follows.fold_eq rising]
  refine ⟨⟨?_, follows.city.2⟩, fun run other here => ?_, fun run evicted => ?_,
    follows.frozen_insert rfl⟩
  · rw [OrdMap.get_insert, if_neg notCity]
    exact follows.city.1
  · rw [OrdMap.get_insert, ownRecords_concat]
    by_cases same : record.run = run
    · rw [if_pos same, if_pos same, ofRecords_concat, same, follows.held run other here]
    · rw [if_neg same, if_neg same, append_nil]
      exact follows.held run other here
  · obtain ⟨absent, freeze, member, facts⟩ := follows.gone run evicted
    have apart : record.run ≠ run := by
      rintro rfl
      exact stays evicted
    refine ⟨?_, freeze, mem_append_left _ member, facts⟩
    rw [OrdMap.get_insert, if_neg apart]
    exact absent

theorem Follows.evict (follows : Follows (recentFrozen + 1) records view) :
    Follows recentFrozen records view.evictTheOldestFrozenBeyondRecent := by
  unfold evictTheOldestFrozenBeyondRecent
  split
  · next few => exact { follows with recent := few }
  · next many =>
      split
      · next none =>
          have empty : view.frozen = [] := by
            by_contra filled
            have some := List.isSome_minOn?_iff (f := fun entry => entry.2.lastSeq.value).mpr filled
            rw [none] at some
            cases some
          rw [empty] at many
          exact absurd (Nat.zero_le _) many
      · next oldest hot least =>
          have member := List.minOn?_mem least
          rw [frozen, mem_filter, Std.ExtTreeMap.mem_toList_iff_getElem?_eq_some] at member
          obtain ⟨found, phase⟩ := member
          obtain ⟨notCity, stays, folded⟩ := follows.traced found
          have phased := (traced_of_ofRecords folded).toPhased
          have freeze := phased.phase.mp (by simpa using phase)
          refine ⟨⟨?_, ?_⟩, fun run other here => ?_, fun run evicted => ?_, ?_⟩
          · rw [OrdMap.get_erase, if_neg notCity]
            exact follows.city.1
          · rw [Std.ExtTreeSet.mem_insert, Std.compare_eq_iff_eq, not_or]
            exact ⟨notCity, follows.city.2⟩
          · rw [Std.ExtTreeSet.mem_insert, Std.compare_eq_iff_eq, not_or] at here
            rw [OrdMap.get_erase, if_neg here.1]
            exact follows.held run other here.2
          · rw [Std.ExtTreeSet.mem_insert, Std.compare_eq_iff_eq] at evicted
            rw [OrdMap.get_erase]
            rcases evicted with rfl | evicted
            · obtain ⟨record, own, kind⟩ := freeze
              rw [ownRecords, mem_filter] at own
              exact ⟨if_pos rfl, record, own.1, by simpa using own.2, kind⟩
            · obtain ⟨absent, facts⟩ := follows.gone run evicted
              rw [absent]
              exact ⟨ite_self _, facts⟩
          · have fewer : (view.runs.erase oldest).toList.countP (fun entry =>
                entry.2.phase = .frozen) + 1 =
                view.runs.toList.countP fun entry => entry.2.phase = .frozen :=
              OrdMap.countP_erase found phase
            have recent := follows.recent
            rw [frozen_length] at recent ⊢
            show (view.runs.erase oldest).toList.countP _ ≤ _
            omega

theorem Follows.apply (follows : Follows recentFrozen records view)
    (rising : Rising (records ++ [record])) :
    Follows recentFrozen (records ++ [record]) (view.apply record) := by
  unfold HotView.apply
  split
  · next out => exact follows.left_out out
  · next inside =>
      rw [not_or] at inside
      have folded := follows.fold rising inside.1 inside.2
      split
      · next freezes =>
          rw [if_pos freezes] at folded
          exact folded.evict
      · next other =>
          rw [if_neg other] at folded
          exact folded

theorem Follows.again (follows : Follows recentFrozen records view) (rising : Rising records)
    (member : record ∈ records) : view.apply record = view := by
  unfold HotView.apply
  split
  · rfl
  · next inside =>
      rw [not_or] at inside
      have own : record ∈ ownRecords records record.run :=
        mem_filter.mpr ⟨member, by simp⟩
      obtain ⟨hot, folded⟩ := ofRecords_isSome.mpr (ne_nil_of_mem own)
      have found := follows.held record.run inside.1 inside.2
      rw [folded] at found
      obtain ⟨final, last, seq, -⟩ := (traced_of_ofRecords folded).last
      have below := Rising.le_last (rising.filter _) own last
      have kept : view.fold record = view := by
        unfold HotView.fold
        simp only [found, seq, if_neg (Nat.not_lt.mpr below)]
      rw [kept]
      split
      · rw [evictTheOldestFrozenBeyondRecent, if_pos follows.recent]
      · rfl

end Steps

theorem follows_run (rising : Rising records) :
    Follows recentFrozen records (records.foldl apply new) := by
  induction records using List.reverseRecOn with
  | nil => exact follows_new
  | append_singleton records record ih =>
    rw [List.foldl_append]
    exact (ih (pairwise_append.mp rising).1).apply rising

/-- The runs a list of records tells of, the city itself left out. -/
def runsSeen (records : List HotRecord) : List RunId :=
  ((records.map HotRecord.run).filter fun run => run ≠ RunId.city).dedup

/-- Whether a freeze of the run is among the records. -/
def froze (records : List HotRecord) (run : RunId) : Bool :=
  records.any fun record => record.run = run && record.kind = .runFrozen

def activeRuns (records : List HotRecord) : List RunId :=
  (runsSeen records).filter fun run => !froze records run

def frozenRuns (records : List HotRecord) : List RunId :=
  (runsSeen records).filter (froze records)

variable {run : RunId}

theorem mem_runsSeen :
    run ∈ runsSeen records ↔ run ≠ RunId.city ∧ ownRecords records run ≠ [] := by
  rw [runsSeen, mem_dedup, mem_filter, mem_map]
  simp only [ne_eq, decide_not, Bool.not_eq_eq_eq_not, Bool.not_true, decide_eq_false_iff_not,
    ownRecords, filter_eq_nil_iff, decide_eq_true_eq, not_forall, not_not]
  constructor
  · rintro ⟨⟨record, member, same⟩, notCity⟩
    exact ⟨notCity, record, member, same⟩
  · rintro ⟨notCity, record, member, same⟩
    exact ⟨⟨record, member, same⟩, notCity⟩

theorem froze_iff :
    froze records run = true ↔ ∃ record ∈ ownRecords records run, record.kind = .runFrozen := by
  simp only [froze, any_eq_true, ownRecords, mem_filter, Bool.and_eq_true, decide_eq_true_eq]
  constructor
  · rintro ⟨record, member, same, freezes⟩
    exact ⟨record, ⟨member, same⟩, freezes⟩
  · rintro ⟨record, ⟨member, same⟩, freezes⟩
    exact ⟨record, member, same, freezes⟩

section Laws

variable {room : Nat} {records : List HotRecord} {view : HotView}

/-- The runs held in one phase. -/
def heldIn (view : HotView) (phase : RunPhase) : List RunId :=
  (view.runs.toList.filter fun entry => entry.2.phase = phase).map Prod.fst

theorem nodup_heldIn (view : HotView) (phase : RunPhase) : (view.heldIn phase).Nodup :=
  (OrdMap.nodup_fst_toList view.runs).sublist (filter_sublist.map _)

theorem mem_heldIn {phase : RunPhase} :
    run ∈ view.heldIn phase ↔ ∃ hot, view.runs[run]? = some hot ∧ hot.phase = phase := by
  simp [heldIn]

theorem countPhase_eq (view : HotView) (phase : RunPhase) :
    view.countPhase phase = asU64 (view.heldIn phase).length := by
  rw [countPhase, heldIn, length_map, filter_map, length_map]
  rfl

theorem Follows.mem_active (follows : Follows room records view) :
    run ∈ view.heldIn .active ↔ run ∈ activeRuns records := by
  have awake : (!froze records run) = true ↔
      ¬ ∃ record ∈ ownRecords records run, record.kind = .runFrozen := by
    rw [← froze_iff, Bool.not_eq_true', Bool.not_eq_true]
  rw [mem_heldIn, activeRuns, mem_filter, mem_runsSeen, awake]
  constructor
  · rintro ⟨hot, found, awake⟩
    obtain ⟨notCity, -, folded⟩ := follows.traced found
    refine ⟨⟨notCity, ofRecords_isSome.mp ⟨hot, folded⟩⟩, fun freeze => ?_⟩
    rw [(traced_of_ofRecords folded).phase.mpr freeze] at awake
    cases awake
  · rintro ⟨⟨notCity, some_record⟩, awake⟩
    have stays : run ∉ view.evicted := by
      intro evicted
      obtain ⟨-, record, member, same, freezes⟩ := follows.gone run evicted
      exact awake ⟨record, mem_filter.mpr ⟨member, by simpa using same⟩, freezes⟩
    obtain ⟨hot, folded⟩ := ofRecords_isSome.mpr some_record
    refine ⟨hot, (follows.held run notCity stays).trans folded, ?_⟩
    cases phase : hot.phase with
    | active => rfl
    | frozen => exact absurd ((traced_of_ofRecords folded).phase.mp phase) awake

theorem Follows.mem_frozen (follows : Follows room records view) :
    run ∈ view.heldIn .frozen ++ view.evicted.toList ↔ run ∈ frozenRuns records := by
  rw [mem_append, mem_heldIn, Std.ExtTreeSet.mem_toList, frozenRuns, mem_filter,
    mem_runsSeen, froze_iff]
  constructor
  · rintro (⟨hot, found, frozen⟩ | evicted)
    · obtain ⟨notCity, -, folded⟩ := follows.traced found
      exact ⟨⟨notCity, ofRecords_isSome.mp ⟨hot, folded⟩⟩,
        (traced_of_ofRecords folded).phase.mp frozen⟩
    · obtain ⟨-, record, member, same, freezes⟩ := follows.gone run evicted
      have own : record ∈ ownRecords records run := mem_filter.mpr ⟨member, by simpa using same⟩
      refine ⟨⟨?_, ne_nil_of_mem own⟩, record, own, freezes⟩
      rintro rfl
      exact follows.city.2 evicted
  · rintro ⟨⟨notCity, some_record⟩, freeze⟩
    by_cases evicted : run ∈ view.evicted
    · exact Or.inr evicted
    · obtain ⟨hot, folded⟩ := ofRecords_isSome.mpr some_record
      exact Or.inl ⟨hot, (follows.held run notCity evicted).trans folded,
        (traced_of_ofRecords folded).phase.mpr freeze⟩

theorem nodup_runsSeen (records : List HotRecord) : (runsSeen records).Nodup := nodup_dedup _

theorem Follows.activeCount (follows : Follows room records view) :
    view.activeCount = asU64 (activeRuns records).length := by
  have perm : (view.heldIn .active).Perm (activeRuns records) := by
    exact (perm_ext_iff_of_nodup (nodup_heldIn view _)
      ((nodup_runsSeen records).filter _)).mpr fun _ => follows.mem_active
  rw [HotView.activeCount, countPhase_eq, perm.length_eq]

theorem Follows.frozenCount (follows : Follows room records view) :
    view.frozenCount = asU64 (frozenRuns records).length := by
  have distinct : (view.heldIn .frozen ++ view.evicted.toList).Nodup := by
    rw [nodup_append]
    refine ⟨nodup_heldIn view _, ?_, fun run held other evicted same => ?_⟩
    · refine Std.ExtTreeSet.distinct_toList.imp fun apart same => ?_
      exact apart (Std.compare_eq_iff_eq.mpr same)
    · subst same
      obtain ⟨hot, found, -⟩ := mem_heldIn.mp held
      exact (follows.traced found).2.1 (Std.ExtTreeSet.mem_toList.mp evicted)
  have perm : (view.heldIn .frozen ++ view.evicted.toList).Perm (frozenRuns records) := by
    exact (perm_ext_iff_of_nodup distinct
      ((nodup_runsSeen records).filter _)).mpr fun _ => follows.mem_frozen
  have sum := perm.length_eq
  rw [length_append, Std.ExtTreeSet.length_toList] at sum
  rw [HotView.frozenCount, countPhase_eq, ← sum]
  simp only [saturatingAdd, asU64]
  omega

/-- What the view answers after a list of records. -/
structure HotLaws (records : List HotRecord) (view : HotView) : Prop where
  active : view.activeCount = asU64 (activeRuns records).length
  frozen : view.frozenCount = asU64 (frozenRuns records).length
  recent : (view.runs.toList.filter fun entry => entry.2.phase = .frozen).length ≤ recentFrozen
  apart : ∀ run, run ∈ view.evicted → run ∉ view.runs
  activeHeld : ∀ run ∈ activeRuns records,
    ∃ hot, view.runs[run]? = some hot ∧ hot.phase = .active
  noWait : ∀ (run : RunId) (hot : RunHot), view.runs[run]? = some hot →
    hot.phase = .frozen → hot.waiting = none
  asks : ∀ (run : RunId) (hot : RunHot), view.runs[run]? = some hot → hot.ask ≠ none →
    ∃ last, (ownRecords records run).getLast? = some last ∧ last.kind = .approvalRequested
  again : ∀ more : List HotRecord, (∀ record ∈ more, record ∈ records) →
    more.foldl apply view = view

/-- A view fed records of rising seqs counts the runs as they are, holds what it should, and takes
no notice of a record it has been fed before. -/
theorem hot_laws (records : List HotRecord) (rising : Rising records) :
    HotLaws records (records.foldl apply new) := by
  have follows := follows_run rising
  refine ⟨follows.activeCount, follows.frozenCount, follows.recent, ?_, ?_, ?_, ?_, ?_⟩
  · intro run evicted held
    obtain ⟨hot, found⟩ := (OrdMap.mem_iff_get _ _).mp held
    exact (follows.traced found).2.1 evicted
  · exact fun run awake => mem_heldIn.mp (follows.mem_active.mpr awake)
  · intro run hot found frozen
    exact (traced_of_ofRecords (follows.traced found).2.2).still frozen
  · intro run hot found asked
    obtain ⟨final, last, -, kind⟩ := (traced_of_ofRecords (follows.traced found).2.2).last
    exact ⟨final, last, kind asked⟩
  · intro more fed
    induction more with
    | nil => rfl
    | cons record more ih =>
      rw [foldl_cons, follows.again rising (fed record mem_cons_self)]
      exact ih fun other member => fed other (mem_cons_of_mem _ member)

end Laws

def hotRecord (seq : Nat) (bounded : seq < 2 ^ 64) (byte : UInt8) (kind : EventKind) : HotRecord where
  seq := ⟨seq, bounded⟩
  t := 0
  run := ⟨⟨List.replicate 16 byte, by simp⟩⟩
  who := "city".toList
  addr := none
  kind
  data := []

/-- Two runs, one of which freezes and writes one line more. -/
def twoRuns : List HotRecord :=
  [hotRecord 0 Seq.zero_fits 1 .runStarted, hotRecord 1 Seq.one_fits 2 .runStarted,
    hotRecord 2 Seq.two_fits 1 .runFrozen, hotRecord 3 Seq.three_fits 2 .approvalRequested,
    hotRecord 4 Seq.four_fits 1 .checkpointCommitted]

theorem hot_laws_twoRuns : HotLaws twoRuns (twoRuns.foldl apply new) :=
  hot_laws twoRuns (by unfold Rising; decide)

end HotView

end Sprawling.Storage
