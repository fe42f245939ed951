import Sprawling.Accounting.Pool
import Sprawling.Base.Machine
import Sprawling.Base.Turnstile

/-! What becomes of the runs a driving pool takes, over any calls to it and any machine. -/

namespace Sprawling

open List

namespace DrivingPool

variable {β γ : Type}

/-- What the turns of one call settled: the threads asked for since, in order. -/
def settledSince (before after : DrivingPool β) : List (Turnstile.Event RunId) :=
  (after.asked.drop before.asked.length).map fun one => Turnstile.settled one.1.run one.2

/-- A call to the pool; a lane that comes home is followed by a look at what waits. -/
inductive Call (β γ : Type) where
  | start (staged : Staged β) (moment : Moment)
  | startWaiting (moments : Nat → Moment)
  | landed (arrival : Arrival γ) (ends : Nat → LaneEnd) (moments : Nat → Moment)

/-- A pool, what happened to the runs it accepted, and the runs it reported refused. -/
structure History (β : Type) where
  pool : DrivingPool β
  log : List (Turnstile.Event RunId)
  told : List RunId

namespace History

def begin : History β := ⟨empty, [], []⟩

/-- Looks at what waits. -/
def look (history : History β) (moments : Nat → Moment) : History β :=
  let (refused, pool) := history.pool.startWaiting moments
  ⟨pool, history.log ++ settledSince history.pool pool, history.told ++ refused.map Prod.fst⟩

def take (history : History β) : Call β γ → History β
  | .start staged moment =>
    match history.pool.start staged moment with
    | (.ok _, pool) =>
      { history with pool, log := history.log ++ .joins staged.run :: settledSince history.pool pool }
    | (.error _, pool) => { history with pool }
  | .startWaiting moments => history.look moments
  | .landed arrival ends moments => { history with pool := (history.pool.landed arrival ends).2 }.look moments

def after (calls : List (Call β γ)) : History β := calls.foldl take begin

end History

def runsOf (queued : List (Waiting β)) : List RunId := queued.map fun one => one.staged.run

/-- Whom a log has turned away. -/
def turnedAway (log : List (Turnstile.Event RunId)) : List RunId :=
  log.filterMap fun event => match event with
    | .turnedAway run => some run
    | _ => none

section Turns

variable {moments : Nat → Moment} {pool : DrivingPool β}

theorem turnedAway_append (first second : List (Turnstile.Event RunId)) :
    turnedAway (first ++ second) = turnedAway first ++ turnedAway second := filterMap_append

theorem turnedAway_cons_settled (run : RunId) (opened : Bool) (rest : List (Turnstile.Event RunId)) :
    turnedAway (Turnstile.settled run opened :: rest) =
      (if opened then [] else [run]) ++ turnedAway rest := by
  cases opened <;> rfl

/-- What one look at a queue does: the oldest are asked a thread for, those refused one are reported,
and what is left waits beside a run that drives. -/
structure Looked (queued : List (Waiting β)) (pool : DrivingPool β) (refused : List (RunId × AxError))
    (after : DrivingPool β) (tries : List (Waiting β × Bool)) : Prop where
  queue : queued = tries.map Prod.fst ++ after.waiting
  asked : after.asked = pool.asked ++ tries.map fun one => (one.1.staged, one.2)
  told : refused.map Prod.fst = (tries.filter fun one => !one.2).map fun one => one.1.staged.run
  driving : ∀ run, run ∈ after.running ↔
    run ∈ pool.running ∨ ∃ one ∈ tries, one.2 = true ∧ one.1.staged.run = run
  beside : after.waiting ≠ [] → after.running.size ≠ 0

theorem looked {turn : Nat} {queued : List (Waiting β)} {refused : List (RunId × AxError)}
    {after : DrivingPool β} (ran : startEach moments turn queued pool = (refused, after)) :
    ∃ tries, Looked queued pool refused after tries := by
  induction queued generalizing turn pool refused after with
  | nil =>
    rw [startEach] at ran
    cases ran
    exact ⟨[], by simp, by simp, by simp, by simp, fun some_waits => absurd rfl some_waits⟩
  | cons oldest queued ih =>
    rw [startEach] at ran
    by_cases full : pool.full (moments turn).memory = true
    · rw [if_pos full] at ran
      cases ran
      exact ⟨[], by simp, by simp, by simp, by simp, fun _ => not_empty_of_full full⟩
    · rw [if_neg full] at ran
      cases answered : (moments turn).refuses with
      | none =>
        simp only [openLane, answered] at ran
        obtain ⟨tries, queue, asked, told, driving, beside⟩ := ih ran
        refine ⟨(oldest, true) :: tries, ?_, ?_, ?_, ?_, beside⟩
        · rw [queue, map_cons, cons_append]
        · rw [asked, map_cons, append_assoc]
          rfl
        · rw [told, filter_cons_of_neg (by simp)]
        · intro run
          rw [driving, Std.ExtTreeMap.mem_insert, Std.LawfulEqOrd.compare_eq_iff_eq]
          simp only [mem_cons, exists_eq_or_imp, true_and]
          constructor
          · rintro ((own | before) | later)
            · exact .inr (.inl own)
            · exact .inl before
            · exact .inr (.inr later)
          · rintro (before | own | later)
            · exact .inl (.inr before)
            · exact .inl (.inl own)
            · exact .inr later
      | some source =>
        simp only [openLane, answered] at ran
        cases ran
        obtain ⟨tries, queue, asked, told, driving, beside⟩ := ih rfl
        refine ⟨(oldest, false) :: tries, ?_, ?_, ?_, ?_, beside⟩
        · exact congrArg (List.cons oldest) queue
        · rw [asked, map_cons, append_assoc]
          rfl
        · rw [map_cons, told, filter_cons_of_pos (by simp), map_cons]
        · intro run
          rw [driving]
          simp only [mem_cons, exists_eq_or_imp, Bool.false_eq_true, false_and, false_or]

end Turns

/-- How a pool stands to what happened to its runs: who waits in the log waits in the pool, in the same
order, and drives nowhere. -/
structure Orderly (history : History β) : Prop where
  line : Turnstile.line history.log = runsOf history.pool.waiting
  distinct : (runsOf history.pool.waiting).Nodup
  apart : ∀ run ∈ runsOf history.pool.waiting, run ∉ history.pool.running
  once : Turnstile.Once history.log
  told : history.told = turnedAway history.log

/-- The same between two calls: whoever waits does so beside a run that drives. -/
structure Standing (history : History β) : Prop extends Orderly history where
  beside : history.pool.waiting ≠ [] → history.pool.running.size ≠ 0

theorem standing_begin : Standing (History.begin : History β) where
  line := rfl
  distinct := nodup_nil
  apart := nofun
  once := Trace.always_nil
  told := rfl
  beside := fun some_waits => absurd rfl some_waits

/-- A start jumps the queue when others wait and it finds room, and a thread. -/
def Overtakes (history : History β) : Call β γ → Prop
  | .start staged moment =>
    history.pool.holds staged.run = false ∧ history.pool.waiting ≠ [] ∧
      history.pool.full moment.memory = false ∧ moment.refuses = none
  | .startWaiting _ | .landed _ _ _ => False

section Steps

variable {history : History β}

theorem map_fst_tries (tries : List (Waiting β × Bool)) :
    (tries.map fun one => (one.1.staged.run, one.2)).map Prod.fst = runsOf (tries.map Prod.fst) := by
  rw [runsOf, map_map, map_map]
  rfl

theorem turnedAway_tries (tries : List (Waiting β × Bool)) :
    turnedAway ((tries.map fun one => (one.1.staged.run, one.2)).map fun one =>
      Turnstile.settled one.1 one.2) = (tries.filter fun one => !one.2).map fun one => one.1.staged.run := by
  induction tries with
  | nil => rfl
  | cons one tries ih =>
    obtain ⟨queued, opened⟩ := one
    rw [map_cons, map_cons, turnedAway_cons_settled, ih]
    cases opened <;> rfl

theorem Orderly.look (orderly : Orderly history) (moments : Nat → Moment) :
    Standing (history.look moments) ∧
      (Turnstile.InTurn (history.look moments).log ↔ Turnstile.InTurn history.log) := by
  have ran : startEach moments 0 history.pool.waiting history.pool =
      ((history.pool.startWaiting moments).1, (history.pool.startWaiting moments).2) := rfl
  obtain ⟨tries, queue, asked, reported, driving, beside⟩ := looked ran
  have settled : settledSince history.pool (history.pool.startWaiting moments).2 =
      (tries.map fun one => (one.1.staged.run, one.2)).map fun one => Turnstile.settled one.1 one.2 := by
    rw [settledSince, asked, drop_left, map_map, map_map]
    rfl
  have waits : Turnstile.line history.log = (tries.map fun one => (one.1.staged.run, one.2)).map Prod.fst ++
      runsOf (history.pool.startWaiting moments).2.waiting := by
    rw [orderly.line, queue, runsOf, map_append, map_fst_tries]
    rfl
  obtain ⟨line, once, turns⟩ := Turnstile.settle waits
  have before := orderly.line ▸ orderly.distinct
  rw [waits] at before
  have log : (history.look moments).log = history.log ++
      (tries.map fun one => (one.1.staged.run, one.2)).map fun one => Turnstile.settled one.1 one.2 := by
    rw [← settled]
    rfl
  rw [← log] at line once turns
  refine ⟨⟨⟨line, (nodup_append.mp before).2.1, ?_, once.mpr orderly.once, ?_⟩, beside⟩, turns⟩
  · intro run waiting driven
    rcases (driving run).mp driven with before_ | ⟨one, tried, -, rfl⟩
    · refine orderly.apart run ?_ before_
      rw [← orderly.line, waits]
      exact mem_append_right _ waiting
    · refine (nodup_append.mp before).2.2 one.1.staged.run ?_ _ waiting rfl
      exact mem_map.mpr ⟨(one.1.staged.run, one.2), mem_map_of_mem tried, rfl⟩
  · rw [log, turnedAway_append, turnedAway_tries, ← reported, ← orderly.told]
    rfl

theorem holds_eq_false {pool : DrivingPool β} {run : RunId} :
    pool.holds run = false ↔ run ∉ pool.running ∧ run ∉ runsOf pool.waiting := by
  rw [holds, Bool.or_eq_false_iff, decide_eq_false_iff_not, any_eq_false]
  refine and_congr_right fun _ => ?_
  rw [runsOf, mem_map]
  constructor
  · rintro others ⟨queued, member, same⟩
    exact others queued member (decide_eq_true same)
  · intro absent queued member same
    exact absent ⟨queued, member, of_decide_eq_true same⟩

theorem Standing.start (standing : Standing history) (staged : Staged β) (moment : Moment) :
    Standing (history.take (.start staged moment : Call β γ)) ∧
      (Turnstile.InTurn (history.take (.start staged moment : Call β γ)).log ↔
        Turnstile.InTurn history.log ∧ ¬ Overtakes history (.start staged moment : Call β γ)) := by
  rw [History.take, DrivingPool.start, Overtakes]
  cases held : history.pool.holds staged.run with
  | true => exact ⟨standing, by simp⟩
  | false =>
    obtain ⟨idle, absent⟩ := holds_eq_false.mp held
    have fresh : staged.run ∉ Turnstile.line history.log := standing.line ▸ absent
    cases full : history.pool.full moment.memory with
    | true =>
      obtain ⟨line, once, turns⟩ := Turnstile.joins fresh
      have same : settledSince history.pool
          { history.pool with waiting := history.pool.waiting ++ [⟨staged, moment.now⟩] } = [] := by
        rw [settledSince, drop_length, map_nil]
      have grown : runsOf (history.pool.waiting ++ [⟨staged, moment.now⟩]) =
          runsOf history.pool.waiting ++ [staged.run] := map_append
      simp only [Bool.false_eq_true, ↓reduceIte, same]
      refine ⟨⟨⟨?_, ?_, ?_, once.mpr standing.once, ?_⟩, fun _ => not_empty_of_full full⟩, ?_⟩
      · rw [line, grown, standing.line]
      · rw [grown]
        refine nodup_append.mpr ⟨standing.distinct, nodup_singleton _, ?_⟩
        rintro run waiting other single rfl
        rw [mem_singleton.mp single] at waiting
        exact absent waiting
      · intro run waiting
        rw [grown, mem_append, mem_singleton] at waiting
        rcases waiting with before | rfl
        · exact standing.apart run before
        · exact idle
      · rw [turnedAway_append, ← standing.told]
        exact (append_nil _).symm
      · rw [turns]
        simp
    | false =>
      cases answered : moment.refuses with
      | some source =>
        simp only [Bool.false_eq_true, ↓reduceIte, openLane]
        exact ⟨⟨⟨standing.line, standing.distinct, standing.apart, standing.once, standing.told⟩,
          standing.beside⟩, by simp⟩
      | none =>
        obtain ⟨line, once, turns⟩ := Turnstile.enters_at_once fresh
        simp only [Bool.false_eq_true, ↓reduceIte, openLane, settledSince, drop_left,
          map_cons, map_nil, Turnstile.settled]
        refine ⟨⟨⟨?_, standing.distinct, ?_, once.mpr standing.once, ?_⟩, fun _ => ?_⟩, ?_⟩
        · rw [line, standing.line]
        · intro run waiting driven
          rw [Std.ExtTreeMap.mem_insert, Std.LawfulEqOrd.compare_eq_iff_eq] at driven
          rcases driven with rfl | before
          · exact absent waiting
          · exact standing.apart run waiting before
        · rw [turnedAway_append, ← standing.told]
          exact (append_nil _).symm
        · rw [Std.ExtTreeMap.size_insert, if_neg (by rwa [Std.ExtTreeMap.contains_iff_mem])]
          exact Nat.succ_ne_zero _
        · rw [turns, standing.line]
          refine and_congr_right fun _ => ?_
          simp [runsOf]

theorem Orderly.landed (orderly : Orderly history) (arrival : Arrival γ) (ends : Nat → LaneEnd) :
    Orderly { history with pool := (history.pool.landed arrival ends).2 } where
  line := orderly.line
  distinct := orderly.distinct
  apart run waiting driven := orderly.apart run waiting (Std.ExtTreeMap.mem_of_mem_erase driven)
  once := orderly.once
  told := orderly.told

theorem Standing.take (standing : Standing history) (call : Call β γ) :
    Standing (history.take call) ∧
      (Turnstile.InTurn (history.take call).log ↔ Turnstile.InTurn history.log ∧ ¬ Overtakes history call) := by
  cases call with
  | start staged moment => exact standing.start staged moment
  | startWaiting moments =>
    obtain ⟨after, turns⟩ := standing.toOrderly.look moments
    exact ⟨after, turns.trans (and_iff_left not_false).symm⟩
  | landed arrival ends moments =>
    obtain ⟨after, turns⟩ := (standing.toOrderly.landed arrival ends).look moments
    exact ⟨after, turns.trans (and_iff_left not_false).symm⟩

theorem standing_after (calls : List (Call β γ)) : Standing (History.after calls) :=
  @Machine.run_always _ _ History.take Standing (fun _ call standing => (standing.take call).1) _ standing_begin calls

theorem inTurn_foldl (standing : Standing history) (calls : List (Call β γ)) :
    Turnstile.InTurn (calls.foldl History.take history).log ↔
      Turnstile.InTurn history.log ∧
        Machine.Meets History.take (fun history call => ¬ Overtakes history call) history calls := by
  induction calls generalizing history with
  | nil => exact (and_iff_left trivial).symm
  | cons call calls ih =>
    obtain ⟨after, turns⟩ := standing.take call
    rw [foldl_cons, ih after, turns, and_assoc]
    rfl

end Steps

/-- What is asked of a pool over some calls: every accepted run is opened a lane or reported refused
once at most and waits until then, no run is opened before one that asked earlier and waits, and
nothing ever waits while no run drives. -/
structure Fair (calls : List (Call β γ)) : Prop where
  once : Turnstile.Once (History.after calls).log
  kept : Turnstile.line (History.after calls).log = runsOf (History.after calls).pool.waiting
  told : (History.after calls).told = turnedAway (History.after calls).log
  turns : Turnstile.InTurn (History.after calls).log
  drained : ∀ first second, calls = first ++ second → (History.after first).pool.inFlight = 0 →
    (History.after first).pool.waiting = []

/-- A pool is fair to its runs unless a start finds others waiting, and room, and a thread. -/
theorem fair_iff (calls : List (Call β γ)) :
    Fair calls ↔
      Machine.Meets History.take (fun history call => ¬ Overtakes history call) History.begin calls := by
  have turns := inTurn_foldl (standing_begin (β := β)) calls
  have begun : Turnstile.InTurn (History.begin : History β).log := Trace.always_nil
  rw [and_iff_right begun] at turns
  rw [← turns]
  have standing := standing_after calls
  refine ⟨Fair.turns, fun inTurn => ⟨standing.once, standing.line, standing.told, inTurn, ?_⟩⟩
  intro first second _ drained
  by_contra some_waits
  exact (standing_after first).beside some_waits ((inFlight_eq_zero _).mp drained)

def runOf (byte : UInt8) : RunId := ⟨⟨List.replicate 16 byte, rfl⟩⟩

def momentOf (free : UInt64) : Moment := ⟨⟨10737418240, free * 1073741824⟩, 0, none⟩

/-- A run that drives, one that waits because memory is tight, and one that asks when it no longer is. -/
def hurriedCalls : List (Call Unit Unit) :=
  [.start ⟨runOf 1, ()⟩ (momentOf 5), .start ⟨runOf 2, ()⟩ (momentOf 0), .start ⟨runOf 3, ()⟩ (momentOf 5)]

/-- The third run is opened before the second, which waits. -/
theorem hurriedCalls_unfair : ¬ Fair hurriedCalls := by
  intro fair
  have log : (History.after hurriedCalls).log =
      [.joins (runOf 1), .enters (runOf 1), .joins (runOf 2), .joins (runOf 3)] ++ [.enters (runOf 3)] := by
    decide +kernel
  have head := fair.turns _ _ [] log (runOf 3) rfl
  revert head
  decide +kernel

end DrivingPool

end Sprawling
