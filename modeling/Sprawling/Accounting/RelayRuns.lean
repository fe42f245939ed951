import Mathlib.Data.List.Pairwise
import Mathlib.Logic.Function.Basic
import Sprawling.Accounting.RelayServe
import Sprawling.Base.Machine

/-! Lanes that ask and wait, and the accounting thread that serves them, over any interleaving. -/

namespace Sprawling

open List

variable {κ δ π γ η θ ρ : Type}

/-- A line, the lane that sent it, and how many that lane had sent before. -/
structure Numbered (κ δ : Type) where
  lane : κ
  serial : Nat
  draft : δ
deriving DecidableEq

/-- How many lines a lane has sent, and whether it is blocked until it is answered. -/
structure DrivingLane where
  sent : Nat
  awaiting : Bool

/-- What is posted on the queue beside the requests of lanes. -/
inductive Posted (γ η θ : Type) where
  | goal (ask : γ)
  | home (arrival : η)
  | answered (answer : θ)
  | command
  | close

def Posted.wake {α : Type} : Posted γ η θ → Wake κ α π γ η θ
  | .goal ask => .goal ask
  | .home arrival => .home arrival
  | .answered answer => .answered answer
  | .command => .command
  | .close => .close

/-- The lane a wake's answer goes back to. -/
def Wake.back? {α : Type} : Wake κ α π γ η θ → Option κ
  | .relay request => some request.back
  | .claim ask => some ask.back
  | .goal _ | .home _ | .answered _ | .command | .close => none

/-- The lines a wake asks the ledger to take. -/
def Wake.lines {α : Type} : Wake κ α π γ η θ → List α
  | .relay request => request.drafts
  | .claim ask => [ask.line]
  | .goal _ | .home _ | .answered _ | .command | .close => []

def Reply.back : Reply κ ρ → κ
  | .relayed back _ | .claimed back _ => back

/-- The lanes, the queue between them and the accounting thread, and what that thread holds. -/
structure Crossing (κ δ π γ η θ ρ : Type) where
  lanes : κ → DrivingLane
  queue : List (Wake κ (Numbered κ δ) π γ η θ)
  book : ClaimBook π
  health : Health
  lines : List (Numbered κ δ × ρ)
  homes : List η

namespace Crossing

open RelayGate

/-- What a lane or the accounting thread does next. -/
inductive Move (κ δ π γ η θ ρ : Type) where
  | appendAll (lane : κ) (drafts : List δ) (queued : Nat)
  | claim (lane : κ) (building : Address) (node : NodeId) (line : δ) (putBack : π) (read : UInt64)
  | post (posted : Posted γ η θ)
  /-- The book between two looks: shown a line, or asked to let a run's nodes go. -/
  | rebook (change : ClaimBook π → ClaimBook π)
  /-- The next run home is landed. -/
  | land
  | serve (world : Outside ρ)

def begin : Crossing κ δ π γ η θ ρ := ⟨fun _ => ⟨0, false⟩, [], .new, .new, [], []⟩

/-- A lane's lines, numbered as it sends them. -/
def number (lane : κ) (sent : Nat) (drafts : List δ) : List (Numbered κ δ) :=
  drafts.mapIdx fun place draft => ⟨lane, sent + place, draft⟩

variable [DecidableEq κ]

/-- A lane queues a request and is blocked. -/
def ask (crossing : Crossing κ δ π γ η θ ρ) (lane : κ) (drafts : List δ)
    (wake : List (Numbered κ δ) → Wake κ (Numbered κ δ) π γ η θ) : Crossing κ δ π γ η θ ρ :=
  { crossing with
    lanes := Function.update crossing.lanes lane ⟨(crossing.lanes lane).sent + drafts.length, true⟩
    queue := crossing.queue ++ [wake (number lane (crossing.lanes lane).sent drafts)] }

/-- One look at the queue, which unblocks every lane it answers. A lane whose claim is answered while
the look goes on may ask again and ride its wave; here that request is left to the next look. The claim's
line is in the ledger by then and the request stands behind it either way, so a lane's order is the same. -/
def look (runOf : δ → RunId) (crossing : Crossing κ δ π γ η θ ρ) (world : Outside ρ) :
    Served κ (Numbered κ δ) π γ η θ ρ :=
  RelayGate.serve (fun line => runOf line.draft) world crossing.book crossing.health crossing.lines
    crossing.homes crossing.queue

/-- A lane that waits for its answer does nothing else, and an empty batch is answered without asking. -/
def step (runOf : δ → RunId) (crossing : Crossing κ δ π γ η θ ρ) :
    Move κ δ π γ η θ ρ → Crossing κ δ π γ η θ ρ
  | .appendAll lane drafts queued =>
    if (crossing.lanes lane).awaiting || drafts.isEmpty then crossing
    else { crossing with health := crossing.health.asked }.ask lane drafts fun lines => .relay ⟨lines, lane, queued⟩
  | .claim lane building node line putBack read =>
    if (crossing.lanes lane).awaiting then crossing
    else
      crossing.ask lane [line] fun _ =>
        .claim ⟨building, node, ⟨lane, (crossing.lanes lane).sent, line⟩, putBack, read, lane⟩
  | .post posted => { crossing with queue := crossing.queue ++ [posted.wake] }
  | .rebook change => { crossing with book := change crossing.book }
  | .land => { crossing with homes := crossing.homes.tail }
  | .serve world =>
    let served := crossing.look runOf world
    { lanes := fun lane =>
        if lane ∈ served.sent.map Reply.back then { crossing.lanes lane with awaiting := false }
        else crossing.lanes lane
      queue := []
      book := served.book
      health := served.health
      lines := served.lines
      homes := served.homes }

/-- The crossing after some moves. -/
def after (runOf : δ → RunId) (moves : List (Move κ δ π γ η θ ρ)) : Crossing κ δ π γ η θ ρ :=
  moves.foldl (step runOf) begin

def Before (first second : Numbered κ δ) : Prop := first.lane = second.lane → first.serial < second.serial

/-- Two wakes do not come from one lane. -/
def Apart {α : Type} (first second : Wake κ α π γ η θ) : Prop :=
  ∀ lane, first.back? = some lane → second.back? ≠ some lane

/-- How the lanes stand to the queue and the ledger: a lane has one request queued at most and is blocked
while it has, and what is in the ledger and on the queue is in the order each lane sent it. -/
structure Orderly (crossing : Crossing κ δ π γ η θ ρ) : Prop where
  single : crossing.queue.Pairwise Apart
  blocked : ∀ wake ∈ crossing.queue, ∀ lane, wake.back? = some lane → (crossing.lanes lane).awaiting = true
  own : ∀ wake ∈ crossing.queue, ∀ line ∈ wake.lines, wake.back? = some line.lane
  order : (crossing.lines.map Prod.fst ++ crossing.queue.flatMap Wake.lines).Pairwise Before
  sent : ∀ line ∈ crossing.lines.map Prod.fst ++ crossing.queue.flatMap Wake.lines,
    line.serial < (crossing.lanes line.lane).sent

section Steps

variable {crossing : Crossing κ δ π γ η θ ρ} {runOf : δ → RunId}

omit [DecidableEq κ] in
theorem orderly_begin : Orderly (begin : Crossing κ δ π γ η θ ρ) :=
  ⟨List.Pairwise.nil, nofun, nofun, List.Pairwise.nil, nofun⟩

omit [DecidableEq κ] in
theorem mem_number {lane : κ} {sent : Nat} {drafts : List δ} {line : Numbered κ δ}
    (member : line ∈ number lane sent drafts) :
    line.lane = lane ∧ sent ≤ line.serial ∧ line.serial < sent + drafts.length := by
  obtain ⟨place, inside, rfl⟩ := mem_mapIdx.mp member
  exact ⟨rfl, Nat.le_add_right _ _, Nat.add_lt_add_left inside _⟩

omit [DecidableEq κ] in
theorem number_rises (lane : κ) (sent : Nat) (drafts : List δ) :
    (number lane sent drafts).Pairwise Before := by
  rw [pairwise_iff_getElem]
  intro first second inside insideToo before _
  simp only [number, getElem_mapIdx]
  exact Nat.add_lt_add_left before _

theorem Orderly.ask (orderly : Orderly crossing) {lane : κ} (free : (crossing.lanes lane).awaiting = false)
    (drafts : List δ) {wake : List (Numbered κ δ) → Wake κ (Numbered κ δ) π γ η θ}
    (back : ∀ lines, (wake lines).back? = some lane)
    (carries : (wake (number lane (crossing.lanes lane).sent drafts)).lines =
      number lane (crossing.lanes lane).sent drafts) : Orderly (crossing.ask lane drafts wake) := by
  have elsewhere {other : κ} (apart : other ≠ lane) :
      (crossing.ask lane drafts wake).lanes other = crossing.lanes other := Function.update_of_ne apart _ _
  have here : (crossing.ask lane drafts wake).lanes lane = ⟨(crossing.lanes lane).sent + drafts.length, true⟩ :=
    Function.update_self _ _ _
  have queue : (crossing.ask lane drafts wake).queue =
      crossing.queue ++ [wake (number lane (crossing.lanes lane).sent drafts)] := rfl
  have lines : (crossing.ask lane drafts wake).lines.map Prod.fst ++
      (crossing.ask lane drafts wake).queue.flatMap Wake.lines =
        (crossing.lines.map Prod.fst ++ crossing.queue.flatMap Wake.lines) ++
          number lane (crossing.lanes lane).sent drafts := by
    rw [queue, flatMap_append, flatMap_singleton, carries, append_assoc]
    rfl
  constructor
  · rw [queue, pairwise_append]
    refine ⟨orderly.single, pairwise_singleton _ _, fun earlier member later single other has => ?_⟩
    rw [mem_singleton.mp single, back]
    rintro same
    cases same
    have busy := orderly.blocked earlier member lane has
    rw [free] at busy
    cases busy
  · intro one member other has
    rw [queue, mem_append, mem_singleton] at member
    by_cases same : other = lane
    · rw [same, here]
    · rw [elsewhere same]
      rcases member with earlier | rfl
      · exact orderly.blocked one earlier other has
      · rw [back] at has
        cases has
        exact absurd rfl same
  · intro one member line carried
    rw [queue, mem_append, mem_singleton] at member
    rcases member with earlier | rfl
    · exact orderly.own one earlier line carried
    · rw [carries] at carried
      rw [back, (mem_number carried).1]
  · rw [lines, pairwise_append]
    refine ⟨orderly.order, number_rises _ _ _, fun earlier member later numbered same => ?_⟩
    obtain ⟨mine, low, -⟩ := mem_number numbered
    have below := orderly.sent earlier member
    rw [same, mine] at below
    omega
  · intro line member
    rw [lines, mem_append] at member
    rcases member with earlier | numbered
    · have below := orderly.sent line earlier
      by_cases same : line.lane = lane
      · rw [same] at below
        rw [same, here]
        exact Nat.lt_add_right _ below
      · rw [elsewhere same]
        exact below
    · obtain ⟨mine, -, high⟩ := mem_number numbered
      rw [mine, here]
      exact high

omit [DecidableEq κ] in
theorem Orderly.post (orderly : Orderly crossing) (posted : Posted γ η θ) :
    Orderly { crossing with queue := crossing.queue ++ [posted.wake] } := by
  have silent : (posted.wake : Wake κ (Numbered κ δ) π γ η θ).back? = none := by cases posted <;> rfl
  have bare : (posted.wake : Wake κ (Numbered κ δ) π γ η θ).lines = [] := by cases posted <;> rfl
  have lines : (crossing.queue ++ [posted.wake]).flatMap Wake.lines = crossing.queue.flatMap Wake.lines := by
    rw [flatMap_append, flatMap_singleton, bare, append_nil]
  constructor
  · rw [pairwise_append]
    refine ⟨orderly.single, pairwise_singleton _ _, fun _ _ later single lane _ => ?_⟩
    rw [mem_singleton.mp single, silent]
    exact nofun
  · intro wake member lane has
    rcases mem_append.mp member with earlier | last
    · exact orderly.blocked wake earlier lane has
    · rw [mem_singleton.mp last, silent] at has
      cases has
  · intro wake member line carried
    rcases mem_append.mp member with earlier | last
    · exact orderly.own wake earlier line carried
    · rw [mem_singleton.mp last, bare] at carried
      cases carried
  · rw [lines]
    exact orderly.order
  · rw [lines]
    exact orderly.sent

section Look

variable {wakes : List (Wake κ (Numbered κ δ) π γ η θ)}

omit [DecidableEq κ] in
theorem sublist_claims : ((claimsOf wakes).map ClaimAsk.line).Sublist (wakes.flatMap Wake.lines) := by
  induction wakes with
  | nil => exact List.Sublist.refl _
  | cons wake wakes ih =>
    rw [flatMap_cons]
    cases wake with
    | claim ask => exact ih.cons_cons ask.line
    | relay request => exact ih.trans (sublist_append_right _ _)
    | goal _ | home _ | answered _ | command | close => exact ih

omit [DecidableEq κ] in
theorem sublist_drafts : (draftsOf (relaysOf wakes)).Sublist (wakes.flatMap Wake.lines) := by
  induction wakes with
  | nil => exact List.Sublist.refl _
  | cons wake wakes ih =>
    rw [flatMap_cons]
    cases wake with
    | claim ask => exact ih.trans (sublist_append_right _ _)
    | relay request => exact (List.Sublist.refl _).append ih
    | goal _ | home _ | answered _ | command | close => exact ih

omit [DecidableEq κ] in
theorem Orderly.claim_apart (orderly : Orderly crossing) {claimed drafted : Numbered κ δ}
    (one : claimed ∈ (claimsOf crossing.queue).map ClaimAsk.line)
    (two : drafted ∈ draftsOf (relaysOf crossing.queue)) : claimed.lane ≠ drafted.lane := by
  obtain ⟨ask, asks, rfl⟩ := mem_map.mp one
  obtain ⟨request, requests, carried⟩ := mem_flatMap.mp two
  obtain ⟨first, queued, isClaim⟩ := mem_filterMap.mp asks
  obtain ⟨second, queuedToo, isRelay⟩ := mem_filterMap.mp requests
  cases first <;> cases isClaim
  cases second <;> cases isRelay
  have backs := orderly.own _ queued ask.line mem_cons_self
  have backsToo := orderly.own _ queuedToo drafted carried
  intro same
  rw [← same] at backsToo
  have symmetric : Std.Symm (Apart : Wake κ (Numbered κ δ) π γ η θ → _ → Prop) :=
    ⟨fun _ _ apart lane has other => apart lane other has⟩
  exact orderly.single.forall queued queuedToo (fun same => nomatch same) _ backs backsToo

end Look

theorem Orderly.serve (orderly : Orderly crossing) (world : Outside ρ) :
    Orderly (crossing.step runOf (.serve world)) := by
  obtain ⟨taken, wave, _, _, _, serves⟩ := serves (fun line : Numbered κ δ => runOf line.draft) world
    crossing.book crossing.health crossing.lines crossing.homes crossing.queue
  have waved : (wave.map Prod.fst).Sublist (draftsOf (relaysOf crossing.queue)) := by
    cases serves.settles with
    | none _ => exact nil_sublist _
    | took refs told _ => rw [fst_stamped]
    | refused err kept refs _ =>
      rw [map_take, fst_stamped]
      exact take_sublist _ _
  have lines : (crossing.step runOf (.serve world)).lines.map Prod.fst ++
      (crossing.step runOf (.serve world)).queue.flatMap Wake.lines =
        crossing.lines.map Prod.fst ++ (taken.map Prod.fst ++ wave.map Prod.fst) := by
    have same : (crossing.step runOf (.serve world)).lines = crossing.lines ++ taken ++ wave := serves.lines
    have emptied : (crossing.step runOf (.serve world)).queue = [] := rfl
    rw [same, emptied, map_append, map_append, flatMap_nil, append_nil, append_assoc]
  obtain ⟨written, queued, between⟩ := pairwise_append.mp orderly.order
  have fromQueue {line : Numbered κ δ} (member : line ∈ taken.map Prod.fst ++ wave.map Prod.fst) :
      line ∈ crossing.queue.flatMap Wake.lines := by
    rcases mem_append.mp member with claimed | drafted
    · exact sublist_claims.subset (serves.claims.subset claimed)
    · exact sublist_drafts.subset (waved.subset drafted)
  have counts (lane : κ) : ((crossing.step runOf (.serve world)).lanes lane).sent = (crossing.lanes lane).sent := by
    change (if _ then { crossing.lanes lane with awaiting := false } else crossing.lanes lane).sent = _
    split <;> rfl
  refine ⟨List.Pairwise.nil, nofun, nofun, ?_, ?_⟩
  · rw [lines, pairwise_append, pairwise_append]
    refine ⟨written, ⟨queued.sublist (serves.claims.trans sublist_claims),
      queued.sublist (waved.trans sublist_drafts), ?_⟩, fun first member second later => ?_⟩
    · intro first claimed second drafted same
      exact absurd same (orderly.claim_apart (serves.claims.subset claimed) (waved.subset drafted))
    · exact between first member second (fromQueue later)
  · intro line member
    rw [lines] at member
    rw [counts]
    rcases mem_append.mp member with earlier | later
    · exact orderly.sent line (mem_append_left _ earlier)
    · exact orderly.sent line (mem_append_right _ (fromQueue later))

theorem Orderly.step (orderly : Orderly crossing) (move : Move κ δ π γ η θ ρ) :
    Orderly (crossing.step runOf move) := by
  cases move with
  | appendAll lane drafts queued =>
    rw [Crossing.step]
    cases free : (crossing.lanes lane).awaiting with
    | true => exact orderly
    | false =>
      cases drafts with
      | nil => exact orderly
      | cons draft drafts =>
        have counted : Orderly { crossing with health := crossing.health.asked } :=
          ⟨orderly.single, orderly.blocked, orderly.own, orderly.order, orderly.sent⟩
        simp only [Bool.false_or, isEmpty_cons, Bool.false_eq_true, ↓reduceIte]
        refine counted.ask free (draft :: drafts) ?_ ?_
        · exact fun _ => rfl
        · rfl
  | claim lane building node line putBack read =>
    rw [Crossing.step]
    cases free : (crossing.lanes lane).awaiting with
    | true => exact orderly
    | false =>
      simp only [Bool.false_eq_true, ↓reduceIte]
      refine orderly.ask free [line] ?_ ?_
      · exact fun _ => rfl
      · rfl
  | post posted => exact orderly.post posted
  | rebook _ | land => exact ⟨orderly.single, orderly.blocked, orderly.own, orderly.order, orderly.sent⟩
  | serve world => exact orderly.serve world

theorem orderly_after (runOf : δ → RunId) (moves : List (Move κ δ π γ η θ ρ)) : Orderly (after runOf moves) :=
  @Machine.run_always _ _ (step runOf) Orderly (fun _ move orderly => orderly.step move) _ orderly_begin moves

end Steps

/-- What is asked of the crossing over some moves: each look at the queue serves it well, and every lane's
lines are in the ledger in the order that lane sent them. -/
structure Faithful (runOf : δ → RunId) (moves : List (Move κ δ π γ η θ ρ)) : Prop where
  served : ∀ before world rest, moves = before ++ .serve world :: rest →
    ServedWell (after runOf before).queue (after runOf before).lines (after runOf before).homes
      ((after runOf before).look runOf world)
  order : ((after runOf moves).lines.map Prod.fst).Pairwise Before

/-- The crossing is faithful exactly when no look at the queue meets a ledger that keeps part of the wave it
refuses. -/
theorem faithful_iff (runOf : δ → RunId) (moves : List (Move κ δ π γ η θ ρ)) :
    Faithful runOf moves ↔ ∀ before world rest, moves = before ++ .serve world :: rest →
      Whole world.wave (draftsOf (relaysOf (after runOf before).queue)) := by
  have order := (pairwise_append.mp (orderly_after runOf moves).order).1
  constructor
  · exact fun faithful before world rest split => servedWell_iff.mp (faithful.served before world rest split)
  · exact fun whole => ⟨fun before world rest split => servedWell_iff.mpr (whole before world rest split), order⟩

/-- A ledger that takes one line and has no room for the next. -/
def appendsOne (place : Nat) : Except AxError Nat :=
  if place = 0 then .ok 0
  else .error (.failure .storageFatal "append" "the disk is full" "make room and start the city again")

/-- The wave of a lane's two lines on that ledger, appended one at a time. -/
def halfWave : Wave Nat :=
  .refused (.failure .storageFatal "append" "the disk is full" "make room and start the city again") 1 id

def halfTaken : List (Move Nat Nat Unit Unit Unit Unit Nat) :=
  [.appendAll 0 [7, 8] 0, .serve ⟨0, 0, id, appendsOne, halfWave⟩]

/-- The first of two lines is in the ledger, and is not among the lines handed on. -/
theorem halfTaken_unfaithful : (∀ lines, appendEach appendsOne 0 lines [7, 8] = appendAll halfWave lines [7, 8]) ∧
    ¬ Faithful (fun _ => RunId.city) halfTaken := by
  refine ⟨fun lines => rfl, fun faithful => ?_⟩
  have served := faithful.served [.appendAll 0 [7, 8] 0] ⟨0, 0, id, appendsOne, halfWave⟩ [] rfl
  have written := served.written
  revert written
  decide

end Crossing

end Sprawling
