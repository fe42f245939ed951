import Sprawling.Accounting.Placing
import Sprawling.Base.Trace
import Sprawling.Runtime.RunRules

/-! A run's writes and the checkpoints around them: where every reply that comes to write says so in
the calls it is written in, no write is outside a checkpoint. -/

namespace Sprawling

open Effect List Run

namespace Writes

/-- Everything the first answer names, the second does. -/
def Within : Writes → Writes → Prop
  | .nothing, _ => True
  | _, .domain => True
  | .paths these, .paths those => these ⊆ those
  | .paths _, .nothing => False
  | .domain, _ => False

/-- One more path, kept once. -/
def hold (held : List Address) (path : Address) : List Address :=
  if path ∈ held then held else held ++ [path]

theorem mem_hold {held : List Address} {path other : Address} :
    other ∈ hold held path ↔ other ∈ held ∨ other = path := by
  by_cases known : path ∈ held
  · simp only [hold, if_pos known]
    constructor
    · exact Or.inl
    · rintro (inside | rfl)
      · exact inside
      · exact known
  · simp only [hold, if_neg known, mem_append, mem_singleton]

theorem mem_joined {these those : List Address} {other : Address} :
    other ∈ those.foldl hold these ↔ other ∈ these ∨ other ∈ those := by
  induction those generalizing these with
  | nil => simp
  | cons path those ih =>
    rw [foldl_cons, ih, mem_hold, mem_cons, or_assoc]

theorem within_and_left {said held : Writes} (within : said.Within held) (this : Writes) :
    said.Within (held.and this) := by
  cases said with
  | nothing => trivial
  | domain =>
    cases held with
    | domain => trivial
    | nothing => cases within
    | paths _ => cases within
  | paths files =>
    cases held with
    | domain => trivial
    | nothing => cases within
    | paths these =>
      cases this with
      | nothing => exact within
      | domain => trivial
      | paths those => exact fun _ member => mem_joined.mpr (Or.inl (within member))

theorem within_and_right (held this : Writes) : this.Within (held.and this) := by
  cases this with
  | nothing => trivial
  | domain => cases held <;> trivial
  | paths those =>
    cases held with
    | nothing => exact fun _ member => member
    | domain => trivial
    | paths these => exact fun _ member => mem_joined.mpr (Or.inr member)

/-- The answer is nothing or the whole domain, and either stages the domain. -/
def Wide (wrote : Writes) : Prop := wrote = .nothing ∨ wrote = .domain

theorem Wide.and {held this : Writes} (wide : held.Wide) (other : this.Wide) :
    (held.and this).Wide := by
  rcases wide with rfl | rfl
  · rcases other with rfl | rfl
    · exact Or.inl rfl
    · exact Or.inr rfl
  · exact Or.inr rfl

end Writes

/-- Whether an effect declared so may write. -/
def MayWrite (declared : Option ToolEffect) : Prop :=
  ∃ effect, declared = some effect ∧ effect ≠ .read

namespace Lane

variable {σ κ : Type} (lane : Lane σ κ)

/-- The effect the tool of a resolved call declared. -/
def declared (call : ToolCall) : Option ToolEffect :=
  (lane.fittings.metaOf call.name).map ToolMeta.effect

/-- What a call said it wrote, by what its tool answered: a call that failed, or that no tool speaks
for, could not say. -/
def said (call : ToolCall) (ran : ToolReply) : Writes :=
  match ran, lane.fittings.toolNamed call.name with
  | .ok _, some tool => tool.writes call
  | _, _ => .domain

/-- The scope covers what a call said it wrote. -/
def Covers (scope : List (List Char)) : Writes → Prop
  | .nothing => True
  | .paths files => scope = lane.domain ∨ ∀ path ∈ files, path.text ∈ scope
  | .domain => scope = lane.domain

/-- Where a call of the wave comes to write, some call of it as the model wrote it is declared to
write. -/
def Plain (catalog : Catalog) (calls : List ToolCall) : Prop :=
  (∃ call ∈ calls, MayWrite (lane.declared (catalog.resolveCall call))) →
    ∃ call ∈ calls, lane.fittings.declaredWrites call ≠ .nothing

end Lane

namespace Checkpointing

/-- The calls accounted since the last checkpoint, one deed further. -/
def sinceStep (calls : List (ToolCall × ToolReply)) : Deed → List (ToolCall × ToolReply)
  | .staged _ => []
  | .accounted call ran => calls ++ [(call, ran)]
  | _ => calls

def since (deeds : List Deed) : List (ToolCall × ToolReply) := deeds.foldl sinceStep []

/-- A checkpoint was staged, and no call that may write was made since. -/
def Staged (deeds : List Deed) : Prop :=
  ∃ earlier scope later, deeds = earlier ++ .staged scope :: later ∧
    ∀ call declared, .invoked call declared ∈ later → ¬MayWrite declared

/-- What must hold when a wave begins and when a checkpoint is staged. -/
def Due {σ κ : Type} (lane : Lane σ κ) (before : List Deed) : Deed → Prop
  | .wave calls => (∃ call ∈ calls, MayWrite (lane.declared call)) → Staged before
  | .staged scope => ∀ call ran, (call, ran) ∈ since before → lane.Covers scope (lane.said call ran)
  | _ => True

/-- At every point of a run: a wave that comes to write begins under a checkpoint staged after the
last call that may have written, and a checkpoint covers what the calls since the one before said
they wrote. -/
def Guarded {σ κ : Type} (lane : Lane σ κ) (deeds : List Deed) : Prop :=
  Trace.Always (Due lane) deeds

theorem since_concat (deeds : List Deed) (deed : Deed) :
    since (deeds ++ [deed]) = sinceStep (since deeds) deed := by
  rw [since, foldl_append]
  rfl

theorem Staged.concat {deeds : List Deed} {deed : Deed} (staged : Staged deeds)
    (quiet : ∀ call declared, deed = .invoked call declared → ¬MayWrite declared) :
    Staged (deeds ++ [deed]) := by
  obtain ⟨earlier, scope, later, rfl, none_⟩ := staged
  refine ⟨earlier, scope, later ++ [deed], by rw [append_assoc, cons_append], ?_⟩
  intro call declared member
  rcases mem_append.mp member with inside | last
  · exact none_ call declared inside
  · exact quiet call declared (mem_singleton.mp last).symm

theorem staged_now (deeds : List Deed) (scope : List (List Char)) :
    Staged (deeds ++ [.staged scope]) :=
  ⟨deeds, scope, [], rfl, fun _ _ member => by cases member⟩

end Checkpointing

namespace Lane

variable {σ κ : Type} {lane : Lane σ κ}

theorem unsieved_checkpointing (call : ToolCall) (outcome : ToolOutcome) (placing : Placing σ κ) :
    (lane.unsieved call outcome placing).2.checkpointing = placing.checkpointing := by
  unfold Lane.unsieved
  split <;> rfl

theorem answered_wrote {decided : BenchOutcome}
    (answered : ∀ outcome checkpointed wrote, decided ≠ .ran outcome checkpointed wrote)
    (call : ToolCall) (placing : Placing σ κ) :
    (lane.answered call decided placing).2.checkpointing.wrote = placing.checkpointing.wrote := by
  cases decided with
  | ran outcome checkpointed wrote => exact absurd rfl (answered outcome checkpointed wrote)
  | refused refusal => rfl
  | duplicate outcome =>
    by_cases command : call.name = .exec
    · simp only [Lane.answered, if_pos command]
      rfl
    · simp only [Lane.answered, if_neg command, unsieved_checkpointing]

theorem answered_ran_wrote (call : ToolCall) (outcome : ToolOutcome)
    (checkpointed : Option (List Char)) (wrote : Writes) (placing : Placing σ κ) :
    (lane.answered call (.ran outcome checkpointed wrote) placing).2.checkpointing.wrote =
      placing.checkpointing.wrote.and wrote := by
  by_cases command : call.name ≠ .exec
  · simp only [Lane.answered, if_pos command, unsieved_checkpointing]
    rfl
  · simp only [Lane.answered, if_neg command]
    rfl

theorem admit_wrote [DecidableEq κ] (call : ToolCall) (placing : Placing σ κ) :
    (lane.admitOne call placing).2.checkpointing.wrote = placing.checkpointing.wrote ∨
      (lane.admitOne call placing).2.checkpointing.wrote =
        placing.checkpointing.wrote.and .domain := by
  unfold Lane.admitOne
  cases lane.action call with
  | error unreadable => exact Or.inl rfl
  | ok action =>
    cases done : Effect.run (ToolBench.clear lane.fittings call
        (lane.derive lane.run placing.next action)) placing.bench with
    | mk result bench =>
      simp only [done]
      cases result with
      | error refused => exact Or.inr rfl
      | ok clearance =>
        cases clearance with
        | cleared ticket => exact Or.inl rfl
        | answered decided =>
          left
          exact answered_wrote (ToolBench.yields_clear _ _ _ done) call _

variable {catalog : Catalog} {ticket : Ticket κ} {call : ToolCall}

theorem issued_wrote [DecidableEq κ]
    (issued : (lane.face catalog).Issued call ticket) :
    ∃ tool, lane.fittings.toolNamed call.name = some tool ∧ ticket.wrote = tool.writes call := by
  obtain ⟨placing, cleared⟩ := issued
  have cleared : (lane.admitOne call placing).1 = .cleared ticket := cleared
  unfold Lane.admitOne at cleared
  cases action : lane.action call with
  | error unreadable =>
    rw [action] at cleared
    cases cleared
  | ok bytes =>
    rw [action] at cleared
    cases done : Effect.run (ToolBench.clear lane.fittings call
        (lane.derive lane.run placing.next bytes)) placing.bench with
    | mk result bench =>
      simp only [done] at cleared
      cases result with
      | error refused => cases cleared
      | ok clearance =>
        cases clearance with
        | answered decided => cases cleared
        | cleared other =>
          cases cleared
          have sound : ToolBench.Clears lane.fittings call _ ticket :=
            ToolBench.yields_clear _ _ _ done
          obtain ⟨tool, named, -, wrote⟩ := sound.tool
          exact ⟨tool, named, wrote⟩

theorem account_wrote (call : ToolCall) (ticket : Ticket κ) (ran : ToolReply)
    (placing : Placing σ κ) :
    (∃ outcome, ran = .ok outcome ∧
        (lane.account call ticket ran placing).2.checkpointing.wrote =
          placing.checkpointing.wrote.and ticket.wrote) ∨
      (lane.account call ticket ran placing).2.checkpointing.wrote =
        placing.checkpointing.wrote.and .domain := by
  unfold Lane.account ToolBench.account
  cases ran with
  | error refused => exact Or.inr rfl
  | ok outcome =>
    cases entered : ToolBench.entered ticket.effect placing.bench.taint with
    | error refused =>
      right
      simp only [run_bind, run_look, entered]
      rfl
    | ok taint =>
      left
      refine ⟨outcome, rfl, ?_⟩
      simp only [run_bind, run_look, entered]
      exact answered_ran_wrote call outcome ticket.checkpointed ticket.wrote _

theorem issued_nothing [DecidableEq κ]
    (issued : (lane.face catalog).Issued call ticket) (tame : ¬MayWrite (lane.declared call)) :
    ticket.wrote = .nothing := by
  obtain ⟨tool, named, wrote⟩ := issued_wrote issued
  have declared : lane.declared call = some tool.registration.effect := by
    simp [Lane.declared, Fittings.metaOf, named]
  have reads : tool.registration.effect = .read := by
    by_contra acts
    exact tame ⟨tool.registration.effect, declared, acts⟩
  rw [wrote]
  exact (tool.reading reads call).2

end Lane

namespace Checkpointing

open CheckpointPolicy

section Standing

variable {σ κ : Type} (lane : Lane σ κ)

/-- What the calls since the last checkpoint said is within what the next one stages. -/
def Kept (deeds : List Deed) (wrote : Writes) : Prop :=
  ∀ call ran, (call, ran) ∈ since deeds → (lane.said call ran).Within wrote

/-- No call that may write was made. -/
def Clean (deeds : List Deed) : Prop :=
  ∀ call declared, .invoked call declared ∈ deeds → ¬MayWrite declared

/-- Some call of the wave as the model wrote it is declared to write. -/
def Touching (calls : List ToolCall) : Prop :=
  ∃ call ∈ calls, lane.fittings.declaredWrites call ≠ .nothing

def Tame (calls : List ToolCall) : Prop := ∀ call ∈ calls, ¬MayWrite (lane.declared call)

/-- Between waves. -/
def Between (deeds : List Deed) (wrote : Writes) (since : SinceCheckpoint) : Prop :=
  Guarded lane deeds ∧
    match since with
    | .notYet => wrote.Wide ∧ Clean deeds
    | .checkpointed => Kept lane deeds wrote ∧ Staged deeds
    | .changed => wrote.Wide ∨ Kept lane deeds wrote

/-- Once the checkpoint before a wave of these calls is passed. -/
def Opened (calls : List ToolCall) (deeds : List Deed) (wrote : Writes)
    (since : SinceCheckpoint) : Prop :=
  Guarded lane deeds ∧
    match since with
    | .notYet => wrote.Wide ∧ Clean deeds ∧ ¬Touching lane calls
    | .checkpointed => Kept lane deeds wrote ∧ Staged deeds ∧ ¬Touching lane calls
    | .changed => Kept lane deeds wrote ∧ Staged deeds

/-- While a wave of these resolved calls runs. -/
def Working (calls : List ToolCall) (deeds : List Deed) (wrote : Writes)
    (since : SinceCheckpoint) : Prop :=
  Guarded lane deeds ∧
    match since with
    | .notYet => wrote.Wide ∧ Clean deeds ∧ Tame lane calls
    | .checkpointed => Kept lane deeds wrote ∧ Staged deeds ∧ Tame lane calls
    | .changed => Kept lane deeds wrote

end Standing

/-- Whether a deed bears on the checkpoints. -/
def bears : Deed → Bool
  | .staged _ | .wave _ | .invoked _ _ | .accounted _ _ => true
  | _ => false

section Steps

variable {σ κ : Type} {lane : Lane σ κ} {deeds : List Deed} {deed : Deed} {wrote : Writes}
  {since_ : SinceCheckpoint} {calls : List ToolCall}

theorem Clean.concat (clean : Clean deeds)
    (quiet : ∀ call declared, deed = .invoked call declared → ¬MayWrite declared) :
    Clean (deeds ++ [deed]) := by
  intro call declared member
  rcases mem_append.mp member with inside | last
  · exact clean call declared inside
  · exact quiet call declared (mem_singleton.mp last).symm

theorem Guarded.concat (guarded : Guarded lane deeds) (due : Due lane deeds deed) :
    Guarded lane (deeds ++ [deed]) := Trace.always_concat.mpr ⟨guarded, due⟩

theorem due_of_idle (idle : bears deed = false) : Due lane deeds deed := by
  cases deed <;> trivial

theorem quiet_of_idle (idle : bears deed = false) (call : ToolCall) (declared : Option ToolEffect)
    (same : deed = .invoked call declared) : ¬MayWrite declared := by
  subst same
  cases idle

theorem Kept.of_since {later : List Deed} (kept : Kept lane deeds wrote)
    (same : since later = since deeds) : Kept lane later wrote := by
  intro call ran member
  rw [same] at member
  exact kept call ran member

theorem since_idle (idle : bears deed = false) : since (deeds ++ [deed]) = since deeds := by
  rw [since_concat]
  cases deed <;> trivial

theorem Between.idle (between : Between lane deeds wrote since_) (idle : bears deed = false) :
    Between lane (deeds ++ [deed]) wrote since_ := by
  refine ⟨between.1.concat (due_of_idle idle), ?_⟩
  have facts := between.2
  cases since_ with
  | notYet => exact ⟨facts.1, facts.2.concat (quiet_of_idle idle)⟩
  | checkpointed =>
    exact ⟨facts.1.of_since (since_idle idle), facts.2.concat (quiet_of_idle idle)⟩
  | changed =>
    rcases facts with wide | kept
    · exact Or.inl wide
    · exact Or.inr (kept.of_since (since_idle idle))

theorem Opened.idle (opened : Opened lane calls deeds wrote since_) (idle : bears deed = false) :
    Opened lane calls (deeds ++ [deed]) wrote since_ := by
  refine ⟨opened.1.concat (due_of_idle idle), ?_⟩
  have facts := opened.2
  cases since_ with
  | notYet => exact ⟨facts.1, facts.2.1.concat (quiet_of_idle idle), facts.2.2⟩
  | checkpointed =>
    exact ⟨facts.1.of_since (since_idle idle), facts.2.1.concat (quiet_of_idle idle), facts.2.2⟩
  | changed => exact ⟨facts.1.of_since (since_idle idle), facts.2.concat (quiet_of_idle idle)⟩

variable (working : Working lane calls deeds wrote since_)

include working

theorem Working.noted (due : Due lane deeds deed) (same : since (deeds ++ [deed]) = since deeds)
    (quiet : Tame lane calls → ∀ call declared, deed = .invoked call declared → ¬MayWrite declared) :
    Working lane calls (deeds ++ [deed]) wrote since_ := by
  refine ⟨working.1.concat due, ?_⟩
  have facts := working.2
  cases since_ with
  | notYet => exact ⟨facts.1, facts.2.1.concat (quiet facts.2.2), facts.2.2⟩
  | checkpointed => exact ⟨facts.1.of_since same, facts.2.1.concat (quiet facts.2.2), facts.2.2⟩
  | changed => exact facts.of_since same

theorem Working.idle (idle : bears deed = false) :
    Working lane calls (deeds ++ [deed]) wrote since_ :=
  working.noted (due_of_idle idle) (since_idle idle) fun _ => quiet_of_idle idle

theorem Working.between :
    Between lane deeds wrote since_ := by
  refine ⟨working.1, ?_⟩
  have facts := working.2
  cases since_ with
  | notYet => exact ⟨facts.1, facts.2.1⟩
  | checkpointed => exact ⟨facts.1, facts.2.1⟩
  | changed => exact Or.inr facts

omit working

theorem Opened.between (opened : Opened lane calls deeds wrote since_) :
    Between lane deeds wrote since_ := by
  refine ⟨opened.1, ?_⟩
  have facts := opened.2
  cases since_ with
  | notYet => exact ⟨facts.1, facts.2.1⟩
  | checkpointed => exact ⟨facts.1, facts.2.1⟩
  | changed => exact Or.inr facts.1

theorem Kept.and (kept : Kept lane deeds wrote) (this : Writes) :
    Kept lane deeds (wrote.and this) :=
  fun call ran member => Writes.within_and_left (kept call ran member) this

theorem Working.widened (working : Working lane calls deeds wrote since_) :
    Working lane calls deeds (wrote.and .domain) since_ := by
  refine ⟨working.1, ?_⟩
  have facts := working.2
  cases since_ with
  | notYet => exact ⟨facts.1.and (Or.inr rfl), facts.2⟩
  | checkpointed => exact ⟨facts.1.and _, facts.2⟩
  | changed => exact facts.and _

theorem Working.accounted (working : Working lane calls deeds wrote since_) {call : ToolCall}
    {ran : ToolReply} {this : Writes} (said : (lane.said call ran).Within (wrote.and this))
    (wide : Tame lane calls → this.Wide) :
    Working lane calls (deeds ++ [.accounted call ran]) (wrote.and this) since_ := by
  have quiet : ∀ other declared, Deed.accounted call ran = .invoked other declared →
      ¬MayWrite declared := by
    intro other declared same
    cases same
  have kept : Kept lane deeds wrote →
      Kept lane (deeds ++ [.accounted call ran]) (wrote.and this) := by
    intro kept other reply member
    rw [since_concat] at member
    rcases mem_append.mp member with earlier | last
    · exact Writes.within_and_left (kept other reply earlier) this
    · cases mem_singleton.mp last
      exact said
  refine ⟨working.1.concat trivial, ?_⟩
  have facts := working.2
  cases since_ with
  | notYet => exact ⟨facts.1.and (wide facts.2.2), facts.2.1.concat quiet, facts.2.2⟩
  | checkpointed => exact ⟨kept facts.1, facts.2.1.concat quiet, facts.2.2⟩
  | changed => exact kept facts

end Steps

section Runs

variable {σ κ : Type} (lane : Lane σ κ)

/-- A condition on the checkpoints, of a floor. -/
def On (holds : List Deed → Writes → SinceCheckpoint → Prop) (floor : Floor (Placing σ κ)) : Prop :=
  holds floor.deeds floor.bench.checkpointing.wrote floor.checkpoint.since

def stages : Run.Stages (Placing σ κ) where
  asks := fun _ => True
  between := On (Between lane)
  calling := On (Between lane)
  opened := fun calls => On (Opened lane calls)
  working := fun calls => On (Working lane calls)
  over_ := On (Between lane)
  failed := fun _ => On (Between lane)
  ended := fun _ => On (Between lane)

variable {lane}

theorem abides_on {holds : List Deed → Writes → SinceCheckpoint → Prop}
    (idle : ∀ deeds wrote since_ deed, bears deed = false → holds deeds wrote since_ →
      holds (deeds ++ [deed]) wrote since_)
    (ends : ∀ deeds wrote since_, holds deeds wrote since_ → Between lane deeds wrote since_) :
    @Act.Abides (Placing σ κ) (On holds) (fun _ => On (Between lane)) where
  appends := fun _ _ _ start => idle _ _ _ _ rfl start
  barriers := by
    apply Act.keeps_barrier
    · exact fun _ _ _ start => idle _ _ _ _ rfl start
    · exact fun _ _ _ _ start => ends _ _ _ (idle _ _ _ _ rfl start)
  tells := fun _ _ start => idle _ _ _ _ rfl start
  waits := fun _ _ start => start

theorem abides_between :
    @Act.Abides (Placing σ κ) (On (Between lane)) (fun _ => On (Between lane)) :=
  abides_on (fun _ _ _ _ idle between => between.idle idle) (fun _ _ _ between => between)

theorem abides_opened (calls : List ToolCall) :
    @Act.Abides (Placing σ κ) (On (Opened lane calls)) (fun _ => On (Between lane)) :=
  abides_on (fun _ _ _ _ idle opened => opened.idle idle) (fun _ _ _ opened => opened.between)

theorem abides_working (calls : List ToolCall) :
    @Act.Abides (Placing σ κ) (On (Working lane calls)) (fun _ => On (Between lane)) :=
  abides_on (fun _ _ _ _ idle working => working.idle idle) (fun _ _ _ working => working.between)

variable {deeds : List Deed} {since_ : SinceCheckpoint} {wrote : Writes}

theorem Between.read (between : Between lane deeds wrote since_) (call : ToolCall) :
    Between lane (deeds ++ [.invoked call (some .read)]) wrote since_ := by
  have quiet : ∀ other declared, Deed.invoked call (some .read) = .invoked other declared →
      ¬MayWrite declared := by
    rintro other declared same ⟨effect, rfl, acts⟩
    cases same
    exact acts rfl
  refine ⟨between.1.concat trivial, ?_⟩
  have facts := between.2
  cases since_ with
  | notYet => exact ⟨facts.1, facts.2.concat quiet⟩
  | checkpointed => exact ⟨facts.1.of_since (since_concat _ _), facts.2.concat quiet⟩
  | changed =>
    rcases facts with wide | kept
    · exact Or.inl wide
    · exact Or.inr (kept.of_since (since_concat _ _))

theorem touching_iff (calls : List ToolCall) :
    Wave.of calls lane.fittings.declaredWrites = .mayWrite ↔ Touching lane calls := by
  cases calls with
  | nil => simp [Wave.of, Touching]
  | cons call calls =>
    simp only [Wave.of]
    split
    · next all =>
        simp only [all_eq_true, decide_eq_true_eq] at all
        constructor
        · intro same
          cases same
        · rintro ⟨other, member, acts⟩
          exact absurd (all other member) acts
    · next some_ =>
        simp only [all_eq_true, decide_eq_true_eq, not_forall] at some_
        obtain ⟨other, member, acts⟩ := some_
        exact ⟨fun _ => ⟨other, member, acts⟩, fun _ => rfl⟩

theorem covers_scope {said wrote : Writes} (known : wrote.Wide ∨ said.Within wrote) :
    lane.Covers (scope wrote lane.domain) said := by
  have whole : wrote.Wide → lane.Covers (scope wrote lane.domain) said := by
    intro wide
    have same : scope wrote lane.domain = lane.domain := by
      rcases wide with rfl | rfl
      · rfl
      · rfl
    cases said with
    | nothing => trivial
    | paths files => exact Or.inl same
    | domain => exact same
  rcases known with wide | within
  · exact whole wide
  · cases wrote with
    | nothing => exact whole (Or.inl rfl)
    | domain => exact whole (Or.inr rfl)
    | paths held =>
      cases said with
      | nothing => trivial
      | domain => cases within
      | paths files =>
        right
        intro path member
        exact mem_map_of_mem (within member)

theorem Between.due_staged (between : Between lane deeds wrote since_) :
    Due lane deeds (.staged (scope wrote lane.domain)) := by
  intro call ran member
  apply covers_scope
  have facts := between.2
  cases since_ with
  | notYet => exact Or.inl facts.1
  | checkpointed => exact Or.inr (facts.1 call ran member)
  | changed =>
    rcases facts with wide | kept
    · exact Or.inl wide
    · exact Or.inr (kept call ran member)

theorem ensures_stageWave [DecidableEq κ] (addr : Address) (turn : LaneTurn)
    (start : Floor (Placing σ κ)) (owed : start.checkpoint.since ≠ .checkpointed) :
    Ensures (fun floor => floor = start ∧ On (Between lane) floor)
      (stageWave addr (lane.hooks turn))
      (fun _ floor => floor.checkpoint = start.checkpoint ∧ Guarded lane floor.deeds ∧
        since floor.deeds = [] ∧ Staged floor.deeds)
      (fun _ => On (Between lane)) := by
  rintro floor ⟨rfl, between⟩
  have between : Between lane floor.deeds floor.bench.checkpointing.wrote
    floor.checkpoint.since := between
  simp only [stageWave, Lane.hooks, Lane.checkpoint, Wave.setBench, takeScope, run_bind,
    run_look, run_update, run_lift]
  cases turn.committed with
  | error reason =>
    refine ⟨between.1, ?_⟩
    have facts := between.2
    cases here : floor.checkpoint.since with
    | notYet =>
      rw [here] at facts
      exact ⟨Or.inl rfl, facts.2⟩
    | checkpointed => exact absurd here owed
    | changed => exact Or.inl (Or.inl rfl)
  | ok payload =>
    have staged := between.1.concat between.due_staged
    have held : ∀ entry draft, bears (.held entry draft) = false := fun _ _ => rfl
    refine ⟨rfl, staged.concat trivial, ?_, ?_⟩
    · exact (since_concat _ _).trans (since_concat _ _)
    · exact (staged_now _ _).concat (quiet_of_idle (held _ _))

theorem Kept.of_nothing (nothing : since deeds = []) (wrote : Writes) :
    Kept lane deeds wrote := by
  intro call ran member
  rw [nothing] at member
  cases member

theorem ensures_checkpointWave [DecidableEq κ] (addr : Address) (turn : LaneTurn)
    (calls : List ToolCall) :
    Ensures (On (Between lane)) (Run.checkpointWave addr (lane.hooks turn) calls)
      (fun _ => On (Opened lane calls)) (fun _ => On (Between lane)) := by
  have touches := @touching_iff _ _ lane calls
  apply ensures_look
  intro start
  show Ensures _ (do
    if start.checkpoint.forWave (Wave.of calls lane.fittings.declaredWrites) = .stage then
      stageWave addr (lane.hooks turn)
    update fun floor => { floor with
      checkpoint := floor.checkpoint.recordWave
        (start.checkpoint.forWave (Wave.of calls lane.fittings.declaredWrites))
        (Wave.of calls lane.fittings.declaredWrites) }) _ _
  generalize Wave.of calls lane.fittings.declaredWrites = wave at touches
  by_cases decided : start.checkpoint.forWave wave = .stage
  · simp only [if_pos decided]
    have owed : start.checkpoint.since ≠ .checkpointed := by
      intro settled
      rw [forWave_of_checkpointed settled] at decided
      cases decided
    apply ensures_bind (ensures_stageWave addr turn start owed)
    rintro _ floor ⟨same, guarded, nothing, staged⟩
    cases wave with
    | mayWrite => exact ⟨guarded, Kept.of_nothing nothing _, staged⟩
    | empty =>
      rw [decided]
      exact ⟨guarded, Kept.of_nothing nothing _, staged, fun acts => by cases touches.mpr acts⟩
    | readOnly =>
      rw [decided]
      exact ⟨guarded, Kept.of_nothing nothing _, staged, fun acts => by cases touches.mpr acts⟩
  · simp only [if_neg decided]
    rintro floor ⟨rfl, between⟩
    have between : Between lane floor.deeds floor.bench.checkpointing.wrote
      floor.checkpoint.since := between
    have facts := between.2
    have skipped : floor.checkpoint.forWave wave = .skip := by
      cases found : floor.checkpoint.forWave wave with
      | skip => rfl
      | stage => exact absurd found decided
    refine ⟨between.1, ?_⟩
    show match (floor.checkpoint.recordWave (floor.checkpoint.forWave wave) wave).since with
      | .notYet => _
      | .checkpointed => _
      | .changed => _
    rw [skipped]
    cases here : floor.checkpoint.since with
    | changed =>
      rw [forWave_of_changed here] at skipped
      cases skipped
    | checkpointed =>
      rw [here] at facts
      cases wave with
      | mayWrite => exact facts
      | _ =>
        simp only [recordWave, here]
        exact ⟨facts.1, facts.2, fun acts => by cases touches.mpr acts⟩
    | notYet =>
      rw [here] at facts
      cases wave with
      | mayWrite =>
        rw [forWave_mayWrite here] at skipped
        cases skipped
      | _ =>
        simp only [recordWave, here]
        exact ⟨facts.1, facts.2, fun acts => by cases touches.mpr acts⟩

variable [DecidableEq κ]

theorem guard_wave_rules (setting : Setting) (turn : LaneTurn) (calls : List ToolCall) :
    Wave.Rules setting (lane.hooks turn).tools (stillGoing (lane.hooks turn)) calls
      (On (Working lane calls)) (fun _ => On (Between lane)) where
  ends := fun _ _ working => Working.between working
  appends := (abides_working calls).appends
  barriers := (abides_working calls).barriers
  asks := keeps_stillGoing (abides_working calls)
  admits := by
    intro call _ floor working
    have working : Working lane calls floor.deeds floor.bench.checkpointing.wrote
      floor.checkpoint.since := working
    show Working lane calls floor.deeds (lane.admitOne call floor.bench).2.checkpointing.wrote
      floor.checkpoint.since
    rcases @Lane.admit_wrote _ _ lane _ call floor.bench with same | wider
    · rw [same]
      exact working
    · rw [wider]
      exact working.widened
  accounts := by
    intro call member ticket ran floor issued working
    have working : Working lane calls floor.deeds floor.bench.checkpointing.wrote
      floor.checkpoint.since := working
    show Working lane calls (floor.deeds ++ [.accounted call ran])
      (lane.account call ticket ran floor.bench).2.checkpointing.wrote floor.checkpoint.since
    rcases @Lane.account_wrote _ _ lane call ticket ran floor.bench with ⟨outcome, rfl, same⟩ | wider
    · rw [same]
      obtain ⟨tool, named, wrote⟩ := Lane.issued_wrote issued
      apply working.accounted
      · have said : lane.said call (.ok outcome) = ticket.wrote := by
          simp only [Lane.said, named, wrote]
        rw [said]
        exact Writes.within_and_right _ _
      · exact fun tame => Or.inl (Lane.issued_nothing issued (tame call member))
    · rw [wider]
      apply working.accounted
      · cases lane.said call ran <;> cases floor.bench.checkpointing.wrote <;> trivial
      · exact fun _ => Or.inr rfl
  reads := by
    intro call _ floor reading working
    have declared : (lane.hooks turn).tools.declared call = some .read := of_decide_eq_true reading
    rw [declared]
    refine Working.noted working trivial (since_concat _ _) ?_
    rintro - other said same ⟨effect, rfl, acts⟩
    cases same
    exact acts rfl
  acts := by
    intro call member floor _ _ working
    refine Working.noted working trivial (since_concat _ _) ?_
    intro tame other said same
    cases same
    exact tame call member

theorem guard_call_rules (turn : LaneTurn) (request : List ChatMessage) :
    ModelCall.Rules (lane.hooks turn) request
      (fun floor => On (Between lane) floor ∧ floor.conversation.messages = request)
      (fun _ => On (Between lane)) where
  ends := fun _ _ start => start.1
  appends := fun addr line floor start => ⟨abides_between.appends addr line floor start.1, start.2⟩
  barriers := by
    apply Act.keeps_barrier
    · exact fun _ _ _ start => ⟨Between.idle start.1 rfl, start.2⟩
    · exact fun _ _ _ _ start => Between.idle start.1 rfl
  reads := by
    intro call floor reading start
    have declared : (lane.hooks turn).tools.declared call = some .read := of_decide_eq_true reading
    rw [declared]
    exact ⟨Between.read start.1 call, start.2⟩
  sends := fun _ _ start => ⟨Between.idle start.1 rfl, start.2⟩

theorem guard_rules (setting : Setting) (addr : Address) (turn : LaneTurn)
    (plain : ∀ returned, turn.streaming.answer = .ok returned ∨
      turn.blocking.answer = .ok returned → lane.Plain turn.catalog returned.calls) :
    Run.Rules setting (lane.hooks turn) addr
      { stages lane with asks := lane.Plain turn.catalog } where
  between := abides_between
  opened := abides_opened
  working := abides_working
  over_ := abides_between
  ends := fun _ _ between => between
  rests := fun _ between => between
  prompts := fun _ _ between => between
  calls := fun _ between => between
  call := guard_call_rules turn
  marks := fun _ between => between
  fails := fun _ _ between => between
  hears := fun _ text floor between => abides_between.tells text floor between
  waits := fun _ _ _ between => between
  replies := plain
  checkpoints := fun calls _ => ensures_checkpointWave addr turn calls
  leaves := fun _ _ opened => Opened.between opened
  notes := by
    intro calls floor asks opened
    have opened : Opened lane calls floor.deeds floor.bench.checkpointing.wrote
      floor.checkpoint.since := opened
    have facts := opened.2
    have asks : lane.Plain turn.catalog calls := asks
    have tame : ¬Touching lane calls → Tame lane (calls.map turn.catalog.resolveCall) := by
      intro still call member acts
      obtain ⟨written, inside, rfl⟩ := mem_map.mp member
      exact still (asks ⟨written, inside, acts⟩)
    have idle : Due lane floor.deeds (.wave (calls.map turn.catalog.resolveCall)) := by
      rintro ⟨call, member, acts⟩
      cases here : floor.checkpoint.since with
      | notYet =>
        rw [here] at facts
        exact absurd acts (tame facts.2.2 call member)
      | checkpointed =>
        rw [here] at facts
        exact facts.2.1
      | changed =>
        rw [here] at facts
        exact facts.2
    refine ⟨opened.1.concat idle, ?_⟩
    show match floor.checkpoint.since with
      | .notYet => _
      | .checkpointed => _
      | .changed => _
    have quiet : ∀ other declared,
        Deed.wave (calls.map turn.catalog.resolveCall) = .invoked other declared →
          ¬MayWrite declared := by
      intro other declared same
      cases same
    cases here : floor.checkpoint.since with
    | notYet =>
      rw [here] at facts
      exact ⟨facts.1, facts.2.1.concat quiet, tame facts.2.2⟩
    | checkpointed =>
      rw [here] at facts
      exact ⟨facts.1.of_since (since_concat _ _), facts.2.1.concat quiet, tame facts.2.2⟩
    | changed =>
      rw [here] at facts
      exact facts.1.of_since (since_concat _ _)
  wave := guard_wave_rules setting turn
  stops := fun _ _ working => Working.between working
  closes := fun _ _ _ _ _ _ working => Between.idle (Working.between working) rfl
  silences := fun _ _ _ _ _ working => Between.idle (Working.between working) rfl

/-- A lane's turns, each with whether the driver asks again when it failed. -/
def driven (lane : Lane σ κ) (turns : List (LaneTurn × Bool)) :
    List (Run.Driven (Placing σ κ) (Ticket κ)) :=
  turns.map fun turn => { hooks := lane.hooks turn.1, again := turn.2 }

omit [DecidableEq κ] in
theorem between_dispatch (plan : Run.RunPlan) (book : Book) (sieving : σ) :
    On (Between lane) (dispatch plan book (Lane.place sieving : Placing σ κ)) := by
  refine ⟨Guarded.concat Trace.always_nil trivial, Or.inr rfl, ?_⟩
  intro call declared member
  cases mem_singleton.mp member

/-- Where every reply that comes to write is declared to, no write of the run is outside a
checkpoint. -/
theorem drive_guarded (setting : Setting) (plan : Run.RunPlan) (book : Book) (sieving : σ)
    (turns : List (LaneTurn × Bool))
    (plain : ∀ turn ∈ turns, ∀ returned, turn.1.streaming.answer = .ok returned ∨
      turn.1.blocking.answer = .ok returned → lane.Plain turn.1.catalog returned.calls) :
    Guarded lane (Run.drive setting plan.addr (driven lane turns)
      (dispatch plan book (Lane.place sieving))).deeds := by
  have settles : ∀ floor : Floor (Placing σ κ), On (Between lane) floor →
      On (Between lane) (run Act.barrier floor).2 := by
    intro floor between
    have kept := abides_between.barriers floor between
    cases done : run Act.barrier floor with
    | mk result after =>
      rw [done] at kept
      cases result with
      | ok _ => exact kept
      | error _ => exact kept
  have lasts : On (Between lane) (Run.drive setting plan.addr (driven lane turns)
      (dispatch plan book (Lane.place sieving))) := by
    apply @Run.drive_keeps _ _ _ (stages lane)
    · intro turn member
      obtain ⟨given, inside, rfl⟩ := mem_map.mp member
      exact ⟨_, guard_rules setting plan.addr given.1 (plain given inside)⟩
    · exact between_dispatch plan book sieving
    · exact fun _ between => between
    · exact settles
    · exact fun _ floor between => settles floor between
    · intro reason floor after _ between done
      have kept := settles floor between
      rw [done] at kept
      exact kept
  exact lasts.1

end Runs

/-- A tool whose calls are let through and answer nothing. -/
def still (name : ToolName) (effect : ToolEffect) (wrote : Writes)
    (reading : effect = .read → wrote = .nothing) : BenchTool where
  registration := { name, effect, render := .generic }
  effectOf := fun _ => .ok effect
  writes := fun _ => wrote
  subject := fun _ => .ok .none
  invoke := fun _ _ => .ok { result := .null, attachments := [] }
  reading := by
    intro reads call
    have reads : effect = .read := reads
    exact ⟨congrArg Except.ok reads, reading reads⟩

def edit : ToolName := ⟨"edit".toList, by decide⟩

theorem desk_canonical : Address.refuse ['a'] = none := by decide

/-- A lane that stands for `edit` through `tool`, and lends both. -/
def standing : Lane Unit Nat where
  fittings := {
    tools := [still .tool .read .nothing (fun _ => rfl),
      still edit (.write ⟨['a'], desk_canonical⟩) .domain (fun never => by cases never)]
    gates := {
      command := fun _ => .allow
      reach := fun _ _ => .allow
      egress := fun _ _ _ => .ok (.allow false)
      undoable := fun _ _ _ => .allow
      attach := fun _ => .allow
      targetOf := fun _ => .loopback
      listed := fun _ => none }
    forecast := fun _ => none
    net := none }
  sieving := {
    package := fun _ outcome sieving => (.ok outcome, sieving)
    packageConnector := fun outcome sieving => (.ok outcome, sieving) }
  run := RunId.city
  action := fun _ => .ok []
  derive := fun _ position _ => position
  domain := [['a']]

/-- A turn nobody interrupts, whose reply makes one call. -/
def asking (call : ToolCall) : LaneTurn where
  interrupt := fun _ => .none
  catalog := { tools := [{ name := edit.text, inputSchema := .null }] }
  committed := .ok .null
  prompt := fun _ => .ok .null
  shape := fun _ => .ok .null
  verified := .ok ()
  modelCalled := .null
  streaming := {
    handed := []
    prefixHeld := none
    answer := .ok { message := .null, calls := [call], stop := some .toolUse } }
  blocking := .silent
  admitsRepair := false
  reminder := none

def plainEdit : ToolCall := { id := ['1'], name := edit, args := .obj [] }

/-- `edit`, called through `tool`. -/
def editThroughTool : ToolCall where
  id := ['1']
  name := .tool
  args := .obj [("op", .str "run".toList), ("name", .str edit.text), ("args", .obj [])]

/-- The deeds of a run on a calm ledger whose one reply makes the call. -/
def deedsOf (call : ToolCall) : List Deed :=
  (Run.drive .plain Run.RunPlan.plain.addr (driven standing [(asking call, false)])
    (dispatch .plain { records := [], fates := [] } (Lane.place ()))).deeds

/-- `edit` called by its name runs under a checkpoint. -/
theorem drive_guarded_plainEdit :
    standing.Plain (asking plainEdit).catalog [plainEdit] ∧ Guarded standing (deedsOf plainEdit) := by
  have plain : standing.Plain (asking plainEdit).catalog [plainEdit] :=
    fun _ => ⟨plainEdit, mem_singleton.mpr rfl, by decide +kernel⟩
  refine ⟨plain, ?_⟩
  apply drive_guarded
  intro turn member returned answered
  obtain rfl := mem_singleton.mp member
  rcases answered with streamed | blocked
  · cases streamed
    exact plain
  · cases blocked
    rintro ⟨call, none_, -⟩
    cases none_

/-- The deed stages a checkpoint. -/
def isStaged : Deed → Bool
  | .staged _ => true
  | _ => false

/-- The calls of the wave a deed begins. -/
def waveOf : Deed → Option (List ToolCall)
  | .wave calls => some calls
  | _ => none

theorem eq_wave_of_waveOf {deed : Deed} {calls : List ToolCall} (begins : waveOf deed = some calls) :
    deed = .wave calls := by
  cases deed with
  | wave other =>
    cases begins
    rfl
  | _ => cases begins

/-- `edit` called through `tool` is made in a wave no checkpoint was staged before. -/
theorem edit_through_tool_unguarded : ¬Guarded standing (deedsOf editThroughTool) := by
  intro guarded
  have begins : (deedsOf editThroughTool)[7]?.bind waveOf = some [plainEdit] := by decide +kernel
  have none_ : ((deedsOf editThroughTool).take 7).any isStaged = false := by decide +kernel
  generalize deedsOf editThroughTool = deeds at guarded begins none_
  obtain ⟨deed, found, begins⟩ := Option.bind_eq_some_iff.mp begins
  obtain rfl := eq_wave_of_waveOf begins
  obtain ⟨bound, found⟩ := List.getElem?_eq_some_iff.mp found
  have split : deeds = deeds.take 7 ++ .wave [plainEdit] :: deeds.drop 8 := by
    rw [← found, ← drop_eq_getElem_cons bound, take_append_drop]
  have writes : MayWrite (standing.declared plainEdit) := ⟨_, rfl, fun reads => by cases reads⟩
  obtain ⟨earlier, scope, later, same, -⟩ :=
    guarded _ _ _ split ⟨plainEdit, mem_singleton.mpr rfl, writes⟩
  rw [same] at none_
  simp [isStaged] at none_

end Checkpointing

end Sprawling
