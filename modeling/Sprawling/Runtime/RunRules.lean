import Sprawling.Runtime.Run
import Sprawling.Runtime.WaveRules

/-! What the phases of a turn keep, from what their steps keep. -/

namespace Sprawling

open Effect Act

namespace ConcurrentInvoke

variable {β τ : Type} {tools : ConcurrentInvoke β τ}

theorem readsOnly_of_startReads {bench : β} {asked : Nat} {handed : List ToolCall}
    {started : ToolCall × ToolReply} (member : started ∈ tools.startReads bench asked handed) :
    tools.readsOnly started.1 = true := by
  induction handed generalizing asked with
  | nil => cases member
  | cons call handed ih =>
    simp only [startReads] at member
    by_cases reading : tools.readsOnly (tools.resolveCall bench call) = true
    · rw [if_pos reading] at member
      cases lent : tools.ahead bench (tools.resolveCall bench call) with
      | none =>
        rw [lent] at member
        cases member
      | some tool =>
        rw [lent] at member
        cases member with
        | head => exact reading
        | tail _ member => exact ih member
    · rw [if_neg reading] at member
      cases member

end ConcurrentInvoke

namespace ModelCall

variable {β τ : Type} (hooks : RunHooks β τ) (request : List ChatMessage)

/-- What each step of a model call keeps. -/
structure Rules (holds : Floor β → Prop) (ended : AxError → Floor β → Prop) : Prop where
  ends : ∀ reason floor, holds floor → ended reason floor
  appends : ∀ addr line floor, holds floor → holds (floor.appended addr line)
  barriers : Keeps holds ended Act.barrier
  reads : ∀ call floor, hooks.tools.readsOnly call = true → holds floor →
    holds (floor.noted (.invoked call (hooks.tools.declared call)))
  sends : ∀ floor, Act.Announced floor (.modelCalled hooks.modelCalled) → holds floor →
    holds (floor.noted (.sent request))

variable {hooks request} {holds : Floor β → Prop} {ended : AxError → Floor β → Prop}

section Steps

variable (rules : Rules hooks request holds ended)
include rules

theorem ensures_record :
    Ensures holds (record hooks)
      (fun _ floor => holds floor ∧ Act.Announced floor (.modelCalled hooks.modelCalled)) ended := by
  apply ensures_bind (ensures_append rules.appends none _)
  intro _
  exact ensures_barrier rules.barriers _

theorem ensures_sent :
    Ensures (fun floor => holds floor ∧ Act.Announced floor (.modelCalled hooks.modelCalled))
      (Act.note (.sent request)) (fun _ => holds) ended :=
  fun floor start => rules.sends floor start.2 start.1

theorem keeps_noteHold (setting : Setting) (attempt : Attempt) :
    Keeps holds ended (noteHold setting attempt) := by
  cases held : attempt.prefixHeld with
  | none =>
    simp only [noteHold, held]
    exact keeps_pure ()
  | some payload =>
    simp only [noteHold, held]
    apply keeps_bind (keeps_append rules.appends none _)
    intro _
    exact keeps_pure ()

theorem keeps_noteReads (started : List (ToolCall × ToolReply))
    (reading : ∀ read ∈ started, hooks.tools.readsOnly read.1 = true) :
    Keeps holds ended (noteReads hooks.tools started) := by
  induction started with
  | nil => exact keeps_pure ()
  | cons read started ih =>
    apply keeps_bind
    · exact fun floor start => rules.reads read.1 floor (reading read List.mem_cons_self) start
    · intro _
      exact ih fun other member => reading other (List.mem_cons_of_mem _ member)

theorem keeps_resendBlocking (setting : Setting) :
    Keeps holds ended (resendBlocking setting hooks request) := by
  apply ensures_bind (ensures_record rules)
  intro _
  apply ensures_bind (ensures_sent rules)
  intro _
  apply keeps_bind (keeps_noteHold rules setting hooks.blocking)
  intro _
  exact keeps_lift _ rules.ends

theorem keeps_ask (setting : Setting) : Keeps holds ended (ask setting hooks request) := by
  apply ensures_bind (ensures_record rules)
  intro _
  apply ensures_bind (ensures_sent rules)
  intro _
  apply keeps_look
  intro floor
  apply keeps_bind (keeps_noteReads rules _ fun read member =>
    ConcurrentInvoke.readsOnly_of_startReads member)
  intro _
  apply keeps_bind (keeps_noteHold rules setting hooks.streaming)
  intro _
  cases hooks.streaming.answer with
  | ok returned => exact keeps_pure _
  | error failure =>
    by_cases repairs : failure.code = .wireMismatch ∧ hooks.admitsRepair = true
    · simp only [if_pos repairs]
      apply keeps_bind (keeps_resendBlocking rules setting)
      intro returned
      exact keeps_pure _
    · simp only [if_neg repairs]
      exact keeps_refuse failure (rules.ends failure)

theorem keeps_call (setting : Setting) (interrupt : Interrupt) :
    Keeps holds ended (call setting hooks request interrupt) := by
  apply keeps_bind (Act.keeps_consumeBoundary rules.appends rules.barriers interrupt)
  intro halted
  cases halted with
  | true => exact keeps_pure _
  | false =>
    apply keeps_bind (keeps_lift _ rules.ends)
    intro _
    apply keeps_bind (keeps_ask rules setting)
    intro answered
    apply keeps_bind (keeps_lift _ rules.ends)
    intro assistant
    apply keeps_bind (keeps_append rules.appends none _)
    intro modelReturned
    exact keeps_pure _

end Steps

theorem yields_call (setting : Setting) (hooks : RunHooks β τ) (request : List ChatMessage)
    (interrupt : Interrupt) :
    Yields (fun answered => ∀ wave ∈ answered, ∃ returned,
        (hooks.streaming.answer = .ok returned ∨ hooks.blocking.answer = .ok returned) ∧
          wave.calls = returned.calls)
      (call setting hooks request interrupt) := by
  have asked : Yields (fun answer : ModelReturn × List (ToolCall × ToolReply) =>
      hooks.streaming.answer = .ok answer.1 ∨ hooks.blocking.answer = .ok answer.1)
      (ask setting hooks request) := by
    unfold ask
    apply yields_then
    intro _
    apply yields_then
    intro _
    apply yields_then
    intro floor
    apply yields_then
    intro _
    apply yields_then
    intro _
    cases answer : hooks.streaming.answer with
    | ok returned => exact yields_pure (Or.inl rfl)
    | error failure =>
      by_cases repairs : failure.code = .wireMismatch ∧ hooks.admitsRepair = true
      · simp only [if_pos repairs]
        have resent : Yields (fun returned => hooks.blocking.answer = .ok returned)
            (resendBlocking setting hooks request) := by
          unfold resendBlocking
          apply yields_then
          intro _
          apply yields_then
          intro _
          apply yields_then
          intro _
          exact yields_lift fun _ same => same
        refine yields_bind resent ?_
        intro returned same
        exact yields_pure (Or.inr same)
      · simp only [if_neg repairs]
        intro state value after done
        cases done
  unfold call
  apply yields_then
  intro halted
  cases halted with
  | true =>
    exact yields_none
  | false =>
    apply yields_then
    intro _
    refine yields_bind asked ?_
    intro answered source
    apply yields_then
    intro assistant
    apply yields_then
    intro modelReturned
    apply yields_pure
    intro wave found
    cases found
    exact ⟨answered.1, source, rfl⟩

end ModelCall

namespace Run

variable {β τ : Type} (setting : Setting) (hooks : RunHooks β τ)

/-- What holds of the calls of a reply, and at each stage of a turn: between turns and while a request is assembled, during the
model call, once the checkpoint before a wave of these calls is passed, while a wave of these
resolved calls runs, once a turn concluded the run, where a model call failed, and where a turn failed. -/
structure Stages (β : Type) where
  asks : List ToolCall → Prop
  between : Floor β → Prop
  calling : Floor β → Prop
  opened : List ToolCall → Floor β → Prop
  working : List ToolCall → Floor β → Prop
  over_ : Floor β → Prop
  failed : AxError → Floor β → Prop
  ended : AxError → Floor β → Prop

/-- One condition at every stage, and one where a turn failed. -/
def Stages.steady (holds : Floor β → Prop) (ended : AxError → Floor β → Prop) : Stages β where
  asks := fun _ => True
  between := holds
  calling := holds
  opened := fun _ => holds
  working := fun _ => holds
  over_ := holds
  failed := ended
  ended := ended

/-- The floor once a turn's exchange reached the conversation. -/
def closedBy (calls : Nat) (exchange : Exchange) (floor : Floor β) : Floor β :=
  { floor.noted (.closed calls exchange.assistant exchange.results) with
    conversation :=
      (floor.conversation.pushAssistant exchange.assistant).pushToolResults exchange.results }

/-- The floor once the request is on the wire. -/
def marked (floor : Floor β) : Floor β :=
  { floor with conversation := floor.conversation.markSent }

/-- What the steps of a turn keep, stage by stage. -/
structure Rules (addr : Address) (stages : Stages β) : Prop where
  between : Act.Abides stages.between stages.ended
  opened : ∀ calls, Act.Abides (stages.opened calls) stages.ended
  working : ∀ calls, Act.Abides (stages.working calls) stages.ended
  over_ : Act.Abides stages.over_ stages.ended
  ends : ∀ reason floor, stages.between floor → stages.ended reason floor
  rests : ∀ floor, stages.between floor → stages.over_ floor
  prompts : ∀ payload floor, stages.between floor → stages.between { floor with prompt := payload }
  calls : ∀ floor, stages.between floor → stages.calling floor
  call : ∀ request, ModelCall.Rules hooks request
    (fun floor => stages.calling floor ∧ floor.conversation.messages = request) stages.failed
  marks : ∀ floor, stages.calling floor → stages.between (marked floor)
  fails : ∀ reason floor, stages.failed reason floor → stages.ended reason (marked floor)
  hears : ∀ reason text floor, stages.ended reason floor → stages.ended reason (floor.told text)
  waits : ∀ reason policy floor, stages.ended reason floor →
    stages.ended reason { floor with arrived := policy }
  replies : ∀ returned, hooks.streaming.answer = .ok returned ∨
    hooks.blocking.answer = .ok returned → stages.asks returned.calls
  checkpoints : ∀ calls, stages.asks calls → Ensures stages.between (checkpointWave addr hooks calls)
    (fun _ => stages.opened calls) stages.ended
  leaves : ∀ calls floor, stages.opened calls floor → stages.over_ floor
  notes : ∀ calls floor, stages.asks calls → stages.opened calls floor →
    stages.working (calls.map (hooks.tools.resolveCall floor.bench))
      (floor.noted (.wave (calls.map (hooks.tools.resolveCall floor.bench))))
  wave : ∀ calls, Wave.Rules setting hooks.tools (stillGoing hooks) calls (stages.working calls)
    stages.ended
  stops : ∀ calls floor, stages.working calls floor → stages.over_ floor
  closes : ∀ calls (count : Nat) (exchange : Exchange) floor, exchange.Answers →
    count ≠ 0 ∨ exchange.assistant ≠ [] → stages.working calls floor →
    stages.between (closedBy count exchange floor)
  silences : ∀ calls (exchange : Exchange) floor, exchange.Answers → exchange.assistant = [] →
    stages.working calls floor → stages.over_ (closedBy 0 exchange floor)

variable {setting hooks} {holds : Floor β → Prop} {ended : AxError → Floor β → Prop}

theorem keeps_describe (ends : ∀ reason floor, holds floor → ended reason floor)
    (appends : ∀ addr line floor, holds floor → holds (floor.appended addr line))
    (prompts : ∀ payload floor, holds floor → holds { floor with prompt := payload })
    (addr : Address) (request : List ChatMessage) :
    Keeps holds ended (describe addr hooks request) := by
  apply keeps_bind (keeps_lift _ ends)
  intro payload
  apply keeps_bind
  · apply keeps_look
    intro floor
    by_cases known : floor.prompt ≠ some payload
    · simp only [if_pos known]
      apply keeps_bind (keeps_append appends _ _)
      intro _
      exact keeps_update (prompts (some payload))
    · simp only [if_neg known]
      exact keeps_pure ()
  · intro _
    apply keeps_bind (keeps_lift _ ends)
    intro shape
    apply keeps_bind (keeps_append appends _ _)
    intro _
    exact keeps_pure ()

theorem keeps_stillGoing (abides : Act.Abides holds ended) (asked : Nat) :
    Keeps holds ended (stillGoing hooks asked) := by
  apply keeps_bind (abides.arrival _)
  intro _
  exact keeps_pure _

/-- The checkpoint before a wave, for what does not look at the bench or the checkpoints owed. -/
theorem keeps_checkpointWave (ends : ∀ reason floor, holds floor → ended reason floor)
    (appends : ∀ addr line floor, holds floor → holds (floor.appended addr line))
    (benches : ∀ bench floor, holds floor → holds { floor with bench })
    (policies : ∀ policy floor, holds floor → holds { floor with checkpoint := policy })
    (commits : ∀ scope floor, holds floor → holds (floor.noted (.staged scope)))
    (addr : Address) (calls : List ToolCall) :
    Keeps holds ended (checkpointWave addr hooks calls) := by
  have staging : Keeps holds ended (stageWave addr hooks) := by
    cases staging : hooks.checkpoint with
    | none =>
      simp only [stageWave, staging]
      exact keeps_pure ()
    | some stage =>
      simp only [stageWave, staging]
      apply keeps_look
      intro floor
      apply keeps_bind (keeps_update fun floor start => benches _ floor start)
      intro _
      apply keeps_bind (keeps_lift _ ends)
      intro payload
      apply keeps_bind (fun floor start => commits _ floor start)
      intro _
      apply keeps_bind (keeps_append appends _ _)
      intro _
      exact keeps_pure ()
  have records : ∀ decided touches, Keeps holds ended (update fun floor : Floor β =>
      { floor with checkpoint := floor.checkpoint.recordWave decided touches }) :=
    fun _ _ => keeps_update fun floor start => policies _ floor start
  apply keeps_look
  intro floor
  by_cases stages : floor.checkpoint.forWave (.of calls hooks.writes) = .stage
  · simp only [if_pos stages]
    apply keeps_bind staging
    intro _
    exact records _ _
  · simp only [if_neg stages]
    exact records _ _

section Steps

variable {addr : Address} {stages : Stages β} (rules : Rules setting hooks addr stages)
include rules

theorem keeps_assemble (opening : Interrupt) :
    Keeps stages.between stages.ended (assemble addr hooks opening) := by
  apply keeps_bind (rules.between.boundary opening)
  intro halted
  cases halted with
  | true => exact keeps_pure _
  | false =>
    apply keeps_look
    intro floor
    apply keeps_bind (keeps_describe rules.ends rules.between.appends rules.prompts addr _)
    intro _
    exact keeps_pure _

variable {exchange : Exchange}

theorem ensures_close (calls : List ToolCall) (count : Nat)
    (taken : Option RunPolicy) (answers : exchange.Answers) :
    Ensures (stages.working calls) (close hooks count exchange taken)
      (fun _ floor =>
        if count = 0 ∧ exchange.assistant = [] then stages.over_ floor else stages.between floor)
      stages.ended := by
  have tells : ∀ {holds : Floor β → Prop} (_ : Act.Abides holds stages.ended),
      Keeps holds stages.ended (do
        tellAny (taken.map fun policy => Speaker.city.render policy.note)
        tellAny hooks.reminder) := by
    intro holds abides
    have any : ∀ text, Keeps holds stages.ended (tellAny text) := by
      intro text
      cases text with
      | none => exact keeps_pure ()
      | some text => exact fun floor start => abides.tells text floor start
    apply keeps_bind (any _)
    intro _
    exact any _
  by_cases silent : count = 0 ∧ exchange.assistant = []
  · simp only [if_pos silent]
    have folded : Ensures (stages.working calls) (fold count exchange) (fun _ => stages.over_)
        stages.ended := by
      intro floor start
      have closed := rules.silences calls exchange floor answers silent.2 start
      rw [← silent.1] at closed
      exact closed
    apply ensures_bind folded
    intro _
    exact tells rules.over_
  · simp only [if_neg silent]
    have folded : Ensures (stages.working calls) (fold count exchange) (fun _ => stages.between)
        stages.ended := by
      intro floor start
      apply rules.closes calls count exchange floor answers _ start
      by_cases none_ : count = 0
      · exact Or.inr fun empty => silent ⟨none_, empty⟩
      · exact Or.inl none_
    apply ensures_bind folded
    intro _
    exact tells rules.between

theorem ensures_concluded (wave : ToolWave) :
    Ensures (fun floor =>
        if exchange.assistant = [] then stages.over_ floor else stages.between floor)
      (concluded exchange wave : Act β Completion) (fun _ => stages.over_) stages.ended := by
  by_cases empty : exchange.assistant = []
  · simp only [concluded, empty, List.isEmpty_nil, true_or, if_true]
    exact keeps_pure _
  · simp only [if_neg empty]
    by_cases limited : exchange.assistant.isEmpty = true ∨ wave.stop = some .maxTokens
    · simp only [concluded, if_pos limited]
      exact fun floor start => rules.rests floor start
    · simp only [concluded, if_neg limited]
      apply ensures_look
      intro floor
      apply ensures_bind
      · exact ensures_lift (fun _ _ _ start => start.2) (fun _ _ _ start => rules.ends _ _ start.2)
      · intro evidence here start
        exact rules.rests here start

theorem keeps_takeAtWave (calls : List ToolCall) :
    Keeps (stages.opened calls) stages.ended (takeAtWave : Act β (Option RunPolicy)) := by
  apply keeps_look
  intro floor
  apply keeps_bind (keeps_update fun floor start => (rules.opened calls).waits none floor start)
  intro _
  exact keeps_pure _

variable {wave : ToolWave}

theorem ensures_wave (interrupt : Interrupt) (asks : stages.asks wave.calls) :
    Ensures (stages.opened wave.calls)
      (Wave.executeConcurrent setting hooks.tools (stillGoing hooks) interrupt wave.calls
        wave.speculated wave.assistant)
      (fun executed floor =>
        ((∃ calls, stages.working calls floor) ∨
          (executed = none ∧ stages.opened wave.calls floor)) ∧
          ∀ exchange ∈ executed, exchange.Answers) stages.ended := by
  apply ensures_yields _ (Wave.yields_executeConcurrent _ _ _ _ _ _ _)
  exact Wave.ensures_executeConcurrent rules.wave ((rules.opened wave.calls).boundary interrupt)
    (fun floor start => rules.notes wave.calls floor asks start) wave.speculated wave.assistant

theorem ensures_answer (asks : stages.asks wave.calls) :
    Ensures stages.between (answer setting addr hooks wave)
      (fun advanced floor => match advanced with
        | .turned => stages.between floor
        | .concluded _ => stages.over_ floor) stages.ended := by
  apply ensures_bind (rules.checkpoints wave.calls asks)
  intro _
  apply ensures_bind ((rules.opened wave.calls).arrival _)
  intro _
  apply ensures_bind (keeps_takeAtWave rules wave.calls)
  intro taken
  apply ensures_bind (ensures_wave rules _ asks)
  intro executed
  apply ensures_of_fact
  intro answers
  cases executed with
  | none =>
    rintro floor (⟨calls, start⟩ | ⟨-, start⟩)
    · exact rules.stops calls floor start
    · exact rules.leaves wave.calls floor start
  | some exchange =>
    rintro floor (⟨calls, start⟩ | ⟨absent, -⟩)
    swap
    · cases absent
    revert floor
    apply ensures_bind ((rules.working calls).arrival _)
    intro _
    apply ensures_bind ((rules.working calls).boundary _)
    intro halted
    cases halted with
    | true => exact fun floor start => rules.stops calls floor start
    | false =>
      have compacts : Ensures (stages.working calls)
          (lift (exchange.compact setting) : Act β Exchange)
          (fun compacted floor => stages.working calls floor ∧ compacted.Answers)
          stages.ended := by
        apply ensures_lift
        · intro compacted floor done start
          exact ⟨start, Exchange.answers_compact (answers exchange rfl) done⟩
        · exact fun reason floor _ start => (rules.wave calls).ends reason floor start
      apply ensures_bind compacts
      intro compacted
      apply ensures_of_fact
      intro answers
      apply ensures_bind (ensures_close rules calls wave.calls.length taken answers)
      intro _
      by_cases silent : wave.calls.length = 0
      · simp only [silent, true_and]
        have settles : Keeps (fun floor =>
            if compacted.assistant = [] then stages.over_ floor else stages.between floor)
            stages.ended Act.barrier := by
          by_cases empty : compacted.assistant = []
          · simp only [if_pos empty]
            exact rules.over_.barriers
          · simp only [if_neg empty]
            exact rules.between.barriers
        apply ensures_bind settles
        intro _
        apply ensures_bind (ensures_concluded rules wave)
        intro completion
        exact fun floor start => start
      · simp only [silent, false_and, if_false]
        exact fun floor start => start

end Steps

theorem keeps_conversation_boundary (conversation : Conversation) (interrupt : Interrupt) :
    Keeps (fun floor : Floor β => floor.conversation = conversation)
      (fun _ floor => floor.conversation = conversation) (consumeBoundary interrupt) := by
  apply Act.keeps_consumeBoundary
  · exact fun _ _ _ same => same
  · apply Act.keeps_barrier
    · exact fun _ _ _ same => same
    · exact fun _ _ _ _ same => same

theorem ensures_assemble (hooks : RunHooks β τ) (addr : Address) (opening : Interrupt)
    (conversation : Conversation) :
    Ensures (fun floor : Floor β => floor.conversation = conversation) (assemble addr hooks opening)
      (fun assembled floor => floor.conversation = conversation ∧
        ∀ request ∈ assembled, request = conversation.messages)
      (fun _ floor => floor.conversation = conversation) := by
  apply ensures_bind (keeps_conversation_boundary conversation opening)
  intro halted
  cases halted with
  | true => exact fun floor same => ⟨same, fun request none_ => by cases none_⟩
  | false =>
    apply ensures_look
    rintro floor here ⟨rfl, same⟩
    have described : Keeps (fun floor : Floor β => floor.conversation = conversation)
        (fun _ floor => floor.conversation = conversation)
        (describe addr hooks here.conversation.messages) :=
      keeps_describe (fun _ _ same => same) (fun _ _ _ same => same) (fun _ _ same => same) _ _
    apply ensures_bind described _ here same
    intro _ later same_
    refine ⟨same_, ?_⟩
    intro request found
    cases found
    rw [same]

section Advance

variable {addr : Address} {stages : Stages β} (rules : Rules setting hooks addr stages)
include rules

theorem ensures_assembled (opening : Interrupt) :
    Ensures stages.between (assemble addr hooks opening)
      (fun assembled floor => stages.between floor ∧
        ∀ request ∈ assembled, floor.conversation.messages = request) stages.ended := by
  intro floor start
  have both := ensures_and (keeps_assemble rules opening)
    (ensures_assemble hooks addr opening floor.conversation)
  apply ensures_weaken both _ _ floor ⟨start, rfl⟩
  · rintro assembled here ⟨kept, same, messages⟩
    refine ⟨kept, ?_⟩
    intro request found
    rw [same, messages request found]
  · exact fun _ _ refused => refused.1

theorem ensures_advance :
    Ensures stages.between (advance setting addr hooks)
      (fun advanced floor => match advanced with
        | .turned => stages.between floor
        | .concluded _ => stages.over_ floor) stages.ended := by
  apply ensures_bind (rules.between.arrival _)
  intro _
  apply ensures_bind (ensures_assembled rules _)
  intro assembled
  cases assembled with
  | none => exact fun floor start => rules.rests floor start.1
  | some request =>
    have called := ensures_yields (ModelCall.keeps_call (rules.call request) setting
      (hooks.interrupt .beforeCall)) (ModelCall.yields_call setting hooks request _)
    have calls := @ensures_attempt _ _ _ _ _ _ _ stages.ended called
    apply ensures_bind
    · apply ensures_consequence calls
      · exact fun floor start => ⟨rules.calls floor start.1, start.2 request rfl⟩
      · exact fun _ _ kept => kept
      · exact fun _ _ refused => refused
    intro called
    cases called with
    | error reason =>
      show Ensures (stages.failed reason) _ _ _
      have marks : Ensures (stages.failed reason) (update fun floor : Floor β =>
          { floor with conversation := floor.conversation.markSent })
          (fun _ => stages.ended reason) stages.ended := ensures_update (rules.fails reason)
      apply ensures_bind marks
      intro _
      have hears : Keeps (stages.ended reason) stages.ended
          (foldArrival (hooks.interrupt .beforeCall) : Act β Unit) :=
        Act.keeps_foldArrival (rules.hears reason) (rules.waits reason) _
      apply ensures_bind hears
      intro _
      exact fun floor failed => failed
    | ok wave =>
      apply ensures_of_fact
      intro source
      have marks : Ensures
          (fun floor => stages.calling floor ∧ floor.conversation.messages = request)
          (update fun floor : Floor β =>
            { floor with conversation := floor.conversation.markSent })
          (fun _ => stages.between) stages.ended :=
        ensures_update fun floor start => rules.marks floor start.1
      apply ensures_bind marks
      intro _
      apply ensures_bind (rules.between.arrival _)
      intro _
      cases wave with
      | none => exact fun floor start => rules.rests floor start
      | some wave =>
        obtain ⟨returned, answered, same⟩ := source wave rfl
        have asks := rules.replies returned answered
        rw [← same] at asks
        exact ensures_answer rules asks

end Advance

/-- A whole run keeps what its turns keep: `lasts` holds of where it stands at its end. -/
theorem drive_keeps {stages : Stages β} {lasts : Floor β → Prop} {turns : List (Driven β τ)}
    {floor : Floor β} {addr : Address}
    (rules : ∀ turn ∈ turns, ∃ asks, Rules setting turn.hooks addr { stages with asks })
    (start : stages.between floor) (stands : ∀ floor, stages.between floor → lasts floor)
    (settles : ∀ floor, stages.over_ floor → lasts (run Act.barrier floor).2)
    (stops : ∀ reason floor, stages.ended reason floor → lasts (run Act.barrier floor).2)
    (resumes : ∀ (reason : AxError) floor after, reason.code.carried = true →
      stages.ended reason floor → run Act.barrier floor = (.ok (), after) → stages.between after) :
    lasts (drive setting addr turns floor) := by
  induction turns generalizing floor with
  | nil => exact stands floor start
  | cons turn turns ih =>
    have rest := fun after kept => @ih after
      (fun other member => rules other (List.mem_cons_of_mem _ member)) kept
    obtain ⟨asks, here⟩ := rules turn List.mem_cons_self
    have kept := ensures_advance here floor start
    rw [drive]
    cases done : run (advance setting addr turn.hooks) floor with
    | mk result after =>
      rw [done] at kept
      cases result with
      | ok advanced =>
        cases advanced with
        | turned => exact rest after kept
        | concluded completion => exact settles after kept
      | error reason =>
        have settled := stops reason after kept
        cases flushed : run Act.barrier after with
        | mk outcome last =>
          rw [flushed] at settled
          cases outcome with
          | error _ =>
            simp only [flushed]
            exact settled
          | ok _ =>
            by_cases again : reason.code.carried = true ∧ turn.again = true
            · simp only [flushed, if_pos again]
              exact rest last (resumes reason after last again.1 kept flushed)
            · simp only [flushed, if_neg again]
              exact settled

end Run

end Sprawling
