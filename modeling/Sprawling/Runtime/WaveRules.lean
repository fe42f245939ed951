import Sprawling.Runtime.Wave

/-! What a whole wave keeps, from what each of its steps keeps. -/

namespace Sprawling

open Effect List

namespace Act

variable {β : Type} {holds : Floor β → Prop} {ended : AxError → Floor β → Prop}

/-- The line is the last one held. -/
def Pending (floor : Floor β) (line : Line) : Prop :=
  ∃ before entry drafts draft, floor.deeds = before ++ [.held entry draft] ∧
    floor.lines.held = drafts ++ [draft] ∧ draft.line = line

/-- Nothing is held, and the line was the last one the ledger took. -/
def Announced (floor : Floor β) (line : Line) : Prop :=
  floor.lines.held = [] ∧ ∃ before entry drafts draft,
    floor.deeds = before ++ [.held entry draft, .carried (drafts ++ [draft])] ∧ draft.line = line

theorem keeps_append (appends : ∀ addr line floor, holds floor → holds (floor.appended addr line))
    (addr : Option Address) (line : Line) : Keeps holds ended (append addr line) :=
  fun floor start => appends addr line floor start

/-- A barrier keeps what both of the ledger's answers keep. -/
theorem keeps_barrier
    (takes : ∀ floor : Floor β, floor.lines.held ≠ [] → floor.book.fate.refusal = none →
      holds floor → holds floor.flushed)
    (drops : ∀ (floor : Floor β) refusal, floor.lines.held ≠ [] →
      floor.book.fate.refusal = some refusal → holds floor → ended refusal.reason floor.dropped) :
    Keeps holds ended barrier := by
  intro floor start
  by_cases nothing : floor.lines.held = []
  · rw [run_barrier_nothing nothing]
    exact start
  · cases fate : floor.book.fate.refusal with
    | none =>
      rw [run_barrier_carried nothing fate]
      exact takes floor nothing fate start
    | some refusal =>
      rw [run_barrier_refused nothing fate]
      exact drops floor refusal nothing fate start

/-- What one more line and a barrier keep, a safe point keeps. -/
theorem keeps_consumeBoundary
    (appends : ∀ addr line floor, holds floor → holds (floor.appended addr line))
    (barriers : Keeps holds ended barrier) (interrupt : Interrupt) :
    Keeps holds ended (consumeBoundary interrupt) := by
  cases interrupt with
  | none => exact keeps_pure false
  | policy policy => exact keeps_pure false
  | cancel =>
    apply keeps_bind (keeps_append appends none .cancelReceived)
    intro _
    apply keeps_bind barriers
    intro _
    exact keeps_pure true
  | steer speaker text =>
    apply keeps_bind (keeps_append appends none (.steerReceived speaker.recorded text))
    intro _
    exact keeps_pure false

theorem ensures_append (appends : ∀ addr line floor, holds floor → holds (floor.appended addr line))
    (addr : Option Address) (line : Line) :
    Ensures holds (append addr line) (fun _ floor => holds floor ∧ Pending floor line) ended := by
  intro floor start
  refine ⟨appends addr line floor start, ?_⟩
  exact ⟨floor.deeds, floor.lines.entry, floor.lines.held, _, rfl, rfl, rfl⟩

/-- A pending line is announced once a barrier answered. -/
theorem ensures_barrier (barriers : Keeps holds ended barrier) (line : Line) :
    Ensures (fun floor => holds floor ∧ Pending floor line) barrier
      (fun _ floor => holds floor ∧ Announced floor line) ended := by
  rintro floor ⟨start, before, entry, drafts, draft, noted, held, said⟩
  have kept := barriers floor start
  have something : floor.lines.held ≠ [] := by
    rw [held]
    exact concat_ne_nil draft drafts
  cases fate : floor.book.fate.refusal with
  | some refusal =>
    rw [run_barrier_refused something fate] at kept ⊢
    exact kept
  | none =>
    rw [run_barrier_carried something fate] at kept ⊢
    refine ⟨kept, flushed_held something fate, before, entry, drafts, draft, ?_, said⟩
    simp only [Floor.flushed, Floor.noted, noted, held, append_assoc, cons_append, nil_append]

theorem keeps_foldArrival (tells : ∀ text floor, holds floor → holds (floor.told text))
    (waits : ∀ policy floor, holds floor → holds { floor with arrived := policy })
    (interrupt : Interrupt) : Keeps holds ended (foldArrival interrupt) := by
  cases interrupt with
  | none => exact keeps_pure ()
  | cancel => exact keeps_pure ()
  | policy policy => exact keeps_update (waits (some policy))
  | steer speaker text => exact fun floor start => tells (speaker.render text) floor start

/-- What a line, a barrier, a user text and a waiting policy keep. -/
structure Abides (holds : Floor β → Prop) (ended : AxError → Floor β → Prop) : Prop where
  appends : ∀ addr line floor, holds floor → holds (floor.appended addr line)
  barriers : Keeps holds ended barrier
  tells : ∀ text floor, holds floor → holds (floor.told text)
  waits : ∀ policy floor, holds floor → holds { floor with arrived := policy }

theorem Abides.boundary (abides : Abides holds ended) (interrupt : Interrupt) :
    Keeps holds ended (consumeBoundary interrupt) :=
  keeps_consumeBoundary abides.appends abides.barriers interrupt

theorem Abides.arrival (abides : Abides holds ended) (interrupt : Interrupt) :
    Keeps holds ended (foldArrival interrupt) :=
  keeps_foldArrival abides.tells abides.waits interrupt

end Act

namespace Wave

variable {β τ : Type} (setting : Setting) (tools : ConcurrentInvoke β τ)
  (stillGoing : Nat → Act β Interrupt)

/-- What each step of a wave of these calls keeps. -/
structure Rules (calls : List ToolCall) (holds : Floor β → Prop) (ended : AxError → Floor β → Prop) : Prop where
  ends : ∀ reason floor, holds floor → ended reason floor
  appends : ∀ addr line floor, holds floor → holds (floor.appended addr line)
  barriers : Keeps holds ended Act.barrier
  asks : ∀ asked, Keeps holds ended (stillGoing asked)
  admits : ∀ call ∈ calls, ∀ floor, holds floor →
    holds { floor with bench := (tools.admitOne call floor.bench).2 }
  accounts : ∀ call ∈ calls, ∀ ticket ran floor, tools.Issued call ticket → holds floor →
    holds ({ floor with bench := (tools.account call ticket ran floor.bench).2 }.noted
      (.accounted call ran))
  reads : ∀ call ∈ calls, ∀ floor, tools.readsOnly call = true → holds floor →
    holds (floor.noted (.invoked call (tools.declared call)))
  acts : ∀ call ∈ calls, ∀ floor, tools.readsOnly call = false →
    Act.Announced floor (setting.scan (intent tools call)) → holds floor →
    holds (floor.noted (.invoked call (tools.declared call)))

variable {setting tools stillGoing} {holds : Floor β → Prop} {ended : AxError → Floor β → Prop}

variable {early : List (Option ToolReply)}

variable {admitted : List (Admitted τ)} {calls : List ToolCall}

theorem mem_zip_of_zip {going : List Interrupt} {call : ToolCall}
    {standing : Interrupt} {admission : Admitted τ} {cached : Option ToolReply}
    (member : (call, standing, admission, cached) ∈ calls.zip (going.zip (admitted.zip early))) :
    (call, admission) ∈ calls.zip admitted := by
  induction calls generalizing going admitted early with
  | nil => cases member
  | cons first calls ih =>
    cases going with
    | nil => cases member
    | cons asked going =>
      cases admitted with
      | nil => cases member
      | cons decided admitted =>
        cases early with
        | nil => cases member
        | cons held early =>
          cases member with
          | head => exact mem_cons_self
          | tail _ member => exact mem_cons_of_mem _ (ih member)

theorem mem_of_mem_running {bench : β} {asked : Nat}
    {job : Nat × ToolCall × Except AxError Tool}
    (member : job ∈ running tools bench asked calls admitted early) : job.2.1 ∈ calls := by
  induction calls generalizing asked admitted early with
  | nil => cases admitted <;> cases member
  | cons call calls ih =>
    cases admitted with
    | nil => cases member
    | cons admission admitted =>
      cases early with
      | nil => cases admission <;> cases member
      | cons cached early =>
        cases admission with
        | answered reply => exact mem_cons_of_mem _ (ih member)
        | cleared ticket =>
          cases cached with
          | some ran => exact mem_cons_of_mem _ (ih member)
          | none =>
            cases member with
            | head => exact mem_cons_self
            | tail _ member => exact mem_cons_of_mem _ (ih member)

theorem yields_admitOne (call : ToolCall) :
    Yields (fun admission => ∀ ticket, admission = .cleared ticket → tools.Issued call ticket)
      (admitOne tools call) := by
  intro floor admission after done ticket cleared
  refine ⟨floor.bench, ?_⟩
  rw [← cleared]
  cases done
  rfl

theorem yields_admitAll (calls : List ToolCall) :
    Yields (fun admitted => ∀ call admission, (call, admission) ∈ calls.zip admitted →
        ∀ ticket, admission = .cleared ticket → tools.Issued call ticket)
      (admitAll tools calls) := by
  induction calls with
  | nil =>
    apply yields_pure
    intro call admission member
    cases member
  | cons first calls ih =>
    refine yields_bind (yields_admitOne first) ?_
    intro decided issued
    refine yields_bind ih ?_
    intro rest others
    apply yields_pure
    intro call admission member
    cases member with
    | head => exact issued
    | tail _ member => exact others call admission member

section Steps

variable {calls : List ToolCall} (rules : Rules setting tools stillGoing calls holds ended)
include rules

variable {call : ToolCall}

theorem keeps_admitOne (member : call ∈ calls) : Keeps holds ended (admitOne tools call) :=
  fun floor start => rules.admits call member floor start

theorem keeps_account {ticket : τ} (member : call ∈ calls) (issued : tools.Issued call ticket)
    (ran : ToolReply) : Keeps holds ended (account tools call ticket ran) :=
  fun floor start => rules.accounts call member ticket ran floor issued start

theorem keeps_intend (call : ToolCall) : Keeps holds ended (intend setting tools call) := by
  apply keeps_bind (Act.keeps_append rules.appends none _)
  intro _
  exact keeps_pure ()

theorem keeps_settle (exchange : Exchange) (call : ToolCall) (reply : ToolReply) :
    Keeps holds ended (settle setting exchange call reply) := by
  apply keeps_bind (keeps_lift _ rules.ends)
  intro content
  apply keeps_bind (Act.keeps_append rules.appends none _)
  intro _
  exact keeps_pure _

theorem keeps_boundary (interrupt : Interrupt) : Keeps holds ended (Act.consumeBoundary interrupt) :=
  Act.keeps_consumeBoundary rules.appends rules.barriers interrupt

theorem ensures_askReads (asked reads : Nat) :
    Ensures holds (askReads stillGoing asked reads)
      (fun asks floor => holds floor ∧ asks.1.length ≤ reads) ended := by
  induction reads generalizing asked with
  | zero => exact fun floor start => ⟨start, Nat.zero_le _⟩
  | succ reads ih =>
    apply ensures_bind (rules.asks asked)
    intro standing
    by_cases halted : standing = .cancel
    · simp only [halted, if_pos]
      exact fun floor start => ⟨start, Nat.zero_le _⟩
    · simp only [halted, if_neg, not_false_eq_true]
      apply ensures_bind (ih (asked + 1))
      intro asks floor start
      exact ⟨start.1, Nat.succ_le_succ start.2⟩

variable {some_ : List ToolCall}

theorem keeps_admitAll (inside : some_ ⊆ calls) :
    Keeps holds ended (admitAll tools some_) := by
  induction some_ with
  | nil => exact keeps_pure _
  | cons call some_ ih =>
    apply keeps_bind (keeps_admitOne rules (inside mem_cons_self))
    intro decided
    apply keeps_bind (ih fun _ member => inside (mem_cons_of_mem _ member))
    intro rest
    exact keeps_pure _

theorem keeps_invoke_read (member : call ∈ calls) (asked : Nat) (lent : Except AxError Tool)
    (reading : tools.readsOnly call = true) : Keeps holds ended (invoke tools asked call lent) := by
  cases lent with
  | error unheld => exact keeps_pure _
  | ok tool =>
    apply keeps_bind (fun floor start => rules.reads call member floor reading start)
    intro _
    exact keeps_pure _

theorem keeps_invokeAll (jobs : List (Nat × ToolCall × Except AxError Tool))
    (reading : ∀ job ∈ jobs, job.2.1 ∈ calls ∧ tools.readsOnly job.2.1 = true) :
    Keeps holds ended (invokeAll tools jobs) := by
  induction jobs with
  | nil => exact keeps_pure _
  | cons job jobs ih =>
    obtain ⟨member, reads⟩ := reading job mem_cons_self
    apply keeps_bind (keeps_invoke_read rules member job.1 job.2.2 reads)
    intro reply
    apply keeps_bind (ih fun other member => reading other (mem_cons_of_mem _ member))
    intro replies
    exact keeps_pure _

theorem keeps_allAtOnce (leading : List ToolCall) (admitted : List (Admitted τ))
    (early : List (Option ToolReply))
    (reading : ∀ call ∈ leading, call ∈ calls ∧ tools.readsOnly call = true) :
    Keeps holds ended (allAtOnce tools leading admitted early) := by
  apply keeps_look
  intro floor
  apply keeps_invokeAll rules
  intro job member
  exact reading _ (mem_of_mem_running member)

theorem keeps_accountReads (work : List (ToolCall × Interrupt × Admitted τ × Option ToolReply))
    (answers : List ToolReply) (exchange : Exchange)
    (issued : ∀ item ∈ work, item.1 ∈ calls ∧
      ∀ ticket, item.2.2.1 = .cleared ticket → tools.Issued item.1 ticket) :
    Keeps holds ended (accountReads setting tools work answers exchange) := by
  induction work generalizing answers exchange with
  | nil => exact keeps_pure _
  | cons item work ih =>
    obtain ⟨call, standing, admission, cached⟩ := item
    obtain ⟨member, cleared⟩ := issued _ mem_cons_self
    apply keeps_bind (keeps_boundary rules standing)
    intro ended_
    cases ended_ with
    | true => exact keeps_pure _
    | false =>
      have rest : ∀ reply answers, Keeps holds ended (do
          intend setting tools call
          let exchange ← settle setting exchange call reply
          accountReads setting tools work answers exchange) := by
        intro reply answers
        apply keeps_bind (keeps_intend rules call)
        intro _
        apply keeps_bind (keeps_settle rules exchange call reply)
        intro exchange
        exact ih answers exchange fun other member =>
          issued other (mem_cons_of_mem _ member)
      cases admission with
      | answered reply => exact rest reply answers
      | cleared ticket =>
        cases cached with
        | some ran =>
          apply keeps_bind (keeps_account rules member (cleared ticket rfl) ran)
          intro reply
          exact rest reply answers
        | none =>
          apply keeps_bind (keeps_account rules member (cleared ticket rfl) _)
          intro reply
          exact rest reply answers.tail

theorem ensures_intend (call : ToolCall) :
    Ensures holds (intend setting tools call)
      (fun _ floor => holds floor ∧ Act.Pending floor (setting.scan (intent tools call))) ended := by
  apply ensures_bind (Act.ensures_append rules.appends none _)
  intro _
  exact fun _ pending => pending

theorem ensures_invoke_due (member : call ∈ calls) (asked : Nat) (lent : Except AxError Tool)
    (acting : tools.readsOnly call = false) :
    Ensures (fun floor => holds floor ∧ Act.Announced floor (setting.scan (intent tools call)))
      (invoke tools asked call lent) (fun _ => holds) ended := by
  cases lent with
  | error unheld => exact fun floor start => start.1
  | ok tool => exact fun floor start => rules.acts call member floor acting start.2 start.1

theorem keeps_alone (member : call ∈ calls) (asked : Nat) (exchange : Exchange) :
    Keeps holds ended (alone setting tools asked exchange call) := by
  apply ensures_bind (ensures_yields (keeps_admitOne rules member) (yields_admitOne call))
  intro admission
  apply ensures_of_fact
  intro cleared
  cases admission with
  | answered reply =>
    apply keeps_bind (keeps_intend rules call)
    intro _
    exact keeps_settle rules exchange call reply
  | cleared ticket =>
    have rest : ∀ ran, Keeps holds ended (do
        let reply ← account tools call ticket ran
        settle setting exchange call reply) := by
      intro ran
      apply keeps_bind (keeps_account rules member (cleared ticket rfl) ran)
      intro reply
      exact keeps_settle rules exchange call reply
    cases reading : tools.readsOnly call with
    | true =>
      simp only [Bool.not_true, Bool.false_eq_true, if_false]
      apply keeps_bind (keeps_intend rules call)
      intro _
      apply keeps_look
      intro floor
      apply keeps_bind (keeps_invoke_read rules member asked _ reading)
      exact rest
    | false =>
      simp only [Bool.not_false, if_true]
      apply ensures_bind (ensures_intend rules call)
      intro _
      apply ensures_bind (Act.ensures_barrier rules.barriers _)
      intro _
      apply ensures_look
      intro floor
      apply ensures_bind
      · apply ensures_consequence (ensures_invoke_due rules member asked _ reading)
        · exact fun _ here => here.2
        · exact fun _ _ kept => kept
        · exact fun _ _ refused => refused
      · exact rest

theorem keeps_serially (inside : some_ ⊆ calls) (asked : Nat)
    (exchange : Exchange) :
    Keeps holds ended (serially setting tools stillGoing asked some_ exchange) := by
  induction some_ generalizing asked exchange with
  | nil => exact keeps_pure _
  | cons call some_ ih =>
    apply keeps_bind (rules.asks asked)
    intro standing
    apply keeps_bind (keeps_boundary rules standing)
    intro halted
    cases halted with
    | true => exact keeps_pure _
    | false =>
      apply keeps_bind (keeps_alone rules (inside mem_cons_self) asked exchange)
      intro exchange
      exact ih (fun _ member => inside (mem_cons_of_mem _ member)) (asked + 1) exchange

theorem keeps_calls (speculated : List (ToolCall × ToolReply)) (exchange : Exchange) :
    Keeps holds ended (executeCalls setting tools stillGoing calls speculated exchange) := by
  apply ensures_bind (ensures_askReads rules 0 _)
  intro asks
  apply ensures_of_fact
  intro bounded
  have inside : calls.take asks.1.length ⊆ calls := (List.take_prefix _ _).subset
  have reading : ∀ call ∈ calls.take asks.1.length,
      call ∈ calls ∧ tools.readsOnly call = true := by
    intro call member
    have leading : calls.take asks.1.length <+: calls.takeWhile tools.readsOnly := by
      apply prefix_of_prefix_length_le (List.take_prefix _ _) (List.takeWhile_prefix _)
      rw [length_take]
      omega
    exact ⟨inside member, mem_takeWhile_imp (leading.subset member)⟩
  apply ensures_bind (ensures_yields (keeps_admitAll rules inside) (yields_admitAll _))
  intro admitted
  apply ensures_of_fact
  intro cleared
  apply keeps_bind (keeps_allAtOnce rules _ admitted _ reading)
  intro answers
  have issued : ∀ item ∈ (calls.take asks.1.length).zip (asks.1.zip (admitted.zip
      (answersFor speculated (calls.take asks.1.length)))), item.1 ∈ calls ∧
      ∀ ticket, item.2.2.1 = .cleared ticket → tools.Issued item.1 ticket := by
    rintro ⟨call, standing, admission, cached⟩ member
    refine ⟨inside (of_mem_zip member).1, cleared call admission ?_⟩
    exact mem_zip_of_zip member
  apply keeps_bind (keeps_accountReads rules _ answers exchange issued)
  intro accounted
  cases accounted with
  | none => exact keeps_pure _
  | some exchange =>
    apply keeps_bind (keeps_boundary rules asks.2)
    intro halted
    cases halted with
    | true => exact keeps_pure _
    | false => exact keeps_serially rules (drop_subset _ _) _ exchange

end Steps

/-- A wave keeps what its steps keep, once `opened` holds before it and noting its calls makes
`holds` of `opened`. -/
theorem ensures_executeConcurrent {opened : Floor β → Prop} {interrupt : Interrupt}
    {asked : List ToolCall} {working : List ToolCall → Floor β → Prop}
    (rules : ∀ calls, Rules setting tools stillGoing calls (working calls) ended)
    (boundary : Keeps opened ended (Act.consumeBoundary interrupt))
    (notes : ∀ floor, opened floor →
      working (asked.map (tools.resolveCall floor.bench))
        (floor.noted (.wave (asked.map (tools.resolveCall floor.bench)))))
    (speculated : List (ToolCall × ToolReply)) (assistant : List ContentBlock) :
    Ensures opened
      (executeConcurrent setting tools stillGoing interrupt asked speculated assistant)
      (fun executed floor =>
        (∃ calls, working calls floor) ∨ (executed = none ∧ opened floor)) ended := by
  apply ensures_bind boundary
  intro halted
  cases halted with
  | true => exact fun floor start => Or.inr ⟨rfl, start⟩
  | false =>
    apply ensures_look
    intro floor
    have noted : Ensures (fun here => here = floor ∧ opened here)
        (Act.note (.wave (asked.map (tools.resolveCall floor.bench))))
        (fun _ => working (asked.map (tools.resolveCall floor.bench))) ended := by
      rintro here ⟨rfl, start⟩
      exact notes here start
    apply ensures_bind noted
    intro _
    apply ensures_weaken (keeps_calls (rules _) speculated _)
    · exact fun _ _ kept => Or.inl ⟨_, kept⟩
    · exact fun _ _ refused => refused

section Answers

variable (setting tools stillGoing) {exchange : Exchange} (answers : exchange.Answers)

include answers

theorem yields_settle (call : ToolCall) (reply : ToolReply) :
    Yields Exchange.Answers (settle setting exchange call reply : Act β Exchange) := by
  unfold settle
  apply yields_then
  intro content
  apply yields_then
  intro _
  apply yields_pure
  intro block member
  rcases mem_append.mp member with earlier | last
  · exact answers block earlier
  · rw [mem_singleton.mp last]
    cases reply <;> rfl

theorem yields_alone (asked : Nat) (call : ToolCall) :
    Yields Exchange.Answers (alone setting tools asked exchange call) := by
  unfold alone
  apply yields_then
  intro admission
  apply yields_then
  intro _
  cases admission with
  | answered reply => exact yields_settle setting answers call reply
  | cleared ticket =>
    have rest : Yields Exchange.Answers (do
        let floor ← look
        let ran ← invoke tools asked call (tools.tool floor.bench ticket)
        let reply ← account tools call ticket ran
        settle setting exchange call reply : Act β Exchange) := by
      apply yields_then
      intro floor
      apply yields_then
      intro ran
      apply yields_then
      intro reply
      exact yields_settle setting answers call reply
    by_cases acting : (!tools.readsOnly call) = true
    · simp only [if_pos acting]
      apply yields_then
      exact fun _ => rest
    · simp only [if_neg acting]
      exact rest

theorem yields_serially (asked : Nat) (calls : List ToolCall) :
    Yields (fun executed => ∀ exchange ∈ executed, exchange.Answers)
      (serially setting tools stillGoing asked calls exchange) := by
  induction calls generalizing asked exchange with
  | nil =>
    apply yields_pure
    intro other found
    cases found
    exact answers
  | cons call calls ih =>
    unfold serially
    apply yields_then
    intro standing
    apply yields_then
    intro halted
    cases halted with
    | true =>
      exact yields_none
    | false =>
      refine yields_bind (yields_alone setting tools answers asked call) ?_
      intro settled answers
      exact ih answers (asked + 1)

theorem yields_accountReads (work : List (ToolCall × Interrupt × Admitted τ × Option ToolReply))
    (replies : List ToolReply) :
    Yields (fun executed => ∀ exchange ∈ executed, exchange.Answers)
      (accountReads setting tools work replies exchange) := by
  induction work generalizing replies exchange with
  | nil =>
    apply yields_pure
    intro other found
    cases found
    exact answers
  | cons item work ih =>
    obtain ⟨call, standing, admission, cached⟩ := item
    unfold accountReads
    apply yields_then
    intro halted
    have rest : ∀ reply replies, Yields (fun executed => ∀ exchange ∈ executed, exchange.Answers)
        (do
          intend setting tools call
          let exchange ← settle setting exchange call reply
          accountReads setting tools work replies exchange : Act β (Option Exchange)) := by
      intro reply replies
      apply yields_then
      intro _
      refine yields_bind (yields_settle setting answers call reply) ?_
      intro settled answers
      exact ih answers replies
    cases halted with
    | true =>
      exact yields_none
    | false =>
      cases admission with
      | answered reply => exact rest reply replies
      | cleared ticket =>
        cases cached with
        | some ran =>
          apply yields_then
          intro reply
          exact rest reply replies
        | none =>
          apply yields_then
          intro reply
          exact rest reply replies.tail

omit answers

/-- A wave's results are blocks that answer calls. -/
theorem yields_executeConcurrent (interrupt : Interrupt) (asked : List ToolCall)
    (speculated : List (ToolCall × ToolReply)) (assistant : List ContentBlock) :
    Yields (fun executed => ∀ exchange ∈ executed, exchange.Answers)
      (executeConcurrent setting tools stillGoing interrupt asked speculated assistant) := by
  unfold executeConcurrent executeCalls
  apply yields_then
  intro halted
  cases halted with
  | true => exact yields_none
  | false =>
    apply yields_then
    intro floor
    apply yields_then
    intro _
    apply yields_then
    intro asks
    apply yields_then
    intro admitted
    apply yields_then
    intro replies
    have empty : (Exchange.new.pushAssistant assistant).Answers := by
      intro block member
      cases member
    refine yields_bind (yields_accountReads setting tools empty _ replies) ?_
    intro accounted answers
    cases accounted with
    | none => exact yields_none
    | some exchange =>
      apply yields_then
      intro stopped
      cases stopped with
      | true => exact yields_none
      | false =>
        exact yields_serially setting tools stillGoing (answers exchange rfl) _ _

end Answers

end Wave

end Sprawling
