import Sprawling.Base.Trace
import Sprawling.Runtime.RunRules

/-! What a run's conversation says: the user's texts in the order they came, each reply before the
results that answer it, and every request a continuation of the one before. -/

namespace Sprawling

open Effect List Conversation Trace Run

namespace Deed

/-- The user text a deed brings. -/
def arriving : Deed → Option (List Char)
  | .arrived text => some text
  | _ => none

/-- The reply a deed closes a turn with; an empty one is no message. -/
def replying : Deed → Option (List ContentBlock)
  | .closed _ assistant _ => if assistant.isEmpty then none else some assistant
  | _ => none

/-- Whether a deed reaches the conversation or takes a request from it. -/
def speaks : Deed → Bool
  | .arrived _ | .closed _ _ _ | .sent _ => true
  | _ => false

end Deed

namespace Talk

def arrivals (deeds : List Deed) : List (List Char) := deeds.filterMap Deed.arriving

def spoken (deeds : List Deed) : List (List ContentBlock) := deeds.filterMap Deed.replying

/-- The plain text of a block. -/
def plain : ContentBlock → Option (List Char)
  | .text said => some said
  | _ => none

def texts (blocks : List ContentBlock) : List (List Char) := blocks.filterMap plain

/-- The plain texts of the user's messages. -/
def userTexts (messages : List ChatMessage) : List (List Char) :=
  texts (Conversation.userBlocks messages)

/-- The reply that follows these earlier ones is a message of its own, and the results that answer
it come next, before anything else the user says. -/
def Answered (messages : List ChatMessage) (earlier : List (List ContentBlock))
    (assistant results : List ContentBlock) : Prop :=
  ∃ front rest, messages = front ++ { role := .assistant, content := assistant } :: rest ∧
    Conversation.replies front = earlier ∧
      (results ≠ [] → ∃ more after, rest = { role := .user, content := results ++ more } :: after)

/-- Where a turn closed with a reply, that reply is answered. -/
def AnsweredBy (inherited messages : List ChatMessage) (before : List Deed) : Deed → Prop
  | .closed _ assistant results =>
    assistant ≠ [] →
      Answered messages (Conversation.replies inherited ++ spoken before) assistant results
  | _ => True

/-- Every reply that made calls said something. -/
def Spoken (deeds : List Deed) : Prop :=
  ∀ calls assistant results, .closed calls assistant results ∈ deeds → calls ≠ 0 → assistant ≠ []

/-- As long as every reply that made calls said something, a request continues each one before. -/
def Continues (before : List Deed) : Deed → Prop
  | .sent request =>
    Spoken before → ∀ earlier, .sent earlier ∈ before → earlier <+: request
  | _ => True

end Talk

/-- What the conversation of a run says, given what the run did. -/
structure Talk (inherited : List ChatMessage) (deeds : List Deed) (conversation : Conversation) :
    Prop where
  arrival : Talk.userTexts conversation.messages ++ Talk.texts conversation.held =
    Talk.userTexts inherited ++ Talk.arrivals deeds
  answered : Trace.Always (Talk.AnsweredBy inherited conversation.messages) deeds
  continues : Trace.Always Talk.Continues deeds

namespace Talk

theorem texts_append (front back : List ContentBlock) :
    texts (front ++ back) = texts front ++ texts back := filterMap_append

theorem userTexts_append (front back : List ChatMessage) :
    userTexts (front ++ back) = userTexts front ++ userTexts back := by
  rw [userTexts, userBlocks_append, texts_append]
  rfl

@[simp] theorem userTexts_user (content : List ContentBlock) :
    userTexts [{ role := .user, content }] = texts content := by
  rw [userTexts, userBlocks_user]

@[simp] theorem userTexts_assistant (content : List ContentBlock) :
    userTexts [{ role := .assistant, content }] = [] := by
  rw [userTexts, userBlocks_assistant]
  rfl

variable {results : List ContentBlock}

theorem texts_results
    (answers : ∀ block ∈ results, block.isResult = true) : texts results = [] := by
  rw [texts, filterMap_eq_nil_iff]
  intro block member
  cases block with
  | toolResult _ _ _ _ => rfl
  | text _ => cases answers _ member
  | thinking _ _ => cases answers _ member
  | redactedThinking _ => cases answers _ member
  | toolUse _ _ _ => cases answers _ member
  | image _ => cases answers _ member

section Growing

/-- Messages that grow at their end: by whole messages, or by more in the user's last one. -/
def Grown (messages later : List ChatMessage) : Prop :=
  (∃ more, later = messages ++ more) ∨
    ∃ front content more, messages = front ++ [{ role := .user, content }] ∧
      later = front ++ [{ role := .user, content := content ++ more }]

theorem Answered.grown {messages later : List ChatMessage} {earlier : List (List ContentBlock)}
    {assistant results : List ContentBlock} (answered : Answered messages earlier assistant results)
    (grown : Grown messages later) : Answered later earlier assistant results := by
  obtain ⟨front, rest, split, before, next⟩ := answered
  rcases grown with ⟨more, rfl⟩ | ⟨start, content, more, ends, rfl⟩
  · refine ⟨front, rest ++ more, ?_, before, ?_⟩
    · rw [split, append_assoc, cons_append]
    · intro some_
      obtain ⟨said, after, rfl⟩ := next some_
      exact ⟨said, after ++ more, rfl⟩
  · -- the last message is the user's, so it stands after the reply
    rw [ends] at split
    rcases eq_nil_or_concat rest with rfl | ⟨middle, last, rfl⟩
    · obtain ⟨-, same⟩ := append_inj' split rfl
      cases same
    · rw [concat_eq_append, ← cons_append, ← append_assoc] at split
      obtain ⟨rfl, same⟩ := append_inj' split rfl
      cases same
      refine ⟨front, middle ++ [{ role := .user, content := content ++ more }], ?_, before, ?_⟩
      · rw [append_assoc, cons_append]
      · intro some_
        obtain ⟨said, after, follows⟩ := next some_
        rw [concat_eq_append] at follows
        cases middle with
        | nil =>
          cases follows
          exact ⟨said ++ more, [], by rw [nil_append, append_assoc]⟩
        | cons first middle =>
          cases follows
          exact ⟨said, middle ++ [{ role := .user, content := content ++ more }], rfl⟩

theorem answered_grown {inherited messages later : List ChatMessage} {deeds : List Deed}
    (answered : Trace.Always (AnsweredBy inherited messages) deeds)
    (grown : Grown messages later) : Trace.Always (AnsweredBy inherited later) deeds := by
  refine answered.imp ?_
  intro before deed due
  cases deed with
  | closed calls assistant results => exact fun said => (due said).grown grown
  | _ => trivial

end Growing

/-- The talk of a run, with what keeps it: text is held back only behind a user message that is
already sent, and the replies are those the run closed its turns with. -/
structure Talking (inherited : List ChatMessage) (deeds : List Deed) (conversation : Conversation) :
    Prop where
  talk : Talk inherited deeds conversation
  replies : Conversation.replies conversation.messages =
    Conversation.replies inherited ++ spoken deeds
  within : conversation.sent ≤ conversation.messages.length
  waiting : conversation.held ≠ [] → conversation.messages.length ≤ conversation.sent ∧
    ∃ front content, conversation.EndsWith front content

/-- As long as every reply that made calls said something, every request is a first part of
`messages`. -/
def Wired (deeds : List Deed) (messages : List ChatMessage) : Prop :=
  Spoken deeds → ∀ request, .sent request ∈ deeds → request <+: messages

section Steps

variable {inherited : List ChatMessage} {deeds : List Deed} {conversation : Conversation}

theorem arrivals_concat (deeds : List Deed) (deed : Deed) :
    arrivals (deeds ++ [deed]) = arrivals deeds ++ deed.arriving.toList := by
  rw [arrivals, filterMap_append]
  cases said : deed.arriving <;> simp [arrivals, said]

theorem spoken_concat (deeds : List Deed) (deed : Deed) :
    spoken (deeds ++ [deed]) = spoken deeds ++ deed.replying.toList := by
  rw [spoken, filterMap_append]
  cases said : deed.replying <;> simp [spoken, said]

variable {deed : Deed}

theorem Spoken.of_concat (all : Spoken (deeds ++ [deed])) : Spoken deeds :=
  fun calls assistant results member =>
    all calls assistant results (mem_append_left _ member)

theorem Wired.concat {messages : List ChatMessage} {deed : Deed} (wired : Wired deeds messages)
    (other : ∀ request, deed ≠ .sent request) : Wired (deeds ++ [deed]) messages := by
  intro all request member
  rcases mem_append.mp member with earlier | last
  · exact wired all.of_concat request earlier
  · exact absurd (mem_singleton.mp last).symm (other request)

theorem Talking.noted (talking : Talking inherited deeds conversation)
    (mute : deed.speaks = false) : Talking inherited (deeds ++ [deed]) conversation := by
  have arrival : deed.arriving = none := by cases deed <;> first | rfl | cases mute
  have reply : deed.replying = none := by cases deed <;> first | rfl | cases mute
  refine ⟨⟨?_, ?_, ?_⟩, ?_, talking.within, talking.waiting⟩
  · rw [arrivals_concat, arrival]
    exact talking.talk.arrival.trans (by simp)
  · refine always_concat.mpr ⟨talking.talk.answered, ?_⟩
    cases deed <;> trivial
  · refine always_concat.mpr ⟨talking.talk.continues, ?_⟩
    cases deed <;> trivial
  · rw [spoken_concat, reply]
    exact talking.replies.trans (by simp)

theorem Talking.sent (talking : Talking inherited deeds conversation)
    (wired : Wired deeds conversation.messages) :
    Talking inherited (deeds ++ [.sent conversation.messages]) conversation := by
  refine ⟨⟨?_, ?_, ?_⟩, ?_, talking.within, talking.waiting⟩
  · rw [arrivals_concat]
    exact talking.talk.arrival.trans (by simp [Deed.arriving])
  · exact always_concat.mpr ⟨talking.talk.answered, trivial⟩
  · exact always_concat.mpr ⟨talking.talk.continues, wired⟩
  · rw [spoken_concat]
    exact talking.replies.trans (by simp [Deed.replying])

theorem Wired.sent (wired : Wired deeds conversation.messages) :
    Wired (deeds ++ [.sent conversation.messages]) conversation.messages := by
  intro all request member
  rcases mem_append.mp member with earlier | last
  · exact wired all.of_concat request earlier
  · cases mem_singleton.mp last
    exact prefix_rfl

theorem Talking.nothing_held (talking : Talking inherited deeds conversation)
    (joins : conversation.AtReply ∨ conversation.sent < conversation.messages.length) :
    conversation.held = [] := by
  by_contra some_
  obtain ⟨sent, front, content, ends⟩ := talking.waiting some_
  rcases joins with fresh | unsent
  · have spoken := fresh { role := .user, content } (by rw [ends, getLast?_concat]; rfl)
    cases spoken
  · omega

/-- A user text that stands in the messages at once. -/
structure Joins (conversation later : Conversation) (text : List Char) : Prop where
  empty : conversation.held = []
  held : later.held = []
  sent : later.sent = conversation.sent
  grown : Grown conversation.messages later.messages
  texts : userTexts later.messages = userTexts conversation.messages ++ [text]
  wire : later.messages.take conversation.sent = conversation.messages.take conversation.sent
  longer : conversation.messages.length ≤ later.messages.length

variable (talking : Talking inherited deeds conversation)

include talking

theorem pushUserText_cases (text : List Char) :
    Joins conversation (conversation.pushUserText text) text ∨
      ((∃ front content, conversation.EndsWith front content) ∧
        conversation.messages.length ≤ conversation.sent ∧
        conversation.pushUserText text =
          { conversation with held := conversation.held ++ [.text text] }) := by
  rcases conversation.endsWith_or_atReply with ⟨front, content, ends⟩ | fresh
  · by_cases unsent : conversation.sent < conversation.messages.length
    · left
      have empty := talking.nothing_held (Or.inr unsent)
      have pushed : conversation.pushUserText text = { conversation with
          messages := front ++ [{ role := .user, content := content ++ [.text text] }] } :=
        pushUser_open ends unsent
      have width : conversation.messages.length = front.length + 1 := by
        rw [ends, length_append, length_singleton]
      rw [pushed]
      refine ⟨empty, empty, rfl, Or.inr ⟨front, content, [.text text], ends, rfl⟩, ?_, ?_, ?_⟩
      · rw [ends, userTexts_append, userTexts_append, userTexts_user, userTexts_user, texts_append,
          append_assoc]
        rfl
      · have short : conversation.sent ≤ front.length := by omega
        show List.take _ (front ++ _) = _
        rw [ends, take_append_of_le_length short, take_append_of_le_length short]
      · show _ ≤ (front ++ [_]).length
        rw [length_append, length_singleton]
        omega
    · right
      exact ⟨⟨front, content, ends⟩, by omega, pushUser_sent ends (by omega)⟩
  · left
    have empty := talking.nothing_held (Or.inl fresh)
    have pushed : conversation.pushUserText text = { conversation with
        messages := conversation.messages ++ [{ role := .user, content := [.text text] }] } :=
      pushUser_fresh fresh (cons_ne_nil _ _)
    rw [pushed]
    refine ⟨empty, empty, rfl, Or.inl ⟨_, rfl⟩, ?_, take_append_of_le_length talking.within,
      ?_⟩
    · rw [userTexts_append, userTexts_user]
      rfl
    · show _ ≤ (conversation.messages ++ [_]).length
      rw [length_append]
      omega

theorem Talking.told (text : List Char) :
    Talking inherited (deeds ++ [.arrived text]) (conversation.pushUserText text) := by
  have arrived : arrivals (deeds ++ [.arrived text]) = arrivals deeds ++ [text] :=
    arrivals_concat deeds (.arrived text)
  have continues : Trace.Always Continues (deeds ++ [.arrived text]) :=
    always_concat.mpr ⟨talking.talk.continues, trivial⟩
  have replies : Conversation.replies (conversation.pushUserText text).messages =
      Conversation.replies inherited ++ spoken (deeds ++ [.arrived text]) := by
    rw [spoken_concat]
    exact (conversation.replies_pushUser _).trans (talking.replies.trans (by simp [Deed.replying]))
  have order := talking.talk.arrival
  rcases pushUserText_cases talking text with joins | ⟨ends, sent, pushed⟩
  · refine ⟨⟨?_, ?_, continues⟩, replies, ?_, ?_⟩
    · rw [joins.empty] at order
      rw [joins.texts, joins.held, arrived, ← append_assoc, ← order]
      simp [texts]
    · exact always_concat.mpr ⟨answered_grown talking.talk.answered joins.grown, trivial⟩
    · rw [joins.sent]
      exact talking.within.trans joins.longer
    · exact fun some_ => absurd joins.held some_
  · rw [pushed] at replies ⊢
    refine ⟨⟨?_, ?_, continues⟩, replies, talking.within, fun _ => ⟨sent, ends⟩⟩
    · rw [arrived, ← append_assoc, ← order, texts_append, append_assoc]
      rfl
    · exact always_concat.mpr ⟨talking.talk.answered, trivial⟩

theorem wired_told
    (wired : Wired deeds (conversation.messages.take conversation.sent)) (text : List Char) :
    Wired (deeds ++ [.arrived text])
      ((conversation.pushUserText text).messages.take (conversation.pushUserText text).sent) := by
  have kept : (conversation.pushUserText text).messages.take
      (conversation.pushUserText text).sent = conversation.messages.take conversation.sent := by
    rcases pushUserText_cases talking text with joins | ⟨-, -, pushed⟩
    · rw [joins.sent, joins.wire]
    · rw [pushed]
  rw [kept]
  exact wired.concat fun _ other => by cases other

theorem Talking.marked :
    Talking inherited deeds conversation.markSent where
  talk := ⟨talking.talk.arrival, talking.talk.answered, talking.talk.continues⟩
  replies := talking.replies
  within := Nat.le_refl _
  waiting := fun some_ => ⟨Nat.le_refl _, (talking.waiting some_).2⟩

omit talking

theorem Wired.marked (wired : Wired deeds conversation.messages) :
    Wired deeds (conversation.markSent.messages.take conversation.markSent.sent) := by
  rw [Conversation.markSent, take_length]
  exact wired

/-- Results, and what was held back behind them, at the end of the messages. -/
structure Resulted (conversation later : Conversation) (results : List ContentBlock) : Prop where
  held : later.held = []
  grown : Grown conversation.messages later.messages
  texts : userTexts later.messages =
    userTexts conversation.messages ++ (texts results ++ texts conversation.held)
  within : conversation.sent ≤ conversation.messages.length → later.sent ≤ later.messages.length
  fresh : conversation.AtReply → later.sent = conversation.sent ∧
    ∃ more, later.messages = conversation.messages ++ more ∧
      (results ≠ [] → ∃ said, more = [{ role := .user, content := results ++ said }])

theorem pushToolResults_resulted (conversation : Conversation) (results : List ContentBlock) :
    Resulted conversation (conversation.pushToolResults results) results := by
  by_cases empty : results ++ conversation.held = []
  · rw [pushToolResults_nothing empty]
    rw [append_eq_nil_iff] at empty
    refine ⟨rfl, Or.inl ⟨[], (append_nil _).symm⟩, ?_, id, ?_⟩
    · rw [empty.1, empty.2]
      exact (append_nil _).symm
    · exact fun _ => ⟨rfl, [], (append_nil _).symm, fun some_ => absurd empty.1 some_⟩
  · rcases conversation.endsWith_or_atReply with ⟨front, content, ends⟩ | fresh
    · rw [pushToolResults_joined ends empty]
      refine ⟨rfl, Or.inr ⟨front, content, _, ends, rfl⟩, ?_, ?_, ?_⟩
      · rw [ends, userTexts_append, userTexts_append, userTexts_user, userTexts_user, texts_append,
          texts_append, append_assoc]
      · intro _
        show min _ _ ≤ (front ++ [_]).length
        rw [ends, length_append, length_append, length_singleton, length_singleton]
        omega
      · intro fresh
        have spoken := fresh { role := .user, content } (by rw [ends, getLast?_concat]; rfl)
        cases spoken
    · rw [pushToolResults_fresh fresh empty]
      refine ⟨rfl, Or.inl ⟨_, rfl⟩, ?_, ?_, ?_⟩
      · rw [userTexts_append, userTexts_user, texts_append]
      · intro within
        show conversation.sent ≤ (conversation.messages ++ [_]).length
        rw [length_append]
        omega
      · exact fun _ => ⟨rfl, _, rfl, fun _ => ⟨conversation.held, rfl⟩⟩

theorem Talking.closed_silent (talking : Talking inherited deeds conversation) (answers : ∀ block ∈ results, block.isResult = true)
    (calls : Nat) :
    Talking inherited (deeds ++ [.closed calls [] results])
      ((conversation.pushAssistant []).pushToolResults results) := by
  have same : conversation.pushAssistant [] = conversation := rfl
  rw [same]
  have resulted := pushToolResults_resulted conversation results
  refine ⟨⟨?_, ?_, ?_⟩, ?_, resulted.within talking.within, fun some_ => absurd resulted.held some_⟩
  · rw [arrivals_concat, resulted.texts, resulted.held, texts_results answers]
    exact (append_nil _).trans (talking.talk.arrival.trans (by simp [Deed.arriving]))
  · refine always_concat.mpr ⟨answered_grown talking.talk.answered resulted.grown, ?_⟩
    exact fun said => absurd rfl said
  · exact always_concat.mpr ⟨talking.talk.continues, trivial⟩
  · rw [spoken_concat]
    exact (conversation.replies_pushToolResults _).trans
      (talking.replies.trans (by simp [Deed.replying]))

variable {assistant results : List ContentBlock}

theorem Talking.closed_spoken (talking : Talking inherited deeds conversation) (answers : ∀ block ∈ results, block.isResult = true)
    (said : assistant ≠ []) (calls : Nat) :
    Talking inherited (deeds ++ [.closed calls assistant results])
      ((conversation.pushAssistant assistant).pushToolResults results) := by
  have reply : (conversation.pushAssistant assistant).messages =
      conversation.messages ++ [{ role := .assistant, content := assistant }] := by
    rw [pushAssistant_some said]
  have back : (conversation.pushAssistant assistant).held = conversation.held := by
    rw [pushAssistant_some said]
  have resulted := pushToolResults_resulted (conversation.pushAssistant assistant) results
  obtain ⟨sent, more, messages, next⟩ := resulted.fresh (atReply_pushAssistant said)
  have split : ((conversation.pushAssistant assistant).pushToolResults results).messages =
      conversation.messages ++ { role := .assistant, content := assistant } :: more := by
    rw [messages, reply, append_assoc]
    rfl
  refine ⟨⟨?_, ?_, ?_⟩, ?_, ?_, fun some_ => absurd resulted.held some_⟩
  · rw [arrivals_concat, resulted.texts, resulted.held, texts_results answers, reply, back,
      userTexts_append, userTexts_assistant, append_nil]
    exact (append_nil _).trans (talking.talk.arrival.trans (by simp [Deed.arriving]))
  · refine always_concat.mpr ⟨answered_grown talking.talk.answered (Or.inl ⟨_, split⟩), ?_⟩
    intro _
    refine ⟨conversation.messages, more, split, talking.replies, ?_⟩
    intro some_
    obtain ⟨words, rfl⟩ := next some_
    exact ⟨words, [], rfl⟩
  · exact always_concat.mpr ⟨talking.talk.continues, trivial⟩
  · have replying : (Deed.closed calls assistant results).replying = some assistant := by
      simp [Deed.replying, said]
    rw [replies_pushToolResults, reply, replies_append,
      replies_assistant, talking.replies, spoken_concat, replying, append_assoc]
    rfl
  · rw [sent, split, pushAssistant_some said, length_append]
    exact Nat.le_add_right_of_le talking.within

theorem Talking.closed (talking : Talking inherited deeds conversation) (answers : ∀ block ∈ results, block.isResult = true)
    (calls : Nat) :
    Talking inherited (deeds ++ [.closed calls assistant results])
      ((conversation.pushAssistant assistant).pushToolResults results) := by
  by_cases empty : assistant = []
  · subst empty
    exact talking.closed_silent answers calls
  · exact talking.closed_spoken answers empty calls

theorem wired_closed (within : conversation.sent ≤ conversation.messages.length)
    (wired : Wired deeds (conversation.messages.take conversation.sent)) {calls : Nat} (loud : calls ≠ 0 ∨ assistant ≠ []) :
    Wired (deeds ++ [.closed calls assistant results])
      (((conversation.pushAssistant assistant).pushToolResults results).messages.take
        ((conversation.pushAssistant assistant).pushToolResults results).sent) := by
  intro all
  have said : assistant ≠ [] := by
    rcases loud with some_ | said
    · exact all calls assistant results (mem_append_right _ (mem_singleton.mpr rfl)) some_
    · exact said
  have resulted := pushToolResults_resulted (conversation.pushAssistant assistant) results
  obtain ⟨sent, more, messages, -⟩ := resulted.fresh (atReply_pushAssistant said)
  rw [sent, messages, pushAssistant_some said, append_assoc, take_append_of_le_length within]
  exact wired.concat (fun _ other => by cases other) all

end Steps

section Runs

variable {β τ : Type} (inherited : List ChatMessage)

/-- A run whose requests are all on the wire as far as the sent mark says. -/
def Steady (floor : Floor β) : Prop :=
  Talking inherited floor.deeds floor.conversation ∧
    Wired floor.deeds (floor.conversation.messages.take floor.conversation.sent)

/-- A run whose last request may not be marked as sent yet. -/
def Calling (floor : Floor β) : Prop :=
  Talking inherited floor.deeds floor.conversation ∧ Wired floor.deeds floor.conversation.messages

def Rested (floor : Floor β) : Prop := Talking inherited floor.deeds floor.conversation

/-- Where a turn failed; only a run that may go on has its requests on the wire. -/
def Ended (reason : AxError) (floor : Floor β) : Prop :=
  Rested inherited floor ∧ (reason.code.carried = true → Steady inherited floor)

def stages : Run.Stages β where
  asks := fun _ => True
  between := Steady inherited
  calling := Calling inherited
  opened := fun _ => Steady inherited
  working := fun _ => Steady inherited
  over_ := Rested inherited
  failed := fun _ => Calling inherited
  ended := Ended inherited

variable {inherited} {floor : Floor β} {deed : Deed}

theorem Steady.noted (steady : Steady inherited floor) (mute : deed.speaks = false) :
    Steady inherited (floor.noted deed) := by
  refine ⟨steady.1.noted mute, steady.2.concat ?_⟩
  rintro request rfl
  cases mute

theorem Calling.noted (calling : Calling inherited floor)
    (mute : deed.speaks = false) : Calling inherited (floor.noted deed) := by
  refine ⟨calling.1.noted mute, calling.2.concat ?_⟩
  rintro request rfl
  cases mute

theorem Steady.ended (steady : Steady inherited floor) (reason : AxError) :
    Ended inherited reason floor := ⟨steady.1, fun _ => steady⟩

theorem Steady.calling (steady : Steady inherited floor) : Calling inherited floor := by
  refine ⟨steady.1, ?_⟩
  intro all request member
  exact (steady.2 all request member).trans (List.take_prefix _ _)

theorem Calling.marked (calling : Calling inherited floor) : Steady inherited (Run.marked floor) :=
  ⟨calling.1.marked, calling.2.marked⟩

theorem Steady.told (steady : Steady inherited floor) (text : List Char) :
    Steady inherited (floor.told text) :=
  ⟨steady.1.told text, wired_told steady.1 steady.2 text⟩

theorem abides_steady : @Act.Abides β (Steady inherited) (Ended inherited) where
  appends := fun _ _ _ steady => steady.noted rfl
  barriers := by
    apply Act.keeps_barrier
    · exact fun _ _ _ steady => steady.noted rfl
    · intro floor refusal _ _ steady
      exact Steady.ended (steady.noted rfl) refusal.reason
  tells := fun text _ steady => steady.told text
  waits := fun _ _ steady => steady

theorem abides_rested : @Act.Abides β (Rested inherited) (Ended inherited) where
  appends := fun _ _ _ rested => rested.noted rfl
  barriers := by
    apply Act.keeps_barrier
    · exact fun _ _ _ rested => rested.noted rfl
    · intro floor refusal _ _ rested
      refine ⟨rested.noted rfl, ?_⟩
      intro carried
      rw [refusal.fatal] at carried
      cases carried
  tells := fun text _ rested => rested.told text
  waits := fun _ _ rested => rested

theorem talk_call_rules (hooks : RunHooks β τ) (request : List ChatMessage) :
    ModelCall.Rules hooks request
      (fun floor => Calling inherited floor ∧ floor.conversation.messages = request)
      (fun _ => Calling inherited) where
  ends := fun _ _ start => start.1
  appends := fun _ _ _ start => ⟨start.1.noted rfl, start.2⟩
  barriers := by
    apply Act.keeps_barrier
    · exact fun _ _ _ start => ⟨start.1.noted rfl, start.2⟩
    · exact fun _ _ _ _ start => start.1.noted rfl
  reads := fun _ _ _ start => ⟨start.1.noted rfl, start.2⟩
  sends := by
    rintro floor - ⟨calling, rfl⟩
    exact ⟨⟨calling.1.sent calling.2, calling.2.sent⟩, rfl⟩

theorem talk_rules (setting : Setting) (hooks : RunHooks β τ) (addr : Address) :
    Run.Rules setting hooks addr (stages inherited) where
  between := abides_steady
  opened := fun _ => abides_steady
  working := fun _ => abides_steady
  over_ := abides_rested
  ends := fun reason _ steady => steady.ended reason
  rests := fun _ steady => steady.1
  prompts := fun _ _ steady => steady
  calls := fun _ steady => steady.calling
  call := talk_call_rules hooks
  marks := fun _ calling => calling.marked
  fails := fun reason _ failed => failed.marked.ended reason
  hears := fun _ text _ ended => ⟨ended.1.told text, fun carried => (ended.2 carried).told text⟩
  waits := fun _ _ _ ended => ended
  replies := fun _ _ => trivial
  checkpoints := by
    intro calls _
    apply keeps_checkpointWave
    · exact fun reason _ steady => steady.ended reason
    · exact abides_steady.appends
    · exact fun _ _ steady => steady
    · exact fun _ _ steady => steady
    · exact fun _ _ steady => steady.noted rfl
  leaves := fun _ _ steady => steady.1
  notes := fun _ _ _ steady => steady.noted rfl
  wave := fun _ => {
    ends := fun reason _ steady => steady.ended reason
    appends := abides_steady.appends
    barriers := abides_steady.barriers
    asks := keeps_stillGoing abides_steady
    admits := fun _ _ _ steady => steady
    accounts := fun _ _ _ _ _ _ steady => Steady.noted steady rfl
    reads := fun _ _ _ _ steady => steady.noted rfl
    acts := fun _ _ _ _ _ steady => steady.noted rfl }
  stops := fun _ _ steady => steady.1
  closes := fun _ _ _ _ answers loud steady =>
    ⟨steady.1.closed answers _, wired_closed steady.1.within steady.2 loud⟩
  silences := fun _ _ _ answers _ steady => steady.1.closed answers 0

theorem steady_dispatch (plan : Run.RunPlan) (book : Book) (bench : β) :
    Steady plan.inherited (dispatch plan book bench) := by
  have opening : Talking plan.inherited [] (Conversation.new.pushInherited plan.inherited) := by
    refine ⟨⟨?_, always_nil, always_nil⟩, ?_, Nat.zero_le _, fun some_ => ?_⟩
    · simp [pushInherited, Conversation.new, texts, arrivals]
    · simp [pushInherited, Conversation.new, spoken]
    · cases some_ rfl
  refine ⟨opening.told plan.taskText, ?_⟩
  intro _ request member
  cases mem_singleton.mp member

theorem drive_talk (setting : Setting) (plan : Run.RunPlan) (book : Book) (bench : β)
    (turns : List (Run.Driven β τ)) :
    Rested plan.inherited (Run.drive setting plan.addr turns (dispatch plan book bench)) := by
  have settles : ∀ floor : Floor β, Rested plan.inherited floor →
      Rested plan.inherited (run Act.barrier floor).2 := by
    intro floor rested
    have kept := (@abides_rested β plan.inherited).barriers floor rested
    cases done : run Act.barrier floor with
    | mk result after =>
      rw [done] at kept
      cases result with
      | ok _ => exact kept
      | error _ => exact kept.1
  apply @Run.drive_keeps _ _ _ (stages plan.inherited)
  · exact fun turn _ => ⟨_, talk_rules setting turn.hooks plan.addr⟩
  · exact steady_dispatch plan book bench
  · exact fun _ steady => steady.1
  · exact settles
  · exact fun _ floor ended => settles floor ended.1
  · intro reason floor after carried ended done
    have kept := abides_steady.barriers floor (ended.2 carried)
    rw [done] at kept
    exact kept

end Runs

/-- Any calls on an empty conversation leave no two neighbouring user messages and each block in one
place; and in a run the user's texts stand in the order they came, each reply before the results
that answer it, and, as long as every reply that makes calls says something, each request continues
the ones before. -/
theorem conversation_orderly :
    (∀ ops : List ConversationOp,
      ConversationOp.Accounts ops (ops.foldl ConversationOp.apply Conversation.new)) ∧
    ∀ (β τ : Type) (setting : Setting) (plan : Run.RunPlan) (book : Book) (bench : β)
      (turns : List (Run.Driven β τ)),
      Talk plan.inherited
        (Run.drive setting plan.addr turns (dispatch plan book bench)).deeds
        (Run.drive setting plan.addr turns (dispatch plan book bench)).conversation := by
  constructor
  · exact ConversationOp.accounts_after
  · intro β τ setting plan book bench turns
    exact (drive_talk setting plan book bench turns).talk

end Talk

end Sprawling
