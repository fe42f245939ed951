import Mathlib.Data.List.Chain
import Sprawling.Kernel.Record

namespace Sprawling

open List

/-- `<`, `>` and `&` as entities. -/
def escapeMarkup (text : List Char) : List Char :=
  text.flatMap fun c =>
    if c = '<' then "&lt;".toList
    else if c = '>' then "&gt;".toList
    else if c = '&' then "&amp;".toList
    else [c]

/-- Why a letter reached the window. -/
inductive LetterKind where
  | steer
  | reply
deriving DecidableEq

namespace LetterKind

def asStr : LetterKind → List Char
  | .steer => "steer".toList
  | .reply => "reply".toList

def parse (raw : List Char) : Option LetterKind :=
  [LetterKind.steer, .reply].find? fun kind => kind.asStr = raw

end LetterKind

/-- Where a resident's letter came from, as the city stamped it. -/
structure Letter where
  from_ : List Char
  run : Option RunId
  kind : LetterKind
  sender : Option (List Char)
deriving DecidableEq

namespace Letter

/-- The attributes after the sending room, an unknown one left out. -/
def attributes (letter : Letter) : List (List Char × List Char) :=
  (letter.run.map fun run => ("run".toList, run.display)).toList
    ++ [("kind".toList, letter.kind.asStr)]
    ++ (letter.sender.map fun sender => ("sender".toList, sender)).toList

end Letter

/-- Who said a steer's text. -/
inductive Speaker where
  | person
  | city
  | resident (letter : Letter)
deriving DecidableEq

namespace Speaker

def personSource : List Char := "user".toList

def citySource : List Char := "city".toList

/-- The spelling a `steer_received` line records its speaker in. -/
def recorded : Speaker → List Char
  | .person => personSource
  | .city => citySource
  | .resident letter =>
    letter.attributes.foldl (fun source entry => source ++ ' ' :: entry.1 ++ '=' :: entry.2)
      ('@' :: letter.from_)

def render (speaker : Speaker) (text : List Char) : List Char :=
  match speaker with
  | .person => personSource ++ ": ".toList ++ text
  | .city => citySource ++ ": ".toList ++ text
  | .resident letter =>
    letter.attributes.foldl
        (fun opened entry =>
          opened ++ ' ' :: entry.1 ++ "=\"".toList ++ escapeMarkup entry.2 ++ "\"".toList)
        ("<letter from=\"@".toList ++ escapeMarkup letter.from_ ++ "\"".toList)
      ++ '>' :: escapeMarkup text ++ "</letter>".toList

def unreadable (source : List Char) : AxError :=
  .failure .invalidArgs "read who said a recorded steer" (String.ofList source)
    "a steer_received source is `user`, `city` or `@<room>` with run=, kind= and sender="

/-- One `key=value` of a recorded letter. -/
def readAttribute (source : List Char) (letter : Letter) (part : List Char) :
    Except AxError Letter :=
  match Text.splitOnce '=' part with
  | some (key, raw) =>
    if key = "run".toList then do
      let run ← RunId.parse raw
      return { letter with run := some run }
    else if key = "kind".toList then
      match LetterKind.parse raw with
      | some kind => .ok { letter with kind }
      | none => .error (unreadable source)
    else if key = "sender".toList then .ok { letter with sender := some raw }
    else .error (unreadable source)
  | none => .error (unreadable source)

/-- The sending room of a recorded letter. -/
def readFrom : List Char → Option (List Char)
  | '@' :: from_ => if from_.isEmpty then none else some from_
  | _ => none

/-- Reads `recorded` back. -/
def fromRecorded (source : List Char) : Except AxError Speaker :=
  if source = personSource then .ok .person
  else if source = citySource then .ok .city
  else
    match source.splitOn ' ' with
    | [] => .error (unreadable source)
    | head :: parts =>
      match readFrom head with
      | none => .error (unreadable source)
      | some from_ => do
          let letter ← parts.foldlM (readAttribute source)
            { from_, run := none, kind := .steer, sender := none }
          return .resident letter

end Speaker

/-- The run's history of messages: how many of them the last assembly sent, and the user text
that arrived while the open user message was already sent. -/
structure Conversation where
  messages : List ChatMessage
  sent : Nat
  held : List ContentBlock

namespace Conversation

def new : Conversation := { messages := [], sent := 0, held := [] }

/-- The last message when it is the user's. -/
def lastUser (conversation : Conversation) : Option ChatMessage :=
  match conversation.messages.getLast? with
  | some last => if last.role = .user then some last else none
  | none => none

/-- The last message, which is the user's, with more blocks. -/
def extendLast (conversation : Conversation) (last : ChatMessage) (blocks : List ContentBlock) :
    List ChatMessage :=
  conversation.messages.dropLast ++ [{ last with content := last.content ++ blocks }]

def pushUser (conversation : Conversation) (blocks : List ContentBlock) : Conversation :=
  if blocks.isEmpty then conversation
  else
    match conversation.lastUser with
    | some last =>
      if conversation.sent < conversation.messages.length then
        { conversation with messages := conversation.extendLast last blocks }
      else { conversation with held := conversation.held ++ blocks }
    | none =>
      { conversation with
        messages := conversation.messages ++ [{ role := .user, content := blocks }] }

def pushUserText (conversation : Conversation) (text : List Char) : Conversation :=
  conversation.pushUser [.text text]

/-- The text of the dispatch lines. -/
def taskText (task goal : List Char) (opening : Opening) (handedBy : List Char) : List Char :=
  match opening with
  | .fromJob => "The task is in JOB.md above, handed down by ".toList ++ handedBy ++ ['.']
  | .inherited =>
    "Handed down by ".toList ++ escapeMarkup handedBy ++ ":\n<task>".toList ++ escapeMarkup task
      ++ "</task>\n<goal>".toList ++ escapeMarkup goal ++ "</goal>".toList
  | .withPerson => task

def pushTaskLines (conversation : Conversation) (task goal : List Char) (opening : Opening)
    (handedBy : List Char) : Conversation :=
  conversation.pushUserText (taskText task goal opening handedBy)

def pushSteer (conversation : Conversation) (speaker : Speaker) (text : List Char) :
    Conversation :=
  conversation.pushUserText (speaker.render text)

/-- The context reminder, already in words, takes the same door as a steer. -/
def pushReminder (conversation : Conversation) (reminder : List Char) : Conversation :=
  conversation.pushUserText reminder

def pushInherited (conversation : Conversation) (messages : List ChatMessage) : Conversation :=
  { conversation with messages := conversation.messages ++ messages }

def pushAssistant (conversation : Conversation) (content : List ContentBlock) : Conversation :=
  if content.isEmpty then conversation
  else
    { conversation with
      messages := conversation.messages ++ [{ role := .assistant, content }] }

/-- Tool results join the last user message, or open the next one, and the text held since the
last assembly follows them. -/
def pushToolResults (conversation : Conversation) (results : List ContentBlock) : Conversation :=
  let blocks := results ++ conversation.held
  let conversation := { conversation with held := [] }
  if blocks.isEmpty then conversation
  else
    match conversation.lastUser with
    | some last =>
      { conversation with
        messages := conversation.extendLast last blocks
        sent := min conversation.sent (conversation.messages.length - 1) }
    | none =>
      { conversation with
        messages := conversation.messages ++ [{ role := .user, content := blocks }] }

/-- Everything in `messages` is now on the wire. -/
def markSent (conversation : Conversation) : Conversation :=
  { conversation with sent := conversation.messages.length }

/-- No two neighbours are both the user's. -/
def Apart (messages : List ChatMessage) : Prop :=
  messages.IsChain fun earlier later => ¬(earlier.role = .user ∧ later.role = .user)

/-- Everything in the user's messages. -/
def userBlocks (messages : List ChatMessage) : List ContentBlock :=
  messages.flatMap fun message => if message.role = .user then message.content else []

/-- What the assistant said, a message an entry. -/
def replies (messages : List ChatMessage) : List (List ContentBlock) :=
  (messages.filter (·.role = .assistant)).map (·.content)

theorem userBlocks_append (front back : List ChatMessage) :
    userBlocks (front ++ back) = userBlocks front ++ userBlocks back := flatMap_append

theorem replies_append (front back : List ChatMessage) :
    replies (front ++ back) = replies front ++ replies back := by
  rw [replies, filter_append, map_append]
  rfl

@[simp] theorem userBlocks_user (content : List ContentBlock) :
    userBlocks [{ role := .user, content }] = content := by
  simp [userBlocks]

@[simp] theorem userBlocks_assistant (content : List ContentBlock) :
    userBlocks [{ role := .assistant, content }] = [] := by
  simp [userBlocks]

@[simp] theorem replies_user (content : List ContentBlock) :
    replies [{ role := .user, content }] = [] := by
  simp [replies]

@[simp] theorem replies_assistant (content : List ContentBlock) :
    replies [{ role := .assistant, content }] = [content] := by
  simp [replies]

section Shapes

variable {conversation : Conversation} {blocks results content : List ContentBlock}

/-- The messages end with one of the user's, and `front` is what stands before it. -/
def EndsWith (conversation : Conversation) (front : List ChatMessage)
    (content : List ContentBlock) : Prop :=
  conversation.messages = front ++ [{ role := .user, content }]

/-- The next user block opens a message. -/
def AtReply (conversation : Conversation) : Prop :=
  ∀ last ∈ conversation.messages.getLast?, last.role = .assistant

theorem endsWith_or_atReply (conversation : Conversation) :
    (∃ front content, conversation.EndsWith front content) ∨ conversation.AtReply := by
  cases tail : conversation.messages.getLast? with
  | none =>
    right
    intro last member
    rw [tail] at member
    cases member
  | some last =>
    cases role : last.role with
    | assistant =>
      right
      intro other member
      rw [tail] at member
      cases member
      exact role
    | user =>
      left
      obtain ⟨front, split⟩ := getLast?_eq_some_iff.mp tail
      refine ⟨front, last.content, ?_⟩
      rw [EndsWith, split, ← role]

variable {front : List ChatMessage}

theorem EndsWith.lastUser (ends : conversation.EndsWith front content) :
    conversation.lastUser = some { role := .user, content } := by
  rw [Conversation.lastUser, ends, getLast?_concat]
  rfl

theorem EndsWith.extendLast (ends : conversation.EndsWith front content)
    (blocks : List ContentBlock) :
    conversation.extendLast { role := .user, content } blocks =
      front ++ [{ role := .user, content := content ++ blocks }] := by
  rw [Conversation.extendLast, ends, dropLast_concat]

theorem AtReply.lastUser (fresh : conversation.AtReply) : conversation.lastUser = none := by
  rw [Conversation.lastUser]
  cases tail : conversation.messages.getLast? with
  | none => rfl
  | some last =>
    have spoken := fresh last tail
    simp only [spoken]
    rfl

theorem pushUser_open (ends : conversation.EndsWith front content)
    (unsent : conversation.sent < conversation.messages.length) :
    conversation.pushUser blocks =
      { conversation with
        messages := front ++ [{ role := .user, content := content ++ blocks }] } := by
  by_cases empty : blocks = []
  · subst empty
    rw [append_nil, ← show conversation.messages = _ from ends]
    rfl
  · rw [pushUser, if_neg (by simpa using empty), ends.lastUser]
    simp only [if_pos unsent, ends.extendLast]

theorem pushUser_sent (ends : conversation.EndsWith front content)
    (sent : conversation.messages.length ≤ conversation.sent) :
    conversation.pushUser blocks = { conversation with held := conversation.held ++ blocks } := by
  by_cases empty : blocks = []
  · subst empty
    rw [append_nil]
    rfl
  · rw [pushUser, if_neg (by simpa using empty), ends.lastUser]
    simp only [if_neg (Nat.not_lt.mpr sent)]

theorem pushUser_fresh (fresh : conversation.AtReply) (some_ : blocks ≠ []) :
    conversation.pushUser blocks =
      { conversation with
        messages := conversation.messages ++ [{ role := .user, content := blocks }] } := by
  rw [pushUser, if_neg (by simpa using some_), fresh.lastUser]

theorem pushToolResults_nothing (none_ : results ++ conversation.held = []) :
    conversation.pushToolResults results = { conversation with held := [] } := by
  simp only [pushToolResults, none_, isEmpty_nil, if_pos]

theorem pushToolResults_joined (ends : conversation.EndsWith front content)
    (some_ : results ++ conversation.held ≠ []) :
    conversation.pushToolResults results =
      { messages :=
          front ++ [{ role := .user, content := content ++ (results ++ conversation.held) }]
        sent := min conversation.sent (conversation.messages.length - 1)
        held := [] } := by
  have ends_ : EndsWith { conversation with held := [] } front content := ends
  simp only [pushToolResults, List.isEmpty_iff, if_neg some_, ends_.lastUser, ends_.extendLast]

theorem pushToolResults_fresh (fresh : conversation.AtReply)
    (some_ : results ++ conversation.held ≠ []) :
    conversation.pushToolResults results =
      { conversation with
        messages := conversation.messages
          ++ [{ role := .user, content := results ++ conversation.held }]
        held := [] } := by
  have fresh_ : AtReply { conversation with held := [] } := fresh
  simp only [pushToolResults, List.isEmpty_iff, if_neg some_, fresh_.lastUser]

theorem pushAssistant_some (said : content ≠ []) :
    conversation.pushAssistant content =
      { conversation with
        messages := conversation.messages ++ [{ role := .assistant, content }] } := by
  rw [pushAssistant, if_neg (by simpa using said)]

theorem atReply_pushAssistant (said : content ≠ []) :
    (conversation.pushAssistant content).AtReply := by
  rw [pushAssistant_some said]
  intro last member
  rw [getLast?_concat] at member
  cases member
  rfl

end Shapes

section Pushes

variable {conversation : Conversation} {messages : List ChatMessage}

theorem Apart.concat_user (apart : Apart messages)
    (fresh : ∀ last ∈ messages.getLast?, last.role = .assistant) (content : List ContentBlock) :
    Apart (messages ++ [{ role := .user, content }]) := by
  apply isChain_append.mpr
  refine ⟨apart, isChain_singleton _, ?_⟩
  intro last member next _ both
  have spoken := fresh last member
  rw [spoken] at both
  cases both.1

theorem Apart.concat_assistant (apart : Apart messages)
    (content : List ContentBlock) : Apart (messages ++ [{ role := .assistant, content }]) := by
  apply isChain_append.mpr
  refine ⟨apart, isChain_singleton _, ?_⟩
  intro last _ next member both
  rw [head?_cons, Option.mem_some_iff] at member
  rw [← member] at both
  cases both.2

theorem Apart.relabel {front : List ChatMessage} {before after : List ContentBlock}
    (apart : Apart (front ++ [{ role := .user, content := before }])) :
    Apart (front ++ [{ role := .user, content := after }]) := by
  rw [Apart, isChain_append] at apart ⊢
  refine ⟨apart.1, isChain_singleton _, ?_⟩
  intro last member next standing
  rw [head?_cons, Option.mem_some_iff] at standing
  have pair := apart.2.2 last member { role := .user, content := before } (by simp)
  rw [← standing]
  exact pair

theorem apart_pushUser (apart : Apart conversation.messages) (blocks : List ContentBlock) :
    Apart (conversation.pushUser blocks).messages := by
  rcases conversation.endsWith_or_atReply with ⟨front, content, ends⟩ | fresh
  · by_cases unsent : conversation.sent < conversation.messages.length
    · rw [pushUser_open ends unsent]
      exact Apart.relabel (ends ▸ apart)
    · rw [pushUser_sent ends (by omega)]
      exact apart
  · by_cases empty : blocks = []
    · subst empty
      exact apart
    · rw [pushUser_fresh fresh empty]
      exact apart.concat_user fresh blocks

theorem apart_pushAssistant (apart : Apart conversation.messages) (content : List ContentBlock) :
    Apart (conversation.pushAssistant content).messages := by
  by_cases empty : content = []
  · subst empty
    exact apart
  · rw [pushAssistant_some empty]
    exact apart.concat_assistant content

theorem apart_pushToolResults (apart : Apart conversation.messages)
    (results : List ContentBlock) : Apart (conversation.pushToolResults results).messages := by
  by_cases empty : results ++ conversation.held = []
  · rw [pushToolResults_nothing empty]
    exact apart
  · rcases conversation.endsWith_or_atReply with ⟨front, content, ends⟩ | fresh
    · rw [pushToolResults_joined ends empty]
      exact Apart.relabel (ends ▸ apart)
    · rw [pushToolResults_fresh fresh empty]
      exact apart.concat_user fresh _

/-- What of the user's is in the messages or still held back. -/
def userSide (conversation : Conversation) : List ContentBlock :=
  userBlocks conversation.messages ++ conversation.held

theorem userSide_pushUser (conversation : Conversation) (blocks : List ContentBlock) :
    (conversation.pushUser blocks).userSide.Perm (conversation.userSide ++ blocks) := by
  rcases conversation.endsWith_or_atReply with ⟨front, content, ends⟩ | fresh
  · by_cases unsent : conversation.sent < conversation.messages.length
    · rw [pushUser_open ends unsent, userSide, userSide, ends]
      simp only [userBlocks_append, userBlocks_user, append_assoc]
      exact (perm_append_comm.append_left content).append_left (userBlocks front)
    · rw [pushUser_sent ends (by omega), userSide, userSide, append_assoc]
  · by_cases empty : blocks = []
    · subst empty
      rw [append_nil]
      exact List.Perm.refl _
    · rw [pushUser_fresh fresh empty, userSide, userSide]
      simp only [userBlocks_append, userBlocks_user, append_assoc]
      exact perm_append_comm.append_left _

theorem userSide_pushAssistant (conversation : Conversation) (content : List ContentBlock) :
    (conversation.pushAssistant content).userSide = conversation.userSide := by
  by_cases empty : content = []
  · subst empty
    rfl
  · rw [pushAssistant_some empty, userSide, userSide, userBlocks_append, userBlocks_assistant,
      append_nil]

theorem userSide_pushToolResults (conversation : Conversation) (results : List ContentBlock) :
    (conversation.pushToolResults results).userSide.Perm (conversation.userSide ++ results) := by
  by_cases empty : results ++ conversation.held = []
  · rw [pushToolResults_nothing empty]
    rw [append_eq_nil_iff] at empty
    rw [userSide, userSide, empty.1, empty.2, append_nil, append_nil]
  · rcases conversation.endsWith_or_atReply with ⟨front, content, ends⟩ | fresh
    · rw [pushToolResults_joined ends empty, userSide, userSide, ends]
      simp only [userBlocks_append, userBlocks_user, append_assoc, append_nil]
      exact (perm_append_comm.append_left content).append_left (userBlocks front)
    · rw [pushToolResults_fresh fresh empty, userSide, userSide]
      simp only [userBlocks_append, userBlocks_user, append_assoc, append_nil]
      exact perm_append_comm.append_left _

theorem replies_pushUser (conversation : Conversation) (blocks : List ContentBlock) :
    replies (conversation.pushUser blocks).messages = replies conversation.messages := by
  rcases conversation.endsWith_or_atReply with ⟨front, content, ends⟩ | fresh
  · by_cases unsent : conversation.sent < conversation.messages.length
    · rw [pushUser_open ends unsent, ends, replies_append, replies_append, replies_user,
        replies_user]
    · rw [pushUser_sent ends (by omega)]
  · by_cases empty : blocks = []
    · subst empty
      rfl
    · rw [pushUser_fresh fresh empty, replies_append, replies_user, append_nil]

theorem replies_pushToolResults (conversation : Conversation) (results : List ContentBlock) :
    replies (conversation.pushToolResults results).messages = replies conversation.messages := by
  by_cases empty : results ++ conversation.held = []
  · rw [pushToolResults_nothing empty]
  · rcases conversation.endsWith_or_atReply with ⟨front, content, ends⟩ | fresh
    · rw [pushToolResults_joined ends empty, ends, replies_append, replies_append, replies_user,
        replies_user]
    · rw [pushToolResults_fresh fresh empty, replies_append, replies_user, append_nil]

end Pushes

end Conversation

/-- The calls a conversation takes. -/
inductive ConversationOp where
  | taskLines (task goal : List Char) (opening : Opening) (handedBy : List Char)
  | steer (speaker : Speaker) (text : List Char)
  | reminder (words : List Char)
  | assistant (content : List ContentBlock)
  | toolResults (results : List ContentBlock)
  | markSent

namespace ConversationOp

def apply (conversation : Conversation) : ConversationOp → Conversation
  | .taskLines task goal opening handedBy =>
    conversation.pushTaskLines task goal opening handedBy
  | .steer speaker text => conversation.pushSteer speaker text
  | .reminder words => conversation.pushReminder words
  | .assistant content => conversation.pushAssistant content
  | .toolResults results => conversation.pushToolResults results
  | .markSent => conversation.markSent

/-- The user's blocks the call hands over. -/
def userBlocks : ConversationOp → List ContentBlock
  | .taskLines task goal opening handedBy =>
    [.text (Conversation.taskText task goal opening handedBy)]
  | .steer speaker text => [.text (speaker.render text)]
  | .reminder words => [.text words]
  | .toolResults results => results
  | .assistant _ | .markSent => []

/-- The reply the call hands over; an empty one is no message. -/
def reply : ConversationOp → Option (List ContentBlock)
  | .assistant content => if content.isEmpty then none else some content
  | _ => none

/-- After any calls on an empty conversation: no two neighbouring messages are the user's, each
user block handed over is in a user message or held back exactly once, and the assistant messages
are the replies handed over, in their order. -/
structure Accounts (ops : List ConversationOp) (conversation : Conversation) : Prop where
  apart : Conversation.Apart conversation.messages
  blocks : (Conversation.userBlocks conversation.messages ++ conversation.held).Perm
    (ops.flatMap userBlocks)
  replies : Conversation.replies conversation.messages = ops.filterMap reply

variable {conversation : Conversation} {ops : List ConversationOp}

theorem Accounts.user
    (accounts : Accounts ops conversation) (op : ConversationOp) (silent : op.reply = none)
    (same : op.apply conversation = conversation.pushUser op.userBlocks) :
    Accounts (ops ++ [op]) (op.apply conversation) := by
  rw [same]
  refine ⟨Conversation.apart_pushUser accounts.apart _, ?_, ?_⟩
  · rw [flatMap_append, flatMap_singleton]
    exact (conversation.userSide_pushUser _).trans (accounts.blocks.append_right _)
  · rw [Conversation.replies_pushUser, accounts.replies, filterMap_append]
    simp [silent]

theorem Accounts.step (accounts : Accounts ops conversation) (op : ConversationOp) :
    Accounts (ops ++ [op]) (op.apply conversation) := by
  cases op with
  | taskLines task goal opening handedBy => exact accounts.user _ rfl rfl
  | steer speaker text => exact accounts.user _ rfl rfl
  | reminder words => exact accounts.user _ rfl rfl
  | assistant content =>
    refine ⟨Conversation.apart_pushAssistant accounts.apart _, ?_, ?_⟩
    · rw [flatMap_append, flatMap_singleton]
      show (conversation.pushAssistant content).userSide.Perm _
      rw [conversation.userSide_pushAssistant]
      exact accounts.blocks.trans (by rw [userBlocks, append_nil])
    · rw [filterMap_append, ← accounts.replies]
      by_cases empty : content = []
      · subst empty
        simp [apply, reply, Conversation.pushAssistant]
      · simp [apply, reply, Conversation.pushAssistant_some empty, Conversation.replies_append,
          empty]
  | toolResults results =>
    refine ⟨Conversation.apart_pushToolResults accounts.apart _, ?_, ?_⟩
    · rw [flatMap_append, flatMap_singleton]
      exact (conversation.userSide_pushToolResults _).trans (accounts.blocks.append_right _)
    · rw [apply, Conversation.replies_pushToolResults, accounts.replies, filterMap_append]
      simp [reply]
  | markSent =>
    refine ⟨accounts.apart, ?_, ?_⟩
    · rw [flatMap_append, flatMap_singleton, userBlocks, append_nil]
      exact accounts.blocks
    · rw [filterMap_append, filterMap_cons_none rfl, filterMap_nil, append_nil]
      exact accounts.replies

theorem accounts_after (ops : List ConversationOp) :
    Accounts ops (ops.foldl apply Conversation.new) := by
  suffices later : ∀ (rest done : List ConversationOp) (conversation : Conversation),
      Accounts done conversation → Accounts (done ++ rest) (rest.foldl apply conversation) by
    exact later ops [] Conversation.new ⟨isChain_nil, List.Perm.refl _, rfl⟩
  intro rest
  induction rest with
  | nil =>
    intro done conversation accounts
    rwa [append_nil]
  | cons op rest ih =>
    intro done conversation accounts
    have next := ih (done ++ [op]) _ (accounts.step op)
    rwa [append_assoc] at next

end ConversationOp

end Sprawling
