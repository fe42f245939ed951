import Sprawling.Base.Outcome
import Sprawling.Base.Postcard
import Sprawling.Base.Since
import Sprawling.Kernel.AccountRecovery
import Sprawling.Kernel.EventKind
import Sprawling.Kernel.RunId

/-! The book of attached endpoints and the models chosen from them, and with which account each
room's session goes on: a value rebuilt from the ledger. -/

namespace Sprawling

/-- What a model is asked for. -/
inductive ModelTag where
  | main
  | digest
  | transcribe
  | ocr
deriving DecidableEq

namespace ModelTag

/-- The order the tags are declared in. -/
def index : ModelTag → Nat
  | main => 0
  | digest => 1
  | transcribe => 2
  | ocr => 3

def ofIndex : Nat → Option ModelTag
  | 0 => some main
  | 1 => some digest
  | 2 => some transcribe
  | 3 => some ocr
  | _ => none

instance : Ord ModelTag := ⟨fun first second => compare first.index second.index⟩

theorem compare_def (first second : ModelTag) :
    compare first second = compare first.index second.index := rfl

theorem ofIndex_index (tag : ModelTag) : ofIndex tag.index = some tag := by
  cases tag <;> rfl

instance : Std.TransOrd ModelTag := OrdMap.transOrd_of_key compare_def

instance : Std.LawfulEqOrd ModelTag := OrdMap.lawfulEqOrd_of_key compare_def fun first second same => by
  have both := congrArg ofIndex same
  rw [ofIndex_index, ofIndex_index] at both
  exact Option.some.inj both

end ModelTag

/-- The non-secret identity of an account attempted by a model call. -/
structure ProviderAccountBinding where
  provider : List Char
  account : ServerLabel

/-- One endpoint the person attached: its name, the accounts it declares, and everything else its
registration settles. -/
structure AttachedEndpoint (π ρ : Type) where
  name : List Char
  accounts : Option (List π)
  settings : ρ

structure Choice (μ : Type) where
  endpoint : List Char
  entry : μ

/-- Every endpoint and every choice, rebuilt from the event stream. The client an endpoint's calls
share is built on first use and is no part of what a snapshot keeps. -/
structure EndpointBook (π ρ μ : Type) where
  endpoints : OrdMap (List Char) (AttachedEndpoint π ρ)
  chosen : OrdMap ModelTag (Choice μ)
  affinity : OrdMap Address (OrdMap (List Char) ServerLabel)
  attempts : OrdMap RunId ProviderAccountBinding
  sessionRooms : OrdMap RunId Address

namespace EndpointBook

variable {δ π ρ μ : Type}

/-- How the payloads of the kinds the book owns are read. -/
structure Readers (δ π ρ μ : Type) where
  attached : δ → Except AxError (AttachedEndpoint π ρ)
  lost : δ → Except AxError (List Char)
  choice : δ → Except AxError (ModelTag × Choice μ)
  called : δ → Except AxError (Option ProviderAccountBinding)

/-- A record as far as the book reads it. -/
structure Record (δ : Type) where
  kind : EventKind
  run : RunId
  addr : Option Address
  data : δ

def new : EndpointBook π ρ μ := ⟨∅, ∅, ∅, ∅, ∅⟩

/-- An omitted account list preserves the existing declaration; an explicit one replaces it. -/
def accountsForAttachment (book : EndpointBook π ρ μ) (name : List Char)
    (incoming : Option (List π)) : Option (List π) :=
  incoming <|> (book.endpoints[name]?).bind AttachedEndpoint.accounts

/-- Folds one record. Records of other kinds pass through untouched. -/
def absorb (reads : Readers δ π ρ μ) (book : EndpointBook π ρ μ) (record : Record δ) :
    Except AxError (EndpointBook π ρ μ) :=
  match record.kind with
  | .endpointAttached => do
      let attached ← reads.attached record.data
      let accounts := book.accountsForAttachment attached.name attached.accounts
      return { book with
        endpoints := book.endpoints.insert attached.name { attached with accounts } }
  | .endpointLost => do
      let name ← reads.lost record.data
      return { book with
        endpoints := book.endpoints.erase name
        affinity := book.affinity.filterMap fun _ bindings =>
          if (bindings.erase name).isEmpty then none else some (bindings.erase name)
        chosen := book.chosen.filter fun _ choice => choice.endpoint != name }
  | .modelSelected => do
      let (tag, choice) ← reads.choice record.data
      return { book with chosen := book.chosen.insert tag choice }
  | .runStarted =>
    match record.addr with
    | some addr => .ok { book with sessionRooms := book.sessionRooms.insert record.run addr }
    | none => .ok book
  | .modelCalled => do
      let called ← reads.called record.data
      if record.run ∈ book.sessionRooms then
        match called with
        | some binding => return { book with attempts := book.attempts.insert record.run binding }
        | none => return { book with attempts := book.attempts.erase record.run }
      else return book
  | .modelReturned =>
    match book.sessionRooms[record.run]?, book.attempts[record.run]? with
    | some addr, some binding => .ok { book with
        attempts := book.attempts.erase record.run
        affinity := book.affinity.insert addr
          (((book.affinity[addr]?).getD ∅).insert binding.provider binding.account) }
    | _, _ => .ok book
  | .sessionOpened =>
    match record.addr with
    | some addr => .ok { book with
        affinity := book.affinity.erase addr
        attempts := book.attempts.filter fun run _ => book.sessionRooms[run]? != some addr
        sessionRooms := book.sessionRooms.filter fun _ room => room != addr }
    | none => .ok book
  | .runFrozen => .ok { book with
      attempts := book.attempts.erase record.run
      sessionRooms := book.sessionRooms.erase record.run }
  | _ => .ok book

/-- Folds a stream. -/
def absorbAll (reads : Readers δ π ρ μ) (book : EndpointBook π ρ μ) (records : List (Record δ)) :
    Except AxError (EndpointBook π ρ μ) :=
  records.foldlM (absorb reads) book

/-- The account which last answered successfully in this session. -/
def sessionAccount (book : EndpointBook π ρ μ) (addr : Address) (provider : List Char) :
    Option ServerLabel :=
  (book.affinity[addr]?).bind fun bindings => bindings[provider]?

/-! ### The book as a snapshot holds it -/

def addressCodec : Postcard Address :=
  Postcard.text.through Address.text (fun text => (Address.parse text).toOption) fun addr => by
    rw [Address.parse_text]
    rfl

def runCodec : Postcard RunId :=
  (Postcard.list Postcard.byte).through (fun run => run.bytes.bytes)
    (fun bytes => if sized : bytes.length = 16 then some ⟨⟨bytes, sized⟩⟩ else none) fun run =>
      dif_pos run.bytes.sized

def labelCodec : Postcard ServerLabel :=
  Postcard.text.through ServerLabel.text
    (fun text =>
      if formed : text ≠ [] ∧ text.all ServerLabel.isLabelChar = true then some ⟨text, formed⟩
      else none) fun label => dif_pos label.wellFormed

def tagCodec : Postcard ModelTag :=
  Postcard.number.through ModelTag.index ModelTag.ofIndex ModelTag.ofIndex_index

def bindingCodec : Postcard ProviderAccountBinding :=
  (Postcard.text.pair labelCodec).through (fun binding => (binding.provider, binding.account))
    (fun parts => some ⟨parts.1, parts.2⟩) fun _ => rfl

def choiceCodec (entry : Postcard μ) : Postcard (Choice μ) :=
  (Postcard.text.pair entry).through (fun choice => (choice.endpoint, choice.entry))
    (fun parts => some ⟨parts.1, parts.2⟩) fun _ => rfl

/-- The book field by field, given how an endpoint and a catalogue entry are written. -/
def codec (endpoint : Postcard (AttachedEndpoint π ρ)) (entry : Postcard μ) :
    Postcard (EndpointBook π ρ μ) :=
  ((Postcard.map Postcard.text endpoint).pair ((Postcard.map tagCodec (choiceCodec entry)).pair
    ((Postcard.map addressCodec (Postcard.map Postcard.text labelCodec)).pair
      ((Postcard.map runCodec bindingCodec).pair (Postcard.map runCodec addressCodec))))).through
    (fun book => (book.endpoints, book.chosen, book.affinity, book.attempts, book.sessionRooms))
    (fun parts => some ⟨parts.1, parts.2.1, parts.2.2.1, parts.2.2.2.1, parts.2.2.2.2⟩) fun _ => rfl

/-- The bytes a snapshot holds of the book, in the format its crate writes. -/
def snapshot (format : Postcard (EndpointBook π ρ μ)) (book : EndpointBook π ρ μ) : List UInt8 :=
  format.write book

/-- The book a snapshot's bytes hold. -/
def restored (format : Postcard (EndpointBook π ρ μ)) (bytes : List UInt8) :
    Option (EndpointBook π ρ μ) :=
  (format.read bytes).map Prod.fst

theorem restored_snapshot (format : Postcard (EndpointBook π ρ μ)) (book : EndpointBook π ρ μ) :
    restored format (snapshot format book) = some book := by
  have read := format.reads book []
  rw [List.append_nil] at read
  rw [restored, snapshot, read, Option.map_some]

end EndpointBook

end Sprawling
