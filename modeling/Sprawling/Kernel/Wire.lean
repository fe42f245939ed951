import Sprawling.Base.Json
import Sprawling.Kernel.Locator

/-! What the model reads and says: messages, their blocks, and the calls a reply asks for. -/

namespace Sprawling

/-- Tool identity: non-empty ascii lowercase, digits, underscore. -/
structure ToolName where
  text : List Char
  wellFormed : text ≠ [] ∧ text.all (fun c => c.isLower || c.isDigit || c == '_') = true
deriving DecidableEq

namespace ToolName

def exec : ToolName := ⟨"exec".toList, by decide⟩

end ToolName

inductive Role where
  | user
  | assistant
deriving DecidableEq

inductive ImageType where
  | png
  | jpeg
  | webp
  | gif

/-- A picture in the content store, by reference. -/
structure ImageRef where
  locator : Locator
  mediaType : ImageType
  width : UInt32
  height : UInt32

inductive ContentBlock where
  | text (text : List Char)
  | thinking (thinking signature : List Char)
  | redactedThinking (data : List Char)
  | toolUse (id : List Char) (name : ToolName) (input : Json)
  | image (picture : ImageRef)
  | toolResult (toolUseId content : List Char) (isError : Bool) (attachments : List ImageRef)

structure ChatMessage where
  role : Role
  content : List ContentBlock

/-- One call as the model wrote it; the call and its result pair by `id`. -/
structure ToolCall where
  id : List Char
  name : ToolName
  args : Json
deriving DecidableEq

/-- What a tool answered: its payload, and the pictures it produced. -/
structure ToolOutcome where
  result : Json
  attachments : List ImageRef

/-- What a call's tool answers. -/
abbrev ToolReply := Except AxError ToolOutcome

end Sprawling
