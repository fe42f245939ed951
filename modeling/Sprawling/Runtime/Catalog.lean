import Sprawling.Kernel.Wire

namespace Sprawling

/-- A tool a run was told of, by its input schema. -/
structure Filed where
  name : List Char
  inputSchema : Json

/-- What a run was told it can reach. -/
structure Catalog where
  tools : List Filed

namespace ToolName

def tool : ToolName := ⟨"tool".toList, by decide⟩

def parse (raw : List Char) : Option ToolName :=
  if valid : raw ≠ [] ∧ raw.all (fun c => c.isLower || c.isDigit || c == '_') = true then
    some ⟨raw, valid⟩
  else none

end ToolName

namespace Catalog

/-- Whether a value is of a JSON Schema type; a type this check does not know is left to the
tool. -/
def isNamed (value : Json) (name : List Char) : Bool :=
  if name = "string".toList then value.asStr.isSome
  else if name = "integer".toList then value.asI64.isSome || value.asU64.isSome
  else if name = "number".toList then match value with | .num _ => true | _ => false
  else if name = "boolean".toList then value.asBool.isSome
  else if name = "array".toList then value.asArray.isSome
  else if name = "object".toList then match value with | .obj _ => true | _ => false
  else if name = "null".toList then value = .null
  else true

/-- The same for a type name or an array of them. -/
def isOf (value wanted : Json) : Bool :=
  match wanted with
  | .str name => isNamed value name
  | .arr names => (names.filterMap Json.asStr).any (isNamed value)
  | .null | .bool _ | .num _ | .obj _ => true

/-- Whether one argument fits the schema. -/
def fitsOne (schema : Json) (key : String) (value : Json) : Bool :=
  match (schema.get "properties").bind fun properties => properties.get key with
  | some property =>
    match property.get "type" with
    | some wanted => isOf value wanted
    | none => true
  | none => schema.get "additionalProperties" ≠ some (.bool false)

/-- Whether the arguments fit the top level of the schema. -/
def fits (schema : Json) (args : List (String × Json)) : Bool :=
  let required := (((schema.get "required").bind Json.asArray).getD []).filterMap Json.asStr
  required.all (fun key => args.any fun entry => entry.1.toList = key)
    && args.all fun entry => fitsOne schema entry.1 entry.2

/-- The call a `tool` `run` stands for. Why it stands for none is the `tool` tool's to answer. -/
def resolveRun (catalog : Catalog) (call : ToolCall) : Option ToolCall := do
  if (call.args.get "op").bind Json.asStr ≠ some "run".toList then failure
  let name ← (call.args.get "name").bind Json.asStr
  if name = ToolName.tool.text then failure
  let filed ← catalog.tools.find? fun filed => filed.name = name
  let args ← match call.args.get "args" with
    | some (.obj args) => some args
    | none => some []
    | some _ => none
  if !fits filed.inputSchema args then failure
  let target ← ToolName.parse name
  return { id := call.id, name := target, args := .obj args }

/-- The call as a wave makes it. -/
def resolveCall (catalog : Catalog) (call : ToolCall) : ToolCall :=
  if call.name = .tool then (catalog.resolveRun call).getD call else call

end Catalog

end Sprawling
