import Sprawling.Gateway.Normalise

/-! What a provider's own documentation says about its host: the faces it answers on and the path each
hangs under. -/

namespace Sprawling

/-- One face a host answers on, and the path it hangs under. -/
structure Face where
  dialect : DialectKind
  path : String

/-- What one vendor serves, and where; its main face first. -/
structure HostPreset where
  host : String
  faces : List Face

namespace HostPreset

/-- The shape this host answers in when nobody said: its one face. -/
def defaultDialect (row : HostPreset) : Option DialectKind :=
  match row.faces with
  | [only] => some only.dialect
  | _ => none

/-- The path the chosen face hangs under; the main face's when the host does not list the chosen one. -/
def pathFor (row : HostPreset) (dialect : Option DialectKind) : Option String :=
  ((dialect.bind fun chosen => row.faces.find? fun face => face.dialect = chosen).or
    row.faces.head?).map Face.path

end HostPreset

namespace Preset

def presets : List HostPreset :=
  [⟨"api.anthropic.com", [⟨.anthropic, "/v1"⟩]⟩,
    ⟨"api.openai.com", [⟨.openAiResponses, "/v1"⟩, ⟨.openAi, "/v1"⟩]⟩,
    ⟨"api.deepseek.com", [⟨.openAi, "/"⟩, ⟨.openAiResponses, "/"⟩, ⟨.anthropic, "/anthropic/v1"⟩]⟩,
    ⟨"api.x.ai", [⟨.openAiResponses, "/v1"⟩, ⟨.openAi, "/v1"⟩]⟩,
    ⟨"openrouter.ai", [⟨.openAi, "/api/v1"⟩]⟩,
    ⟨"generativelanguage.googleapis.com", [⟨.openAi, "/v1beta/openai"⟩]⟩,
    ⟨"open.bigmodel.cn", [⟨.openAi, "/api/paas/v4"⟩]⟩,
    ⟨"api.z.ai", [⟨.openAi, "/api/paas/v4"⟩]⟩,
    ⟨"opencode.ai", [⟨.openAi, "/zen/v1"⟩, ⟨.openAiResponses, "/zen/v1"⟩, ⟨.anthropic, "/zen/v1"⟩]⟩,
    ⟨"api.kimi.com", [⟨.openAi, "/coding/v1"⟩, ⟨.anthropic, "/coding/v1"⟩]⟩,
    ⟨"api.moonshot.cn", [⟨.openAi, "/v1"⟩]⟩,
    ⟨"api.moonshot.ai", [⟨.openAi, "/v1"⟩]⟩,
    ⟨"dashscope-us.aliyuncs.com", [⟨.openAi, "/compatible-mode/v1"⟩]⟩]

/-- The row for one host. -/
def forHost (host : List Char) : Option HostPreset :=
  presets.find? fun row => row.host.toList = host

/-- The preset table as the host authority the normaliser reads. -/
def defaults : HostDefaults where
  defaultPath host face := ((forHost host).bind fun row => row.pathFor face.dialect).map String.toList
  defaultDialect host := ((forHost host).bind HostPreset.defaultDialect).map DialectHint.ofKind

end Preset

/-- What a person entered, resolved against the provider table this build ships. -/
def normaliseEntered (entered : List Char) (hint : DialectHint) : Except AxError Normalised :=
  normalise entered hint Preset.defaults

namespace Preset

open Normalise

/-- A path that a second pass finds as it stands: none, or one without a mark or an empty segment, that
ends in no face and in no blank. -/
def Settled (path : List Char) : Prop :=
  path = [] ∨ '?' ∉ path ∧ '#' ∉ path ∧ (∀ segment ∈ path.splitOn '/', segment ≠ []) ∧
    (stripOneFace (path.splitOn '/')).2 = .unset ∧
    path.getLast?.any Text.isWhitespace = false

instance (path : List Char) : Decidable (Settled path) := by
  unfold Settled
  infer_instance

variable {host : List Char}

theorem mem_of_forHost {row : HostPreset} (found : forHost host = some row) :
    row ∈ presets ∧ row.host.toList = host :=
  ⟨List.mem_of_find?_eq_some found, by simpa using List.find?_some found⟩

example : (forHost "api.deepseek.com".toList).isSome = true := by decide +kernel

theorem presets_settled (face : DialectHint) : ∀ row ∈ presets,
    (row.pathFor face.dialect).all fun path => Settled (trimSlashes path.toList) := by
  cases face <;> decide +kernel

theorem presets_root (face : DialectHint) : ∀ row ∈ presets,
    ((row.pathFor face.dialect).map fun path => trimSlashes path.toList) = some [] ↔
      row.host = "api.deepseek.com" ∧ face ≠ .messages := by
  cases face <;> decide +kernel

variable {face : DialectHint}

theorem defaultPath_settled {host path : List Char}
    (listed : defaults.defaultPath host face = some path) : Settled (trimSlashes path) := by
  obtain ⟨text, found, rfl⟩ := Option.map_eq_some_iff.mp listed
  obtain ⟨row, of_host, of_face⟩ := Option.bind_eq_some_iff.mp found
  have every := presets_settled face row (mem_of_forHost of_host).1
  rw [of_face] at every
  simpa using every

/-- The host whose chat and responses faces hang straight under it. -/
def rooted : List Char := "api.deepseek.com".toList

theorem defaultPath_root :
    (defaults.defaultPath host face).map trimSlashes = some [] ↔ host = rooted ∧ face ≠ .messages := by
  constructor
  · intro root
    obtain ⟨path, listed, bare⟩ := Option.map_eq_some_iff.mp root
    obtain ⟨text, found, rfl⟩ := Option.map_eq_some_iff.mp listed
    obtain ⟨row, of_host, of_face⟩ := Option.bind_eq_some_iff.mp found
    obtain ⟨member, rfl⟩ := mem_of_forHost of_host
    have same : (row.pathFor face.dialect).map (fun path => trimSlashes path.toList) = some [] := by
      rw [of_face, Option.map_some, bare]
    obtain ⟨named, other⟩ := (presets_root face row member).mp same
    exact ⟨congrArg String.toList named, other⟩
  · rintro ⟨rfl, other⟩
    cases face with
    | messages => exact absurd rfl other
    | unset => decide +kernel
    | chat => decide +kernel
    | responses => decide +kernel

end Preset

end Sprawling
