namespace Sprawling

/-- The codes the modelled functions answer with. -/
inductive AxCode where
  | invalidArgs
  | evidenceMissing
  | goalConflict
  | locatorInvalid
  | casCorrupt
  | logVersionUnsupported
  | pathNotFound
  | toolUnavailable
  | wireMismatch
  | provider
  | storageFatal
  | gateDenied
  | configInvalid
  | outsideWriteDomain
  | versionConflict
  | busy
  | backpressureShed
  | authRequired
  | pairingRefused
  | delegationDepth
  | crossBuildingDenied
  | historyUnproven
  | toolOutcomeUnknown
deriving DecidableEq

namespace AxCode

/-- Whether an event of a run carries the code; a run ends on any other. -/
def carried : AxCode → Bool
  | .casCorrupt | .logVersionUnsupported | .wireMismatch | .storageFatal | .configInvalid
  | .historyUnproven => false
  | .invalidArgs | .evidenceMissing | .goalConflict | .locatorInvalid | .pathNotFound
  | .toolUnavailable | .provider | .gateDenied | .outsideWriteDomain | .versionConflict | .busy
  | .backpressureShed | .authRequired | .pairingRefused | .delegationDepth
  | .crossBuildingDenied | .toolOutcomeUnknown => true

/-- The wire spelling. -/
def spelling : AxCode → String
  | .invalidArgs => "E_INVALID_ARGS"
  | .evidenceMissing => "E_EVIDENCE_MISSING"
  | .goalConflict => "E_GOAL_CONFLICT"
  | .locatorInvalid => "E_LOCATOR_INVALID"
  | .casCorrupt => "E_CAS_CORRUPT"
  | .logVersionUnsupported => "E_LOG_VERSION_UNSUPPORTED"
  | .pathNotFound => "E_PATH_NOT_FOUND"
  | .toolUnavailable => "E_TOOL_UNAVAILABLE"
  | .wireMismatch => "E_WIRE_MISMATCH"
  | .provider => "E_PROVIDER"
  | .storageFatal => "E_STORAGE_FATAL"
  | .gateDenied => "E_GATE_DENIED"
  | .configInvalid => "E_CONFIG_INVALID"
  | .outsideWriteDomain => "E_OUTSIDE_WRITE_DOMAIN"
  | .versionConflict => "E_VERSION_CONFLICT"
  | .busy => "E_BUSY"
  | .backpressureShed => "E_BACKPRESSURE_SHED"
  | .authRequired => "E_AUTH_REQUIRED"
  | .pairingRefused => "E_PAIRING_REFUSED"
  | .delegationDepth => "E_DELEGATION_DEPTH"
  | .crossBuildingDenied => "E_CROSS_BUILDING_DENIED"
  | .historyUnproven => "E_HISTORY_UNPROVEN"
  | .toolOutcomeUnknown => "E_TOOL_OUTCOME_UNKNOWN"

end AxCode

/-- The city's one error shape: what was attempted, on what, and what to do next. -/
structure AxError where
  code : AxCode
  action : String
  subject : String
  recovery : String
deriving DecidableEq

namespace AxError

/-- A failure that is not a gate's, already with its recovery sentence. -/
def failure (code : AxCode) (action subject recovery : String) : AxError :=
  { code, action, subject, recovery }

/-- The one line a person reads; the recovery is shown beside it. -/
def display (error : AxError) : String :=
  s!"{error.code.spelling}: cannot {error.action} on {error.subject}"

end AxError

end Sprawling
