import Mathlib.Data.List.Nodup
import Sprawling.Base.Json
import Sprawling.Kernel.Address

namespace Sprawling

open List

/-- Every kind of line the ledger takes. -/
inductive EventKind where
  | cityInitialized | buildingCreated | buildingConfigured | buildingRemoved | sessionOpened
  | runStarted | runForked | promptAssembled | promptShapeCompared | modelCalled | modelReturned
  | toolCalled | toolResult | resultOffloaded | gateChecked | gateDenied | checkpointCommitted
  | handoffWritten | steerReceived | cancelReceived | watchdogFired | budgetLimit | runFrozen
  | logTruncated | signalEnqueued | signalConsumed | draftHeld | draftResolved | goalRegistered
  | goalConflict | arbitrationVerdict | repairStarted | repairReused | worktreeOpened | prOpened
  | prMerged | prRejected | roadmapClaimed | roadmapFinished | roadmapReleased | roadmapSplit
  | roadmapBlocked | pursuitChanged | approvalRequested | approvalResolved | policyCreated
  | policyRevoked | taintPromoted | crossBuildingTransfer | cityHalted | backpressureShed
  | digestInvalidated | endpointAttached | endpointProbed | endpointLost | modelSelected
  | providerDegraded | loginStarted | evalRun | assetArchived | credentialLent | secretCaptured
  | secretEgressBlocked | fileDiscarded | discardRestored | autonomyChanged | wentBack
  | fileRestored | governedDocumentWritten | spineDocumentWritten | rulesChanged
  | toolkitLinkOpened | embeddingCalled | rerankCalled | adviserAsked | adviserAnswered
  | adviserFellBack | cacheRenewed | harnessReported | harnessAnswered | remoteOpened
  | remoteClosed | devicePaired | deviceRevoked | remoteSessionStarted | documentWritten
  | proposalOffered | proposalDecided | proposalWithdrawn | runPolicyChanged | sessionNamed
  | skillAudited | signalWaitStarted | signalWaitEnded | signalLanded | skillShelved | prefixHeld
deriving DecidableEq

namespace EventKind

/-- The word a ledger line says for a kind. -/
def name : EventKind → String
  | .cityInitialized => "city_initialized"
  | .buildingCreated => "building_created"
  | .buildingConfigured => "building_configured"
  | .buildingRemoved => "building_removed"
  | .sessionOpened => "session_opened"
  | .runStarted => "run_started"
  | .runForked => "run_forked"
  | .promptAssembled => "prompt_assembled"
  | .promptShapeCompared => "prompt_shape_compared"
  | .modelCalled => "model_called"
  | .modelReturned => "model_returned"
  | .toolCalled => "tool_called"
  | .toolResult => "tool_result"
  | .resultOffloaded => "result_offloaded"
  | .gateChecked => "gate_checked"
  | .gateDenied => "gate_denied"
  | .checkpointCommitted => "checkpoint_committed"
  | .handoffWritten => "handoff_written"
  | .steerReceived => "steer_received"
  | .cancelReceived => "cancel_received"
  | .watchdogFired => "watchdog_fired"
  | .budgetLimit => "budget_limit"
  | .runFrozen => "run_frozen"
  | .logTruncated => "log_truncated"
  | .signalEnqueued => "signal_enqueued"
  | .signalConsumed => "signal_consumed"
  | .draftHeld => "draft_held"
  | .draftResolved => "draft_resolved"
  | .goalRegistered => "goal_registered"
  | .goalConflict => "goal_conflict"
  | .arbitrationVerdict => "arbitration_verdict"
  | .repairStarted => "repair_started"
  | .repairReused => "repair_reused"
  | .worktreeOpened => "worktree_opened"
  | .prOpened => "pr_opened"
  | .prMerged => "pr_merged"
  | .prRejected => "pr_rejected"
  | .roadmapClaimed => "roadmap_claimed"
  | .roadmapFinished => "roadmap_finished"
  | .roadmapReleased => "roadmap_released"
  | .roadmapSplit => "roadmap_split"
  | .roadmapBlocked => "roadmap_blocked"
  | .pursuitChanged => "pursuit_changed"
  | .approvalRequested => "approval_requested"
  | .approvalResolved => "approval_resolved"
  | .policyCreated => "policy_created"
  | .policyRevoked => "policy_revoked"
  | .taintPromoted => "taint_promoted"
  | .crossBuildingTransfer => "cross_building_transfer"
  | .cityHalted => "city_halted"
  | .backpressureShed => "backpressure_shed"
  | .digestInvalidated => "digest_invalidated"
  | .endpointAttached => "endpoint_attached"
  | .endpointProbed => "endpoint_probed"
  | .endpointLost => "endpoint_lost"
  | .modelSelected => "model_selected"
  | .providerDegraded => "provider_degraded"
  | .loginStarted => "login_started"
  | .evalRun => "eval_run"
  | .assetArchived => "asset_archived"
  | .credentialLent => "credential_lent"
  | .secretCaptured => "secret_captured"
  | .secretEgressBlocked => "secret_egress_blocked"
  | .fileDiscarded => "file_discarded"
  | .discardRestored => "discard_restored"
  | .autonomyChanged => "autonomy_changed"
  | .wentBack => "went_back"
  | .fileRestored => "file_restored"
  | .governedDocumentWritten => "governed_document_written"
  | .spineDocumentWritten => "spine_document_written"
  | .rulesChanged => "rules_changed"
  | .toolkitLinkOpened => "toolkit_link_opened"
  | .embeddingCalled => "embedding_called"
  | .rerankCalled => "rerank_called"
  | .adviserAsked => "adviser_asked"
  | .adviserAnswered => "adviser_answered"
  | .adviserFellBack => "adviser_fell_back"
  | .cacheRenewed => "cache_renewed"
  | .harnessReported => "harness_reported"
  | .harnessAnswered => "harness_answered"
  | .remoteOpened => "remote_opened"
  | .remoteClosed => "remote_closed"
  | .devicePaired => "device_paired"
  | .deviceRevoked => "device_revoked"
  | .remoteSessionStarted => "remote_session_started"
  | .documentWritten => "document_written"
  | .proposalOffered => "proposal_offered"
  | .proposalDecided => "proposal_decided"
  | .proposalWithdrawn => "proposal_withdrawn"
  | .runPolicyChanged => "run_policy_changed"
  | .sessionNamed => "session_named"
  | .skillAudited => "skill_audited"
  | .signalWaitStarted => "signal_wait_started"
  | .signalWaitEnded => "signal_wait_ended"
  | .signalLanded => "signal_landed"
  | .skillShelved => "skill_shelved"
  | .prefixHeld => "prefix_held"

/-- Every kind, in the order of the vocabulary. -/
def all : List EventKind :=
  [.cityInitialized, .buildingCreated, .buildingConfigured, .buildingRemoved, .sessionOpened,
   .runStarted, .runForked, .promptAssembled, .promptShapeCompared, .modelCalled, .modelReturned,
   .toolCalled, .toolResult, .resultOffloaded, .gateChecked, .gateDenied, .checkpointCommitted,
   .handoffWritten, .steerReceived, .cancelReceived, .watchdogFired, .budgetLimit, .runFrozen,
   .logTruncated, .signalEnqueued, .signalConsumed, .draftHeld, .draftResolved, .goalRegistered,
   .goalConflict, .arbitrationVerdict, .repairStarted, .repairReused, .worktreeOpened, .prOpened,
   .prMerged, .prRejected, .roadmapClaimed, .roadmapFinished, .roadmapReleased, .roadmapSplit,
   .roadmapBlocked, .pursuitChanged, .approvalRequested, .approvalResolved, .policyCreated,
   .policyRevoked, .taintPromoted, .crossBuildingTransfer, .cityHalted, .backpressureShed,
   .digestInvalidated, .endpointAttached, .endpointProbed, .endpointLost, .modelSelected,
   .providerDegraded, .loginStarted, .evalRun, .assetArchived, .credentialLent, .secretCaptured,
   .secretEgressBlocked, .fileDiscarded, .discardRestored, .autonomyChanged, .wentBack,
   .fileRestored, .governedDocumentWritten, .spineDocumentWritten, .rulesChanged,
   .toolkitLinkOpened, .embeddingCalled, .rerankCalled, .adviserAsked, .adviserAnswered,
   .adviserFellBack, .cacheRenewed, .harnessReported, .harnessAnswered, .remoteOpened,
   .remoteClosed, .devicePaired, .deviceRevoked, .remoteSessionStarted, .documentWritten,
   .proposalOffered, .proposalDecided, .proposalWithdrawn, .runPolicyChanged, .sessionNamed,
   .skillAudited, .signalWaitStarted, .signalWaitEnded, .signalLanded, .skillShelved, .prefixHeld]

def ofName (text : List Char) : Option EventKind := all.find? fun kind => kind.name.toList = text

theorem mem_all (kind : EventKind) : kind ∈ all :=
  have place : all[kind.ctorIdx]? = some kind := by cases kind <;> rfl
  mem_of_getElem? place

/-- No number is twice in the list or among the bits of `taken`. -/
def apart : List Nat → Nat → Bool
  | [], _ => true
  | number :: rest, taken => !taken.testBit number && apart rest (taken ||| 2 ^ number)

theorem nodup_of_apart {numbers : List Nat} {taken : Nat} (free : apart numbers taken = true) :
    numbers.Nodup ∧ ∀ number ∈ numbers, taken.testBit number = false := by
  induction numbers generalizing taken with
  | nil => exact ⟨nodup_nil, nofun⟩
  | cons number rest ih =>
    simp only [apart, Bool.and_eq_true, Bool.not_eq_true'] at free
    obtain ⟨nodup, later⟩ := ih free.2
    simp only [Nat.testBit_or, Nat.testBit_two_pow, Bool.or_eq_false_iff,
      decide_eq_false_iff_not] at later
    refine ⟨nodup_cons.mpr ⟨fun inside => (later number inside).2 rfl, nodup⟩, ?_⟩
    intro other member
    rcases mem_cons.mp member with rfl | inside
    · exact free.1
    · exact (later other inside).1

/-- A number for each word, found by trial to be a different one for each kind's. -/
def wordNumber (word : String) : Nat :=
  word.toByteArray.data.toList.foldl (fun read byte => read * 256 + byte.toNat) 0 % 1209

theorem nodup_names : (all.map name).Nodup := by
  have free : apart ((all.map name).map wordNumber) 0 = true := by decide +kernel
  exact (nodup_of_apart free).1.of_map wordNumber

theorem ofName_name (kind : EventKind) : ofName kind.name.toList = some kind := by
  cases found : ofName kind.name.toList with
  | none =>
    have other := find?_eq_none.mp found kind (mem_all kind)
    exact absurd (decide_eq_true rfl) other
  | some other =>
    have same : other.name.toList = kind.name.toList := by simpa using find?_some found
    have inside := mem_of_find?_eq_some found
    exact congrArg some
      (inj_on_of_nodup_map nodup_names inside (mem_all kind) (String.toList_inj.mp same))

end EventKind

/-- What a fold reads of one line of the ledger. -/
structure LedgerLine where
  kind : EventKind
  addr : Option Address
  data : List (String × Json)

end Sprawling
