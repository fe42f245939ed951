import Sprawling.Accounting.Checkpoints
import Sprawling.Accounting.Entrance
import Sprawling.Accounting.PlanViewRuns
import Sprawling.Accounting.StartBoth
import Sprawling.Collab.DeskRuns
import Sprawling.Collab.WorkshopRuns
import Sprawling.Documents.Proposal
import Sprawling.Documents.Fenced
import Sprawling.Documents.Window
import Sprawling.Gateway.GateRuns
import Sprawling.Runtime.Replay
import Sprawling.Runtime.Durability
import Sprawling.Runtime.Talk
import Sprawling.Runtime.Tools.EditRuns
import Sprawling.Storage.AttributionRuns
import Sprawling.Storage.CasRuns
import Sprawling.Storage.TailWalk
import Sprawling.Storage.Unwind
import Sprawling.Kernel.Plan.ReadingOrder
import Sprawling.Kernel.Plan.Standstill
import Sprawling.Accounting.PoolRuns
import Sprawling.Accounting.RelayRuns
import Sprawling.Runtime.RedactTwice
import Sprawling.Storage.CasRanges
import Sprawling.Storage.HotRuns
import Sprawling.Storage.PackedFold
import Sprawling.Storage.QueueRuns
import Sprawling.Storage.WaveRuns
import Sprawling.Runtime.Clock
import Sprawling.Runtime.Compaction
import Sprawling.Runtime.PrefixBudget
import Sprawling.Runtime.Sieve.Truncate
import Sprawling.Runtime.Sieve.Draft
import Sprawling.Runtime.DanglingCalls
import Sprawling.Runtime.Offload
import Sprawling.Collab.WaitRuns
import Sprawling.Runtime.Tools.Quoting
import Sprawling.Storage.EventLine
import Sprawling.Runtime.Speaker
import Sprawling.Runtime.Reserve
import Sprawling.Wire.Stream
import Sprawling.Gateway.Session
import Sprawling.Gateway.Credentials
import Sprawling.Gateway.Again
import Sprawling.Gateway.Judges
import Sprawling.RemoteAccess.DoorRuns
import Sprawling.Wire.BrowserTokens
import Sprawling.RemoteAccess.ConfirmRuns
import Sprawling.Kernel.Forecast
import Sprawling.Kernel.ReleaseSpelling
import Sprawling.Documents.Selection
