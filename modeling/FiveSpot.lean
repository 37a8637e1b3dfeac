import FiveSpot.Capacity.Confinement
import FiveSpot.Capacity.Conflict
import FiveSpot.Capacity.Convergence
import FiveSpot.Capacity.Dates
import FiveSpot.Capacity.Deadline
import FiveSpot.Capacity.Governance
import FiveSpot.Capacity.HoldLast
import FiveSpot.Capacity.HotLoop
import FiveSpot.Capacity.Record
import FiveSpot.Capacity.Schema
import FiveSpot.Child.LockStep
import FiveSpot.Child.NodeEvents
import FiveSpot.Data.Utf8
import FiveSpot.Data.Window
import FiveSpot.Data.Words
import FiveSpot.Kata.Confinement
import FiveSpot.Kata.TearDown
import FiveSpot.Leader.Election
import FiveSpot.Machine.Assignment
import FiveSpot.Machine.Backoff
import FiveSpot.Machine.Binding
import FiveSpot.Machine.Creation
import FiveSpot.Machine.Drain
import FiveSpot.Machine.Durations
import FiveSpot.Machine.Finalizers
import FiveSpot.Machine.GracePeriod
import FiveSpot.Machine.Leaks
import FiveSpot.Machine.Lifecycle
import FiveSpot.Machine.Live
import FiveSpot.Machine.LoopBreaker
import FiveSpot.Machine.LoopProtection
import FiveSpot.Machine.Mapping
import FiveSpot.Machine.Ownership
import FiveSpot.Machine.Progress
import FiveSpot.Machine.Quiescence
import FiveSpot.Machine.RapidReclaim
import FiveSpot.Machine.ReclaimOrder
import FiveSpot.Machine.SchemaBounds
import FiveSpot.Machine.TaintConvergence
import FiveSpot.Machine.TaintOwnership
import FiveSpot.Machine.TaintSyntax
import FiveSpot.Machine.Terminal
import FiveSpot.Machine.Urls
import FiveSpot.Provider.Horizon
import FiveSpot.Provider.Market
import FiveSpot.Provider.Ranges
import FiveSpot.Provider.Reconcile
import FiveSpot.Reclaim.Argv
import FiveSpot.Reclaim.Arming
import FiveSpot.Reclaim.Handshake
import FiveSpot.Reclaim.Netlink
import FiveSpot.Reclaim.ProcEvents
import FiveSpot.Reference.Wakeups
import FiveSpot.Vex.Reachability
