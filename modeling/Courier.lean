import Courier.StateMachine.Blocked
import Courier.Budget
import Courier.Controller.Uncertain
import Courier.WorkQueue.Coverage
import Courier.WorkQueueAudit.Accepted
import Courier.LedgerCompactor.Snapshot
import Courier.Coordination.Reaped
import Courier.LockManager.Fencing
import Courier.Bridge.Tasks
import Courier.Bridge.Completion
import Courier.LeaseStore.Fencing
import Courier.FencingToken.Unique
import Courier.Continuation.Exclusive
import Courier.Notary.Binding
import Courier.Kirby.Effects
import Courier.Surfaces.Runs
import Courier.Grants.Authority
import Courier.Synthetic.Honest
import Courier.TaskLifecycle.Restart
import Courier.TaskLifecycle.Spans
import Courier.Hub.Truthful
import Courier.Outbox.Restart
import Courier.StageHandoff.Chains
import Courier.RpcTransport.Once
import Courier.ArtifactPackager.Sealed
import Courier.Controller.Dependencies
import Courier.Controller.Timing
import Courier.Scheduler.Fair
import Courier.DagResolver.Order
import Courier.SharedMemoryRing.Fifo
import Courier.Continuation.Cleanup
import Courier.DagResolver.Agreement
import Courier.Coordination.Comments
import Courier.GoalContract.Store
import Courier.DeltaPatcher.Reproduces
import Courier.Notary.Complete
import Courier.Replica.AllOrNothing
import Courier.Quorum.Reputation
import Courier.TaskLifecycle.Deadlocks
import Courier.ListClean.Stable
import Courier.Hub.Choices
import Courier.ContinuityMetrics
import Courier.DeadLetterQueue
import Courier.EventBus
import Courier.ImmutableCasCache
import Courier.ProvenanceGraph
import Courier.RateLimiter
import Courier.RollingUpgrade
import Courier.SignalLines
import Courier.WorkStealing.Equilibrium
import Courier.ProviderCircuit
import Courier.EventStream
import Courier.ContentDedup
import Courier.Continuation.Recovery
import Courier.Database.Verify
