import DesCartes.Framework.BinaryHeap
import DesCartes.Framework.BTreeMap
import DesCartes.Framework.Client
import DesCartes.Framework.Cursor
import DesCartes.Framework.Machine
import DesCartes.Framework.Trace
import DesCartes.Framework.Vec
import DesCartes.Impl.Time
import DesCartes.Impl.Ids
import DesCartes.Proof.Ids
import DesCartes.Impl.Scheduler
import DesCartes.Proof.Scheduler.Pop
import DesCartes.Impl.Session
import DesCartes.Proof.Scheduler.Session
import DesCartes.Proof.Scheduler.Contract
import DesCartes.Proof.Scheduler.Fifo
import DesCartes.Impl.AsyncRuntime
import DesCartes.Impl.Simulation
import DesCartes.Proof.Simulation.Frame
import DesCartes.Proof.Simulation.Step
import DesCartes.Proof.Simulation.ExecuteUntil
import DesCartes.Proof.Simulation.Deferred
import DesCartes.Proof.Simulation.ReadyQueue
import DesCartes.Proof.Simulation.PollOrder
import DesCartes.Proof.Simulation.Spawn
import DesCartes.Proof.Simulation.Timers
import DesCartes.Proof.Simulation.Cancel
import DesCartes.Proof.Simulation.Sleep
import DesCartes.Impl.Interval
import DesCartes.Proof.Interval
import DesCartes.Framework.Table
import DesCartes.Impl.Sync.BatchSemaphore
import DesCartes.Impl.Sync.RwLock
import DesCartes.Proof.Sync.BatchSemaphore
import DesCartes.Proof.Sync.Permits
import DesCartes.Proof.Sync.RwLock
import DesCartes.Impl.Sync.Mutex
import DesCartes.Proof.Sync.Mutex
import DesCartes.Proof.Sync.Release
import DesCartes.Impl.Sync.Mpsc
import DesCartes.Proof.Sync.Mpsc
import DesCartes.Proof.Sync.MpscWaiters
import DesCartes.Impl.Sync.Watch
import DesCartes.Proof.Sync.Watch
import DesCartes.Impl.Sync.Notify
import DesCartes.Proof.Sync.Notify
import DesCartes.Proof.Sync.NotifyWaiters
import DesCartes.Impl.Sync.Barrier
import DesCartes.Proof.Sync.Barrier
import DesCartes.Impl.Task
import DesCartes.Proof.Task
import DesCartes.Proof.TaskOutcome
import DesCartes.Impl.Components
import DesCartes.Proof.Components
import DesCartes.Proof.Isolation
import DesCartes.Impl.Program
import DesCartes.Proof.Program
import DesCartes.Proof.ProgramStep
import DesCartes.Impl.Explore.Trace
import DesCartes.Impl.Explore.ScheduleExplore
import DesCartes.Impl.Explore.Frontier
import DesCartes.Impl.Explore.ReadyTask
import DesCartes.Impl.Explore.Harness
import DesCartes.Proof.Explore.Replay
import DesCartes.Proof.Explore.Script
import DesCartes.Proof.Explore.Harness
import DesCartes.Impl.Explore.Policy
import DesCartes.Proof.Explore.Table
import DesCartes.Impl.Explore.SharedReplayRng
import DesCartes.Proof.Explore.Branch
import DesCartes.Impl.Explore.Splitting
import DesCartes.Proof.Explore.Splitting
import DesCartes.Proof.Explore.SplittingSearch
import DesCartes.Framework.HashMap
import DesCartes.Framework.StepFunction
import DesCartes.Impl.Explore.Monitor
import DesCartes.Proof.Explore.Monitor
import DesCartes.Proof.Explore.MonitorFlush
import DesCartes.Impl.Explore.Estimate
import DesCartes.Proof.Explore.Estimate
import DesCartes.Impl.Explore.EstimateSplitting
import DesCartes.Proof.Explore.EstimateSplitting
import DesCartes.Impl.Hosted
import DesCartes.Proof.Hosted
import DesCartes.Framework.Utf8
import DesCartes.Impl.Service.Request
import DesCartes.Impl.Service.Queue
import DesCartes.Impl.Service.Server
import DesCartes.Proof.Service.Server
import DesCartes.Impl.Service.RetryPolicy
import DesCartes.Impl.Service.SimpleClient
import DesCartes.Proof.Service.SimpleClient
import DesCartes.Proof.Service.RetryBudget
import DesCartes.Impl.Transport.NetworkModel
import DesCartes.Impl.Transport.SimTransport
import DesCartes.Proof.Transport.SimTransport
import DesCartes.Proof.Transport.Latency
import DesCartes.Proof.Scheduler.Line
import DesCartes.Proof.Transport.Fifo
import DesCartes.Impl.Tower.Http
import DesCartes.Proof.Tower.Http
import DesCartes.Impl.Tower.Basic
import DesCartes.Impl.Tower.CircuitBreaker
import DesCartes.Proof.Tower.CircuitBreaker
import DesCartes.Impl.Tower.ConcurrencyLimit
import DesCartes.Proof.Tower.ConcurrencyLimit
import DesCartes.Impl.Tower.Metadata
import DesCartes.Impl.Tower.Service
import DesCartes.Proof.Tower.Service
import DesCartes.Impl.Tower.Retry
import DesCartes.Proof.Tower.Retry
import DesCartes.Framework.Reader
import DesCartes.Impl.Tonic.Wire
import DesCartes.Proof.Tonic.Wire
import DesCartes.Proof.Sync.MpscAtomic
import DesCartes.Proof.Sync.MpscOrder
import DesCartes.Impl.Tonic.ClientStream
import DesCartes.Proof.Tonic.ClientStream
import DesCartes.Impl.Tonic.ServerStream
import DesCartes.Proof.Tonic.ServerStream
import DesCartes.Impl.Sync.Oneshot
import DesCartes.Impl.Sync.Atomic
import DesCartes.Proof.Sync.Atomic
import DesCartes.Impl.Transport.EndpointRegistry
import DesCartes.Impl.Transport.Endpoints
import DesCartes.Impl.Tonic.Unary
import DesCartes.Proof.Tonic.Unary
import DesCartes.Proof.Transport.EndpointRegistry
import DesCartes.Impl.Tower.Discovery
import DesCartes.Proof.Tower.Discovery
import DesCartes.Impl.TaskSystem
import DesCartes.Proof.Scheduler.TaskSystem
import DesCartes.Proof.Scheduler.TaskChain
import DesCartes.Proof.Scheduler.RetryTask
import DesCartes.Proof.Scheduler.PeriodicTask
import DesCartes.Framework.StableList
import DesCartes.Framework.TokenBucket
import DesCartes.Framework.Arrivals
import DesCartes.Proof.Transport.RoundRobin
import DesCartes.Proof.Service.PriorityQueue
import DesCartes.Proof.Service.ServerOrder
import DesCartes.Proof.Service.PermanentFailure
import DesCartes.Impl.Tower.RateLimit
import DesCartes.Proof.Tower.RateLimit
import DesCartes.Impl.Tower.LoadBalancer
import DesCartes.Proof.Tower.LoadBalancer
import DesCartes.Proof.Tonic.Reorder
import DesCartes.Impl.Tonic.StreamingRpc
import DesCartes.Proof.Tonic.StreamingRpc
import DesCartes.Impl.Explore.PolicySearch
import DesCartes.Proof.Explore.PolicySearch
import DesCartes.Proof.Explore.Mutation
import DesCartes.Proof.Tonic.Pending
import DesCartes.Impl.F64
import DesCartes.Impl.BurstyArrivals
import DesCartes.Proof.BurstyArrivals
import DesCartes.Impl.Metrics.TimeSeries
import DesCartes.Proof.Metrics.TimeSeries
import DesCartes.Framework.Ledger
import DesCartes.Impl.Metrics.RequestTracker
import DesCartes.Proof.Metrics.LatencyStats
import DesCartes.Proof.Metrics.RequestTracker
import DesCartes.Framework.Counter
import DesCartes.Proof.Allocation
import DesCartes.Impl.Explore.MonteCarlo
import DesCartes.Proof.Explore.Seeds
import DesCartes.Proof.Tonic.StreamDelivery
import DesCartes.Framework.Loop
import DesCartes.Impl.Execute
import DesCartes.Proof.Simulation.Execute
import DesCartes.Proof.Simulation.PollOnTime
import DesCartes.Impl.Http
import DesCartes.Proof.Http
import DesCartes.Impl.Axum.Http
import DesCartes.Impl.Axum.Bincode
import DesCartes.Proof.Axum.Http
import DesCartes.Impl.Axum.Exchange
import DesCartes.Proof.Axum.Exchange
import DesCartes.Proof.Simulation.Quiescence
import DesCartes.Impl.Tonic.Relay
import DesCartes.Proof.Tonic.Relay
import DesCartes.Proof.JoinSet
import DesCartes.Framework.Csv
import DesCartes.Impl.Metrics.SimulationMetrics
import DesCartes.Proof.Metrics.Export
import DesCartes.Impl.Assembly
import DesCartes.Proof.Assembly
import DesCartes.Impl.Service.Node
import DesCartes.Proof.Service.EndToEnd
import DesCartes.Framework.Work
import DesCartes.Proof.Work
import DesCartes.Proof.Service.Conclusion
