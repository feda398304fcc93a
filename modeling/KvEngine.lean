import KvEngine.Prog
import KvEngine.Accounts
import KvEngine.Machine
import KvEngine.Threads
import KvEngine.Cells
import KvEngine.Chains
import KvEngine.Kvs
import KvEngine.State
import KvEngine.Engine
import KvEngine.Lifecycle
import KvEngine.Runs
import KvEngine.Boot
import KvEngine.Lookup
import KvEngine.Refinement
import KvEngine.Restart
import KvEngine.Api
import KvEngine.Failure
import KvEngine.Growth
import KvEngine.RoundTrip
import KvEngine.Isolation
import KvEngine.Race
import KvEngine.Async
import KvEngine.AsyncSync
import KvEngine.ThreadPool
import KvEngine.PoolTracking
import KvEngine.Drain
import KvEngine.Wakeups
import KvEngine.Effects
import KvEngine.Scripts
import KvEngine.Schedules
import KvEngine.Sessions
import KvEngine.Tasks
import KvEngine.Conduct
import KvEngine.Crew
import KvEngine.Slots
import KvEngine.Health
import KvEngine.Budget
import KvEngine.Snapshots
import KvEngine.Statistics
import KvEngine.Custody
import KvEngine.Buffers
import KvEngine.OneWorker
import KvEngine.QueueLock
import KvEngine.Sections
import KvEngine.Signals
import KvEngine.Shutdown
import KvEngine.Teardown
import KvEngine.ProbeStop
import KvEngine.WorkQueue
import KvEngine.LinkedPool
import KvEngine.Linkage
import KvEngine.MemoryPool
import KvEngine.Counters
import KvEngine.Sharding
import KvEngine.Lending
import KvEngine.Ledger
import KvEngine.Unwinding
import KvEngine.FailedInit
import KvEngine.Fairness
import KvEngine.Liveness
import KvEngine.AtomicObject
import KvEngine.Linearization
import KvEngine.DoubleChains
import KvEngine.UtHash
import KvEngine.HashBuckets
import KvEngine.HashElements
import KvEngine.HashTable
import KvEngine.Mutex
import KvEngine.StatsLock
import KvEngine.StatsObject
import KvEngine.Progress
import KvEngine.Recovery
import KvEngine.Levels
import KvEngine.TableEngine
import KvEngine.AsyncObject
