import KvEngine.AsyncSync
import KvEngine.Sessions

/-! # The threads of a running engine

Any number of threads use an engine at once.  An application thread calls the synchronous
operations, the asynchronous ones (up to the lock of the queue and, when the queue rejected the
item, from there on), the health and statistics functions and the buffer functions; a worker
thread executes work items; and the health probe makes one sweep after the other.  A `Task` is
what one of these threads does at a time, `Crew` the system of `Sessions.lean` made of them:
thread `none` is the probe, and every other thread may take up any task at any time.  Which
worker takes which item, and when, is left open, so every schedule of the pool is among the runs.

`conduct` says once what the actions of a task can be, whatever the engine answers: in which
order `device_record_result` updates the counters of a device and when it condemns it, in which
order `kv_engine_get_device_health` reads them, and that nobody but the probe declares a device
healthy.  `Task.Accounts` is what a task has done when it returns: which device commands it
issued, which results it recorded and how it updated the statistics. -/

namespace KvEngine

open Atomic

/-! ### Tasks -/

/-- `async_worker_func` with the reply of the operation, a local variable of the source. -/
def AsyncContext.work (ctx : AsyncContext) : M Reply := do
  let reply ← ctx.call.prog
  complete ctx.completion ⟨ctx.request, ctx.userData, reply.result, reply.value⟩
  atomically (.freeContext ctx.request)
  return reply

theorem asyncWorkerFunc_eq_work (ctx : AsyncContext) :
    asyncWorkerFunc ctx = (do let _ ← ctx.work; return ()) := by
  cases hop : ctx.opType <;>
    simp only [asyncWorkerFunc, AsyncContext.work, AsyncContext.call, AsyncContext.completion, hop,
      Call.prog, bind_assoc, pure_bind] <;>
    rfl

/-- What a thread does at a time. -/
inductive Task where
  /-- A synchronous operation. -/
  | call (c : Call)
  /-- An asynchronous operation up to the lock of the queue. -/
  | submit (request : ℕ) (c : AsyncCall)
  /-- The end of an asynchronous operation whose item was rejected. -/
  | reject (item : WorkItem)
  /-- The execution of an item by a worker. -/
  | execute (item : WorkItem)
  /-- `device_record_result` by itself. -/
  | record (i : ℕ) (kvsRes : KvsResult)
  | getDeviceHealth (i : ℕ) (out : Bool)
  | healthyDeviceCount
  | getStats
  | resetStats
  | allocBuffer (size : ℕ)
  | freeBuffer (buffer : Option Addr)
deriving DecidableEq

/-- What a task returns. -/
inductive Outcome where
  | reply (r : Reply)
  | prepared (r : Except KvResult WorkItem)
  | health (r : KvResult) (h : Option DeviceHealth)
  | count (n : ℕ)
  | stats (r : KvResult) (st : Stats)
  | buffer (b : Option Addr)
  | swept (recoveryCounts : ℕ → UInt32)
  | done

/-- The program of a task. -/
def Task.prog : Task → M Outcome
  | .call c => do return .reply (← c.prog)
  | .submit request c => do return .prepared (← c.prog request)
  | .reject item => do return .reply ⟨← asyncRejected item, none, none⟩
  | .execute item => do
      let reply ← item.arg.work
      atomically (.free item.addr)
      return .reply reply
  | .record i kvsRes => do
      deviceRecordResult i kvsRes
      return .done
  | .getDeviceHealth i out => do
      let (r, h) ← kvEngineGetDeviceHealth i out
      return .health r h
  | .healthyDeviceCount => do return .count (← kvEngineHealthyDeviceCount)
  | .getStats => do
      let (r, st) ← kvEngineGetStats
      return .stats r st
  | .resetStats => do
      kvEngineResetStats
      return .done
  | .allocBuffer size => do return .buffer (← kvEngineAllocBuffer size)
  | .freeBuffer buffer => do
      kvEngineFreeBuffer buffer
      return .done

/-- The execution of a work item is `executeItem`, but for the reply. -/
theorem executeItem_eq (item : WorkItem) :
    executeItem item = (do let _ ← (Task.execute item).prog; return ()) := by
  simp only [executeItem, asyncWorkerFunc_eq_work, Task.prog, bind_assoc, pure_bind]
  rfl

/-- The counters the probe thread has after its last sweep. -/
def recoveryCountsOf : Option Outcome → ℕ → UInt32
  | some (.swept recoveryCounts) => recoveryCounts
  | _ => fun _ => 0

/-- What a thread runs: the probe makes a sweep whatever it is called for. -/
def crewProg {κ : Type} : Option κ → Task → Option Outcome → M Outcome
  | none, _, last => do return .swept (← probeSweep (recoveryCountsOf last))
  | some _, t, _ => t.prog

/-- An entry of the log of a running engine. -/
abbrev Entry (κ δ : Type) := Note (Option κ) Task Act Act.Resp Outcome (State δ)

/-- The log of a running engine. -/
abbrev History (κ δ : Type) := Log (Option κ) Task Act Act.Resp Outcome (State δ)

/-- An engine in use: thread `none` is the probe. -/
abbrev Crew (κ δ : Type) := Sessions (Option κ) Task Act Act.Resp Outcome (State δ)

/-- One move of a thread. -/
abbrev Crew.next {κ δ : Type} [DecidableEq κ] (D : Driver δ) (σ : Crew κ δ)
    (m : Move (Option κ) Task) : Option Outcome × Crew κ δ := Sessions.next (exec D) crewProg σ m

/-- The engine after the moves. -/
abbrev Crew.after {κ δ : Type} [DecidableEq κ] (D : Driver δ) (σ : Crew κ δ)
    (moves : List (Move (Option κ) Task)) : Crew κ δ := Machine.after (Crew.next D) σ moves

end KvEngine
