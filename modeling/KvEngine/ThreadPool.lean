import KvEngine.Boot
import KvEngine.Async
import KvEngine.Threads

/-! # The thread pool

`src/utils/thread_pool.c` together with the threads that use it: any number of application
threads in a call of the asynchronous API, the workers, and one thread in
`kv_engine_cleanup`.

What runs under `queue_lock` is one step: the section of `thread_pool_submit` (`Pool.submit`),
the section of `thread_pool_worker` (`Pool.dequeue`), and the section of `thread_pool_destroy`
that raises `shutdown`.  `pthread_cond_wait` ends such a section with the thread blocked; once
the thread is notified, or wakes up spuriously, it takes the lock again and evaluates the
condition of its loop, which is the same section once more.  Everything outside the lock runs
action by action: the checks and copies of a call, the execution of an item, and the rest of
`kv_engine_cleanup`.

The nondeterminism is in the moves: which thread goes on, whom a signal wakes, and which
blocked thread wakes up for no reason.  A call is identified with its request, the number of
the context it creates; `req` gives the arguments of every call.

After `thread_pool_destroy` has freed the pool, a thread that is still in
`thread_pool_submit` reads freed memory.  The model lets it find what was left there. -/

namespace KvEngine

open Atomic

/-- A worker in `thread_pool_worker`. -/
inductive Worker where
  /-- About to lock `queue_lock`. -/
  | atLock
  /-- In `pthread_cond_wait` on `queue_not_empty`. -/
  | waiting
  /-- Executing an item outside the lock, with the rest of the program. -/
  | executing (item : WorkItem) (p : M Unit)
  | exited

/-- A thread in a call of the asynchronous API. -/
inductive Submitter where
  | idle
  /-- Before the lock. -/
  | preparing (p : M (Except KvResult WorkItem))
  /-- About to lock `queue_lock` in `thread_pool_submit`. -/
  | atLock (item : WorkItem)
  /-- In `pthread_cond_wait` on `queue_not_full`. -/
  | waiting (item : WorkItem)
  /-- The item was rejected. -/
  | rejected (p : M KvResult)
  | returned (r : KvResult)

/-- The thread in `kv_engine_cleanup`. -/
inductive Cleaner where
  | idle
  /-- Stopping the health probe. -/
  | stopping (p : M Unit)
  /-- About to raise `shutdown`. -/
  | atShutdown
  /-- About to join the worker `w`. -/
  | joining (w : ℕ)
  /-- In the loop over the items left in the queue. -/
  | leftovers
  /-- Freeing the pool and the engine: the buffer pool, the memory pool, the devices. -/
  | releasing (p : M Unit)
  | finished

/-- The pool, the engine and the threads.  `started` and `finished` list the requests whose
execution has begun and ended, in order. -/
structure Pool (δ : Type) (n : ℕ) where
  engine : State δ
  queue : List WorkItem
  shutdown : Bool
  notEmpty : CondVar (Fin n)
  notFull : CondVar ℕ
  workers : Fin n → Worker
  calls : ℕ → Submitter
  cleaner : Cleaner
  started : List ℕ
  finished : List ℕ

/-- A step of one of the threads, with the thread that a signal wakes, or a spurious wakeup. -/
inductive PoolMove (n : ℕ) where
  | call (i : ℕ) (wakes : Fin n)
  | worker (w : Fin n) (wakes : ℕ)
  | cleaner
  | spuriousWorker (w : Fin n)
  | spuriousCall (i : ℕ)

/-- `queue_capacity`. -/
def Config.queueCapacity (config : Config) : ℕ :=
  if 0 < config.queueDepth then config.queueDepth else 128

namespace Pool

variable {δ : Type} {n : ℕ}

/-- The pool that `thread_pool_create` makes, behind an initialised engine. -/
def start (n : ℕ) (s : State δ) : Pool δ n where
  engine := s
  queue := []
  shutdown := false
  notEmpty := []
  notFull := []
  workers := fun _ => .atLock
  calls := fun _ => .idle
  cleaner := .idle
  started := []
  finished := []

/-- The call `i` goes on as `c`. -/
def setCall (σ : Pool δ n) (i : ℕ) (c : Submitter) : Pool δ n :=
  { σ with calls := Function.update σ.calls i c }

/-- The worker `w` goes on as `x`. -/
def setWorker (σ : Pool δ n) (w : Fin n) (x : Worker) : Pool δ n :=
  { σ with workers := Function.update σ.workers w x }

/-- The section of `thread_pool_submit` under `queue_lock`: it ends with the item rejected, the
thread blocked, or the item at the tail of the queue. -/
def submit (config : Config) (σ : Pool δ n) (i : ℕ) (item : WorkItem) (wakes : Fin n) : Pool δ n :=
  if σ.shutdown then σ.setCall i (.rejected (asyncRejected item))
  else if config.queueCapacity ≤ σ.queue.length then
    { σ.setCall i (.waiting item) with notFull := σ.notFull ++ [i] }
  else
    { σ.setCall i (.returned .success) with
      queue := σ.queue ++ [item]
      notEmpty := σ.notEmpty.signal wakes }

/-- The section of `thread_pool_worker` under `queue_lock`: it ends with the worker blocked, on
its way out, or with the item from the head of the queue. -/
def dequeue (σ : Pool δ n) (w : Fin n) (wakes : ℕ) : Pool δ n :=
  match σ.queue with
  | [] =>
      if σ.shutdown then σ.setWorker w .exited
      else { σ.setWorker w .waiting with notEmpty := σ.notEmpty ++ [w] }
  | item :: rest =>
      { σ.setWorker w (.executing item (executeItem item)) with
        queue := rest
        notFull := σ.notFull.signal wakes
        started := σ.started ++ [item.arg.request] }

variable (D : Driver δ)

/-- A step of the call `i`. -/
def callNext (config : Config) (req : ℕ → AsyncCall) (σ : Pool δ n) (i : ℕ) (wakes : Fin n) :
    Pool δ n :=
  match σ.calls i with
  | .idle => σ.setCall i (.preparing ((req i).prog i))
  | .preparing (.act a k) =>
      { σ with engine := (exec D a σ.engine).2 }.setCall i (.preparing (k (exec D a σ.engine).1))
  | .preparing (.ret (.error e)) => σ.setCall i (.returned e)
  | .preparing (.ret (.ok item)) => σ.setCall i (.atLock item)
  | .atLock item => σ.submit config i item wakes
  | .waiting item => if i ∈ σ.notFull then σ else σ.submit config i item wakes
  | .rejected (.act a k) =>
      { σ with engine := (exec D a σ.engine).2 }.setCall i (.rejected (k (exec D a σ.engine).1))
  | .rejected (.ret r) => σ.setCall i (.returned r)
  | .returned _ => σ

/-- A step of the worker `w`. -/
def workerNext (σ : Pool δ n) (w : Fin n) (wakes : ℕ) : Pool δ n :=
  match σ.workers w with
  | .atLock => σ.dequeue w wakes
  | .waiting => if w ∈ σ.notEmpty then σ else σ.dequeue w wakes
  | .executing item (.act a k) =>
      { σ with engine := (exec D a σ.engine).2 }.setWorker w
        (.executing item (k (exec D a σ.engine).1))
  | .executing item (.ret _) =>
      { σ.setWorker w .atLock with finished := σ.finished ++ [item.arg.request] }
  | .exited => σ

/-- A step of `kv_engine_cleanup`. -/
def cleanerNext (config : Config) (σ : Pool δ n) : Pool δ n :=
  match σ.cleaner with
  | .idle => { σ with cleaner := .stopping stopProbe }
  | .stopping (.act a k) =>
      { σ with engine := (exec D a σ.engine).2, cleaner := .stopping (k (exec D a σ.engine).1) }
  | .stopping (.ret _) => { σ with cleaner := .atShutdown }
  | .atShutdown =>
      { σ with
        shutdown := true
        notEmpty := σ.notEmpty.broadcast
        notFull := σ.notFull.broadcast
        cleaner := .joining 0 }
  | .joining w =>
      if h : w < n then
        match σ.workers ⟨w, h⟩ with
        | .exited =>
            { σ with
              engine := (exec D (.release (.worker w)) σ.engine).2
              cleaner := .joining (w + 1) }
        | _ => σ
      else { σ with cleaner := .leftovers }
  | .leftovers =>
      match σ.queue with
      | [] => { σ with cleaner := .releasing (do freeThreadPool; releaseEngine config) }
      | item :: rest =>
          { σ with
            engine := (exec D (.free item.addr)
              (exec D (.freeContext item.arg.request) σ.engine).2).2
            queue := rest }
  | .releasing (.act a k) =>
      { σ with engine := (exec D a σ.engine).2, cleaner := .releasing (k (exec D a σ.engine).1) }
  | .releasing (.ret _) => { σ with cleaner := .finished }
  | .finished => σ

/-- A step of one thread. -/
def next (config : Config) (req : ℕ → AsyncCall) (σ : Pool δ n) : PoolMove n → Pool δ n
  | .call i wakes => σ.callNext D config req i wakes
  | .worker w wakes => σ.workerNext D w wakes
  | .cleaner => σ.cleanerNext D config
  | .spuriousWorker w => { σ with notEmpty := σ.notEmpty.spurious w }
  | .spuriousCall i => { σ with notFull := σ.notFull.spurious i }

/-- The pool after the moves. -/
def after (config : Config) (req : ℕ → AsyncCall) (σ : Pool δ n) (moves : List (PoolMove n)) :
    Pool δ n := Machine.after (fun σ m => ((), σ.next D config req m)) σ moves

theorem after_append {D : Driver δ} {config : Config} {req : ℕ → AsyncCall} (σ : Pool δ n)
    (moves more : List (PoolMove n)) :
    σ.after D config req (moves ++ more) = (σ.after D config req moves).after D config req more :=
  Machine.after_append σ moves more

/-! ### The transitions

`Step` lists what a move can do, one constructor for each exit of the code above. -/

/-- A worker that is about to evaluate the condition of its loop. -/
def AtQueue (σ : Pool δ n) (w : Fin n) : Prop :=
  σ.workers w = .atLock ∨ σ.workers w = .waiting ∧ w ∉ σ.notEmpty

/-- A call that is about to evaluate the conditions of `thread_pool_submit`. -/
def AtSubmit (σ : Pool δ n) (i : ℕ) (item : WorkItem) : Prop :=
  σ.calls i = .atLock item ∨ σ.calls i = .waiting item ∧ i ∉ σ.notFull

/-- The transitions of the pool. -/
inductive Step (config : Config) (req : ℕ → AsyncCall) (σ : Pool δ n) : Pool δ n → Prop where
  /-- The thread is blocked, or has nothing left to do. -/
  | stay : Step config req σ σ
  | spuriousWorker (w : Fin n) :
      Step config req σ { σ with notEmpty := σ.notEmpty.spurious w }
  | spuriousCall (i : ℕ) : Step config req σ { σ with notFull := σ.notFull.spurious i }
  | invoke {i : ℕ} (h : σ.calls i = .idle) :
      Step config req σ (σ.setCall i (.preparing ((req i).prog i)))
  | prepare {i : ℕ} {a : Act} {k : a.Resp → M (Except KvResult WorkItem)}
      (h : σ.calls i = .preparing (.act a k)) :
      Step config req σ ({ σ with engine := (exec D a σ.engine).2 }.setCall i
        (.preparing (k (exec D a σ.engine).1)))
  | refuse {i : ℕ} {e : KvResult} (h : σ.calls i = .preparing (.ret (.error e))) :
      Step config req σ (σ.setCall i (.returned e))
  | arrive {i : ℕ} {item : WorkItem} (h : σ.calls i = .preparing (.ret (.ok item))) :
      Step config req σ (σ.setCall i (.atLock item))
  | reject {i : ℕ} {item : WorkItem} (h : σ.AtSubmit i item) (hshut : σ.shutdown = true) :
      Step config req σ (σ.setCall i (.rejected (asyncRejected item)))
  | block {i : ℕ} {item : WorkItem} (h : σ.AtSubmit i item) (hshut : σ.shutdown = false)
      (hfull : config.queueCapacity ≤ σ.queue.length) :
      Step config req σ { σ.setCall i (.waiting item) with notFull := σ.notFull ++ [i] }
  | accept {i : ℕ} {item : WorkItem} (wakes : Fin n) (h : σ.AtSubmit i item)
      (hshut : σ.shutdown = false) (hroom : σ.queue.length < config.queueCapacity) :
      Step config req σ { σ.setCall i (.returned .success) with
        queue := σ.queue ++ [item]
        notEmpty := σ.notEmpty.signal wakes }
  | unwind {i : ℕ} {a : Act} {k : a.Resp → M KvResult} (h : σ.calls i = .rejected (.act a k)) :
      Step config req σ ({ σ with engine := (exec D a σ.engine).2 }.setCall i
        (.rejected (k (exec D a σ.engine).1)))
  | giveUp {i : ℕ} {r : KvResult} (h : σ.calls i = .rejected (.ret r)) :
      Step config req σ (σ.setCall i (.returned r))
  | wait {w : Fin n} (h : σ.AtQueue w) (hempty : σ.queue = []) (hshut : σ.shutdown = false) :
      Step config req σ { σ.setWorker w .waiting with notEmpty := σ.notEmpty ++ [w] }
  | exit {w : Fin n} (h : σ.AtQueue w) (hempty : σ.queue = []) (hshut : σ.shutdown = true) :
      Step config req σ (σ.setWorker w .exited)
  | take {w : Fin n} {item : WorkItem} {rest : List WorkItem} (wakes : ℕ) (h : σ.AtQueue w)
      (hqueue : σ.queue = item :: rest) :
      Step config req σ { σ.setWorker w (.executing item (executeItem item)) with
        queue := rest
        notFull := σ.notFull.signal wakes
        started := σ.started ++ [item.arg.request] }
  | execute {w : Fin n} {item : WorkItem} {a : Act} {k : a.Resp → M Unit}
      (h : σ.workers w = .executing item (.act a k)) :
      Step config req σ ({ σ with engine := (exec D a σ.engine).2 }.setWorker w
        (.executing item (k (exec D a σ.engine).1)))
  | finish {w : Fin n} {item : WorkItem} {u : Unit} (h : σ.workers w = .executing item (.ret u)) :
      Step config req σ { σ.setWorker w .atLock with
        finished := σ.finished ++ [item.arg.request] }
  | cleanup (h : σ.cleaner = .idle) :
      Step config req σ { σ with cleaner := .stopping stopProbe }
  | stop {a : Act} {k : a.Resp → M Unit} (h : σ.cleaner = .stopping (.act a k)) :
      Step config req σ
        { σ with engine := (exec D a σ.engine).2, cleaner := .stopping (k (exec D a σ.engine).1) }
  | stopped {u : Unit} (h : σ.cleaner = .stopping (.ret u)) :
      Step config req σ { σ with cleaner := .atShutdown }
  | shutdown (h : σ.cleaner = .atShutdown) :
      Step config req σ { σ with
        shutdown := true
        notEmpty := σ.notEmpty.broadcast
        notFull := σ.notFull.broadcast
        cleaner := .joining 0 }
  | join {w : Fin n} (h : σ.cleaner = .joining w) (hw : σ.workers w = .exited) :
      Step config req σ { σ with
        engine := (exec D (.release (.worker w)) σ.engine).2
        cleaner := .joining (w + 1) }
  | joined {j : ℕ} (h : σ.cleaner = .joining j) (hj : n ≤ j) :
      Step config req σ { σ with cleaner := .leftovers }
  | drop {item : WorkItem} {rest : List WorkItem} (h : σ.cleaner = .leftovers)
      (hqueue : σ.queue = item :: rest) :
      Step config req σ { σ with
        engine := (exec D (.free item.addr)
          (exec D (.freeContext item.arg.request) σ.engine).2).2
        queue := rest }
  | drained (h : σ.cleaner = .leftovers) (hqueue : σ.queue = []) :
      Step config req σ
        { σ with cleaner := .releasing (do freeThreadPool; releaseEngine config) }
  | release {a : Act} {k : a.Resp → M Unit} (h : σ.cleaner = .releasing (.act a k)) :
      Step config req σ
        { σ with engine := (exec D a σ.engine).2, cleaner := .releasing (k (exec D a σ.engine).1) }
  | released {u : Unit} (h : σ.cleaner = .releasing (.ret u)) :
      Step config req σ { σ with cleaner := .finished }

variable {D} {config : Config} {req : ℕ → AsyncCall}

theorem submit_step {σ : Pool δ n} {i : ℕ} {item : WorkItem} (h : σ.AtSubmit i item)
    (wakes : Fin n) : Step D config req σ (σ.submit config i item wakes) := by
  unfold submit
  split
  · rename_i hshut
    exact .reject h hshut
  · rename_i hshut
    rw [Bool.not_eq_true] at hshut
    split
    · rename_i hfull
      exact .block h hshut hfull
    · rename_i hroom
      exact .accept wakes h hshut (Nat.not_le.mp hroom)

theorem dequeue_step {σ : Pool δ n} {w : Fin n} (h : σ.AtQueue w) (wakes : ℕ) :
    Step D config req σ (σ.dequeue w wakes) := by
  unfold dequeue
  split
  · rename_i hempty
    split
    · rename_i hshut
      exact .exit h hempty hshut
    · rename_i hshut
      exact .wait h hempty (Bool.not_eq_true _ ▸ hshut)
  · rename_i item rest hqueue
    exact .take wakes h hqueue

theorem callNext_step (σ : Pool δ n) (i : ℕ) (wakes : Fin n) :
    Step D config req σ (σ.callNext D config req i wakes) := by
  unfold callNext
  split
  · rename_i h
    exact .invoke h
  · rename_i a k h
    exact .prepare h
  · rename_i e h
    exact .refuse h
  · rename_i item h
    exact .arrive h
  · rename_i item h
    exact submit_step (.inl h) wakes
  · rename_i item h
    split
    · exact .stay
    · rename_i hwoken
      exact submit_step (.inr ⟨h, hwoken⟩) wakes
  · rename_i a k h
    exact .unwind h
  · rename_i r h
    exact .giveUp h
  · exact .stay

theorem workerNext_step (σ : Pool δ n) (w : Fin n) (wakes : ℕ) :
    Step D config req σ (σ.workerNext D w wakes) := by
  unfold workerNext
  split
  · rename_i h
    exact dequeue_step (.inl h) wakes
  · rename_i h
    split
    · exact .stay
    · rename_i hwoken
      exact dequeue_step (.inr ⟨h, hwoken⟩) wakes
  · rename_i item a k h
    exact .execute h
  · rename_i item u h
    exact .finish h
  · exact .stay

theorem cleanerNext_step (σ : Pool δ n) : Step D config req σ (σ.cleanerNext D config) := by
  unfold cleanerNext
  split
  · rename_i h
    exact .cleanup h
  · rename_i a k h
    exact .stop h
  · rename_i u h
    exact .stopped h
  · rename_i h
    exact .shutdown h
  · rename_i j h
    split
    · rename_i hj
      split
      · rename_i hw
        exact .join (w := ⟨j, hj⟩) h hw
      · exact .stay
    · rename_i hj
      exact .joined h (Nat.not_lt.mp hj)
  · rename_i h
    split
    · rename_i hqueue
      exact .drained h hqueue
    · rename_i item rest hqueue
      exact .drop h hqueue
  · rename_i a k h
    exact .release h
  · rename_i u h
    exact .released h
  · exact .stay

/-- Every move is one of the transitions. -/
theorem next_step (σ : Pool δ n) (m : PoolMove n) :
    Step D config req σ (σ.next D config req m) := by
  cases m with
  | call i wakes => exact callNext_step σ i wakes
  | worker w wakes => exact workerNext_step σ w wakes
  | cleaner => exact cleanerNext_step σ
  | spuriousWorker w => exact .spuriousWorker w
  | spuriousCall i => exact .spuriousCall i

/-- What every transition keeps holds after every run. -/
theorem after_invariant {Inv : Pool δ n → Prop}
    (hstep : ∀ σ τ, Inv σ → Step D config req σ τ → Inv τ) {σ : Pool δ n} (h : Inv σ)
    (moves : List (PoolMove n)) : Inv (σ.after D config req moves) :=
  Machine.invariant Inv (fun σ m h => hstep σ _ h (next_step σ m)) h moves

end Pool

end KvEngine
