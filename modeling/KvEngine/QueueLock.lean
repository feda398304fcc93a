import KvEngine.Wakeups

/-! # The queue lock

`src/utils/thread_pool.c`, access by access.  `ThreadPool.lean` takes what runs under `queue_lock`
as one step.  Here taking and releasing the lock are steps of their own, and between them so are
every test of a condition, every change of the queue, every signal and every broadcast.  The one
thread that writes a shared variable without the lock is the one in `thread_pool_create`: when a
`pthread_create` fails, it raises `shutdown` and broadcasts on `queue_not_empty` while the workers
that it has created may be anywhere in their sections.

`Section` says who holds the lock and where in its section it stands.  What a thread does outside
the lock is the step of `Pool.next`.  `LockedPool.Step` lists what a move can do, `Pool.Enters` how
the sections begin, and `Pool.Aside` what a step outside the lock does. -/

namespace KvEngine

open Atomic

/-- Where a worker stands in its section. -/
inductive WorkerSection where
  /-- At the condition of the loop. -/
  | testing
  /-- The queue was empty and `shutdown` not raised: about to call `pthread_cond_wait`. -/
  | blocking
  /-- Behind the loop, about to test whether to exit. -/
  | checking
  /-- About to unlock and to exit. -/
  | leaving
  /-- About to take the item at the head. -/
  | taking
  | signalling (item : WorkItem)
  | unlocking (item : WorkItem)

/-- Where a call stands in the section of `thread_pool_submit`. -/
inductive SubmitSection where
  /-- At the first test of `shutdown`. -/
  | entering
  /-- At the condition of the loop. -/
  | testing
  /-- The queue was full and `shutdown` not raised: about to call `pthread_cond_wait`. -/
  | blocking
  /-- Behind the loop, at the second test of `shutdown`. -/
  | checking
  /-- About to unlock and to reject the item. -/
  | rejecting
  | enqueuing
  | signalling
  | unlocking

/-- Where the cleanup stands in the section of `thread_pool_destroy`. -/
inductive DestroySection where
  | raising
  | wakingWorkers
  | wakingCalls
  | unlocking

/-- The thread that holds `queue_lock`, and where it stands. -/
inductive Section (n : ℕ) where
  | worker (w : Fin n) (pc : WorkerSection)
  | call (i : ℕ) (item : WorkItem) (pc : SubmitSection)
  | cleaner (pc : DestroySection)

/-- The thread in `thread_pool_create`. -/
inductive Creator where
  /-- About to create the worker `i`. -/
  | creating (i : ℕ)
  /-- The worker `i` could not be created: about to raise `shutdown`. -/
  | raising (i : ℕ)
  /-- About to broadcast on `queue_not_empty`. -/
  | waking (i : ℕ)
  /-- About to join the worker `j` of the `i` that were created. -/
  | joining (i j : ℕ)
  /-- The pool was freed, and `NULL` returned. -/
  | failed (i : ℕ)
  /-- The pool was returned. -/
  | created
deriving DecidableEq

/-- The workers that exist. -/
def Creator.workers (n : ℕ) : Creator → ℕ
  | .creating i => i
  | .raising i => i
  | .waking i => i
  | .joining i _ => i
  | .failed i => i
  | .created => n

/-- The pool was returned to `kv_engine_init`. -/
def Creator.done : Creator → Bool
  | .created => true
  | _ => false

/-- `thread_pool_create` has raised `shutdown`. -/
def Creator.gaveUp : Creator → Bool
  | .waking _ => true
  | .joining _ _ => true
  | .failed _ => true
  | _ => false

/-- The thread of the move exists: workers from their creation on, calls and the cleanup once the
pool was returned. -/
def Creator.runs {n : ℕ} (c : Creator) : PoolMove n → Bool
  | .worker w _ => decide (w < c.workers n)
  | .call _ _ => c.done
  | .cleaner => c.done
  | .spuriousWorker _ => true
  | .spuriousCall _ => true

/-- The pool, who holds the lock, and the thread that creates the pool. -/
structure LockedPool (δ : Type) (n : ℕ) where
  pool : Pool δ n
  lock : Option (Section n)
  creator : Creator

/-- A step of a thread that uses the pool, or of the one that creates it; `fails` is the outcome
of `pthread_create`. -/
inductive LockMove (n : ℕ) where
  | step (m : PoolMove n)
  | create (fails : Bool)

variable {δ : Type} {n : ℕ}

namespace Pool

/-- A step of the worker `w` in its section: the pool, and who holds the lock after it. -/
def workerSection (ρ : Pool δ n) (w : Fin n) (wakes : ℕ) :
    WorkerSection → Pool δ n × Option (Section n)
  | .testing =>
      (ρ, some (.worker w (if ρ.queue.isEmpty && !ρ.shutdown then .blocking else .checking)))
  | .blocking => ({ ρ.setWorker w .waiting with notEmpty := ρ.notEmpty ++ [w] }, none)
  | .checking =>
      (ρ, some (.worker w (if ρ.shutdown && ρ.queue.isEmpty then .leaving else .taking)))
  | .leaving => (ρ.setWorker w .exited, none)
  | .taking =>
      match ρ.queue with
      -- the head of an empty queue is `NULL`; the tests before exclude it
      | [] => (ρ, some (.worker w .taking))
      | item :: rest => ({ ρ with queue := rest }, some (.worker w (.signalling item)))
  | .signalling item =>
      ({ ρ with notFull := ρ.notFull.signal wakes }, some (.worker w (.unlocking item)))
  | .unlocking item =>
      ({ ρ.setWorker w (.executing item (executeItem item)) with
        started := ρ.started ++ [item.arg.request] }, none)

/-- A step of the call `i` in its section. -/
def submitSection (config : Config) (ρ : Pool δ n) (i : ℕ) (item : WorkItem) (wakes : Fin n) :
    SubmitSection → Pool δ n × Option (Section n)
  | .entering => (ρ, some (.call i item (if ρ.shutdown then .rejecting else .testing)))
  | .testing =>
      (ρ, some (.call i item
        (if config.queueCapacity ≤ ρ.queue.length ∧ ρ.shutdown = false then .blocking
          else .checking)))
  | .blocking => ({ ρ.setCall i (.waiting item) with notFull := ρ.notFull ++ [i] }, none)
  | .checking => (ρ, some (.call i item (if ρ.shutdown then .rejecting else .enqueuing)))
  | .rejecting => (ρ.setCall i (.rejected (asyncRejected item)), none)
  | .enqueuing => ({ ρ with queue := ρ.queue ++ [item] }, some (.call i item .signalling))
  | .signalling => ({ ρ with notEmpty := ρ.notEmpty.signal wakes }, some (.call i item .unlocking))
  | .unlocking => (ρ.setCall i (.returned .success), none)

/-- A step of the cleanup in its section. -/
def destroySection (ρ : Pool δ n) : DestroySection → Pool δ n × Option (Section n)
  | .raising => ({ ρ with shutdown := true }, some (.cleaner .wakingWorkers))
  | .wakingWorkers => ({ ρ with notEmpty := ρ.notEmpty.broadcast }, some (.cleaner .wakingCalls))
  | .wakingCalls => ({ ρ with notFull := ρ.notFull.broadcast }, some (.cleaner .unlocking))
  | .unlocking => ({ ρ with cleaner := .joining 0 }, none)

/-- The section that the thread of the move is about to enter: when it is about to lock
`queue_lock`, or when it was notified and takes the lock again in `pthread_cond_wait`. -/
def gate (ρ : Pool δ n) : PoolMove n → Option (Section n)
  | .worker w _ =>
      match ρ.workers w with
      | .atLock => some (.worker w .testing)
      | .waiting => if w ∈ ρ.notEmpty then none else some (.worker w .testing)
      | _ => none
  | .call i _ =>
      match ρ.calls i with
      | .atLock item => some (.call i item .entering)
      | .waiting item => if i ∈ ρ.notFull then none else some (.call i item .testing)
      | _ => none
  | .cleaner =>
      match ρ.cleaner with
      | .atShutdown => some (.cleaner .raising)
      | _ => none
  | .spuriousWorker _ => none
  | .spuriousCall _ => none

end Pool

/-- The move, if it is one of the thread that holds the lock. -/
def Section.next (config : Config) (ρ : Pool δ n) :
    PoolMove n → Section n → Option (Pool δ n × Option (Section n))
  | .worker v wakes, .worker w pc => if v = w then some (ρ.workerSection w wakes pc) else none
  | .call j wakes, .call i item pc =>
      if j = i then some (ρ.submitSection config i item wakes pc) else none
  | .cleaner, .cleaner pc => some (ρ.destroySection pc)
  | _, _ => none

namespace LockedPool

/-- `thread_pool_create` before its first `pthread_create`. -/
def start (n : ℕ) (s : State δ) : LockedPool δ n where
  pool := .start n s
  lock := none
  creator := .creating 0

/-- A step of `thread_pool_create`. -/
def creatorNext (σ : LockedPool δ n) (fails : Bool) : LockedPool δ n :=
  match σ.creator with
  | .creating i =>
      if i < n then { σ with creator := if fails then .raising i else .creating (i + 1) }
      else { σ with creator := .created }
  | .raising i => { σ with pool := { σ.pool with shutdown := true }, creator := .waking i }
  | .waking i =>
      { σ with
        pool := { σ.pool with notEmpty := σ.pool.notEmpty.broadcast }
        creator := .joining i 0 }
  | .joining i j =>
      if h : j < i ∧ j < n then
        match σ.pool.workers ⟨j, h.2⟩ with
        | .exited => { σ with creator := .joining i (j + 1) }
        | _ => σ
      else { σ with creator := .failed i }
  | .failed _ => σ
  | .created => σ

variable (D : Driver δ)

/-- A step of one thread.  A thread that wants the lock while another one holds it stays where it
is. -/
def next (config : Config) (req : ℕ → AsyncCall) (σ : LockedPool δ n) :
    LockMove n → LockedPool δ n
  | .create fails => σ.creatorNext fails
  | .step m =>
      match σ.lock.bind (Section.next config σ.pool m) with
      | some (ρ, lock) => { σ with pool := ρ, lock := lock }
      | none =>
          if σ.creator.runs m then
            match σ.pool.gate m with
            | some sec => if σ.lock.isNone then { σ with lock := some sec } else σ
            | none => { σ with pool := σ.pool.next D config req m }
          else σ

/-- The pool after the moves. -/
def after (config : Config) (req : ℕ → AsyncCall) (σ : LockedPool δ n)
    (moves : List (LockMove n)) : LockedPool δ n :=
  Machine.after (fun σ m => ((), σ.next D config req m)) σ moves

end LockedPool

variable {D : Driver δ} {config : Config} {req : ℕ → AsyncCall}

/-! ### Steps outside the lock

A step outside the lock reads and writes the state of its own thread.  So it is a transition of
every pool in which that state is the same (`hstep`), whatever the section in progress has
done. -/

namespace Pool

variable (D config req)

/-- What a move outside the lock can do. -/
inductive Aside (ρ : Pool δ n) : PoolMove n → Pool δ n → Prop where
  | stay (m : PoolMove n) : Aside ρ m ρ
  | call {i : ℕ} {wakes : Fin n} (hi : ∀ item, ¬ ρ.AtSubmit i item) (c : Submitter) (s : State δ)
      (hstep : ∀ ρ' : Pool δ n, ρ'.engine = ρ.engine → ρ'.calls i = ρ.calls i →
        Step D config req ρ' { ρ'.setCall i c with engine := s }) :
      Aside ρ (.call i wakes) { ρ.setCall i c with engine := s }
  | worker {w : Fin n} {wakes : ℕ} (hw : (ρ.workers w).busy = true) (x : Worker) (s : State δ)
      (finished : List ℕ)
      (hstep : ∀ ρ' : Pool δ n, ρ'.engine = ρ.engine → ρ'.finished = ρ.finished →
        ρ'.workers w = ρ.workers w →
        Step D config req ρ' { ρ'.setWorker w x with engine := s, finished := finished }) :
      Aside ρ (.worker w wakes) { ρ.setWorker w x with engine := s, finished := finished }
  | cleaner (hc : ρ.cleaner ≠ .atShutdown) (c : Cleaner) (s : State δ)
      (hstep : ∀ ρ' : Pool δ n, ρ'.engine = ρ.engine → ρ'.cleaner = ρ.cleaner →
        (∀ w, ρ.workers w = .exited → ρ'.workers w = .exited) →
        (ρ'.cleaner = .leftovers → ρ'.queue = []) →
        Step D config req ρ' { ρ' with engine := s, cleaner := c }) :
      Aside ρ .cleaner { ρ with engine := s, cleaner := c }
  | spuriousWorker (w : Fin n) :
      Aside ρ (.spuriousWorker w) { ρ with notEmpty := ρ.notEmpty.spurious w }
  | spuriousCall (i : ℕ) : Aside ρ (.spuriousCall i) { ρ with notFull := ρ.notFull.spurious i }

variable {D config req}

theorem callNext_aside {ρ : Pool δ n} {i : ℕ} {wakes : Fin n}
    (hgate : ρ.gate (.call i wakes) = none) :
    Aside D config req ρ (.call i wakes) (ρ.callNext D config req i wakes) := by
  have hout : ∀ item, ¬ ρ.AtSubmit i item := by
    rintro item (hi | ⟨hi, hwoken⟩)
    · simp [gate, hi] at hgate
    · simp [gate, hi, hwoken] at hgate
  unfold callNext
  split
  · rename_i h
    exact .call hout _ ρ.engine fun ρ' he hc => by
      rw [← he]
      exact .invoke (hc.trans h)
  · rename_i a k h
    exact .call hout _ _ fun ρ' he hc => by
      rw [← he]
      exact .prepare (hc.trans h)
  · rename_i e h
    exact .call hout _ ρ.engine fun ρ' he hc => by
      rw [← he]
      exact .refuse (hc.trans h)
  · rename_i item h
    exact .call hout _ ρ.engine fun ρ' he hc => by
      rw [← he]
      exact .arrive (hc.trans h)
  · rename_i item h
    exact absurd (.inl h) (hout item)
  · rename_i item h
    split
    · exact .stay _
    · rename_i hwoken
      exact absurd (.inr ⟨h, hwoken⟩) (hout item)
  · rename_i a k h
    exact .call hout _ _ fun ρ' he hc => by
      rw [← he]
      exact .unwind (hc.trans h)
  · rename_i r h
    exact .call hout _ ρ.engine fun ρ' he hc => by
      rw [← he]
      exact .giveUp (hc.trans h)
  · exact .stay _

theorem workerNext_aside {ρ : Pool δ n} {w : Fin n} {wakes : ℕ}
    (hgate : ρ.gate (.worker w wakes) = none) :
    Aside D config req ρ (.worker w wakes) (ρ.workerNext D w wakes) := by
  unfold workerNext
  split
  · rename_i h
    simp [gate, h] at hgate
  · rename_i h
    split
    · exact .stay _
    · rename_i hwoken
      simp [gate, h, hwoken] at hgate
  · rename_i item a k h
    exact .worker (by rw [h]; rfl) _ _ ρ.finished fun ρ' he hf hw => by
      rw [← he, ← hf]
      exact .execute (hw.trans h)
  · rename_i item u h
    exact .worker (by rw [h]; rfl) _ ρ.engine _ fun ρ' he hf hw => by
      rw [← he, ← hf]
      exact .finish (hw.trans h)
  · exact .stay _

theorem cleanerNext_aside {ρ : Pool δ n} (hgate : ρ.gate .cleaner = none)
    (hempty : ρ.cleaner = .leftovers → ρ.queue = []) :
    Aside D config req ρ .cleaner (ρ.cleanerNext D config) := by
  have hout : ρ.cleaner ≠ .atShutdown := by
    intro hc
    simp [gate, hc] at hgate
  unfold cleanerNext
  split
  · rename_i h
    exact .cleaner hout _ ρ.engine fun ρ' he hc _ _ => by
      rw [← he]
      exact .cleanup (hc.trans h)
  · rename_i a k h
    exact .cleaner hout _ _ fun ρ' he hc _ _ => by
      rw [← he]
      exact .stop (hc.trans h)
  · rename_i u h
    exact .cleaner hout _ ρ.engine fun ρ' he hc _ _ => by
      rw [← he]
      exact .stopped (hc.trans h)
  · rename_i h
    exact absurd h hout
  · rename_i j h
    split
    · rename_i hj
      split
      · rename_i hw
        exact .cleaner hout _ _ fun ρ' he hc hexit _ => by
          rw [← he]
          exact .join (w := ⟨j, hj⟩) (hc.trans h) (hexit _ hw)
      · exact .stay _
    · rename_i hj
      exact .cleaner hout _ ρ.engine fun ρ' he hc _ _ => by
        rw [← he]
        exact .joined (hc.trans h) (Nat.not_lt.mp hj)
  · rename_i h
    split
    · exact .cleaner hout _ ρ.engine fun ρ' he hc _ hleft => by
        rw [← he]
        exact .drained (hc.trans h) (hleft (hc.trans h))
    · rename_i item rest hqueue
      rw [hempty h] at hqueue
      cases hqueue
  · rename_i a k h
    exact .cleaner hout _ _ fun ρ' he hc _ _ => by
      rw [← he]
      exact .release (hc.trans h)
  · rename_i u h
    exact .cleaner hout _ ρ.engine fun ρ' he hc _ _ => by
      rw [← he]
      exact .released (hc.trans h)
  · exact .stay _

/-- The beginnings of the sections. -/
inductive Enters (ρ : Pool δ n) : PoolMove n → Section n → Prop where
  | worker {w : Fin n} {wakes : ℕ} (hw : ρ.AtQueue w) :
      Enters ρ (.worker w wakes) (.worker w .testing)
  | submit {i : ℕ} {wakes : Fin n} {item : WorkItem} (hi : ρ.calls i = .atLock item) :
      Enters ρ (.call i wakes) (.call i item .entering)
  | resume {i : ℕ} {wakes : Fin n} {item : WorkItem} (hi : ρ.calls i = .waiting item)
      (hwoken : i ∉ ρ.notFull) : Enters ρ (.call i wakes) (.call i item .testing)
  | cleaner (hc : ρ.cleaner = .atShutdown) : Enters ρ .cleaner (.cleaner .raising)

theorem gate_enters {ρ : Pool δ n} {m : PoolMove n} {sec : Section n}
    (hgate : ρ.gate m = some sec) : ρ.Enters m sec := by
  cases m with
  | worker w wakes =>
      simp only [gate] at hgate
      split at hgate
      · rename_i hw
        cases hgate
        exact .worker (.inl hw)
      · rename_i hw
        split at hgate
        · cases hgate
        · rename_i hwoken
          cases hgate
          exact .worker (.inr ⟨hw, hwoken⟩)
      · cases hgate
  | call i wakes =>
      simp only [gate] at hgate
      split at hgate
      · rename_i item hi
        cases hgate
        exact .submit hi
      · rename_i item hi
        split at hgate
        · cases hgate
        · rename_i hwoken
          cases hgate
          exact .resume hi hwoken
      · cases hgate
  | cleaner =>
      simp only [gate] at hgate
      split at hgate
      · rename_i hc
        cases hgate
        exact .cleaner hc
      · cases hgate
  | spuriousWorker w => cases hgate
  | spuriousCall i => cases hgate

/-- Every move of a thread that is not about to take the lock is a step outside it. -/
theorem next_aside {ρ : Pool δ n} {m : PoolMove n} (hgate : ρ.gate m = none)
    (hempty : ρ.cleaner = .leftovers → ρ.queue = []) :
    Aside D config req ρ m (ρ.next D config req m) := by
  cases m with
  | call i wakes => exact callNext_aside hgate
  | worker w wakes => exact workerNext_aside hgate
  | cleaner => exact cleanerNext_aside hgate hempty
  | spuriousWorker w => exact .spuriousWorker w
  | spuriousCall i => exact .spuriousCall i

end Pool

/-! ### The transitions -/

namespace LockedPool

variable (D config req)

/-- What a move of a thread that uses the pool can do. -/
inductive Step (σ : LockedPool δ n) : PoolMove n → LockedPool δ n → Prop where
  /-- The thread does not exist, or waits for the lock. -/
  | stay (m : PoolMove n) : Step σ m σ
  | worker {w : Fin n} {pc : WorkerSection} {wakes : ℕ} {ρ : Pool δ n} {lock : Option (Section n)}
      (hlock : σ.lock = some (.worker w pc))
      (hnext : σ.pool.workerSection w wakes pc = (ρ, lock)) :
      Step σ (.worker w wakes) { σ with pool := ρ, lock := lock }
  | call {i : ℕ} {item : WorkItem} {pc : SubmitSection} {wakes : Fin n} {ρ : Pool δ n}
      {lock : Option (Section n)} (hlock : σ.lock = some (.call i item pc))
      (hnext : σ.pool.submitSection config i item wakes pc = (ρ, lock)) :
      Step σ (.call i wakes) { σ with pool := ρ, lock := lock }
  | cleaner {pc : DestroySection} {ρ : Pool δ n} {lock : Option (Section n)}
      (hlock : σ.lock = some (.cleaner pc)) (hnext : σ.pool.destroySection pc = (ρ, lock)) :
      Step σ .cleaner { σ with pool := ρ, lock := lock }
  | enter {m : PoolMove n} {sec : Section n} (hlock : σ.lock = none)
      (hruns : σ.creator.runs m = true) (henters : σ.pool.Enters m sec) :
      Step σ m { σ with lock := some sec }
  | outside {m : PoolMove n} (hgate : σ.pool.gate m = none) :
      Step σ m { σ with pool := σ.pool.next D config req m }

variable {D config req}

theorem next_step (σ : LockedPool δ n) (m : PoolMove n) :
    Step D config req σ m (σ.next D config req (.step m)) := by
  simp only [next]
  split
  · rename_i ρ lock hinside
    obtain ⟨sec, hlock, hnext⟩ := Option.bind_eq_some_iff.mp hinside
    unfold Section.next at hnext
    split at hnext
    · rw [Option.ite_none_right_eq_some] at hnext
      obtain ⟨rfl, hnext⟩ := hnext
      exact .worker hlock (Option.some.inj hnext)
    · rw [Option.ite_none_right_eq_some] at hnext
      obtain ⟨rfl, hnext⟩ := hnext
      exact .call hlock (Option.some.inj hnext)
    · exact .cleaner hlock (Option.some.inj hnext)
    · cases hnext
  · split
    · rename_i hruns
      split
      · rename_i sec hgate
        split
        · rename_i hfree
          exact .enter (Option.isNone_iff_eq_none.mp hfree) hruns (Pool.gate_enters hgate)
        · exact .stay m
      · rename_i hgate
        exact .outside hgate
    · exact .stay m

end LockedPool

end KvEngine
