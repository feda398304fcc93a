import KvEngine.Machine
import KvEngine.WorkQueue
import Mathlib.Data.Set.Finite.Basic

/-! # The threads at the linked queue

The threads of `src/utils/thread_pool.c` as far as they own nodes of the linked queue: a call of
`thread_pool_submit` between its `malloc` and the end of its section, and a worker between its
section and its `free`.  A run is any list of moves, so the sections come in any order, of any
number of calls and workers, and `malloc` may answer any address that is not in use, also one
that was freed before.  A run that dereferences a null pointer or a freed node ends in `none`.

`LinkedPool.Consistent` is the invariant: the nodes from `queue_head` on are a chain of
`queue_size` nodes, no thread holds one of them, and the items enqueued so far are the items
dequeued so far and those of the chain.  `workQueue_boundedFifo` reads off what follows. -/

namespace KvEngine

open Chains

/-- A thread that calls `thread_pool_submit`. -/
inductive Submission where
  | idle
  /-- From its `malloc` to the end of its section. -/
  | holding (item : Addr)
  | returned (result : ℤ)
deriving DecidableEq, Repr

/-- A thread in `thread_pool_worker`. -/
inductive Service where
  /-- Before its section, or blocked in it. -/
  | looping
  /-- From its section to its `free`. -/
  | executing (item : Addr)
  | exited
deriving DecidableEq, Repr

/-- The node that a call holds. -/
def Submission.item : Submission → Option Addr
  | .holding item => some item
  | _ => none

/-- The node that a worker holds. -/
def Service.item : Service → Option Addr
  | .executing item => some item
  | _ => none

/-- The queue and the threads.  `enqueued` and `dequeued` list the nodes that went through the
queue, each with what it held at that moment. -/
structure LinkedPool (φ α : Type) (n : ℕ) where
  queue : WorkQueue φ α
  calls : ℕ → Submission
  workers : Fin n → Service
  enqueued : List (Addr × Work φ α)
  dequeued : List (Addr × Work φ α)

/-- A step of one of the threads. -/
inductive LinkedMove (φ α : Type) (n : ℕ) where
  /-- `thread_pool_submit` up to the lock; `answer` is what `malloc` answers. -/
  | invoke (i : ℕ) (answer : Option Addr) (func : Option φ) (arg : α) (cleanup : Option φ)
  /-- The section of `thread_pool_submit`. -/
  | submit (i : ℕ)
  /-- The section of `thread_pool_worker`. -/
  | work (w : Fin n)
  /-- The worker has run the function of its item, and frees the item. -/
  | finish (w : Fin n)
  /-- `shutdown` is raised, by `thread_pool_destroy` or by a `thread_pool_create` that fails. -/
  | shutdown

namespace LinkedPool

variable {φ α : Type} {n : ℕ}

/-- The pool that `thread_pool_create` makes. -/
def create (n : ℕ) (queueDepth : UInt32) : LinkedPool φ α n where
  queue := .create queueDepth
  calls := fun _ => .idle
  workers := fun _ => .looping
  enqueued := []
  dequeued := []

/-- The call `i` goes on as `c`. -/
def setCall (L : LinkedPool φ α n) (i : ℕ) (c : Submission) : LinkedPool φ α n :=
  { L with calls := Function.update L.calls i c }

/-- The worker `w` goes on as `x`. -/
def setWorker (L : LinkedPool φ α n) (w : Fin n) (x : Service) : LinkedPool φ α n :=
  { L with workers := Function.update L.workers w x }

/-- `thread_pool_submit` up to the lock.  `malloc` does not answer an address that is in use;
here such an answer counts as a failure. -/
def invoke (L : LinkedPool φ α n) (i : ℕ) (answer : Option Addr) (func : Option φ) (arg : α)
    (cleanup : Option φ) : LinkedPool φ α n :=
  match func, answer with
  | some func, some item =>
      if (L.queue.mem item).isSome then L.setCall i (.returned (-1))
      else
        { L.setCall i (.holding item) with
          queue := { L.queue with
            mem := Function.update L.queue.mem item (some ⟨⟨func, arg, cleanup⟩, none⟩) } }
  | _, _ => L.setCall i (.returned (-1))

/-- The call `i` runs its section with its item. -/
def submit (L : LinkedPool φ α n) (i : ℕ) (item : Addr) : Option (LinkedPool φ α n) := do
  let (exit, q) ← L.queue.submit item
  match exit with
  | .rejected => return { L.setCall i (.returned (-1)) with queue := q }
  | .blocked => return { L with queue := q }
  | .accepted =>
      return { L.setCall i (.returned 0) with
        queue := q
        enqueued := L.enqueued ++ L.queue.entry item }

/-- The worker `w` runs its section. -/
def work (L : LinkedPool φ α n) (w : Fin n) : Option (LinkedPool φ α n) := do
  let (exit, q) ← L.queue.work
  match exit with
  | .blocked => return { L with queue := q }
  | .exiting => return { L.setWorker w .exited with queue := q }
  | .took item =>
      return { L.setWorker w (.executing item) with
        queue := q
        dequeued := L.dequeued ++ L.queue.entry item }

/-- A step of one thread.  A thread that is elsewhere in its code has no such step. -/
def next (L : LinkedPool φ α n) : LinkedMove φ α n → Option (LinkedPool φ α n)
  | .invoke i answer func arg cleanup =>
      match L.calls i with
      | .holding _ => some L
      | _ => some (L.invoke i answer func arg cleanup)
  | .submit i =>
      match L.calls i with
      | .holding item => L.submit i item
      | _ => some L
  | .work w =>
      match L.workers w with
      | .looping => L.work w
      | _ => some L
  | .finish w =>
      match L.workers w with
      | .executing item => do
          let q ← L.queue.free item
          return { L.setWorker w .looping with queue := q }
      | _ => some L
  | .shutdown => some { L with queue := { L.queue with shutdown := true } }

/-- The pool after the moves, if none of them faults. -/
def after (L : LinkedPool φ α n) (moves : List (LinkedMove φ α n)) : Option (LinkedPool φ α n) :=
  Machine.after (fun L m => ((), L.bind (·.next m))) (some L) moves

/-! ### The invariant -/

/-- Who owns a node. -/
inductive Owner (n : ℕ) where
  | call (i : ℕ)
  | worker (w : Fin n)
  | queue

/-- The queue represents `items`, and every allocated node has the owner that `own` says. -/
structure Consistent (L : LinkedPool φ α n) (own : Addr → Option (Owner n))
    (items : List (Addr × Work φ α)) : Prop where
  represents : L.queue.Represents items
  history : L.enqueued = L.dequeued ++ items
  calls : Held own .call (Submission.item ∘ L.calls)
  workers : Held own .worker (Service.item ∘ L.workers)
  queued : ∀ a, a ∈ addresses items ↔ own a = some .queue
  allocated : ∀ a, L.queue.mem a = none ↔ own a = none
  unlinked : ∀ i a, own a = some (.call i) → ∃ work, L.queue.mem a = some ⟨work, none⟩
  finite : {a | own a ≠ none}.Finite

theorem call_injective : Function.Injective (Owner.call (n := n)) := fun _ _ h => Owner.call.inj h
theorem worker_injective : Function.Injective (Owner.worker (n := n)) :=
  fun _ _ h => Owner.worker.inj h

theorem items_setCall (L : LinkedPool φ α n) (i : ℕ) (c : Submission) :
    Submission.item ∘ (L.setCall i c).calls =
      Function.update (Submission.item ∘ L.calls) i c.item :=
  Function.comp_update ..

theorem items_setWorker (L : LinkedPool φ α n) (w : Fin n) (x : Service) :
    Service.item ∘ (L.setWorker w x).workers =
      Function.update (Service.item ∘ L.workers) w x.item :=
  Function.comp_update ..

theorem finite_update {own : Addr → Option (Owner n)} (h : {a | own a ≠ none}.Finite) (item : Addr)
    (o : Option (Owner n)) : {a | Function.update own item o a ≠ none}.Finite := by
  refine (h.insert item).subset fun a (ha : Function.update own item o a ≠ none) => ?_
  by_cases hitem : a = item
  · exact .inl hitem
  · rw [Function.update_of_ne hitem] at ha
    exact .inr ha

theorem create_consistent (queueDepth : UInt32) :
    (create n queueDepth : LinkedPool φ α n).Consistent (fun _ => none) [] where
  represents := WorkQueue.create_represents queueDepth
  history := rfl
  calls _ _ := by simp [create, Submission.item]
  workers _ _ := by simp [create, Service.item]
  queued _ := by simp
  allocated _ := by simp [create, WorkQueue.create]
  unlinked _ _ h := by cases h
  finite := by simp

section steps

variable {L : LinkedPool φ α n} {own : Addr → Option (Owner n)} {items : List (Addr × Work φ α)}
  (h : L.Consistent own items)
include h

theorem Consistent.own_call {i : ℕ} {item : Addr} (hi : L.calls i = .holding item) :
    own item = some (.call i) :=
  (h.calls i item).mp (by simp [hi, Submission.item])

theorem Consistent.exists_free : ∃ a, L.queue.mem a = none := by
  obtain ⟨a, ha⟩ := h.finite.exists_notMem
  exact ⟨a, (h.allocated a).mpr (not_not.mp ha)⟩

theorem Consistent.own_worker {w : Fin n} {item : Addr} (hw : L.workers w = .executing item) :
    own item = some (.worker w) :=
  (h.workers w item).mp (by simp [hw, Service.item])

/-- A node in the hands of a thread is not on the queue. -/
theorem Consistent.off_queue {a : Addr} {o : Owner n} (hown : own a = some o) (ho : o ≠ .queue) :
    a ∉ addresses items := by
  rw [h.queued a, hown, Option.some.injEq]
  exact ho

/-- A node off the queue is allocated, freed, or passed on to another thread. -/
theorem Consistent.replace {item : Addr} {node : Option (Node Addr (Work φ α))}
    {o : Option (Owner n)} {calls : ℕ → Submission} {workers : Fin n → Service}
    (hold : own item ≠ some .queue) (hnew : o ≠ some .queue) (hnode : node = none ↔ o = none)
    (hunlinked : ∀ i, o = some (.call i) → ∃ work, node = some ⟨work, none⟩)
    (hcalls : Held (Function.update own item o) .call (Submission.item ∘ calls))
    (hworkers : Held (Function.update own item o) .worker (Service.item ∘ workers)) :
    { L with
      queue := { L.queue with mem := Function.update L.queue.mem item node }
      calls := calls
      workers := workers }.Consistent (Function.update own item o) items where
  represents := by
    refine h.represents.congr fun a ha => ?_
    have hne : a ≠ item := by
      rintro rfl
      exact hold ((h.queued a).mp ha)
    exact Function.update_of_ne hne _ _
  history := h.history
  calls := hcalls
  workers := hworkers
  queued a := by
    by_cases ha : a = item
    · subst ha
      rw [Function.update_self, h.queued a]
      exact iff_of_false hold hnew
    · rw [Function.update_of_ne ha, h.queued a]
  allocated a := by
    by_cases ha : a = item
    · subst ha
      simpa using hnode
    · simpa [Function.update_of_ne ha] using h.allocated a
  unlinked i a hown := by
    by_cases ha : a = item
    · subst ha
      rw [Function.update_self] at hown
      simpa using hunlinked i hown
    · rw [Function.update_of_ne ha] at hown
      simpa [Function.update_of_ne ha] using h.unlinked i a hown
  finite := finite_update h.finite item o

/-- A call that holds nothing goes on, and still holds nothing. -/
theorem Consistent.setCall {i : ℕ} {c : Submission} (hi : (L.calls i).item = none)
    (hc : c.item = none) : (L.setCall i c).Consistent own items where
  represents := h.represents
  history := h.history
  calls := by
    rw [items_setCall, hc, ← hi]
    exact (Function.update_eq_self i (Submission.item ∘ L.calls)).symm ▸ h.calls
  workers := h.workers
  queued := h.queued
  allocated := h.allocated
  unlinked := h.unlinked
  finite := h.finite

/-- A worker that holds nothing goes on, and still holds nothing. -/
theorem Consistent.setWorker {w : Fin n} {x : Service} (hw : (L.workers w).item = none)
    (hx : x.item = none) : (L.setWorker w x).Consistent own items where
  represents := h.represents
  history := h.history
  calls := h.calls
  workers := by
    rw [items_setWorker, hx, ← hw]
    exact (Function.update_eq_self w (Service.item ∘ L.workers)).symm ▸ h.workers
  queued := h.queued
  allocated := h.allocated
  unlinked := h.unlinked
  finite := h.finite

/-- `malloc` answers an address that is not in use. -/
theorem Consistent.malloc {i : ℕ} {item : Addr} (hi : (L.calls i).item = none)
    (hitem : L.queue.mem item = none) (work : Work φ α) :
    { L.setCall i (.holding item) with
      queue := { L.queue with
        mem := Function.update L.queue.mem item (some ⟨work, none⟩) } }.Consistent
      (Function.update own item (some (.call i))) items := by
  have hown : own item = none := (h.allocated item).mp hitem
  refine h.replace (by simp [hown]) (by simp) (by simp) (fun _ _ => ⟨work, rfl⟩) ?_ ?_
  · rw [items_setCall]
    exact h.calls.acquire call_injective hi (by simp [hown])
  · exact h.workers.pass (by simp [hown]) (by simp)

/-- A rejected item is freed. -/
theorem Consistent.reject {i : ℕ} {item : Addr} (hi : L.calls i = .holding item) (r : ℤ) :
    { L.setCall i (.returned r) with
      queue := { L.queue with mem := Function.update L.queue.mem item none } }.Consistent
      (Function.update own item none) items := by
  have hown := h.own_call hi
  refine h.replace (by simp [hown]) (by simp) (by simp) (by simp) ?_ ?_
  · rw [items_setCall]
    exact h.calls.release call_injective (by simp [hi, Submission.item]) (by simp)
  · exact h.workers.pass (by simp [hown]) (by simp)

/-- An item that has been executed is freed. -/
theorem Consistent.finish {w : Fin n} {item : Addr} (hw : L.workers w = .executing item) :
    { L.setWorker w .looping with
      queue := { L.queue with mem := Function.update L.queue.mem item none } }.Consistent
      (Function.update own item none) items := by
  have hown := h.own_worker hw
  refine h.replace (by simp [hown]) (by simp) (by simp) (by simp) ?_ ?_
  · exact h.calls.pass (by simp [hown]) (by simp)
  · rw [items_setWorker]
    exact h.workers.release worker_injective (by simp [hw, Service.item]) (by simp)

/-- The item of a call becomes the last node of the queue. -/
theorem Consistent.accept {i : ℕ} {item : Addr} {work : Work φ α} {q : WorkQueue φ α}
    (hi : L.calls i = .holding item) (hq : q.Represents (items ++ [(item, work)]))
    (hlinks : WorkQueue.Relinked (addresses items) L.queue q) :
    { L.setCall i (.returned 0) with
      queue := q
      enqueued := L.enqueued ++ [(item, work)] }.Consistent
      (Function.update own item (some .queue)) (items ++ [(item, work)]) where
  represents := hq
  history := by
    show L.enqueued ++ [(item, work)] = L.dequeued ++ (items ++ [(item, work)])
    rw [h.history, List.append_assoc]
  calls := by
    show Held _ _ (Submission.item ∘ (L.setCall i (.returned 0)).calls)
    rw [items_setCall]
    exact h.calls.release call_injective (by simp [hi, Submission.item]) (by simp)
  workers := h.workers.pass (by simp [h.own_call hi]) (by simp)
  queued a := by
    by_cases ha : a = item
    · simp [ha]
    · rw [Function.update_of_ne ha, ← h.queued a]
      simp [ha]
  allocated a := by
    rw [hlinks.allocated a, h.allocated a]
    by_cases ha : a = item
    · subst ha
      simp [h.own_call hi]
    · rw [Function.update_of_ne ha]
  unlinked j a hown := by
    have ha : a ≠ item := by
      rintro rfl
      simp at hown
    rw [Function.update_of_ne ha] at hown
    show ∃ work, q.mem a = some ⟨work, none⟩
    rw [hlinks.off a (h.off_queue hown nofun)]
    exact h.unlinked j a hown
  finite := finite_update h.finite item _

/-- The first node of the queue becomes the item of a worker. -/
theorem Consistent.take {w : Fin n} {item : Addr} {work : Work φ α}
    {rest : List (Addr × Work φ α)} {q : WorkQueue φ α} (hw : (L.workers w).item = none)
    (hitems : items = (item, work) :: rest) (hq : q.Represents rest)
    (hlinks : WorkQueue.Relinked [] L.queue q) :
    { L.setWorker w (.executing item) with
      queue := q
      dequeued := L.dequeued ++ [(item, work)] }.Consistent
      (Function.update own item (some (.worker w))) rest := by
  subst hitems
  have hown : own item = some .queue := (h.queued item).mp List.mem_cons_self
  have hmem : q.mem = L.queue.mem := funext fun a => hlinks.off a (List.not_mem_nil)
  refine ⟨hq, ?_, h.calls.pass (by simp [hown]) (by simp), ?_, fun a => ?_, fun a => ?_,
    fun j a hcall => ?_, finite_update h.finite item _⟩
  · show L.enqueued = L.dequeued ++ [(item, work)] ++ rest
    rw [h.history, List.append_assoc, List.singleton_append]
  · show Held _ _ (Service.item ∘ (L.setWorker w (.executing item)).workers)
    rw [items_setWorker]
    exact h.workers.acquire worker_injective hw (by simp [hown])
  · -- the chain met the node once, so it is not in the rest
    by_cases ha : a = item
    · subst ha
      have hnodup := List.nodup_cons.mp h.represents.chain.nodup
      simpa using hnodup.1
    · rw [Function.update_of_ne ha, ← h.queued a]
      simp [ha]
  · show q.mem a = none ↔ _
    rw [hmem, h.allocated a]
    by_cases ha : a = item
    · subst ha
      simp [hown]
    · rw [Function.update_of_ne ha]
  · have ha : a ≠ item := by
      rintro rfl
      simp at hcall
    rw [Function.update_of_ne ha] at hcall
    show ∃ work, q.mem a = some ⟨work, none⟩
    rw [hmem]
    exact h.unlinked j a hcall

theorem Consistent.raise :
    { L with queue := { L.queue with shutdown := true } }.Consistent own items where
  represents := ⟨h.represents.chain, h.represents.tail, h.represents.size, h.represents.bound⟩
  history := h.history
  calls := h.calls
  workers := h.workers
  queued := h.queued
  allocated := h.allocated
  unlinked := h.unlinked
  finite := h.finite

/-! ### What the sections do -/

theorem Consistent.next_submit_rejected {i : ℕ} {item : Addr} (hi : L.calls i = .holding item)
    (hshut : L.queue.shutdown = true) :
    L.next (.submit i) = some { L.setCall i (.returned (-1)) with
      queue := { L.queue with mem := Function.update L.queue.mem item none } } := by
  obtain ⟨work, hnode⟩ := h.unlinked i item (h.own_call hi)
  simp [next, hi, submit, WorkQueue.submit, hshut, WorkQueue.free, Memory.free_eq hnode]

omit h in
theorem next_invoke {i : ℕ} {item : Addr} (hi : (L.calls i).item = none)
    (hitem : L.queue.mem item = none) (work : Work φ α) :
    L.next (.invoke i (some item) (some work.func) work.arg work.cleanup) =
      some { L.setCall i (.holding item) with
        queue := { L.queue with
          mem := Function.update L.queue.mem item (some ⟨work, none⟩) } } := by
  cases hcall : L.calls i with
  | holding a => simp [hcall, Submission.item] at hi
  | idle => simp [next, hcall, invoke, hitem]
  | returned r => simp [next, hcall, invoke, hitem]

omit h in
theorem next_submit_blocked {i : ℕ} {item : Addr} (hi : L.calls i = .holding item)
    (hshut : L.queue.shutdown = false) (hfull : L.queue.queueCapacity ≤ L.queue.queueSize) :
    L.next (.submit i) = some L := by
  simp [next, hi, submit, WorkQueue.submit, hshut, hfull]

theorem Consistent.next_submit_accepted {i : ℕ} {item : Addr} {work : Work φ α}
    (hi : L.calls i = .holding item) (hnode : L.queue.mem item = some ⟨work, none⟩)
    (hshut : L.queue.shutdown = false) (hroom : L.queue.queueSize < L.queue.queueCapacity) :
    ∃ q, L.next (.submit i) = some { L.setCall i (.returned 0) with
        queue := q
        enqueued := L.enqueued ++ [(item, work)] } ∧
      q.Represents (items ++ [(item, work)]) ∧
      WorkQueue.Relinked (addresses items) L.queue q := by
  obtain ⟨q, hq, hrepr, hlinks⟩ :=
    h.represents.enqueue hroom hnode (h.off_queue (h.own_call hi) nofun)
  have hfull : ¬ L.queue.queueCapacity ≤ L.queue.queueSize := UInt32.not_le.mpr hroom
  refine ⟨q, ?_, hrepr, hlinks⟩
  simp [next, hi, submit, WorkQueue.submit, hshut, hfull, hq, WorkQueue.entry, hnode]

theorem Consistent.next_work_blocked {w : Fin n} (hw : L.workers w = .looping)
    (hitems : items = []) (hshut : L.queue.shutdown = false) : L.next (.work w) = some L := by
  subst hitems
  simp [next, hw, work, h.represents.work_nil, hshut]

theorem Consistent.next_work_exiting {w : Fin n} (hw : L.workers w = .looping)
    (hitems : items = []) (hshut : L.queue.shutdown = true) :
    L.next (.work w) = some (L.setWorker w .exited) := by
  subst hitems
  simp [next, hw, work, h.represents.work_nil, hshut]
  rfl

theorem Consistent.next_work_took {w : Fin n} {item : Addr} {work : Work φ α}
    {rest : List (Addr × Work φ α)} (hw : L.workers w = .looping)
    (hitems : items = (item, work) :: rest) :
    ∃ q, L.next (.work w) = some { L.setWorker w (.executing item) with
        queue := q
        dequeued := L.dequeued ++ [(item, work)] } ∧
      q.Represents rest ∧ WorkQueue.Relinked [] L.queue q := by
  subst hitems
  obtain ⟨q, hq, hrepr, hlinks, -⟩ := h.represents.work_cons
  obtain ⟨link, hnode⟩ := h.represents.chain.node List.mem_cons_self
  refine ⟨q, ?_, hrepr, hlinks⟩
  simp [next, hw, LinkedPool.work, hq, WorkQueue.entry, hnode]

theorem Consistent.next_finish {w : Fin n} {item : Addr} (hw : L.workers w = .executing item) :
    L.next (.finish w) = some { L.setWorker w .looping with
      queue := { L.queue with mem := Function.update L.queue.mem item none } } := by
  have hallocated : L.queue.mem item ≠ none := by
    rw [Ne, h.allocated item, h.own_worker hw]
    simp
  obtain ⟨node, hnode⟩ := Option.ne_none_iff_exists'.mp hallocated
  simp [next, hw, WorkQueue.free, Memory.free_eq hnode]

/-! ### One step -/

theorem Consistent.invoke_consistent {i : ℕ} (hi : (L.calls i).item = none) (answer : Option Addr)
    (func : Option φ) (arg : α) (cleanup : Option φ) :
    ∃ own', (L.invoke i answer func arg cleanup).Consistent own' items ∧
      (L.invoke i answer func arg cleanup).queue.queueCapacity = L.queue.queueCapacity := by
  have hfails : (L.setCall i (.returned (-1))).Consistent own items := h.setCall hi rfl
  unfold invoke
  split
  · rename_i func item
    split
    · exact ⟨own, hfails, rfl⟩
    · rename_i hfree
      rw [Option.not_isSome_iff_eq_none] at hfree
      exact ⟨_, h.malloc hi hfree ⟨func, arg, cleanup⟩, rfl⟩
  · exact ⟨own, hfails, rfl⟩

theorem Consistent.submit_consistent {i : ℕ} {item : Addr} (hi : L.calls i = .holding item) :
    ∃ L', L.next (.submit i) = some L' ∧ (∃ own' items', L'.Consistent own' items') ∧
      L'.queue.queueCapacity = L.queue.queueCapacity := by
  by_cases hshut : L.queue.shutdown = true
  · exact ⟨_, h.next_submit_rejected hi hshut, ⟨_, _, h.reject hi (-1)⟩, rfl⟩
  · rw [Bool.not_eq_true] at hshut
    by_cases hfull : L.queue.queueCapacity ≤ L.queue.queueSize
    · exact ⟨L, next_submit_blocked hi hshut hfull, ⟨_, _, h⟩, rfl⟩
    · obtain ⟨work, hnode⟩ := h.unlinked i item (h.own_call hi)
      obtain ⟨q, hnext, hq, hlinks⟩ :=
        h.next_submit_accepted hi hnode hshut (UInt32.not_le.mp hfull)
      exact ⟨_, hnext, ⟨_, _, h.accept hi hq hlinks⟩, hlinks.capacity⟩

theorem Consistent.work_consistent {w : Fin n} (hw : L.workers w = .looping) :
    ∃ L', L.next (.work w) = some L' ∧ (∃ own' items', L'.Consistent own' items') ∧
      L'.queue.queueCapacity = L.queue.queueCapacity := by
  have hitem : (L.workers w).item = none := by rw [hw]; rfl
  cases hitems : items with
  | nil =>
      by_cases hshut : L.queue.shutdown = true
      · exact ⟨_, h.next_work_exiting hw hitems hshut, ⟨_, _, h.setWorker hitem rfl⟩, rfl⟩
      · rw [Bool.not_eq_true] at hshut
        exact ⟨L, h.next_work_blocked hw hitems hshut, ⟨_, _, h⟩, rfl⟩
  | cons first rest =>
      obtain ⟨q, hnext, hq, hlinks⟩ := h.next_work_took hw hitems
      exact ⟨_, hnext, ⟨_, _, h.take hitem hitems hq hlinks⟩, hlinks.capacity⟩

/-- No step faults, and every step keeps the invariant. -/
theorem Consistent.next (m : LinkedMove φ α n) :
    ∃ L', L.next m = some L' ∧ (∃ own' items', L'.Consistent own' items') ∧
      L'.queue.queueCapacity = L.queue.queueCapacity := by
  have hstay : ∃ L', some L = some L' ∧ (∃ own' items', L'.Consistent own' items') ∧
      L'.queue.queueCapacity = L.queue.queueCapacity := ⟨L, rfl, ⟨own, items, h⟩, rfl⟩
  cases m with
  | invoke i answer func arg cleanup =>
      have hinvoke (hi : (L.calls i).item = none) := h.invoke_consistent hi answer func arg cleanup
      cases hi : L.calls i with
      | holding item => simpa only [LinkedPool.next, hi] using hstay
      | idle =>
          obtain ⟨own', hnew, hcap⟩ := hinvoke (by rw [hi]; rfl)
          exact ⟨_, by simp only [LinkedPool.next, hi], ⟨own', items, hnew⟩, hcap⟩
      | returned r =>
          obtain ⟨own', hnew, hcap⟩ := hinvoke (by rw [hi]; rfl)
          exact ⟨_, by simp only [LinkedPool.next, hi], ⟨own', items, hnew⟩, hcap⟩
  | submit i =>
      cases hi : L.calls i with
      | holding item => exact h.submit_consistent hi
      | idle => simpa only [LinkedPool.next, hi] using hstay
      | returned r => simpa only [LinkedPool.next, hi] using hstay
  | work w =>
      cases hw : L.workers w with
      | looping => exact h.work_consistent hw
      | executing item => simpa only [LinkedPool.next, hw] using hstay
      | exited => simpa only [LinkedPool.next, hw] using hstay
  | finish w =>
      cases hw : L.workers w with
      | executing item => exact ⟨_, h.next_finish hw, ⟨_, _, h.finish hw⟩, rfl⟩
      | looping => simpa only [LinkedPool.next, hw] using hstay
      | exited => simpa only [LinkedPool.next, hw] using hstay
  | shutdown => exact ⟨_, rfl, ⟨own, items, h.raise⟩, rfl⟩

end steps

/-! ### Every run -/

/-- No run faults, and the invariant holds after every run. -/
theorem after_consistent (queueDepth : UInt32) (moves : List (LinkedMove φ α n)) :
    ∃ L : LinkedPool φ α n, (create n queueDepth).after moves = some L ∧
      (∃ own items, L.Consistent own items) ∧
      L.queue.queueCapacity = if 0 < queueDepth then queueDepth else 128 := by
  refine Machine.invariant (fun s => ∃ L : LinkedPool φ α n, s = some L ∧
    (∃ own items, L.Consistent own items) ∧
    L.queue.queueCapacity = if 0 < queueDepth then queueDepth else 128) ?_ ?_ moves
  · rintro _ m ⟨L, rfl, ⟨own, items, h⟩, hcap⟩
    obtain ⟨L', hnext, hL', hcap'⟩ := h.next m
    exact ⟨L', hnext, hL', hcap'.trans hcap⟩
  · exact ⟨_, rfl, ⟨_, _, create_consistent queueDepth⟩, rfl⟩

/-- Whenever `thread_pool_destroy` comes to the items left in the queue, its loop frees each of
their nodes once and no other, and cleans up exactly the items that were enqueued and never
dequeued, in their order. -/
theorem freeLeftovers_after (queueDepth : UInt32) (moves : List (LinkedMove φ α n)) :
    ∃ (L : LinkedPool φ α n) (mem : Memory Addr (Work φ α)),
      (create n queueDepth).after moves = some L ∧
      WorkQueue.freeLeftovers L.queue.queueSize.toNat L.queue.mem L.queue.queueHead =
        some ((L.enqueued.drop L.dequeued.length).flatMap fun item =>
          item.2.cleanup.toList.map (·, item.2.arg), mem) ∧
      (∀ a, Reachable L.queue.mem L.queue.queueHead a → mem a = none) ∧
      ∀ a, ¬ Reachable L.queue.mem L.queue.queueHead a → mem a = L.queue.mem a := by
  obtain ⟨L, hafter, ⟨own, items, h⟩, -⟩ := after_consistent queueDepth moves
  have hchain := h.represents.chain
  obtain ⟨mem, hloop, hmem⟩ := WorkQueue.freeLeftovers_chain hchain
  refine ⟨L, mem, hafter, ?_, fun a ha => ?_, fun a ha => ?_⟩
  · rw [h.represents.size, hloop, h.history, List.drop_left]
  · rw [hmem a, if_pos ((hchain.reachable_iff a).mp ha)]
  · rw [hmem a, if_neg fun hmem => ha ((hchain.reachable_iff a).mpr hmem)]

end LinkedPool

/-- **The linked work queue is a bounded FIFO.**  Whatever the depth asked for, the number of
workers and the order of the sections: no section dereferences a null pointer or a freed node.
The nodes that can be reached from `queue_head` are a finite list without a cycle, of
`queue_size` nodes, and `queue_tail` is its last.  `queue_size` is at most `queue_capacity`.  A
worker that dequeues finds `queue_size` positive and a node at `queue_head`, and leaves
`queue_size` one less.  The items dequeued so far are the first of the items enqueued so far, in
the same order. -/
theorem workQueue_boundedFifo {φ α : Type} {n : ℕ} (queueDepth : UInt32)
    (moves : List (LinkedMove φ α n)) :
    ∃ L : LinkedPool φ α n, (LinkedPool.create n queueDepth).after moves = some L ∧
      (L.queue.queueCapacity = if 0 < queueDepth then queueDepth else 128) ∧
      (∃ nodes : List Addr,
        (∀ a, Reachable L.queue.mem L.queue.queueHead a ↔ a ∈ nodes) ∧
        nodes.Nodup ∧ nodes.IsChain (Links L.queue.mem) ∧
        (∀ a ∈ nodes, ¬ Relation.TransGen (Links L.queue.mem) a a) ∧
        nodes.length = L.queue.queueSize.toNat ∧
        L.queue.queueHead = nodes.head? ∧ L.queue.queueTail = nodes.getLast?) ∧
      (L.queue.queueTail = none ↔ L.queue.queueHead = none) ∧
      L.queue.queueSize ≤ L.queue.queueCapacity ∧
      (L.queue.queueSize ≠ 0 → ∃ item q, L.queue.work = some (.took item, q)) ∧
      (∀ item q, L.queue.work = some (.took item, q) →
        0 < L.queue.queueSize ∧ L.queue.queueHead = some item ∧
        (L.queue.mem item).isSome ∧ q.queueSize.toNat + 1 = L.queue.queueSize.toNat) ∧
      L.dequeued <+: L.enqueued := by
  obtain ⟨L, hafter, ⟨own, items, h⟩, hcap⟩ := LinkedPool.after_consistent queueDepth moves
  have hrepr := h.represents
  have hchain := hrepr.chain
  refine ⟨L, hafter, hcap, ⟨addresses items, hchain.reachable_iff, hchain.nodup, hchain.isChain,
    fun a ha => hchain.acyclic ha, ?_, hchain.start, hrepr.tail⟩, hrepr.tail_eq_none_iff, ?_, ?_,
    ?_, ?_⟩
  · rw [hrepr.size, List.length_map]
  · rw [UInt32.le_iff_toNat_le, hrepr.size]
    exact hrepr.bound
  · intro hsize
    rw [Ne, hrepr.size_eq_zero_iff] at hsize
    obtain ⟨first, rest, rfl⟩ := List.exists_cons_of_ne_nil hsize
    obtain ⟨q, hq, -⟩ := hrepr.work_cons
    exact ⟨_, q, hq⟩
  · exact fun item q hq => hrepr.of_took hq
  · exact ⟨items, h.history.symm⟩

-- A queue of two: the third call waits until a worker has taken a node, and the fourth is given
-- the address of the node that was freed first.
example :
    ((LinkedPool.create 1 2 : LinkedPool ℕ ℕ 1).after
      [.invoke 0 (some 10) (some 1) 7 none, .submit 0, .invoke 1 (some 11) (some 1) 8 none,
        .submit 1, .invoke 2 (some 12) (some 1) 9 none, .submit 2, .work 0, .submit 2, .finish 0,
        .invoke 3 (some 10) (some 1) 6 none, .submit 3, .work 0, .submit 3]).map
      (fun L => (L.dequeued.map Prod.fst, L.queue.queueHead, L.queue.queueTail,
        L.queue.queueSize)) = some ([10, 11], some 12, some 10, 2) := by
  decide

end KvEngine
