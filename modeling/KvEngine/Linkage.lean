import KvEngine.LinkedPool
import KvEngine.PoolTracking

/-! # The pool and its linked queue

`ThreadPool.lean` takes the queue of the pool as a list of work items.  Here the pool runs beside
the linked queue of `LinkedPool.lean`: in every move the thread that moves does at the linked queue
what the source does there (`Pool.sections`), with an address for the node that it may allocate.

`Linked` relates the two.  The items of the chain are those of the list, in the same order; each
call between its `malloc` and the end of its section holds a node with its item, and each worker
that executes an item holds the node of that item.  The sections test `queue_size` where the pool
tests its list, and every move keeps the relation (`Linked.next`): the pointers and the counter
decide what the list decides. -/

namespace KvEngine

open Atomic Chains

/-- What the nodes of the engine hold: their functions take contexts. -/
abbrev ContextWork := Work (AsyncContext → M Unit) AsyncContext

/-- The linked pool of the engine. -/
abbrev ContextPool (n : ℕ) := LinkedPool (AsyncContext → M Unit) AsyncContext n

/-- A step at the linked queue of the engine. -/
abbrev ContextMove (n : ℕ) := LinkedMove (AsyncContext → M Unit) AsyncContext n

/-- What the node of a work item holds. -/
def WorkItem.work (item : WorkItem) : ContextWork where
  func := asyncWorkerFunc
  arg := item.arg
  cleanup := some fun ctx => atomically (.freeContext ctx.request)

/-- The call holds a node with its item, if it has one to bring to the queue. -/
def Submitter.Linked (mem : Memory Addr ContextWork) : Submitter → Submission → Prop
  | .idle, c => c.item = none
  | .preparing _, c => c.item = none
  | .atLock item, c => ∃ a, c = .holding a ∧ mem a = some ⟨item.work, none⟩
  | .waiting item, c => ∃ a, c = .holding a ∧ mem a = some ⟨item.work, none⟩
  | .rejected _, c => c.item = none
  | .returned _, c => c.item = none

/-- The worker holds the node of the item it executes. -/
def Worker.Linked (mem : Memory Addr ContextWork) : Worker → Service → Prop
  | .atLock, x => x = .looping
  | .waiting, x => x = .looping
  | .executing item _, x => ∃ a, x = .executing a ∧ ∃ next, mem a = some ⟨item.work, next⟩
  | .exited, x => x = .exited

theorem Submitter.Linked.frame {mem mem' : Memory Addr ContextWork} {c : Submitter}
    {x : Submission} (h : c.Linked mem x) (hsame : ∀ a, x.item = some a → mem' a = mem a) :
    c.Linked mem' x := by
  have hholding {item : WorkItem} (hx : ∃ a, x = .holding a ∧ mem a = some ⟨item.work, none⟩) :
      ∃ a, x = .holding a ∧ mem' a = some ⟨item.work, none⟩ := by
    obtain ⟨a, rfl, hnode⟩ := hx
    exact ⟨a, rfl, (hsame a rfl).trans hnode⟩
  cases c with
  | idle => exact h
  | preparing p => exact h
  | atLock item => exact hholding h
  | waiting item => exact hholding h
  | rejected p => exact h
  | returned r => exact h

theorem Worker.Linked.frame {mem mem' : Memory Addr ContextWork} {c : Worker} {x : Service}
    (h : c.Linked mem x) (hsame : ∀ a, x.item = some a → mem' a = mem a) : c.Linked mem' x := by
  cases c with
  | atLock => exact h
  | waiting => exact h
  | executing item p =>
      obtain ⟨a, rfl, next, hnode⟩ := h
      exact ⟨a, rfl, next, (hsame a rfl).trans hnode⟩
  | exited => exact h

variable {δ : Type} {n : ℕ} {D : Driver δ} {config : Config} {req : ℕ → AsyncCall}

/-- What a move of the call `i` does at the linked queue; `answer` is what `malloc` answers. -/
def Pool.callSections (σ : Pool δ n) (answer : Addr) (i : ℕ) : List (ContextMove n) :=
  match σ.calls i with
  | .preparing (.ret (.ok item)) =>
      [.invoke i (some answer) (some item.work.func) item.work.arg item.work.cleanup]
  | .atLock _ => [.submit i]
  | .waiting _ => if i ∈ σ.notFull then [] else [.submit i]
  | _ => []

/-- What a move of the worker `w` does at the linked queue. -/
def Pool.workerSections (σ : Pool δ n) (w : Fin n) : List (ContextMove n) :=
  match σ.workers w with
  | .atLock => [.work w]
  | .waiting => if w ∈ σ.notEmpty then [] else [.work w]
  | .executing _ (.ret _) => [.finish w]
  | _ => []

/-- What a move of `kv_engine_cleanup` does at the linked queue. -/
def Pool.cleanerSections (σ : Pool δ n) : List (ContextMove n) :=
  match σ.cleaner with
  | .atShutdown => [.shutdown]
  | _ => []

/-- What a move does at the linked queue. -/
def Pool.sections (σ : Pool δ n) (answer : Addr) : PoolMove n → List (ContextMove n)
  | .call i _ => σ.callSections answer i
  | .worker w _ => σ.workerSections w
  | .cleaner => σ.cleanerSections
  | .spuriousWorker _ => []
  | .spuriousCall _ => []

/-- The linked queue is in step with the pool. -/
structure Linked (config : Config) (σ : Pool δ n) (L : ContextPool n)
    (own : Addr → Option (LinkedPool.Owner n)) (items : List (Addr × ContextWork)) : Prop where
  consistent : L.Consistent own items
  capacity : L.queue.queueCapacity.toNat = config.queueCapacity
  shutdown : L.queue.shutdown = σ.shutdown
  queue : items.map Prod.snd = σ.queue.map WorkItem.work
  calls : ∀ i, (σ.calls i).Linked L.queue.mem (L.calls i)
  workers : ∀ w, (σ.workers w).Linked L.queue.mem (L.workers w)
  started : L.dequeued.map (fun entry => entry.2.arg.request) = σ.started

/-- A relation between two families is kept when both change in one place. -/
theorem forall_update_update {ι X Y : Type} [DecidableEq ι] {P : X → Y → Prop} {f : ι → X}
    {g : ι → Y} {i : ι} {x : X} {y : Y} (hi : P x y) (h : ∀ j, j ≠ i → P (f j) (g j)) (j : ι) :
    P (Function.update f i x j) (Function.update g i y j) := by
  by_cases hj : j = i
  · subst hj
    simpa using hi
  · simpa [Function.update_of_ne hj] using h j hj

/-- A relation between two families is kept when the first changes in one place. -/
theorem forall_update_left {ι X Y : Type} [DecidableEq ι] {P : X → Y → Prop} {f : ι → X}
    {g : ι → Y} (h : ∀ j, P (f j) (g j)) {i : ι} {x : X} (hi : P x (g i)) (j : ι) :
    P (Function.update f i x j) (g j) := by
  have hboth := forall_update_update (P := P) (i := i) hi (fun j _ => h j) j
  rwa [Function.update_eq_self] at hboth

section steps

variable {σ : Pool δ n} {L : ContextPool n} {own : Addr → Option (LinkedPool.Owner n)}
  {items : List (Addr × ContextWork)} (h : Linked config σ L own items)
include h

theorem Linked.size_lt_iff :
    L.queue.queueSize < L.queue.queueCapacity ↔ σ.queue.length < config.queueCapacity := by
  have hlength := congrArg List.length h.queue
  rw [List.length_map, List.length_map] at hlength
  rw [UInt32.lt_iff_toNat_lt, h.consistent.represents.size, h.capacity, hlength]

theorem Linked.items_eq_nil (hempty : σ.queue = []) : items = [] := by
  have hqueue := h.queue
  rwa [hempty, List.map_nil, List.map_eq_nil_iff] at hqueue

/-- The calls that hold another node, or none, see no change. -/
theorem Linked.calls_frame {mem : Memory Addr ContextWork} {item : Addr}
    (hsame : ∀ a, a ∉ addresses items → a ≠ item → mem a = L.queue.mem a) {i : ℕ}
    (hi : own item ≠ some (.call i)) : (σ.calls i).Linked mem (L.calls i) := by
  refine (h.calls i).frame fun a ha => ?_
  have hown : own a = some (.call i) := (h.consistent.calls i a).mp ha
  refine hsame a (h.consistent.off_queue hown nofun) ?_
  rintro rfl
  exact hi hown

/-- The workers that hold another node, or none, see no change. -/
theorem Linked.workers_frame {mem : Memory Addr ContextWork} {item : Addr}
    (hsame : ∀ a, a ∉ addresses items → a ≠ item → mem a = L.queue.mem a) {w : Fin n}
    (hw : own item ≠ some (.worker w)) : (σ.workers w).Linked mem (L.workers w) := by
  refine (h.workers w).frame fun a ha => ?_
  have hown : own a = some (.worker w) := (h.consistent.workers w a).mp ha
  refine hsame a (h.consistent.off_queue hown nofun) ?_
  rintro rfl
  exact hw hown

/-- A call gets its node and comes to the lock. -/
theorem Linked.arrive {i : ℕ} {item : WorkItem} {answer : Addr} (hi : (L.calls i).item = none)
    (hfree : L.queue.mem answer = none) :
    Linked config (σ.setCall i (.atLock item))
      { L.setCall i (.holding answer) with
        queue := { L.queue with
          mem := Function.update L.queue.mem answer (some ⟨item.work, none⟩) } }
      (Function.update own answer (some (.call i))) items where
  consistent := h.consistent.malloc hi hfree item.work
  capacity := h.capacity
  shutdown := h.shutdown
  queue := h.queue
  calls := by
    have hown : own answer = none := (h.consistent.allocated answer).mp hfree
    refine forall_update_update ⟨answer, rfl, Function.update_self ..⟩ fun j _ => ?_
    exact h.calls_frame (fun a _ ha => Function.update_of_ne ha _ _) (by simp [hown])
  workers w := by
    have hown : own answer = none := (h.consistent.allocated answer).mp hfree
    exact h.workers_frame (fun a _ ha => Function.update_of_ne ha _ _) (by simp [hown])
  started := h.started

/-- The item of a call is rejected. -/
theorem Linked.reject {i : ℕ} {a : Addr} (hi : L.calls i = .holding a) (p : M KvResult) :
    Linked config (σ.setCall i (.rejected p))
      { L.setCall i (.returned (-1)) with
        queue := { L.queue with mem := Function.update L.queue.mem a none } }
      (Function.update own a none) items where
  consistent := h.consistent.reject hi (-1)
  capacity := h.capacity
  shutdown := h.shutdown
  queue := h.queue
  calls := by
    have hown := h.consistent.own_call hi
    refine forall_update_update rfl fun j hj => ?_
    exact h.calls_frame (fun b _ hb => Function.update_of_ne hb _ _) (by simp [hown, Ne.symm hj])
  workers w := by
    have hown := h.consistent.own_call hi
    exact h.workers_frame (fun b _ hb => Function.update_of_ne hb _ _) (by simp [hown])
  started := h.started

/-- The item of a call becomes the last of the queue. -/
theorem Linked.accept {i : ℕ} {a : Addr} {item : WorkItem}
    {q : WorkQueue (AsyncContext → M Unit) AsyncContext} (hi : L.calls i = .holding a)
    (hq : q.Represents (items ++ [(a, item.work)]))
    (hlinks : WorkQueue.Relinked (addresses items) L.queue q) (blocked : CondVar (Fin n)) :
    Linked config
      { σ.setCall i (.returned .success) with queue := σ.queue ++ [item], notEmpty := blocked }
      { L.setCall i (.returned 0) with
        queue := q
        enqueued := L.enqueued ++ [(a, item.work)] }
      (Function.update own a (some .queue)) (items ++ [(a, item.work)]) where
  consistent := h.consistent.accept hi hq hlinks
  capacity := (congrArg UInt32.toNat hlinks.capacity).trans h.capacity
  shutdown := hlinks.shutdown.trans h.shutdown
  queue := by
    rw [List.map_append, List.map_append, h.queue]
    rfl
  calls := by
    refine forall_update_update rfl fun j hj => ?_
    have hne : own a ≠ some (.call j) := by simp [h.consistent.own_call hi, Ne.symm hj]
    exact h.calls_frame (fun b hb _ => hlinks.off b hb) hne
  workers w := by
    have hne : own a ≠ some (.worker w) := by simp [h.consistent.own_call hi]
    exact h.workers_frame (fun b hb _ => hlinks.off b hb) hne
  started := h.started

/-- A worker takes the first item of the queue. -/
theorem Linked.take {w : Fin n} {a : Addr} {item : WorkItem} {queue : List WorkItem}
    {rest : List (Addr × ContextWork)}
    {q : WorkQueue (AsyncContext → M Unit) AsyncContext} (hw : L.workers w = .looping)
    (hitems : items = (a, item.work) :: rest) (hqueue : σ.queue = item :: queue)
    (hq : q.Represents rest) (hlinks : WorkQueue.Relinked [] L.queue q) (blocked : CondVar ℕ) :
    Linked config
      { σ.setWorker w (.executing item (executeItem item)) with
        queue := queue
        notFull := blocked
        started := σ.started ++ [item.arg.request] }
      { L.setWorker w (.executing a) with
        queue := q
        dequeued := L.dequeued ++ [(a, item.work)] }
      (Function.update own a (some (.worker w))) rest where
  consistent := h.consistent.take (by rw [hw]; rfl) hitems hq hlinks
  capacity := (congrArg UInt32.toNat hlinks.capacity).trans h.capacity
  shutdown := hlinks.shutdown.trans h.shutdown
  queue := by
    have hall := h.queue
    rw [hitems, hqueue, List.map_cons, List.map_cons, List.cons.injEq] at hall
    exact hall.2
  calls i := (h.calls i).frame fun b _ => hlinks.off b List.not_mem_nil
  workers := by
    have hnode : ∃ next, L.queue.mem a = some ⟨item.work, next⟩ :=
      h.consistent.represents.chain.node (hitems ▸ List.mem_cons_self)
    obtain ⟨next, hnode⟩ := hnode
    refine forall_update_update ⟨a, rfl, next, (hlinks.off a List.not_mem_nil).trans hnode⟩ ?_
    exact fun v _ => (h.workers v).frame fun b _ => hlinks.off b List.not_mem_nil
  started := by
    rw [List.map_append, h.started]
    rfl

/-- A worker has executed its item. -/
theorem Linked.finish {w : Fin n} {a : Addr} (hw : L.workers w = .executing a)
    (finished : List ℕ) :
    Linked config { σ.setWorker w .atLock with finished := finished }
      { L.setWorker w .looping with
        queue := { L.queue with mem := Function.update L.queue.mem a none } }
      (Function.update own a none) items where
  consistent := h.consistent.finish hw
  capacity := h.capacity
  shutdown := h.shutdown
  queue := h.queue
  calls i := by
    have hown := h.consistent.own_worker hw
    exact h.calls_frame (fun b _ hb => Function.update_of_ne hb _ _) (by simp [hown])
  workers := by
    have hown := h.consistent.own_worker hw
    refine forall_update_update rfl fun v hv => ?_
    exact h.workers_frame (fun b _ hb => Function.update_of_ne hb _ _) (by simp [hown, Ne.symm hv])
  started := h.started

/-- A call goes on elsewhere, or waits with its node. -/
theorem Linked.setCall {i : ℕ} {c : Submitter} (hc : c.Linked L.queue.mem (L.calls i))
    (s : State δ) (blocked : CondVar ℕ) :
    Linked config { σ.setCall i c with engine := s, notFull := blocked } L own items :=
  { h with calls := forall_update_left h.calls hc }

/-- A worker goes on elsewhere. -/
theorem Linked.setWorker {w : Fin n} {c : Worker} (hc : c.Linked L.queue.mem (L.workers w))
    (s : State δ) (blocked : CondVar (Fin n)) :
    Linked config { σ.setWorker w c with engine := s, notEmpty := blocked } L own items :=
  { h with workers := forall_update_left h.workers hc }

/-- A worker leaves its loop. -/
theorem Linked.exit {w : Fin n} (hw : L.workers w = .looping) :
    Linked config (σ.setWorker w .exited) (L.setWorker w .exited) own items :=
  { h with
    consistent := h.consistent.setWorker (by rw [hw]; rfl) rfl
    workers := forall_update_update rfl fun v _ => h.workers v }

/-! ### The sections -/

/-- The section of `thread_pool_submit` and the section of the pool end alike. -/
theorem Linked.submit {i : ℕ} {item : WorkItem}
    (hi : ∃ a, L.calls i = .holding a ∧ L.queue.mem a = some ⟨item.work, none⟩) (wakes : Fin n) :
    ∃ L', L.next (.submit i) = some L' ∧
      ∃ own' items', Linked config (σ.submit config i item wakes) L' own' items' := by
  obtain ⟨a, hcall, hnode⟩ := hi
  unfold Pool.submit
  split
  · rename_i hshut
    rw [← h.shutdown] at hshut
    exact ⟨_, h.consistent.next_submit_rejected hcall hshut, _, _, h.reject hcall _⟩
  · rename_i hshut
    rw [← h.shutdown, Bool.not_eq_true] at hshut
    split
    · rename_i hfull
      rw [← Nat.not_lt, ← h.size_lt_iff, UInt32.not_lt] at hfull
      exact ⟨L, LinkedPool.next_submit_blocked hcall hshut hfull, _, _,
        h.setCall (c := .waiting item) ⟨a, hcall, hnode⟩ σ.engine _⟩
    · rename_i hroom
      rw [Nat.not_le, ← h.size_lt_iff] at hroom
      obtain ⟨q, hnext, hq, hlinks⟩ := h.consistent.next_submit_accepted hcall hnode hshut hroom
      exact ⟨_, hnext, _, _, h.accept hcall hq hlinks _⟩

/-- The section of `thread_pool_worker` and the section of the pool end alike. -/
theorem Linked.dequeue {w : Fin n} (hw : L.workers w = .looping) (wakes : ℕ) :
    ∃ L', L.next (.work w) = some L' ∧
      ∃ own' items', Linked config (σ.dequeue w wakes) L' own' items' := by
  unfold Pool.dequeue
  split
  · rename_i hempty
    have hitems := h.items_eq_nil hempty
    split
    · rename_i hshut
      rw [← h.shutdown] at hshut
      exact ⟨_, h.consistent.next_work_exiting hw hitems hshut, own, items, h.exit hw⟩
    · rename_i hshut
      rw [← h.shutdown, Bool.not_eq_true] at hshut
      exact ⟨L, h.consistent.next_work_blocked hw hitems hshut, own, items,
        h.setWorker (c := .waiting) hw σ.engine _⟩
  · rename_i item queue hqueue
    obtain ⟨a, rest, hitems⟩ : ∃ a rest, items = (a, item.work) :: rest := by
      have hall := h.queue
      rw [hqueue, List.map_cons, List.map_eq_cons_iff] at hall
      obtain ⟨⟨a, _⟩, rest, hitems, rfl, -⟩ := hall
      exact ⟨a, rest, hitems⟩
    obtain ⟨q, hnext, hq, hlinks⟩ := h.consistent.next_work_took hw hitems
    exact ⟨_, hnext, _, _, h.take hw hitems hqueue hq hlinks _⟩

/-- The moves of a call. -/
theorem Linked.callNext (i : ℕ) (wakes : Fin n) {answer : Addr}
    (hfree : L.queue.mem answer = none) :
    ∃ L', L.after (σ.callSections answer i) = some L' ∧
      ∃ own' items', Linked config (σ.callNext D config req i wakes) L' own' items' := by
  have hcall := h.calls i
  have haside {c : Submitter} (hc : c.Linked L.queue.mem (L.calls i)) (s : State δ) :
      ∃ L', L.after [] = some L' ∧ ∃ own' items', Linked config
        { σ.setCall i c with engine := s } L' own' items' :=
    ⟨L, rfl, own, items, h.setCall hc s σ.notFull⟩
  unfold Pool.callNext Pool.callSections
  cases hi : σ.calls i with
  | idle =>
      rw [hi] at hcall
      exact haside (c := .preparing _) hcall σ.engine
  | preparing p =>
      rw [hi] at hcall
      cases p with
      | act a k =>
          exact haside (c := .preparing (k (exec D a σ.engine).1)) hcall (exec D a σ.engine).2
      | ret r =>
          cases r with
          | error e => exact haside (c := .returned e) hcall σ.engine
          | ok item =>
              have hinvoke : L.next (.invoke i (some answer) (some item.work.func) item.work.arg
                  item.work.cleanup) = some { L.setCall i (.holding answer) with
                    queue := { L.queue with
                      mem := Function.update L.queue.mem answer (some ⟨item.work, none⟩) } } :=
                LinkedPool.next_invoke hcall hfree item.work
              exact ⟨_, hinvoke, _, _, h.arrive hcall hfree⟩
  | atLock item =>
      rw [hi] at hcall
      exact h.submit hcall wakes
  | waiting item =>
      rw [hi] at hcall
      by_cases hblocked : i ∈ σ.notFull
      · simp only [hblocked, if_true]
        exact ⟨L, rfl, own, items, h⟩
      · simp only [hblocked, if_false]
        exact h.submit hcall wakes
  | rejected p =>
      rw [hi] at hcall
      cases p with
      | act a k =>
          exact haside (c := .rejected (k (exec D a σ.engine).1)) hcall (exec D a σ.engine).2
      | ret r => exact haside (c := .returned r) hcall σ.engine
  | returned r => exact ⟨L, rfl, own, items, h⟩

/-- The moves of a worker. -/
theorem Linked.workerNext (w : Fin n) (wakes : ℕ) :
    ∃ L', L.after (σ.workerSections w) = some L' ∧
      ∃ own' items', Linked config (σ.workerNext D w wakes) L' own' items' := by
  have hworker := h.workers w
  unfold Pool.workerNext Pool.workerSections
  cases hw : σ.workers w with
  | atLock =>
      rw [hw] at hworker
      exact h.dequeue hworker wakes
  | waiting =>
      rw [hw] at hworker
      by_cases hblocked : w ∈ σ.notEmpty
      · simp only [hblocked, if_true]
        exact ⟨L, rfl, own, items, h⟩
      · simp only [hblocked, if_false]
        exact h.dequeue hworker wakes
  | executing item p =>
      rw [hw] at hworker
      cases p with
      | act a k =>
          exact ⟨L, rfl, own, items, h.setWorker (c := .executing item (k (exec D a σ.engine).1))
            hworker (exec D a σ.engine).2 σ.notEmpty⟩
      | ret u =>
          obtain ⟨b, hservice, -⟩ := hworker
          exact ⟨_, h.consistent.next_finish hservice, _, _, h.finish hservice _⟩
  | exited => exact ⟨L, rfl, own, items, h⟩

/-- The moves of `kv_engine_cleanup`.  When it comes to the items left in the queue, there are
none. -/
theorem Linked.cleanerNext (hn : 0 < n) (hsound : σ.Sound req) :
    ∃ L', L.after σ.cleanerSections = some L' ∧
      ∃ own' items', Linked config (σ.cleanerNext D config) L' own' items' := by
  have haside (s : State δ) (c : Cleaner) :
      ∃ L', L.after [] = some L' ∧ ∃ own' items', Linked config
        { σ with engine := s, cleaner := c } L' own' items' :=
    ⟨L, rfl, own, items, { h with }⟩
  unfold Pool.cleanerNext Pool.cleanerSections
  cases hc : σ.cleaner with
  | idle => exact haside _ _
  | stopping p =>
      cases p with
      | act a k => exact haside _ _
      | ret u => exact haside _ _
  | atShutdown =>
      exact ⟨_, rfl, own, items, { h with consistent := h.consistent.raise, shutdown := rfl }⟩
  | joining j =>
      by_cases hj : j < n
      · simp only [hj, dite_true]
        split
        · exact haside _ _
        · exact ⟨L, rfl, own, items, h⟩
      · simp only [hj, dite_false]
        exact haside _ _
  | leftovers =>
      dsimp only
      split
      · exact haside _ _
      · rename_i hqueue
        rw [hsound.leftovers_empty hn hc] at hqueue
        cases hqueue
  | releasing p =>
      cases p with
      | act a k => exact haside _ _
      | ret u => exact haside _ _
  | finished => exact ⟨L, rfl, own, items, h⟩

/-- Every move of the pool is matched by what the thread does at the linked queue. -/
theorem Linked.next (hn : 0 < n) (hsound : σ.Sound req) (m : PoolMove n) {answer : Addr}
    (hfree : L.queue.mem answer = none) :
    ∃ L', L.after (σ.sections answer m) = some L' ∧
      ∃ own' items', Linked config (σ.next D config req m) L' own' items' := by
  cases m with
  | call i wakes => exact h.callNext i wakes hfree
  | worker w wakes => exact h.workerNext w wakes
  | cleaner => exact h.cleanerNext hn hsound
  | spuriousWorker w => exact ⟨L, rfl, own, items, { h with }⟩
  | spuriousCall i => exact ⟨L, rfl, own, items, { h with }⟩

end steps

/-! ### Every run -/

/-- The pool beside its linked queue. -/
structure Twin (δ : Type) (n : ℕ) where
  pool : Pool δ n
  links : ContextPool n

namespace Twin

/-- The pool that `thread_pool_create` makes, behind an initialised engine. -/
def start (n : ℕ) (config : Config) (s : State δ) : Twin δ n where
  pool := .start n s
  links := .create n (.ofNat config.queueDepth)

/-- A move of the pool, with an address for the node that it may allocate.  An address in use is
not an answer of `malloc`, and there is no such move. -/
def next (D : Driver δ) (config : Config) (req : ℕ → AsyncCall) (T : Twin δ n)
    (m : PoolMove n × Addr) : Option (Twin δ n) :=
  if (T.links.queue.mem m.2).isSome then some T
  else do
    let links ← T.links.after (T.pool.sections m.2 m.1)
    return ⟨T.pool.next D config req m.1, links⟩

/-- The two after the moves, if no section faults. -/
def after (D : Driver δ) (config : Config) (req : ℕ → AsyncCall) (T : Twin δ n)
    (moves : List (PoolMove n × Addr)) : Option (Twin δ n) :=
  Machine.after (fun T m => ((), T.bind fun T => T.next D config req m)) (some T) moves

/-- The two are in step, and the pool keeps its accounting. -/
def InStep (config : Config) (req : ℕ → AsyncCall) (T : Twin δ n) : Prop :=
  T.pool.Sound req ∧ ∃ own items, Linked config T.pool T.links own items

theorem start_inStep (hdepth : config.queueDepth < 2 ^ 32) (s : State δ) :
    (start n config s).InStep config req := by
  refine ⟨Pool.start_sound s, _, _, LinkedPool.create_consistent _, ?_, rfl, rfl, fun _ => rfl,
    fun _ => rfl, rfl⟩
  have hsize : (UInt32.ofNat config.queueDepth).toNat = config.queueDepth :=
    UInt32.toNat_ofNat_of_lt' hdepth
  show (if 0 < UInt32.ofNat config.queueDepth then UInt32.ofNat config.queueDepth else 128).toNat =
    if 0 < config.queueDepth then config.queueDepth else 128
  simp only [UInt32.lt_iff_toNat_lt, UInt32.toNat_zero, hsize]
  split
  · exact hsize
  · rfl

theorem InStep.next (hn : 0 < n) {T : Twin δ n} (h : T.InStep config req) (m : PoolMove n)
    {answer : Addr} (hfree : T.links.queue.mem answer = none) :
    ∃ T', T.next D config req (m, answer) = some T' ∧ T'.pool = T.pool.next D config req m ∧
      T'.InStep config req := by
  obtain ⟨hsound, own, items, hlinked⟩ := h
  obtain ⟨L, hafter, hL⟩ := hlinked.next (D := D) hn hsound m hfree
  refine ⟨⟨T.pool.next D config req m, L⟩, ?_, rfl, hsound.step hn (Pool.next_step T.pool m), hL⟩
  simp [Twin.next, hfree, hafter]

/-- Whatever addresses `malloc` answers, the linked queue never faults and stays in step with the
pool. -/
theorem after_inStep (hn : 0 < n) (hdepth : config.queueDepth < 2 ^ 32) (s : State δ)
    (moves : List (PoolMove n × Addr)) :
    ∃ T, (start n config s).after D config req moves = some T ∧ T.InStep config req := by
  refine Machine.invariant (fun t => ∃ T : Twin δ n, t = some T ∧ T.InStep config req) ?_
    ⟨_, rfl, start_inStep hdepth s⟩ moves
  rintro _ ⟨m, answer⟩ ⟨T, rfl, h⟩
  cases hanswer : T.links.queue.mem answer with
  | some node => exact ⟨T, by simp [Twin.next, hanswer], h⟩
  | none =>
      obtain ⟨T', hnext, -, hT'⟩ := h.next (D := D) hn m hanswer
      exact ⟨T', hnext, hT'⟩

/-- The queue of the pool is the list that the pointers and the counter represent, and the workers
have executed what they dequeued. -/
theorem after_represents (hn : 0 < n) (hdepth : config.queueDepth < 2 ^ 32) (s : State δ)
    (moves : List (PoolMove n × Addr)) :
    ∃ T items, (start n config s).after D config req moves = some T ∧
      Chain T.links.queue.mem T.links.queue.queueHead items ∧
      items.map Prod.snd = T.pool.queue.map WorkItem.work ∧
      T.links.queue.queueSize.toNat = T.pool.queue.length ∧
      T.pool.queue.length ≤ config.queueCapacity ∧
      T.links.dequeued.map (fun entry => entry.2.arg.request) = T.pool.started := by
  obtain ⟨T, hafter, -, own, items, h⟩ := @after_inStep δ n D config req hn hdepth s moves
  have hrepr := h.consistent.represents
  have hlength := congrArg List.length h.queue
  rw [List.length_map, List.length_map] at hlength
  refine ⟨T, items, hafter, hrepr.chain, h.queue, hrepr.size.trans hlength, ?_, h.started⟩
  rw [← hlength, ← h.capacity]
  exact hrepr.bound

/-- Every run of the pool is the run of a pool with a linked queue. -/
theorem exists_answers (hn : 0 < n) {T : Twin δ n} (h : T.InStep config req)
    (moves : List (PoolMove n)) :
    ∃ (answers : List Addr) (T' : Twin δ n),
      T.after D config req (moves.zip answers) = some T' ∧
      T'.pool = T.pool.after D config req moves ∧ T'.InStep config req := by
  induction moves generalizing T with
  | nil => exact ⟨[], T, rfl, rfl, h⟩
  | cons m moves ih =>
      -- finitely many nodes are allocated, so `malloc` has an answer
      obtain ⟨-, own, items, hlinked⟩ := id h
      obtain ⟨answer, hfree⟩ := hlinked.consistent.exists_free
      obtain ⟨T₁, hnext, hpool, hT₁⟩ := h.next (D := D) hn m hfree
      obtain ⟨answers, T₂, hafter, hpool₂, hT₂⟩ := ih hT₁
      refine ⟨answer :: answers, T₂, ?_, ?_, hT₂⟩
      · rw [after, List.zip_cons_cons, Machine.after_cons, Option.bind_some, hnext]
        exact hafter
      · rw [hpool₂, hpool]
        rfl

end Twin

end KvEngine
