import KvEngine.Wakeups
import KvEngine.AsyncSync

/-! # One worker means program order

With a single worker the pool is a sequential interpreter of the accepted requests.  The queue
is first in, first out, so the worker begins the requests in the order in which they were
enqueued, and it begins the next one only when it has finished the one before.  The threads of
the calls, the cleanup up to the teardown and the worker share the engine, but outside the
queue they touch different parts of it, except for one: the allocator.

`CaughtUp` is therefore stated for an arbitrary future of the allocator: there are outcomes, a
part of those that the allocator has produced so far, with which the sequential execution of the
requests begun (`replay`) ends in the state that the rest of the worker's program leads to.
`one_worker_in_order` is the case of a worker between two items.  The health probe takes no step
here. -/

namespace KvEngine

open Atomic

variable {δ : Type} {D : Driver δ} {config : Config} {req : ℕ → AsyncCall}

/-! ### Allocators -/

/-- The allocator that gives the outcomes in the list, and then those of `rest`. -/
def supply : List (Option Addr) → (ℕ → Option Addr) → ℕ → Option Addr
  | [], rest => rest
  | o :: outcomes, rest => fun
    | 0 => o
    | n + 1 => supply outcomes rest n

theorem supply_append (outcomes more : List (Option Addr)) (rest : ℕ → Option Addr) :
    supply (outcomes ++ more) rest = supply outcomes (supply more rest) := by
  induction outcomes with
  | nil => rfl
  | cons o outcomes ih =>
      funext n
      cases n with
      | zero => rfl
      | succ n => exact congrFun ih n

/-- The state with another allocator and other records of the freed contexts. -/
def State.withHeap (s : State δ) (heap : ℕ → Option Addr) (freed : List ℕ) : State δ :=
  { s with heap := heap, freedContexts := freed }

/-! ### What the threads do to the engine -/

/-- The actions of a worker. -/
def Act.Works : Act → Prop
  | .callback _ => True
  | .freeContext _ => True
  | a => a.Operates

theorem Act.Operates.works {a : Act} (h : a.Operates) : a.Works := by
  cases a <;> first | exact trivial | exact h.elim

theorem executeItem_works (item : WorkItem) : (executeItem item).Performs Act.Works := by
  have htail {α : Type} {p : M α} (hp : p.Performs Act.Operates) (given : α → Bool)
      (c : α → Callback) : (do
        let r ← p
        complete (given r) (c r)
        atomically (.freeContext item.arg.request) : M Unit).Performs Act.Works := by
    refine (hp.mono fun _ => Act.Operates.works).bind fun r => ?_
    unfold complete
    split
    · exact ⟨trivial, fun _ => ⟨trivial, fun _ => trivial⟩⟩
    · exact ⟨trivial, fun _ => trivial⟩
  have hfunc : (asyncWorkerFunc item.arg).Performs Act.Works := by
    unfold asyncWorkerFunc
    split
    · exact htail (kvEngineStore_operates _ _ _) _ _
    · exact htail (kvEngineRetrieve_operates _ _ _) _ _
    · exact htail (kvEngineDelete_operates _) _ _
  exact hfunc.bind fun _ => ⟨trivial, fun _ => trivial⟩

/-- An action of the worker depends on the allocator only through the outcomes it takes. -/
theorem exec_works {a : Act} (ha : a.Works) (s : State δ) (freed : List ℕ) :
    ∃ outcomes freed', outcomes = (List.range outcomes.length).map s.heap ∧
      (exec D a s).2.heap = (fun n => s.heap (outcomes.length + n)) ∧
      ∀ rest, exec D a (s.withHeap (supply outcomes rest) freed) =
        ((exec D a s).1, (exec D a s).2.withHeap rest freed') := by
  have hcommand {α : Type} (i : ℕ) (r : α) (c : δ → α × δ) :
      (s.keyspaceCommand i r c).2.heap = (fun n => s.heap (0 + n)) ∧
        ∀ rest, (s.withHeap rest freed).keyspaceCommand i r c =
          ((s.keyspaceCommand i r c).1, (s.keyspaceCommand i r c).2.withHeap rest freed) := by
    simp only [Nat.zero_add]
    cases hkeyspace : (s.devices i).keyspace <;>
      simp [State.keyspaceCommand, State.command, State.withHeap, hkeyspace]
  cases a with
  | alloc size =>
      refine ⟨[s.heap 0], freed, rfl, ?_, fun rest => rfl⟩
      funext n
      exact congrArg s.heap (Nat.add_comm n 1)
  | keyTableAdd key =>
      by_cases hkey : (keyInTable s.keyTable key || !KeyTable.accepts key) = true
      · refine ⟨[], freed, rfl, ?_, fun rest => ?_⟩
        · simp only [exec, State.addTableKey, hkey, if_true, List.length_nil, Nat.zero_add]
        · simp only [exec, State.addTableKey, State.withHeap, hkey, if_true, supply]
      · refine ⟨[s.heap 0], freed, rfl, ?_, fun rest => ?_⟩
        · simp only [exec, State.addTableKey, hkey]
          funext n
          exact congrArg s.heap (Nat.add_comm n 1)
        · simp only [exec, State.addTableKey, State.withHeap, hkey]
          rfl
  | kvsStoreKvp i k v t => exact ⟨[], freed, rfl, hcommand _ _ _⟩
  | kvsRetrieveKvp i k b v del => exact ⟨[], freed, rfl, hcommand _ _ _⟩
  | kvsDeleteKvp i k e => exact ⟨[], freed, rfl, hcommand _ _ _⟩
  | kvsExistKvPairs i k => exact ⟨[], freed, rfl, hcommand _ _ _⟩
  | dmaPoolAcquire =>
      refine ⟨[], freed, rfl, ?_, fun rest => ?_⟩
      · simp only [exec, List.length_nil, Nat.zero_add]
        split <;> rfl
      · simp only [exec, supply, State.withHeap]
        split <;> rfl
  | freeContext request =>
      exact ⟨[], freed ++ [request], rfl, funext fun n => congrArg s.heap (Nat.zero_add n).symm,
        fun _ => rfl⟩
  | _ =>
      first
      | exact ha.elim
      | exact ⟨[], freed, rfl, funext fun n => congrArg s.heap (Nat.zero_add n).symm, fun _ => rfl⟩

/-- The state differs at most in the allocator, which has gone on, and in the records of the freed
contexts. -/
structure Beside (s t : State δ) : Prop where
  heap : ∃ k, t.heap = fun n => s.heap (k + n)
  same : ∀ rest freed, t.withHeap rest freed = s.withHeap rest freed

theorem Beside.refl (s : State δ) : Beside s s :=
  ⟨⟨0, funext fun n => congrArg s.heap (Nat.zero_add n).symm⟩, fun _ _ => rfl⟩

/-- The threads of the calls leave the rest of the engine alone. -/
theorem exec_submits {a : Act} (ha : a.Submits) (s : State δ) : Beside s (exec D a s).2 := by
  cases a with
  | alloc size =>
      exact ⟨⟨1, funext fun n => congrArg s.heap (Nat.add_comm n 1)⟩, fun _ _ => rfl⟩
  | freeContext request => exact ⟨(Beside.refl s).heap, fun _ _ => rfl⟩
  | _ => first | exact .refl s | exact ha.elim

/-- The actions of `kv_engine_cleanup` before the teardown. -/
def Act.Stops : Act → Prop
  | .loadHealthProbe => True
  | .release _ => True
  | _ => False

theorem exec_stops {a : Act} (ha : a.Stops) (s : State δ) : Beside s (exec D a s).2 := by
  cases a <;> first | exact .refl s | exact ha.elim

theorem stopProbe_stops : stopProbe.Performs Act.Stops := by
  refine ⟨trivial, fun probe => ?_⟩
  cases probe with
  | false => exact trivial
  | true => exact ⟨trivial, fun _ => ⟨trivial, fun _ => ⟨trivial, fun _ => trivial⟩⟩⟩

/-! ### The sequential execution -/

/-- One request by itself: its operation, its callback, the free of its context. -/
def replay (D : Driver δ) (s : State δ) (item : WorkItem) : State δ :=
  (run D item.arg.call.prog s).2.completed item.arg (run D item.arg.call.prog s).1

theorem run_executeItem (item : WorkItem) (s : State δ) :
    (run D (executeItem item) s).2 = replay D s item := by
  unfold replay
  rw [← run_asyncWorkerFunc]
  simp only [executeItem, Prog.run_bind, Prog.run_perform, exec]

/-- With a part of the outcomes of the allocator that `s` had, the sequential execution of the
items from `s` ends where the program `p` leads from the engine `e`, whatever the allocator does
from now on. -/
def CaughtUp (D : Driver δ) (s : State δ) (items : List WorkItem) (e : State δ) (p : M Unit) : Prop :=
  ∃ outcomes taken freed, e.heap = (fun n => s.heap (taken + n)) ∧
    List.Sublist outcomes ((List.range taken).map s.heap) ∧
    ∀ rest, (run D p (e.withHeap rest freed)).2 =
      items.foldl (replay D) { s with heap := supply outcomes rest }

theorem caughtUp_start (s : State δ) : CaughtUp D s [] s (pure ()) :=
  ⟨[], 0, s.freedContexts, funext fun n => congrArg s.heap (Nat.zero_add n).symm, .slnil,
    fun _ => rfl⟩

section caughtUp

variable {s e e' : State δ} {items : List WorkItem} {p : M Unit}

theorem range_add_map (f : ℕ → Option Addr) (taken k : ℕ) :
    (List.range (taken + k)).map f =
      (List.range taken).map f ++ (List.range k).map fun n => f (taken + n) := by
  rw [List.range_add, List.map_append, List.map_map]
  rfl

/-- Another thread has used the allocator, or freed a context. -/
theorem CaughtUp.beside (h : CaughtUp D s items e p) (he : Beside e e') :
    CaughtUp D s items e' p := by
  obtain ⟨outcomes, taken, freed, hheap, hsub, hrun⟩ := h
  obtain ⟨⟨k, hk⟩, hsame⟩ := he
  refine ⟨outcomes, taken + k, freed, ?_, ?_, fun rest => ?_⟩
  · rw [hk, hheap]
    funext n
    exact congrArg s.heap (Nat.add_assoc taken k n).symm
  · rw [range_add_map]
    exact hsub.trans (List.sublist_append_left _ _)
  · rw [hsame]
    exact hrun rest

/-- The worker performs the next action of its program. -/
theorem CaughtUp.act {a : Act} {k : a.Resp → M Unit} (ha : a.Works)
    (h : CaughtUp D s items e (.act a k)) :
    CaughtUp D s items (exec D a e).2 (k (exec D a e).1) := by
  obtain ⟨outcomes, taken, freed, hheap, hsub, hrun⟩ := h
  obtain ⟨more, freed', hmore, hdrop, hexec⟩ := exec_works (D := D) ha e freed
  refine ⟨outcomes ++ more, taken + more.length, freed', ?_, ?_, fun rest => ?_⟩
  · rw [hdrop, hheap]
    funext n
    exact congrArg s.heap (Nat.add_assoc taken more.length n).symm
  · rw [range_add_map]
    refine hsub.append ?_
    rw [hheap] at hmore
    exact hmore ▸ .refl _
  · have hstep := hrun (supply more rest)
    have hact (t : State δ) : run D (.act a k) t = run D (k (exec D a t).1) (exec D a t).2 := rfl
    rw [← supply_append, hact, hexec rest] at hstep
    exact hstep

/-- The worker takes the next item. -/
theorem CaughtUp.take (h : CaughtUp D s items e (pure ())) (item : WorkItem) :
    CaughtUp D s (items ++ [item]) e (executeItem item) := by
  obtain ⟨outcomes, taken, freed, hheap, hsub, hrun⟩ := h
  refine ⟨outcomes, taken, freed, hheap, hsub, fun rest => ?_⟩
  rw [List.foldl_append, ← hrun rest]
  exact run_executeItem item _

end caughtUp

/-! ### The order of the requests -/

/-- The rest of what the worker executes. -/
def Worker.rest : Worker → M Unit
  | .executing _ p => p
  | _ => pure ()

/-- The request that the worker executes. -/
def Worker.serves : Worker → List ℕ
  | .executing item _ => [item.arg.request]
  | _ => []

/-- The thread of a call performs only actions of a submission. -/
def Submitter.Modest : Submitter → Prop
  | .preparing p => p.Performs Act.Submits
  | .rejected p => p.Performs Act.Submits
  | _ => True

namespace Pool

/-- The items that the moves add to the queue, in order. -/
def enqueued {n : ℕ} (D : Driver δ) (config : Config) (req : ℕ → AsyncCall) :
    Pool δ n → List (PoolMove n) → List WorkItem
  | _, [] => []
  | σ, m :: moves =>
      (σ.next D config req m).queue.drop σ.queue.length ++
        enqueued D config req (σ.next D config req m) moves

/-- The threads before the teardown, and the items enqueued so far: the worker has begun them in
order, and has caught up with their sequential execution. -/
structure Replays (D : Driver δ) (req : ℕ → AsyncCall) (s : State δ) (σ : Pool δ 1)
    (items : List WorkItem) : Prop where
  sound : σ.Sound req
  calls : ∀ i, (σ.calls i).Modest
  stops : ∀ p, σ.cleaner = .stopping p → p.Performs Act.Stops
  works : (σ.workers 0).rest.Performs Act.Works
  served : σ.started = σ.finished ++ (σ.workers 0).serves
  order : ∃ begun, items = begun ++ σ.queue ∧ begun.map (·.arg.request) = σ.started ∧
    (σ.cleaner.tearsDown = false → CaughtUp D s begun σ.engine (σ.workers 0).rest)

theorem start_replays (s : State δ) : Replays D req s (start 1 s) [] where
  sound := start_sound s
  calls _ := trivial
  stops p h := by cases h
  works := trivial
  served := rfl
  order := ⟨[], rfl, rfl, fun _ => caughtUp_start s⟩

section step

variable {s : State δ} {σ τ : Pool δ 1} {items : List WorkItem}

/-- A transition that leaves the queue and the program of the worker alone. -/
theorem Replays.keep (h : Replays D req s σ items) (hsound : τ.Sound req)
    (hcalls : ∀ i, (τ.calls i).Modest)
    (hstops : ∀ p, τ.cleaner = .stopping p → p.Performs Act.Stops) (hqueue : τ.queue = σ.queue)
    (hrest : (τ.workers 0).rest = (σ.workers 0).rest)
    (hserves : (τ.workers 0).serves = (σ.workers 0).serves) (hstarted : τ.started = σ.started)
    (hfinished : τ.finished = σ.finished)
    (hbeside : τ.cleaner.tearsDown = false →
      σ.cleaner.tearsDown = false ∧ Beside σ.engine τ.engine) :
    Replays D req s τ (items ++ τ.queue.drop σ.queue.length) := by
  obtain ⟨begun, hitems, hbegun, hcaught⟩ := h.order
  rw [hqueue, List.drop_length, List.append_nil]
  refine ⟨hsound, hcalls, hstops, ?_, ?_, begun, ?_, ?_, fun hdown => ?_⟩
  · rw [hrest]
    exact h.works
  · rw [hstarted, hfinished, hserves]
    exact h.served
  · rw [hqueue]
    exact hitems
  · rw [hstarted]
    exact hbegun
  · rw [hrest]
    exact (hcaught (hbeside hdown).1).beside (hbeside hdown).2

theorem modest_update (h : ∀ i, (σ.calls i).Modest) (i : ℕ) {c : Submitter} (hc : c.Modest) (j : ℕ) :
    (Function.update σ.calls i c j).Modest := by
  by_cases hj : j = i
  · subst hj
    rwa [Function.update_self]
  · rw [Function.update_of_ne hj]
    exact h j

/-- A transition of the thread of a call. -/
theorem Replays.setCall (h : Replays D req s σ items) (i : ℕ) (c : Submitter) (hc : c.Modest)
    {e : State δ} (he : Beside σ.engine e) (blocked : CondVar ℕ)
    (hsound : Sound req { σ.setCall i c with engine := e, notFull := blocked }) :
    Replays D req s { σ.setCall i c with engine := e, notFull := blocked }
      (items ++ σ.queue.drop σ.queue.length) := by
  exact h.keep hsound (modest_update h.calls i hc) h.stops rfl rfl rfl rfl rfl
    fun hdown => ⟨hdown, he⟩

theorem AtQueue.rest {w : Fin 1} (hw : σ.AtQueue w) :
    (σ.workers 0).rest = pure () ∧ (σ.workers 0).serves = [] := by
  obtain rfl : w = 0 := Subsingleton.elim w 0
  rcases hw with hw | ⟨hw, _⟩ <;> rw [hw] <;> exact ⟨rfl, rfl⟩

/-- The single worker blocks or exits. -/
theorem Replays.setWorker (h : Replays D req s σ items) {w : Fin 1} (hw : σ.AtQueue w) (x : Worker)
    (hx : x.rest = pure () ∧ x.serves = []) (blocked : CondVar (Fin 1))
    (hsound : Sound req { σ.setWorker w x with notEmpty := blocked }) :
    Replays D req s { σ.setWorker w x with notEmpty := blocked }
      (items ++ σ.queue.drop σ.queue.length) := by
  obtain ⟨hrest, hserves⟩ := hw.rest
  obtain rfl : w = 0 := Subsingleton.elim w 0
  have hset : (σ.setWorker 0 x).workers 0 = x := by simp [Pool.setWorker]
  refine h.keep hsound h.calls h.stops rfl ?_ ?_ rfl rfl fun hdown => ⟨hdown, .refl _⟩
  · show ((σ.setWorker 0 x).workers 0).rest = _
    rw [hset, hx.1, hrest]
  · show ((σ.setWorker 0 x).workers 0).serves = _
    rw [hset, hx.2, hserves]

/-- An item enters the queue. -/
theorem Replays.accept (h : Replays D req s σ items) (i : ℕ) (item : WorkItem) (wakes : Fin 1)
    (hsound : Sound req { σ.setCall i (.returned .success) with
      queue := σ.queue ++ [item]
      notEmpty := σ.notEmpty.signal wakes }) :
    Replays D req s { σ.setCall i (.returned .success) with
      queue := σ.queue ++ [item]
      notEmpty := σ.notEmpty.signal wakes }
      (items ++ (σ.queue ++ [item]).drop σ.queue.length) := by
  obtain ⟨begun, hitems, hbegun, hcaught⟩ := h.order
  refine ⟨hsound, fun j => ?_, h.stops, h.works, h.served, begun, ?_, hbegun, hcaught⟩
  · exact modest_update h.calls i (c := .returned .success) trivial j
  · rw [hitems, List.drop_left, List.append_assoc]

/-- The worker takes the head of the queue. -/
theorem Replays.take (h : Replays D req s σ items) {w : Fin 1} {item : WorkItem}
    {rest : List WorkItem} (wakes : ℕ) (hw : σ.AtQueue w) (hqueue : σ.queue = item :: rest)
    (hsound : Sound req { σ.setWorker w (.executing item (executeItem item)) with
      queue := rest
      notFull := σ.notFull.signal wakes
      started := σ.started ++ [item.arg.request] }) :
    Replays D req s { σ.setWorker w (.executing item (executeItem item)) with
      queue := rest
      notFull := σ.notFull.signal wakes
      started := σ.started ++ [item.arg.request] } (items ++ rest.drop σ.queue.length) := by
  obtain ⟨hrest, hserves⟩ := hw.rest
  obtain rfl : w = 0 := Subsingleton.elim w 0
  obtain ⟨begun, hitems, hbegun, hcaught⟩ := h.order
  have hworker : (σ.setWorker 0 (.executing item (executeItem item))).workers 0 =
      .executing item (executeItem item) := by simp [Pool.setWorker]
  have hserved := h.served
  rw [hserves, List.append_nil] at hserved
  rw [hrest] at hcaught
  refine ⟨hsound, h.calls, h.stops, ?_, ?_, begun ++ [item], ?_, ?_, fun hdown => ?_⟩
  · show ((σ.setWorker 0 _).workers 0).rest.Performs _
    rw [hworker]
    exact executeItem_works item
  · show σ.started ++ [item.arg.request] = σ.finished ++ ((σ.setWorker 0 _).workers 0).serves
    rw [hworker, hserved]
    rfl
  · rw [hitems, hqueue]
    simp
  · simp [hbegun]
  · show CaughtUp D s _ σ.engine ((σ.setWorker 0 _).workers 0).rest
    rw [hworker]
    exact (hcaught hdown).take item

/-- The worker performs an action of its item. -/
theorem Replays.execute (h : Replays D req s σ items) {w : Fin 1} {item : WorkItem} {a : Act}
    {k : a.Resp → M Unit} (hw : σ.workers w = .executing item (.act a k))
    (hsound : Sound req ({ σ with engine := (exec D a σ.engine).2 }.setWorker w
      (.executing item (k (exec D a σ.engine).1)))) :
    Replays D req s ({ σ with engine := (exec D a σ.engine).2 }.setWorker w
      (.executing item (k (exec D a σ.engine).1))) (items ++ σ.queue.drop σ.queue.length) := by
  obtain rfl : w = 0 := Subsingleton.elim w 0
  obtain ⟨begun, hitems, hbegun, hcaught⟩ := h.order
  have hworks := h.works
  have hserved := h.served
  rw [hw] at hworks hserved hcaught
  rw [List.drop_length, List.append_nil]
  have hworker : ({ σ with engine := (exec D a σ.engine).2 }.setWorker 0
      (.executing item (k (exec D a σ.engine).1))).workers 0 =
      .executing item (k (exec D a σ.engine).1) := by simp [Pool.setWorker]
  refine ⟨hsound, h.calls, h.stops, ?_, ?_, begun, hitems, hbegun, fun hdown => ?_⟩
  · rw [hworker]
    exact hworks.2 _
  · rw [hworker]
    exact hserved
  · rw [hworker]
    exact (hcaught hdown).act hworks.1

/-- The worker has executed its item. -/
theorem Replays.finish (h : Replays D req s σ items) {w : Fin 1} {item : WorkItem} {u : Unit}
    (hw : σ.workers w = .executing item (.ret u))
    (hsound : Sound req { σ.setWorker w .atLock with
      finished := σ.finished ++ [item.arg.request] }) :
    Replays D req s { σ.setWorker w .atLock with finished := σ.finished ++ [item.arg.request] }
      (items ++ σ.queue.drop σ.queue.length) := by
  obtain rfl : w = 0 := Subsingleton.elim w 0
  obtain ⟨begun, hitems, hbegun, hcaught⟩ := h.order
  have hserved := h.served
  rw [hw] at hserved hcaught
  rw [List.drop_length, List.append_nil]
  have hworker : (σ.setWorker 0 .atLock).workers 0 = .atLock := by simp [Pool.setWorker]
  refine ⟨hsound, h.calls, h.stops, ?_, ?_, begun, hitems, hbegun, fun hdown => ?_⟩
  · show ((σ.setWorker 0 _).workers 0).rest.Performs _
    rw [hworker]
    exact trivial
  · show σ.started = (σ.finished ++ [item.arg.request]) ++ ((σ.setWorker 0 _).workers 0).serves
    rw [hworker, hserved]
    exact (List.append_nil _).symm
  · show CaughtUp D s _ σ.engine ((σ.setWorker 0 _).workers 0).rest
    rw [hworker]
    exact hcaught hdown

/-- Every transition: the items that it adds to the queue come last. -/
theorem Replays.step (h : Replays D req s σ items) (hstep : Step D config req σ τ) :
    Replays D req s τ (items ++ τ.queue.drop σ.queue.length) := by
  have hsound := h.sound.step Nat.one_pos hstep
  have hself (c : Cleaner) (hc : ∀ p, c ≠ .stopping p) (hdown : c.tearsDown = true ∨
      σ.cleaner.tearsDown = false) (hsound : Sound req { σ with cleaner := c }) :
      Replays D req s { σ with cleaner := c } (items ++ σ.queue.drop σ.queue.length) := by
    refine h.keep hsound h.calls (fun p hp => absurd hp (hc p)) rfl rfl rfl rfl rfl fun hfalse => ?_
    rcases hdown with hdown | hdown
    · rw [show c.tearsDown = false from hfalse] at hdown
      cases hdown
    · exact ⟨hdown, .refl _⟩
  cases hstep with
  | stay => exact h.keep hsound h.calls h.stops rfl rfl rfl rfl rfl fun hdown => ⟨hdown, .refl _⟩
  | spuriousWorker w =>
      exact h.keep hsound h.calls h.stops rfl rfl rfl rfl rfl fun hdown => ⟨hdown, .refl _⟩
  | spuriousCall i =>
      exact h.keep hsound h.calls h.stops rfl rfl rfl rfl rfl fun hdown => ⟨hdown, .refl _⟩
  | @invoke i hi =>
      exact h.setCall i (.preparing _) (asyncCall_submits i (req i)) (.refl _) σ.notFull hsound
  | @prepare i a k hi =>
      have hmodest := h.calls i
      rw [hi] at hmodest
      exact h.setCall i (.preparing _) (hmodest.2 _) (exec_submits hmodest.1 _) σ.notFull hsound
  | @refuse i e hi => exact h.setCall i (.returned e) trivial (.refl _) σ.notFull hsound
  | @arrive i item hi => exact h.setCall i (.atLock item) trivial (.refl _) σ.notFull hsound
  | @reject i item hi hshut =>
      exact h.setCall i (.rejected (asyncRejected item)) (asyncRejected_submits item) (.refl _)
        σ.notFull hsound
  | @block i item hi hshut hfull => exact h.setCall i (.waiting item) trivial (.refl _) _ hsound
  | @accept i item wakes hi hshut hroom => exact h.accept i item wakes hsound
  | @unwind i a k hi =>
      have hmodest := h.calls i
      rw [hi] at hmodest
      exact h.setCall i (.rejected _) (hmodest.2 _) (exec_submits hmodest.1 _) σ.notFull hsound
  | @giveUp i r hi => exact h.setCall i (.returned r) trivial (.refl _) σ.notFull hsound
  | @wait w hw hempty hshut => exact h.setWorker hw .waiting ⟨rfl, rfl⟩ _ hsound
  | @exit w hw hempty hshut => exact h.setWorker hw .exited ⟨rfl, rfl⟩ σ.notEmpty hsound
  | @take w item rest wakes hw hqueue => exact h.take wakes hw hqueue hsound
  | @execute w item a k hw => exact h.execute hw hsound
  | @finish w item u hw => exact h.finish hw hsound
  | cleanup hc =>
      refine h.keep hsound h.calls (fun p hp => ?_) rfl rfl rfl rfl rfl fun _ => ⟨?_, .refl _⟩
      · cases hp
        exact stopProbe_stops
      · rw [hc]
        rfl
  | @stop a k hc =>
      obtain ⟨ha, hk⟩ := h.stops _ hc
      refine h.keep hsound h.calls (fun p hp => ?_) rfl rfl rfl rfl rfl fun _ =>
        ⟨?_, exec_stops ha _⟩
      · cases hp
        exact hk _
      · rw [hc]
        rfl
  | stopped hc => exact hself .atShutdown (fun _ => by simp) (.inr (by rw [hc]; rfl)) hsound
  | shutdown hc =>
      refine h.keep hsound h.calls (fun p hp => by cases hp) rfl rfl rfl rfl rfl fun _ =>
        ⟨?_, .refl _⟩
      rw [hc]
      rfl
  | @join w hc hw => exact hself (.joining (w + 1)) (fun _ => by simp) (.inr (by rw [hc]; rfl)) hsound
  | joined hc hj => exact hself .leftovers (fun _ => by simp) (.inr (by rw [hc]; rfl)) hsound
  | drop hc hqueue =>
      have hempty := h.sound.leftovers_empty Nat.one_pos hc
      rw [hqueue] at hempty
      cases hempty
  | drained hc hqueue => exact hself (.releasing _) (fun _ => by simp) (.inl rfl) hsound
  | @release a k hc =>
      exact h.keep hsound h.calls (fun p hp => by cases hp) rfl rfl rfl rfl rfl
        fun hdown => by cases hdown
  | released hc => exact hself .finished (fun _ => by simp) (.inl rfl) hsound

theorem Replays.after (h : Replays D req s σ items) (moves : List (PoolMove 1)) :
    Replays D req s (σ.after D config req moves) (items ++ σ.enqueued D config req moves) := by
  induction moves generalizing σ items with
  | nil => simpa [Pool.after, enqueued] using h
  | cons m moves ih =>
      have hstep : Step D config req σ (σ.next D config req m) := next_step σ m
      have hnext := ih (h.step hstep)
      rw [List.append_assoc] at hnext
      exact hnext

end step

end Pool

/-! ### The theorem -/

/-- **One worker means program order.**  The worker begins the requests in the order in which
they were enqueued, each when it has finished the one before; and whenever it is between two
items and the teardown has not begun, the engine is the one that the sequential execution of the
requests begun so far leaves behind, with the same outcomes of the allocations that they made. -/
theorem one_worker_in_order (D : Driver δ) (config : Config) (req : ℕ → AsyncCall) (s : State δ)
    (moves : List (PoolMove 1)) :
    let σ := (Pool.start 1 s).after D config req moves
    let items := (Pool.start 1 s).enqueued D config req moves
    -- in the order of the queue, and one at a time
    items.map (·.arg.request) = σ.started ++ σ.queue.map (·.arg.request) ∧
    σ.started = σ.finished ++ (σ.workers 0).serves ∧
    -- the drain leaves nothing behind
    (σ.workers 0 = .exited → σ.queue = [] ∧ σ.finished = items.map (·.arg.request)) ∧
    -- and between two items the engine is that of the sequential execution
    ((σ.workers 0).busy = false → σ.cleaner.tearsDown = false →
      ∃ outcomes taken freed, σ.engine.heap = (fun n => s.heap (taken + n)) ∧
        List.Sublist outcomes ((List.range taken).map s.heap) ∧
        { σ.engine with freedContexts := freed } = (items.take σ.finished.length).foldl (replay D)
          { s with heap := supply outcomes σ.engine.heap }) := by
  intro σ items
  have h : Pool.Replays D req s σ items := (Pool.start_replays s).after moves
  obtain ⟨begun, hitems, hbegun, hcaught⟩ := h.order
  have hserved := h.served
  have hidle (hidle : (σ.workers 0).busy = false) :
      (σ.workers 0).rest = pure () ∧ (σ.workers 0).serves = [] := by
    cases hw : σ.workers 0 with
    | executing item p =>
        rw [hw] at hidle
        cases hidle
    | _ => exact ⟨rfl, rfl⟩
  refine ⟨?_, hserved, fun hexit => ?_, fun hbusy hdown => ?_⟩
  · rw [hitems, List.map_append, hbegun]
  · obtain ⟨_, hserves⟩ := hidle (by rw [hexit]; rfl)
    have hqueue := (h.sound.exited 0 hexit).2
    rw [hserves, List.append_nil] at hserved
    refine ⟨hqueue, ?_⟩
    rw [hitems, hqueue, List.append_nil, hbegun, hserved]
  · obtain ⟨hrest, hserves⟩ := hidle hbusy
    obtain ⟨outcomes, taken, freed, hheap, hsub, hrun⟩ := hcaught hdown
    rw [hserves, List.append_nil] at hserved
    have htake : items.take σ.finished.length = begun := by
      rw [← hserved, ← hbegun, List.length_map, hitems, List.take_left]
    refine ⟨outcomes, taken, freed, hheap, hsub, ?_⟩
    have hstate := hrun σ.engine.heap
    rw [hrest] at hstate
    rw [htake]
    exact hstate

/-- A store, and a retrieve of the same key. -/
def storeAndRetrieve : ℕ → AsyncCall
  | 0 => .store (some [107, 101, 121, 49]) (some ⟨0, [118, 49]⟩) true 7 true
  | _ => .retrieve (some [107, 101, 121, 49]) true 8

/-- Both calls race to the queue, the retrieve gets there first, and the cleanup drains it. -/
def racingCalls : List (PoolMove 1) :=
  (List.replicate 10 ([.call 0 0, .call 1 0, .worker 0 0] : List (PoolMove 1))).flatten ++
    List.replicate 7 (.cleaner : PoolMove 1) ++ List.replicate 40 (.worker 0 0 : PoolMove 1) ++
    ([.cleaner, .cleaner] : List (PoolMove 1))

/-- The pool when the worker has been joined. -/
def drainedPool : Pool KeySpace 1 :=
  (Pool.start 1 freshEngine).after keySpaceDriver twoDevices storeAndRetrieve racingCalls

theorem one_worker_in_order_racingCalls :
    let items :=
      (Pool.start 1 freshEngine).enqueued keySpaceDriver twoDevices storeAndRetrieve racingCalls
    drainedPool.finished = [1, 0] ∧ items.map (·.arg.request) = [1, 0] ∧
      drainedPool.engine.callbacks.map (fun c => (c.request, c.result)) =
        [(1, .keyNotFound), (0, .success)] ∧
      ∃ outcomes freed, { drainedPool.engine with freedContexts := freed } =
        (items.take drainedPool.finished.length).foldl (replay keySpaceDriver)
          { freshEngine with heap := supply outcomes drainedPool.engine.heap } := by
  have hrun : drainedPool.finished = [1, 0] ∧ drainedPool.queue.map (·.arg.request) = [] ∧
      drainedPool.engine.callbacks.map (fun c => (c.request, c.result)) =
        [(1, .keyNotFound), (0, .success)] ∧ drainedPool.started = [1, 0] ∧
      (drainedPool.workers 0).busy = false ∧ drainedPool.cleaner.tearsDown = false := by
    decide +kernel
  obtain ⟨hfinished, hqueue, hcallbacks, hstarted, hidle, hdown⟩ := hrun
  have horder := one_worker_in_order keySpaceDriver twoDevices storeAndRetrieve freshEngine
    racingCalls
  dsimp only at horder
  rw [show Pool.after _ _ _ _ _ = drainedPool from rfl] at horder
  obtain ⟨horder, _, _, hserial⟩ := horder
  obtain ⟨outcomes, taken, freed, _, _, hstate⟩ := hserial hidle hdown
  rw [hstarted, hqueue] at horder
  exact ⟨hfinished, horder, hcallbacks, outcomes, freed, hstate⟩

end KvEngine
