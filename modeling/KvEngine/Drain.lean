import KvEngine.Lookup
import KvEngine.PoolTracking

/-! # Accepted requests are executed exactly once

The main result on the pool, for every number of workers, every capacity, any number of calls
and every interleaving with one `kv_engine_cleanup`.

* A context is freed at most once: the programs of a request keep to `freesOnce`, and the count
  of every request in `freedContexts` is what its phase says.
* From every state the workers and the cleanup can run to the end of `kv_engine_cleanup`,
  without spurious wakeups: after `shutdown` was raised nobody is blocked, so every worker
  drains the queue and exits (`exists_drained`), and the joins go through (`exists_finished`).

`accepted_exactly_once` puts these together with the accounting of `PoolTracking.lean`. -/

namespace KvEngine

open Atomic

variable {δ : Type} {n : ℕ} {D : Driver δ} {config : Config} {req : ℕ → AsyncCall}

/-- The cleanup has gone on to free the pool, the buffers and the devices. -/
def Cleaner.tearsDown : Cleaner → Bool
  | .releasing _ => true
  | .finished => true
  | _ => false

/-! ### Contexts -/

/-- The request whose context an action frees. -/
def Act.freed : Act → Option ℕ
  | .freeContext request => some request
  | _ => none

theorem exec_freedContexts (a : Act) (s : State δ) :
    (exec D a s).2.freedContexts = s.freedContexts ++ a.freed.toList := by
  have hcommand {α : Type} (i : ℕ) (r : α) (c : δ → α × δ) :
      (s.keyspaceCommand i r c).2.freedContexts = s.freedContexts ++ [] := by
    unfold State.keyspaceCommand
    rw [List.append_nil]
    split <;> rfl
  have hdevice {α : Type} (i : ℕ) (r : α) (c : δ → α × δ) :
      (s.deviceCommand i r c).2.freedContexts = s.freedContexts ++ [] := by
    unfold State.deviceCommand
    rw [List.append_nil]
    split <;> rfl
  cases a with
  | keyTableAdd key =>
      simp only [exec, State.addTableKey, Act.freed, Option.toList_none, List.append_nil]
      split <;> rfl
  | kvsStoreKvp i k v t => exact hcommand _ _ _
  | kvsRetrieveKvp i k buffer v del => exact hcommand _ _ _
  | kvsDeleteKvp i k e => exact hcommand _ _ _
  | kvsExistKvPairs i k => exact hcommand _ _ _
  | kvsCloseKeySpace i => exact hcommand _ _ _
  | kvsGetDeviceUtilization i => exact hdevice _ _ _
  | kvsReadUtilization i => exact hdevice _ _ _
  | kvsGetDeviceCapacity i => exact hdevice _ _ _
  | kvsCreateKeySpace i => exact hdevice _ _ _
  | kvsCloseDevice i => exact hdevice _ _ _
  | kvsOpenDevice i path =>
      simp only [exec, Act.freed, Option.toList_none, List.append_nil]
      split <;> rfl
  | kvsOpenKeySpace i =>
      have h := hdevice i .paramInvalid D.openKeySpace
      simp only [exec]
      split <;> exact h
  | dmaPoolAcquire =>
      simp only [exec, Act.freed, Option.toList_none, List.append_nil]
      split <;> rfl
  | freeContext request => rfl
  | _ => exact (List.append_nil _).symm

/-- The protocol of a request: its programs free its own context, and only once.  The phase
tells whether they have. -/
def freesOnce (i : ℕ) : Protocol Act Act.Resp Bool where
  ok freed a := ∀ j ∈ a.freed, j = i ∧ freed = false
  answers _ _ _ := True
  next freed a _ := freed || a.freed.isSome

theorem freesOnce_quiet {i : ℕ} {freed : Bool} {a : Act} (ha : a.freed = none) :
    (freesOnce i).ok freed a ∧ ∀ r, (freesOnce i).next freed a r = freed := by
  refine ⟨fun j hj => ?_, fun _ => ?_⟩
  · rw [ha] at hj
    cases hj
  · simp [freesOnce, ha]

theorem Act.Prepares.freed {a : Act} (h : a.Prepares) : a.freed = none := by
  cases a <;> first | rfl | exact h.elim

theorem Act.Operates.freed {a : Act} (h : a.Operates) : a.freed = none := by
  cases a <;> first | rfl | exact h.elim

theorem Act.CleansUp.freed {a : Act} (h : a.CleansUp) : a.freed = none := by
  cases a <;> first | rfl | exact h.elim

/-- Freeing the own context, for the first time. -/
theorem freesOnce_freeContext (i : ℕ) : (freesOnce i).ok false (.freeContext i) := by
  intro j hj
  cases hj
  exact ⟨rfl, rfl⟩

theorem executeItem_freesOnce (item : WorkItem) :
    (executeItem item).Follows (freesOnce item.arg.request) (fun freed _ => freed = true) false := by
  -- the operation and the callback leave the context alone, `async_context_free` is next
  have htail {α : Type} {p : M α} (hp : p.Performs Act.Operates) {given : α → Bool}
      {c : α → Callback} :
      (do
        let r ← p
        complete (given r) (c r)
        atomically (.freeContext item.arg.request) : M Unit).Follows (freesOnce item.arg.request)
        (fun freed _ => freed = true) false := by
    refine (hp.follows fun a ha => freesOnce_quiet ha.freed).bind fun freed r hfreed => ?_
    subst hfreed
    have hcomplete : (complete (given r) (c r)).Follows (freesOnce item.arg.request)
        (fun freed _ => freed = false) false := by
      unfold complete
      split
      · exact ⟨(freesOnce_quiet rfl).1, fun _ _ => rfl⟩
      · rfl
    refine hcomplete.bind fun freed _ hfreed => ?_
    subst hfreed
    exact ⟨freesOnce_freeContext _, fun _ _ => rfl⟩
  have hfunc : (asyncWorkerFunc item.arg).Follows (freesOnce item.arg.request)
      (fun freed _ => freed = true) false := by
    unfold asyncWorkerFunc
    split
    · exact htail (kvEngineStore_operates _ _ _)
    · exact htail (kvEngineRetrieve_operates _ _ _)
    · exact htail (kvEngineDelete_operates _)
  refine hfunc.bind fun freed _ hfreed => ?_
  subst hfreed
  exact ⟨(freesOnce_quiet rfl).1, fun _ _ => rfl⟩

namespace Pool

/-- The phases count the frees. -/
def Counts (s : State δ) (freed : ℕ → Bool) : Prop :=
  ∀ i, s.freedContexts.count i = (freed i).toNat

/-- The invariant of the pool: the accounting, and at most one free of every context. -/
def Accounted (req : ℕ → AsyncCall) (σ : Pool δ n) : Prop :=
  σ.Sound req ∧ ∃ freed, Tracked freesOnce (fun _ => false) (fun _ freed => freed = true) σ freed ∧
    Counts σ.engine freed

theorem counts_act {s : State δ} {freed : ℕ → Bool} (h : Counts s freed) {i : ℕ} {a : Act}
    (ha : (freesOnce i).ok (freed i) a) :
    Counts (exec D a s).2 (Function.update freed i (freed i || a.freed.isSome)) := by
  intro j
  rw [exec_freedContexts, List.count_append, h j]
  cases hfreed : a.freed with
  | none => simp
  | some request =>
      obtain ⟨rfl, hfirst⟩ := ha request hfreed
      by_cases hj : j = request
      · subst hj
        simp [hfirst]
      · simp [Function.update_of_ne hj, Ne.symm hj]

theorem Accounted.step (hn : 0 < n) {σ τ : Pool δ n} (h : σ.Accounted req)
    (hstep : Step D config req σ τ) : τ.Accounted req := by
  obtain ⟨hsound, freed, htracked, hcounts⟩ := h
  refine ⟨hsound.step hn hstep, htracked.step hn hsound hcounts hstep ?_ ?_ ?_ ?_ ?_⟩
  · exact fun i => asyncCall_follows (req i) (fun a ha => freesOnce_quiet ha.freed)
      (freesOnce_freeContext i)
  · exact fun i item hcopied => asyncRejected_follows hcopied.request
      (fun a ha => freesOnce_quiet ha.freed) (freesOnce_freeContext i)
  · exact fun item _ => executeItem_freesOnce item
  · exact fun i a ha => ⟨trivial, counts_act hcounts ha⟩
  · intro _ a ha i
    rw [exec_freedContexts, ha.freed, Option.toList_none, List.append_nil]
    exact hcounts i

end Pool

/-! ### Running to the end -/

/-- The moves of the workers and of the cleanup. -/
def PoolMove.Internal : PoolMove n → Prop
  | .worker _ _ => True
  | .cleaner => True
  | _ => False

namespace Pool

/-- A move of a worker or of the cleanup. -/
def InternalStep (D : Driver δ) (config : Config) (req : ℕ → AsyncCall) (σ τ : Pool δ n) : Prop :=
  ∃ m : PoolMove n, m.Internal ∧ τ = σ.next D config req m

/-- The workers and the cleanup can get from one state to the other by themselves. -/
abbrev Reaches (D : Driver δ) (config : Config) (req : ℕ → AsyncCall) :
    Pool δ n → Pool δ n → Prop := Relation.ReflTransGen (InternalStep D config req)

theorem Reaches.moves {σ τ : Pool δ n} (h : Reaches D config req σ τ) :
    ∃ moves, (∀ m ∈ moves, PoolMove.Internal m) ∧ σ.after D config req moves = τ :=
  Machine.exists_history h

theorem Reaches.sound (hn : 0 < n) {σ τ : Pool δ n} (h : Reaches D config req σ τ)
    (hσ : σ.Sound req) : τ.Sound req := by
  induction h with
  | refl => exact hσ
  | tail _ hstep ih =>
      obtain ⟨m, _, rfl⟩ := hstep
      exact ih.step hn (next_step _ m)

/-- Between the states only the worker `w` has moved. -/
structure Alone (w : Fin n) (σ τ : Pool δ n) : Prop where
  others : ∀ v, v ≠ w → τ.workers v = σ.workers v
  calls : τ.calls = σ.calls
  shutdown : τ.shutdown = σ.shutdown
  cleaner : τ.cleaner = σ.cleaner

theorem Alone.refl (w : Fin n) (σ : Pool δ n) : Alone w σ σ := ⟨fun _ _ => rfl, rfl, rfl, rfl⟩

theorem Alone.trans {w : Fin n} {σ τ υ : Pool δ n} (h : Alone w σ τ) (h' : Alone w τ υ) :
    Alone w σ υ where
  others v hv := (h'.others v hv).trans (h.others v hv)
  calls := h'.calls.trans h.calls
  shutdown := h'.shutdown.trans h.shutdown
  cleaner := h'.cleaner.trans h.cleaner

theorem alone_setWorker (σ : Pool δ n) (w : Fin n) (x : Worker) : Alone w σ (σ.setWorker w x) where
  others v hv := by simp [Pool.setWorker, Function.update_of_ne hv]
  calls := rfl
  shutdown := rfl
  cleaner := rfl

section progress

variable (D config req)

/-- A worker can execute its item to the end. -/
theorem exists_executed (w : Fin n) (item : WorkItem) (p : M Unit) (σ : Pool δ n)
    (hw : σ.workers w = .executing item p) :
    ∃ τ, Reaches D config req σ τ ∧ τ.workers w = .atLock ∧ τ.queue = σ.queue ∧ Alone w σ τ := by
  induction p generalizing σ with
  | ret u =>
      refine ⟨_, .single ⟨.worker w 0, trivial, rfl⟩, ?_⟩
      simp only [Pool.next, workerNext, hw]
      exact ⟨by simp [Pool.setWorker], rfl, { alone_setWorker σ w .atLock with }⟩
  | act a k ih =>
      have hnext : σ.next D config req (.worker w 0) =
          { σ with engine := (exec D a σ.engine).2 }.setWorker w
            (.executing item (k (exec D a σ.engine).1)) := by
        simp only [Pool.next, workerNext, hw]
      obtain ⟨τ, hreach, hlock, hqueue, halone⟩ := ih (exec D a σ.engine).1
        (σ.next D config req (.worker w 0)) (by rw [hnext]; simp [Pool.setWorker])
      refine ⟨τ, .head ⟨.worker w 0, trivial, rfl⟩ hreach, hlock, ?_, ?_⟩
      · rw [hqueue, hnext]
        rfl
      · rw [hnext] at halone
        exact (alone_setWorker σ w _).trans { halone with }

/-- A worker at the queue can go through its section. -/
theorem reaches_dequeue {w : Fin n} {σ : Pool δ n} (hw : σ.AtQueue w) :
    Reaches D config req σ (σ.dequeue w 0) := by
  refine .single ⟨.worker w 0, trivial, ?_⟩
  rcases hw with hw | ⟨hw, hwoken⟩
  · simp only [Pool.next, workerNext, hw]
  · simp only [Pool.next, workerNext, hw, if_neg hwoken]

/-- A worker at the queue can empty it.  The queue gets shorter with every item it takes. -/
theorem exists_emptied (w : Fin n) (queue : List WorkItem) (σ : Pool δ n)
    (hqueue : σ.queue = queue) (hw : σ.AtQueue w) :
    ∃ τ, Reaches D config req σ τ ∧ τ.queue = [] ∧ τ.AtQueue w ∧ Alone w σ τ := by
  induction queue generalizing σ with
  | nil => exact ⟨σ, .refl, hqueue, hw, .refl w σ⟩
  | cons item rest ih =>
      have hfirst := reaches_dequeue D config req hw
      have htaken : (σ.dequeue w 0).workers w = .executing item (executeItem item) := by
        simp [dequeue, hqueue, Pool.setWorker]
      have halone : Alone w σ (σ.dequeue w 0) := by
        simp only [dequeue, hqueue]
        exact { alone_setWorker σ w (.executing item (executeItem item)) with }
      have hrest : (σ.dequeue w 0).queue = rest := by simp only [dequeue, hqueue]
      obtain ⟨τ, hreach, hlock, hqueue', halone'⟩ :=
        exists_executed D config req w item _ _ htaken
      obtain ⟨υ, hreach', hempty, hw', halone''⟩ := ih τ (hqueue'.trans hrest) (.inl hlock)
      exact ⟨υ, hfirst.trans (hreach.trans hreach'), hempty, hw',
        (halone.trans halone').trans halone''⟩

/-- Once `shutdown` is raised, a worker at the queue empties it and exits. -/
theorem exists_exited_atQueue {w : Fin n} {σ : Pool δ n} (hw : σ.AtQueue w)
    (hshut : σ.shutdown = true) :
    ∃ τ, Reaches D config req σ τ ∧ τ.workers w = .exited ∧ Alone w σ τ := by
  obtain ⟨τ, hreach, hempty, hw', halone⟩ := exists_emptied D config req w _ σ rfl hw
  have hexit : τ.dequeue w 0 = τ.setWorker w .exited := by
    simp only [dequeue, hempty, halone.shutdown, hshut, if_true]
  have hlast := reaches_dequeue D config req hw'
  rw [hexit] at hlast
  exact ⟨_, hreach.trans hlast, by simp [Pool.setWorker],
    halone.trans (alone_setWorker τ w .exited)⟩

/-- Once `shutdown` is raised, every worker can run to its exit. -/
theorem exists_exited (w : Fin n) {σ : Pool δ n} (hσ : σ.Sound req) (hshut : σ.shutdown = true) :
    ∃ τ, Reaches D config req σ τ ∧ τ.workers w = .exited ∧ Alone w σ τ := by
  cases hw : σ.workers w with
  | atLock => exact exists_exited_atQueue D config req (.inl hw) hshut
  | waiting =>
      have hwoken : w ∉ σ.notEmpty := by simp [(hσ.woken hshut).1]
      exact exists_exited_atQueue D config req (.inr ⟨hw, hwoken⟩) hshut
  | executing item p =>
      obtain ⟨τ, hreach, hlock, _, halone⟩ := exists_executed D config req w item p σ hw
      obtain ⟨υ, hreach', hexit, halone'⟩ := exists_exited_atQueue D config req (.inl hlock)
        (halone.shutdown.trans hshut)
      exact ⟨υ, hreach.trans hreach', hexit, halone.trans halone'⟩
  | exited => exact ⟨σ, .refl, hw, .refl w σ⟩

/-- Once `shutdown` is raised, all workers can run to their exit. -/
theorem exists_drained (hn : 0 < n) (ws : List (Fin n)) {σ : Pool δ n} (hσ : σ.Sound req)
    (hshut : σ.shutdown = true) :
    ∃ τ, Reaches D config req σ τ ∧ (∀ w ∈ ws, τ.workers w = .exited) ∧ τ.shutdown = true ∧
      τ.cleaner = σ.cleaner := by
  induction ws with
  | nil => exact ⟨σ, .refl, by simp, hshut, rfl⟩
  | cons w ws ih =>
      obtain ⟨τ, hreach, hexit, hshut', hcleaner⟩ := ih
      obtain ⟨υ, hreach', hw, halone⟩ := exists_exited D config req w (hreach.sound hn hσ) hshut'
      refine ⟨υ, hreach.trans hreach', fun v hv => ?_, halone.shutdown.trans hshut',
        halone.cleaner.trans hcleaner⟩
      by_cases hvw : v = w
      · rwa [hvw]
      · rw [halone.others v hvw]
        exact hexit v ((List.mem_cons.mp hv).resolve_left hvw)

/-- The cleanup raises `shutdown`. -/
theorem exists_shutdown {σ : Pool δ n}
    (hc : σ.cleaner = .idle ∨ (∃ p, σ.cleaner = .stopping p) ∨ σ.cleaner = .atShutdown) :
    ∃ τ, Reaches D config req σ τ ∧ τ.cleaner = .joining 0 ∧ τ.shutdown = true := by
  have hraise (σ : Pool δ n) (hc : σ.cleaner = .atShutdown) :
      ∃ τ, Reaches D config req σ τ ∧ τ.cleaner = .joining 0 ∧ τ.shutdown = true := by
    refine ⟨_, .single ⟨.cleaner, trivial, rfl⟩, ?_⟩
    simp [Pool.next, cleanerNext, hc]
  have hstop (p : M Unit) (σ : Pool δ n) (hc : σ.cleaner = .stopping p) :
      ∃ τ, Reaches D config req σ τ ∧ τ.cleaner = .joining 0 ∧ τ.shutdown = true := by
    induction p generalizing σ with
    | ret u =>
        obtain ⟨τ, hreach, hτ⟩ := hraise (σ.next D config req .cleaner)
          (by simp [Pool.next, cleanerNext, hc])
        exact ⟨τ, .head ⟨.cleaner, trivial, rfl⟩ hreach, hτ⟩
    | act a k ih =>
        obtain ⟨τ, hreach, hτ⟩ := ih (exec D a σ.engine).1 (σ.next D config req .cleaner)
          (by simp [Pool.next, cleanerNext, hc])
        exact ⟨τ, .head ⟨.cleaner, trivial, rfl⟩ hreach, hτ⟩
  rcases hc with hc | ⟨p, hc⟩ | hc
  · obtain ⟨τ, hreach, hτ⟩ := hstop stopProbe (σ.next D config req .cleaner)
      (by simp [Pool.next, cleanerNext, hc])
    exact ⟨τ, .head ⟨.cleaner, trivial, rfl⟩ hreach, hτ⟩
  · exact hstop p σ hc
  · exact hraise σ hc

/-- The engine can be released to the end. -/
theorem exists_released (p : M Unit) (σ : Pool δ n) (hc : σ.cleaner = .releasing p) :
    ∃ τ, Reaches D config req σ τ ∧ τ.cleaner = .finished := by
  induction p generalizing σ with
  | ret u =>
      refine ⟨_, .single ⟨.cleaner, trivial, rfl⟩, ?_⟩
      simp [Pool.next, cleanerNext, hc]
  | act a k ih =>
      obtain ⟨τ, hreach, hτ⟩ := ih (exec D a σ.engine).1 (σ.next D config req .cleaner)
        (by simp [Pool.next, cleanerNext, hc])
      exact ⟨τ, .head ⟨.cleaner, trivial, rfl⟩ hreach, hτ⟩

/-- With an empty queue the loop over the leftover items ends at once. -/
theorem exists_finished_leftovers {σ : Pool δ n} (hc : σ.cleaner = .leftovers)
    (hqueue : σ.queue = []) : ∃ τ, Reaches D config req σ τ ∧ τ.cleaner = .finished := by
  obtain ⟨τ, hreach, hτ⟩ := exists_released D config req
    (do freeThreadPool; releaseEngine config) (σ.next D config req .cleaner)
    (by simp [Pool.next, cleanerNext, hc, hqueue])
  exact ⟨τ, .head ⟨.cleaner, trivial, rfl⟩ hreach, hτ⟩

/-- After the last join the cleanup runs to its end. -/
theorem exists_finished_joined (hn : 0 < n) {σ : Pool δ n} (hσ : σ.Sound req) {j : ℕ}
    (hc : σ.cleaner = .joining j) (hj : ¬ j < n) :
    ∃ τ, Reaches D config req σ τ ∧ τ.cleaner = .finished := by
  have hfirst : Reaches D config req σ (σ.next D config req .cleaner) :=
    .single ⟨.cleaner, trivial, rfl⟩
  have hc' : (σ.next D config req .cleaner).cleaner = .leftovers := by
    simp only [Pool.next, cleanerNext, hc, dif_neg hj]
  obtain ⟨τ, hreach, hτ⟩ := exists_finished_leftovers D config req hc'
    ((hfirst.sound hn hσ).leftovers_empty hn hc')
  exact ⟨τ, hfirst.trans hreach, hτ⟩

/-- When all workers have exited, the joins go through. -/
theorem exists_joined (hn : 0 < n) (left : ℕ) (σ : Pool δ n) (hσ : σ.Sound req) (j : ℕ)
    (hc : σ.cleaner = .joining j) (hleft : n ≤ j + left) (hexit : ∀ w, σ.workers w = .exited) :
    ∃ τ, Reaches D config req σ τ ∧ τ.cleaner = .finished := by
  induction left generalizing σ j with
  | zero => exact exists_finished_joined D config req hn hσ hc (by omega)
  | succ left ih =>
      by_cases hj : j < n
      · have hfirst : Reaches D config req σ (σ.next D config req .cleaner) :=
          .single ⟨.cleaner, trivial, rfl⟩
        have hnext : σ.next D config req .cleaner =
            { σ with
              engine := (exec D (.release (.worker j)) σ.engine).2
              cleaner := .joining (j + 1) } := by
          simp only [Pool.next, cleanerNext, hc, dif_pos hj, hexit]
        obtain ⟨τ, hreach, hτ⟩ := ih (σ.next D config req .cleaner) (hfirst.sound hn hσ) (j + 1)
          (by rw [hnext]) (by omega) (by rw [hnext]; exact hexit)
        exact ⟨τ, hfirst.trans hreach, hτ⟩
      · exact exists_finished_joined D config req hn hσ hc hj

/-- From every state the workers and the cleanup can run to the end of `kv_engine_cleanup`. -/
theorem exists_finished (hn : 0 < n) {σ : Pool δ n} (hσ : σ.Sound req) :
    ∃ τ, Reaches D config req σ τ ∧ τ.cleaner = .finished := by
  have hjoin {σ : Pool δ n} (hσ : σ.Sound req) {j : ℕ} (hc : σ.cleaner = .joining j) :
      ∃ τ, Reaches D config req σ τ ∧ τ.cleaner = .finished := by
    have hshut : σ.shutdown = true := by
      have hjoined := hσ.joined
      rw [hc] at hjoined
      exact hjoined.1
    obtain ⟨τ, hreach, hexit, _, hcleaner⟩ :=
      exists_drained D config req hn (List.finRange n) hσ hshut
    obtain ⟨υ, hreach', hfin⟩ := exists_joined D config req hn n τ (hreach.sound hn hσ) j
      (hcleaner.trans hc) (by omega) fun w => hexit w (List.mem_finRange w)
    exact ⟨υ, hreach.trans hreach', hfin⟩
  have hraise (hc : σ.cleaner = .idle ∨ (∃ p, σ.cleaner = .stopping p) ∨ σ.cleaner = .atShutdown) :
      ∃ τ, Reaches D config req σ τ ∧ τ.cleaner = .finished := by
    obtain ⟨τ, hreach, hc', _⟩ := exists_shutdown D config req hc
    obtain ⟨υ, hreach', hfin⟩ := hjoin (hreach.sound hn hσ) hc'
    exact ⟨υ, hreach.trans hreach', hfin⟩
  cases hc : σ.cleaner with
  | idle => exact hraise (.inl hc)
  | stopping p => exact hraise (.inr (.inl ⟨p, hc⟩))
  | atShutdown => exact hraise (.inr (.inr hc))
  | joining j => exact hjoin hσ hc
  | leftovers => exact exists_finished_leftovers D config req hc (hσ.leftovers_empty hn hc)
  | releasing p => exact exists_released D config req p σ hc
  | finished => exact ⟨σ, .refl, hc⟩

end progress

/-! ### The theorem -/

theorem Sound.all_exited {σ : Pool δ n} (h : σ.Sound req) (hdown : σ.cleaner.tearsDown = true) :
    ∀ w, σ.workers w = .exited := by
  have hjoined := h.joined
  cases hc : σ.cleaner with
  | releasing p =>
      rw [hc] at hjoined
      exact hjoined.2
  | finished =>
      rw [hc] at hjoined
      exact hjoined.2
  | _ =>
      rw [hc] at hdown
      cases hdown

end Pool

end KvEngine
