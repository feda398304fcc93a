import KvEngine.QueueLock

/-! # The sections are atomic

`LockedPool.coarse` is the pool in which the section in progress has either not begun or is over.
What the holder of the lock has found out stays true while it holds the lock (`Section.Held`): the
others leave the queue and the flag alone, except for a `thread_pool_create` that gives up.  So as
long as it has not given up, every step is a transition of the coarse pool, or none
(`Sane.refines`), and the invariants of `Pool.Step` hold here (`after_invariant`). -/

namespace KvEngine

open Atomic

variable {δ : Type} {n : ℕ}

/-! ### The coarse pool -/

/-- The section as one step: what it has done so far is undone up to its signal, and what remains
to be done is done from there on.  The section of `thread_pool_destroy` counts as done from the
moment at which `shutdown` is raised. -/
def Section.coarse (ρ : Pool δ n) : Section n → Pool δ n
  | .worker _ (.signalling item) => { ρ with queue := item :: ρ.queue }
  | .worker w (.unlocking item) =>
      { ρ.setWorker w (.executing item (executeItem item)) with
        started := ρ.started ++ [item.arg.request] }
  | .worker _ _ => ρ
  | .call _ _ .signalling => { ρ with queue := ρ.queue.dropLast }
  | .call i _ .unlocking => ρ.setCall i (.returned .success)
  | .call _ _ _ => ρ
  | .cleaner .raising => ρ
  | .cleaner _ => { ρ with notEmpty := [], notFull := [], cleaner := .joining 0 }

/-- The pool as `ThreadPool.lean` has it. -/
def LockedPool.coarse (σ : LockedPool δ n) : Pool δ n :=
  match σ.lock with
  | none => σ.pool
  | some sec => sec.coarse σ.pool

variable {D : Driver δ} {config : Config} {req : ℕ → AsyncCall}

/-! ### What the holder of the lock knows -/

/-- What a worker has found out in its section.  `shutdown` can be raised behind its back, but only
by `thread_pool_create`. -/
def WorkerSection.Knows (σ : LockedPool δ n) : WorkerSection → Prop
  | .testing => True
  | .blocking => σ.pool.queue = [] ∧ (σ.creator.gaveUp = false → σ.pool.shutdown = false)
  | .checking => σ.pool.queue = [] → σ.pool.shutdown = true
  | .leaving => σ.pool.queue = [] ∧ σ.pool.shutdown = true
  | .taking => σ.pool.queue ≠ []
  | .signalling _ => σ.creator.done = true
  | .unlocking _ => σ.creator.done = true

/-- What a call has found out in its section. -/
def SubmitSection.Knows (config : Config) (item : WorkItem) (ρ : Pool δ n) : SubmitSection → Prop
  | .entering => True
  | .testing => True
  | .blocking => ρ.shutdown = false ∧ config.queueCapacity ≤ ρ.queue.length
  | .checking => ρ.shutdown = false → ρ.queue.length < config.queueCapacity
  | .rejecting => ρ.shutdown = true
  | .enqueuing => ρ.shutdown = false ∧ ρ.queue.length < config.queueCapacity
  | .signalling => ρ.shutdown = false ∧ ∃ queue, ρ.queue = queue ++ [item] ∧
      queue.length < config.queueCapacity
  | .unlocking => True

/-- What the cleanup has done in its section. -/
def DestroySection.Knows (ρ : Pool δ n) : DestroySection → Prop
  | .raising => True
  | .wakingWorkers => ρ.shutdown = true
  | .wakingCalls => ρ.shutdown = true ∧ ρ.notEmpty = []
  | .unlocking => ρ.shutdown = true ∧ ρ.notEmpty = [] ∧ ρ.notFull = []

/-- The holder of the lock exists, has not left the queue, and knows what its place says. -/
def Section.Held (config : Config) (σ : LockedPool δ n) : Section n → Prop
  | .worker w pc => w < σ.creator.workers n ∧ σ.pool.AtQueue w ∧ pc.Knows σ
  | .call i item pc => σ.creator.done = true ∧ σ.pool.AtSubmit i item ∧ pc.Knows config item σ.pool
  | .cleaner pc => σ.creator.done = true ∧ σ.pool.cleaner = .atShutdown ∧ pc.Knows σ.pool

/-- Before the pool is returned, only the workers use it, and they find the queue empty. -/
structure Pool.Early (ρ : Pool δ n) : Prop where
  queue : ρ.queue = []
  notFull : ρ.notFull = []
  workers : ∀ w, (ρ.workers w).busy = false

theorem Pool.Early.setWorker {ρ : Pool δ n} (h : ρ.Early) (w : Fin n) {x : Worker}
    (hx : x.busy = false) (blocked : CondVar (Fin n)) :
    Early { ρ.setWorker w x with notEmpty := blocked } where
  queue := h.queue
  notFull := h.notFull
  workers v := by
    by_cases hv : v = w
    · subst hv
      simpa [Pool.setWorker] using hx
    · simpa [Pool.setWorker, Function.update_of_ne hv] using h.workers v

/-- The invariant of the machine. -/
structure LockedPool.Sane (config : Config) (req : ℕ → AsyncCall) (σ : LockedPool δ n) : Prop where
  held : ∀ sec, σ.lock = some sec → sec.Held config σ
  early : σ.creator.done = false → σ.pool.Early
  raised : σ.creator.gaveUp = true → σ.pool.shutdown = true
  bound : σ.creator.workers n ≤ n
  sound : σ.creator.gaveUp = false → σ.coarse.Sound req

namespace Pool.Aside

variable {ρ ρ' : Pool δ n} {m : PoolMove n} (h : Aside D config req ρ m ρ')
include h

theorem queue_eq : ρ'.queue = ρ.queue := by cases h <;> rfl

theorem shutdown_eq : ρ'.shutdown = ρ.shutdown := by cases h <;> rfl

theorem notEmpty_sublist : ρ'.notEmpty.Sublist ρ.notEmpty := by
  cases h with
  | spuriousWorker w => exact List.erase_sublist
  | _ => exact .refl _

theorem notFull_sublist : ρ'.notFull.Sublist ρ.notFull := by
  cases h with
  | spuriousCall i => exact List.erase_sublist
  | _ => exact .refl _

/-- A step outside the lock does not move a worker that is at the queue. -/
theorem atQueue {w : Fin n} (hw : ρ.AtQueue w) : ρ'.AtQueue w := by
  have hworker : ρ'.workers w = ρ.workers w := by
    cases h with
    | @worker v wakes hv x s finished hstep =>
        have hwv : w ≠ v := by
          rintro rfl
          rcases hw with hw | ⟨hw, _⟩ <;> rw [hw] at hv <;> cases hv
        exact Function.update_of_ne hwv _ _
    | _ => rfl
  unfold AtQueue
  rw [hworker]
  exact hw.imp_right fun hw => ⟨hw.1, fun hmem => hw.2 (h.notEmpty_sublist.subset hmem)⟩

theorem atSubmit {i : ℕ} {item : WorkItem} (hi : ρ.AtSubmit i item) : ρ'.AtSubmit i item := by
  have hcall : ρ'.calls i = ρ.calls i := by
    cases h with
    | @call j wakes hj c s hstep =>
        have hij : i ≠ j := by
          rintro rfl
          exact hj item hi
        exact Function.update_of_ne hij _ _
    | _ => rfl
  unfold AtSubmit
  rw [hcall]
  exact hi.imp_right fun hi => ⟨hi.1, fun hmem => hi.2 (h.notFull_sublist.subset hmem)⟩

theorem atShutdown (hc : ρ.cleaner = .atShutdown) : ρ'.cleaner = .atShutdown := by
  cases h with
  | cleaner hout c s hstep => exact absurd hc hout
  | _ => exact hc

/-- Early on there is no item to execute. -/
theorem early (hρ : ρ.Early) : ρ'.Early where
  queue := h.queue_eq.trans hρ.queue
  notFull := by
    have hsub := h.notFull_sublist
    rw [hρ.notFull] at hsub
    exact List.sublist_nil.mp hsub
  workers w := by
    cases h with
    | @worker v wakes hv x s finished hstep =>
        rw [hρ.workers v] at hv
        cases hv
    | _ => exact hρ.workers w

/-- What the holder of the lock knows stays true. -/
theorem held {sec : Section n} {lock lock' : Option (Section n)} {creator : Creator}
    (hsec : sec.Held config ⟨ρ, lock, creator⟩) : sec.Held config ⟨ρ', lock', creator⟩ := by
  have hqueue := h.queue_eq
  have hshut := h.shutdown_eq
  have hnone {ι : Type} {l l' : List ι} (hsub : l'.Sublist l) (hl : l = []) : l' = [] := by
    rw [hl] at hsub
    exact List.sublist_nil.mp hsub
  cases sec with
  | worker w pc =>
      obtain ⟨hexists, hat, hknows⟩ := hsec
      refine ⟨hexists, h.atQueue hat, ?_⟩
      cases pc <;> simp only [WorkerSection.Knows, hqueue, hshut] at hknows ⊢ <;> exact hknows
  | call i item pc =>
      obtain ⟨hdone, hat, hknows⟩ := hsec
      refine ⟨hdone, h.atSubmit hat, ?_⟩
      cases pc <;> simp only [SubmitSection.Knows, hqueue, hshut] at hknows ⊢ <;> exact hknows
  | cleaner pc =>
      obtain ⟨hdone, hat, hknows⟩ := hsec
      refine ⟨hdone, h.atShutdown hat, ?_⟩
      cases pc with
      | raising => trivial
      | wakingWorkers => exact hshut.trans hknows
      | wakingCalls => exact ⟨hshut.trans hknows.1, hnone h.notEmpty_sublist hknows.2⟩
      | unlocking =>
          exact ⟨hshut.trans hknows.1, hnone h.notEmpty_sublist hknows.2.1,
            hnone h.notFull_sublist hknows.2.2⟩

end Pool.Aside

/-! ### The refinement -/

namespace Section

variable (ρ : Pool δ n) (sec : Section n)

@[simp] theorem coarse_engine : (sec.coarse ρ).engine = ρ.engine := by
  unfold coarse
  split <;> rfl

@[simp] theorem coarse_finished : (sec.coarse ρ).finished = ρ.finished := by
  unfold coarse
  split <;> rfl

theorem coarse_spuriousWorker (w : Fin n) :
    sec.coarse { ρ with notEmpty := ρ.notEmpty.spurious w } =
      { sec.coarse ρ with notEmpty := (sec.coarse ρ).notEmpty.spurious w } := by
  unfold coarse
  split <;> rfl

theorem coarse_spuriousCall (i : ℕ) :
    sec.coarse { ρ with notFull := ρ.notFull.spurious i } =
      { sec.coarse ρ with notFull := (sec.coarse ρ).notFull.spurious i } := by
  unfold coarse
  split <;> rfl

variable {ρ sec}

theorem coarse_setCall {i : ℕ} (hi : ∀ item pc, sec ≠ .call i item pc) (c : Submitter)
    (s : State δ) : sec.coarse { ρ.setCall i c with engine := s } =
      { (sec.coarse ρ).setCall i c with engine := s } := by
  unfold coarse
  split <;> try rfl
  rename_i j item
  have hji : j ≠ i := by
    rintro rfl
    exact hi item .unlocking rfl
  simp only [Pool.setCall, Function.update_comm hji]

theorem coarse_calls {i : ℕ} (hi : ∀ item pc, sec ≠ .call i item pc) :
    (sec.coarse ρ).calls i = ρ.calls i := by
  unfold coarse
  split <;> try rfl
  rename_i j item
  have hij : i ≠ j := by
    rintro rfl
    exact hi item .unlocking rfl
  exact Function.update_of_ne hij _ _

theorem coarse_setWorker {w : Fin n} (hw : ∀ pc, sec ≠ .worker w pc) (x : Worker) (s : State δ)
    (finished : List ℕ) : sec.coarse { ρ.setWorker w x with engine := s, finished := finished } =
      { (sec.coarse ρ).setWorker w x with engine := s, finished := finished } := by
  unfold coarse
  split <;> try rfl
  rename_i v item
  have hvw : v ≠ w := by
    rintro rfl
    exact hw (.unlocking item) rfl
  simp only [Pool.setWorker, Function.update_comm hvw]

theorem coarse_workers {w : Fin n} (hw : ∀ pc, sec ≠ .worker w pc) :
    (sec.coarse ρ).workers w = ρ.workers w := by
  unfold coarse
  split <;> try rfl
  rename_i v item
  have hwv : w ≠ v := by
    rintro rfl
    exact hw (.unlocking item) rfl
  exact Function.update_of_ne hwv _ _

theorem coarse_not_exited {w : Fin n} {pc : WorkerSection} (hw : ρ.AtQueue w) :
    (Section.coarse ρ (.worker w pc)).workers w ≠ .exited := by
  intro hexit
  cases pc with
  | unlocking item => simp [coarse, Pool.setWorker] at hexit
  | _ => rcases hw with hw | ⟨hw, _⟩ <;> exact absurd (hw.symm.trans hexit) (by simp)

theorem coarse_setCleaner (hc : ∀ pc, sec ≠ .cleaner pc) (c : Cleaner) (s : State δ) :
    sec.coarse { ρ with engine := s, cleaner := c } =
      { sec.coarse ρ with engine := s, cleaner := c } := by
  unfold coarse
  split <;> try rfl
  · rename_i pc _
    exact absurd rfl (hc pc)

end Section

variable (D config req)

/-- A step of a thread that uses the pool: it keeps what has to be kept, and the coarse pool makes
one transition or none. -/
structure LockedPool.Carries (σ τ : LockedPool δ n) : Prop where
  creator : τ.creator = σ.creator
  held : ∀ sec, τ.lock = some sec → sec.Held config τ
  early : σ.creator.done = false → τ.pool.Early
  raised : σ.pool.shutdown = true → τ.pool.shutdown = true
  refines : σ.creator.gaveUp = false → Pool.Step D config req σ.coarse τ.coarse

variable {D config req}

namespace LockedPool

variable {σ : LockedPool δ n}

/-- A step that changes nothing but who holds the lock, and where. -/
theorem lock_carries (h : σ.Sane config req) (hcoarse : σ.coarse = σ.pool) {sec : Section n}
    (hheld : sec.Held config { σ with lock := some sec }) (hsame : sec.coarse σ.pool = σ.pool) :
    Carries D config req σ { σ with lock := some sec } := by
  refine ⟨rfl, ?_, h.early, id, fun _ => ?_⟩
  · rintro _ ⟨⟩
    exact hheld
  · show Pool.Step D config req σ.coarse (sec.coarse σ.pool)
    rw [hcoarse, hsame]
    exact .stay

/-- The last step of a section. -/
theorem unlock_carries {ρ : Pool δ n} (hearly : σ.creator.done = false → ρ.Early)
    (hshut : ρ.shutdown = σ.pool.shutdown)
    (hstep : σ.creator.gaveUp = false → Pool.Step D config req σ.coarse ρ) :
    Carries D config req σ { σ with pool := ρ, lock := none } :=
  ⟨rfl, fun sec hsec => (by cases hsec), hearly, fun hraised => hshut.trans hraised, hstep⟩

theorem worker_carries (h : σ.Sane config req) {w : Fin n} {pc : WorkerSection}
    (hlock : σ.lock = some (.worker w pc)) (wakes : ℕ) {ρ : Pool δ n} {lock : Option (Section n)}
    (hnext : σ.pool.workerSection w wakes pc = (ρ, lock)) :
    Carries D config req σ { σ with pool := ρ, lock := lock } := by
  obtain ⟨hexists, hat, hknows⟩ := h.held _ hlock
  have hcoarse : σ.coarse = (Section.worker w pc).coarse σ.pool := by rw [coarse, hlock]
  have hlate {p : Prop} (hdone : σ.creator.done = true) (hnot : σ.creator.done = false) : p := by
    rw [hdone] at hnot
    cases hnot
  cases pc with
  | testing =>
      obtain ⟨rfl, rfl⟩ := Prod.mk.inj hnext
      refine lock_carries h hcoarse ⟨hexists, hat, ?_⟩ (by split <;> rfl)
      split
      · rename_i hcond
        simp only [Bool.and_eq_true, List.isEmpty_iff, Bool.not_eq_true'] at hcond
        exact ⟨hcond.1, fun _ => hcond.2⟩
      · rename_i hcond
        intro (hempty : σ.pool.queue = [])
        simpa [hempty] using hcond
  | blocking =>
      obtain ⟨rfl, rfl⟩ := Prod.mk.inj hnext
      refine unlock_carries (fun hdone => ?_) rfl fun hup => hcoarse ▸ ?_
      · exact (h.early hdone).setWorker w (x := .waiting) rfl _
      · exact .wait hat hknows.1 (hknows.2 hup)
  | checking =>
      obtain ⟨rfl, rfl⟩ := Prod.mk.inj hnext
      refine lock_carries h hcoarse ⟨hexists, hat, ?_⟩ (by split <;> rfl)
      split
      · rename_i hcond
        simp only [Bool.and_eq_true, List.isEmpty_iff] at hcond
        exact ⟨hcond.2, hcond.1⟩
      · rename_i hcond
        intro (hempty : σ.pool.queue = [])
        have hraised := hknows hempty
        simp [hempty, hraised] at hcond
  | leaving =>
      obtain ⟨rfl, rfl⟩ := Prod.mk.inj hnext
      refine unlock_carries (fun hdone => ?_) rfl fun _ => hcoarse ▸ ?_
      · exact (h.early hdone).setWorker w (x := .exited) rfl σ.pool.notEmpty
      · exact .exit hat hknows.1 hknows.2
  | taking =>
      obtain ⟨item, rest, hqueue⟩ := List.exists_cons_of_ne_nil hknows
      simp only [Pool.workerSection, hqueue, Prod.mk.injEq] at hnext
      obtain ⟨rfl, rfl⟩ := hnext
      have hdone : σ.creator.done = true := by
        by_contra hdone
        exact hknows (h.early (Bool.not_eq_true _ ▸ hdone)).queue
      refine ⟨rfl, ?_, hlate hdone, id, fun _ => hcoarse ▸ ?_⟩
      · rintro sec ⟨⟩
        exact ⟨hexists, hat, hdone⟩
      · -- putting the item back gives the pool as it was
        simp only [coarse, Section.coarse, ← hqueue]
        exact .stay
  | signalling item =>
      obtain ⟨rfl, rfl⟩ := Prod.mk.inj hnext
      refine ⟨rfl, ?_, hlate hknows, id, fun _ => hcoarse ▸ .take wakes hat rfl⟩
      rintro sec ⟨⟩
      exact ⟨hexists, hat, hknows⟩
  | unlocking item =>
      obtain ⟨rfl, rfl⟩ := Prod.mk.inj hnext
      exact unlock_carries (hlate hknows) rfl fun _ => hcoarse ▸ .stay

theorem call_carries (h : σ.Sane config req) {i : ℕ} {item : WorkItem} {pc : SubmitSection}
    (hlock : σ.lock = some (.call i item pc)) (wakes : Fin n) {ρ : Pool δ n}
    {lock : Option (Section n)} (hnext : σ.pool.submitSection config i item wakes pc = (ρ, lock)) :
    Carries D config req σ { σ with pool := ρ, lock := lock } := by
  obtain ⟨hdone, hat, hknows⟩ := h.held _ hlock
  have hcoarse : σ.coarse = (Section.call i item pc).coarse σ.pool := by rw [coarse, hlock]
  have hlate {p : Prop} (hnot : σ.creator.done = false) : p := by
    rw [hdone] at hnot
    cases hnot
  cases pc with
  | entering =>
      obtain ⟨rfl, rfl⟩ := Prod.mk.inj hnext
      refine lock_carries h hcoarse ⟨hdone, hat, ?_⟩ (by split <;> rfl)
      split
      · assumption
      · trivial
  | testing =>
      obtain ⟨rfl, rfl⟩ := Prod.mk.inj hnext
      refine lock_carries h hcoarse ⟨hdone, hat, ?_⟩ (by split <;> rfl)
      split
      · rename_i hcond
        exact ⟨hcond.2, hcond.1⟩
      · rename_i hcond
        intro (hshut : σ.pool.shutdown = false)
        exact Nat.lt_of_not_le fun hfull => hcond ⟨hfull, hshut⟩
  | blocking =>
      obtain ⟨rfl, rfl⟩ := Prod.mk.inj hnext
      exact unlock_carries hlate rfl fun _ => hcoarse ▸ .block hat hknows.1 hknows.2
  | checking =>
      obtain ⟨rfl, rfl⟩ := Prod.mk.inj hnext
      refine lock_carries h hcoarse ⟨hdone, hat, ?_⟩ (by split <;> rfl)
      split
      · assumption
      · rename_i hcond
        have hshut : σ.pool.shutdown = false := Bool.not_eq_true _ ▸ hcond
        exact ⟨hshut, hknows hshut⟩
  | rejecting =>
      obtain ⟨rfl, rfl⟩ := Prod.mk.inj hnext
      exact unlock_carries hlate rfl fun _ => hcoarse ▸ .reject hat hknows
  | enqueuing =>
      obtain ⟨rfl, rfl⟩ := Prod.mk.inj hnext
      refine ⟨rfl, ?_, hlate, id, fun _ => hcoarse ▸ ?_⟩
      · rintro sec ⟨⟩
        exact ⟨hdone, hat, hknows.1, σ.pool.queue, rfl, hknows.2⟩
      · -- dropping the item again gives the pool as it was
        simp only [coarse, Section.coarse, List.dropLast_concat]
        exact .stay
  | signalling =>
      obtain ⟨rfl, rfl⟩ := Prod.mk.inj hnext
      obtain ⟨hshut, queue, hqueue, hroom⟩ := hknows
      refine ⟨rfl, ?_, hlate, id, fun _ => hcoarse ▸ ?_⟩
      · rintro sec ⟨⟩
        exact ⟨hdone, hat, trivial⟩
      · have hstep : Pool.Step D config req { σ.pool with queue := queue }
            { Pool.setCall { σ.pool with queue := queue } i (.returned .success) with
              queue := queue ++ [item]
              notEmpty := σ.pool.notEmpty.signal wakes } := .accept wakes hat hshut hroom
        simp only [coarse, Section.coarse, hqueue, List.dropLast_concat]
        exact hstep
  | unlocking =>
      obtain ⟨rfl, rfl⟩ := Prod.mk.inj hnext
      exact unlock_carries hlate rfl fun _ => hcoarse ▸ .stay

theorem cleaner_carries (h : σ.Sane config req) {pc : DestroySection}
    (hlock : σ.lock = some (.cleaner pc)) {ρ : Pool δ n} {lock : Option (Section n)}
    (hnext : σ.pool.destroySection pc = (ρ, lock)) :
    Carries D config req σ { σ with pool := ρ, lock := lock } := by
  obtain ⟨hdone, hat, hknows⟩ := h.held _ hlock
  have hcoarse : σ.coarse = (Section.cleaner pc).coarse σ.pool := by rw [coarse, hlock]
  have hlate {p : Prop} (hnot : σ.creator.done = false) : p := by
    rw [hdone] at hnot
    cases hnot
  cases pc with
  | raising =>
      obtain ⟨rfl, rfl⟩ := Prod.mk.inj hnext
      refine ⟨rfl, ?_, hlate, fun _ => rfl, fun _ => hcoarse ▸ .shutdown hat⟩
      rintro sec ⟨⟩
      exact ⟨hdone, hat, rfl⟩
  | wakingWorkers =>
      obtain ⟨rfl, rfl⟩ := Prod.mk.inj hnext
      refine ⟨rfl, ?_, hlate, id, fun _ => hcoarse ▸ .stay⟩
      rintro sec ⟨⟩
      exact ⟨hdone, hat, hknows, rfl⟩
  | wakingCalls =>
      obtain ⟨rfl, rfl⟩ := Prod.mk.inj hnext
      refine ⟨rfl, ?_, hlate, id, fun _ => hcoarse ▸ .stay⟩
      rintro sec ⟨⟩
      exact ⟨hdone, hat, hknows.1, hknows.2, rfl⟩
  | unlocking =>
      obtain ⟨rfl, rfl⟩ := Prod.mk.inj hnext
      obtain ⟨_, hworkers, hcalls⟩ := hknows
      refine unlock_carries hlate rfl fun _ => hcoarse ▸ ?_
      simp only [Section.coarse, ← hworkers, ← hcalls]
      exact .stay

/-- When the cleanup has joined the workers, the queue is empty. -/
theorem Sane.leftovers_empty (hn : 0 < n) (h : σ.Sane config req)
    (hc : σ.pool.cleaner = .leftovers) : σ.pool.queue = [] := by
  cases hdone : σ.creator.done with
  | false => exact (h.early hdone).queue
  | true =>
      have hup : σ.creator.gaveUp = false := by
        cases hcr : σ.creator <;> rw [hcr] at hdone <;> first | rfl | cases hdone
      have hsound := h.sound hup
      cases hlock : σ.lock with
      | none =>
          rw [coarse, hlock] at hsound
          exact hsound.leftovers_empty hn hc
      | some sec =>
          have hsec := h.held sec hlock
          rw [coarse, hlock] at hsound
          cases sec with
          | worker w pc =>
              -- the holder of the lock has not exited
              have hcleaner : (Section.coarse σ.pool (.worker w pc)).cleaner = .leftovers := by
                cases pc <;> exact hc
              have hjoined := hsound.joined
              rw [hcleaner] at hjoined
              exact absurd (hjoined.2 w) (Section.coarse_not_exited hsec.2.1)
          | call i item pc =>
              have hcleaner : (Section.coarse σ.pool (.call i item pc)).cleaner = .leftovers := by
                cases pc <;> exact hc
              cases pc with
              | signalling =>
                  have hjoined := hsound.joined
                  rw [hcleaner] at hjoined
                  have hraised : σ.pool.shutdown = true := hjoined.1
                  rw [hsec.2.2.1] at hraised
                  cases hraised
              | _ => exact hsound.leftovers_empty hn hcleaner
          | cleaner pc =>
              rw [hsec.2.1] at hc
              cases hc

/-- A step outside the lock is a transition of the coarse pool. -/
theorem aside_carries (hn : 0 < n) (h : σ.Sane config req) {m : PoolMove n} {ρ : Pool δ n}
    (haside : Pool.Aside D config req σ.pool m ρ) :
    Carries D config req σ { σ with pool := ρ } := by
  refine ⟨rfl, fun sec hsec => haside.held (h.held sec hsec), fun hdone => haside.early (h.early hdone),
    fun hraised => haside.shutdown_eq.trans hraised, fun hup => ?_⟩
  have hleft := (h.sound hup).leftovers_empty hn
  unfold coarse at hleft ⊢
  cases hlock : σ.lock with
  | none =>
      rw [hlock] at hleft
      cases haside with
      | stay => exact .stay
      | call hi c s hstep => exact hstep σ.pool rfl rfl
      | worker hw x s finished hstep => exact hstep σ.pool rfl rfl rfl
      | cleaner hc c s hstep => exact hstep σ.pool rfl rfl (fun _ => id) hleft
      | spuriousWorker w => exact .spuriousWorker w
      | spuriousCall i => exact .spuriousCall i
  | some sec =>
      rw [hlock] at hleft
      have hsec := h.held sec hlock
      cases haside with
      | stay => exact .stay
      | @call i wakes hi c s hstep =>
          have hother : ∀ item pc, sec ≠ .call i item pc := by
            rintro item pc rfl
            exact hi item hsec.2.1
          have hcoarse := hstep (sec.coarse σ.pool) (sec.coarse_engine σ.pool)
            (Section.coarse_calls hother)
          rw [← Section.coarse_setCall hother] at hcoarse
          exact hcoarse
      | @worker w wakes hw x s finished hstep =>
          have hother : ∀ pc, sec ≠ .worker w pc := by
            rintro pc rfl
            rcases hsec.2.1 with hat | ⟨hat, _⟩ <;> rw [hat] at hw <;> cases hw
          have hcoarse := hstep (sec.coarse σ.pool) (sec.coarse_engine σ.pool)
            (sec.coarse_finished σ.pool) (Section.coarse_workers hother)
          rw [← Section.coarse_setWorker hother] at hcoarse
          exact hcoarse
      | cleaner hc c s hstep =>
          have hother : ∀ pc, sec ≠ .cleaner pc := by
            rintro pc rfl
            exact hc hsec.2.1
          have hcoarse := hstep (sec.coarse σ.pool) (sec.coarse_engine σ.pool)
            (by
              unfold Section.coarse
              split <;> try rfl
              exact absurd rfl (hother _))
            (fun w hexit => by
              rw [Section.coarse_workers]
              · exact hexit
              · rintro pc rfl
                rcases hsec.2.1 with hat | ⟨hat, _⟩ <;> rw [hat] at hexit <;> cases hexit)
            hleft
          rw [← Section.coarse_setCleaner hother] at hcoarse
          exact hcoarse
      | spuriousWorker w =>
          show Pool.Step D config req (sec.coarse σ.pool) (sec.coarse _)
          rw [Section.coarse_spuriousWorker]
          exact .spuriousWorker w
      | spuriousCall i =>
          show Pool.Step D config req (sec.coarse σ.pool) (sec.coarse _)
          rw [Section.coarse_spuriousCall]
          exact .spuriousCall i

/-- A thread takes the lock. -/
theorem enter_carries (h : σ.Sane config req) {m : PoolMove n} (hruns : σ.creator.runs m = true)
    {sec : Section n} (henters : σ.pool.Enters m sec) (hlock : σ.lock = none) :
    Carries D config req σ { σ with lock := some sec } := by
  have hcoarse : σ.coarse = σ.pool := by rw [coarse, hlock]
  cases henters with
  | worker hw => exact lock_carries h hcoarse ⟨of_decide_eq_true hruns, hw, trivial⟩ rfl
  | submit hi => exact lock_carries h hcoarse ⟨hruns, .inl hi, trivial⟩ rfl
  | resume hi hwoken => exact lock_carries h hcoarse ⟨hruns, .inr ⟨hi, hwoken⟩, trivial⟩ rfl
  | cleaner hc => exact lock_carries h hcoarse ⟨hruns, hc, trivial⟩ rfl

/-- Every step of a thread that uses the pool. -/
theorem step_carries (hn : 0 < n) (h : σ.Sane config req) (m : PoolMove n) :
    Carries D config req σ (σ.next D config req (.step m)) := by
  have hstep : Step D config req σ m (σ.next D config req (.step m)) := next_step σ m
  generalize σ.next D config req (.step m) = τ at hstep ⊢
  cases hstep with
  | stay => exact ⟨rfl, h.held, h.early, id, fun _ => .stay⟩
  | worker hlock hnext => exact worker_carries h hlock _ hnext
  | call hlock hnext => exact call_carries h hlock _ hnext
  | cleaner hlock hnext => exact cleaner_carries h hlock hnext
  | enter hlock hruns henters => exact enter_carries h hruns henters hlock
  | outside hgate => exact aside_carries hn h (Pool.next_aside hgate (h.leftovers_empty hn))

/-! ### Runs -/

theorem Carries.sane (hn : 0 < n) (h : σ.Sane config req) {τ : LockedPool δ n}
    (hτ : Carries D config req σ τ) : τ.Sane config req where
  held := hτ.held
  early hdone := hτ.early (hτ.creator ▸ hdone)
  raised hup := hτ.raised (h.raised (hτ.creator ▸ hup))
  bound := hτ.creator ▸ h.bound
  sound hup := by
    rw [hτ.creator] at hup
    exact (h.sound hup).step hn (hτ.refines hup)

/-- The holder of the lock does not mind a step of `thread_pool_create` before it gives up. -/
theorem held_creator {sec : Section n} {c : Creator} (hsec : sec.Held config σ)
    (hworkers : σ.creator.workers n ≤ c.workers n) (hdone : σ.creator.done = true → c.done = true)
    (hup : c.gaveUp = false → σ.creator.gaveUp = false) :
    sec.Held config { σ with creator := c } := by
  cases sec with
  | worker w pc =>
      obtain ⟨hexists, hat, hknows⟩ := hsec
      refine ⟨hexists.trans_le hworkers, hat, ?_⟩
      cases pc with
      | blocking => exact ⟨hknows.1, fun h => hknows.2 (hup h)⟩
      | signalling item => exact hdone hknows
      | unlocking item => exact hdone hknows
      | _ => exact hknows
  | call i item pc => exact ⟨hdone hsec.1, hsec.2⟩
  | cleaner pc => exact ⟨hdone hsec.1, hsec.2⟩

/-- A step of `thread_pool_create` that leaves the pool alone. -/
theorem Sane.setCreator (h : σ.Sane config req) {c : Creator}
    (hworkers : σ.creator.workers n ≤ c.workers n) (hbound : c.workers n ≤ n)
    (hdone : σ.creator.done = false) (hup : c.gaveUp = σ.creator.gaveUp) :
    Sane config req { σ with creator := c } where
  held sec hsec := held_creator (h.held sec hsec) hworkers
    (fun hnot => by rw [hdone] at hnot; cases hnot) fun hc => hup ▸ hc
  early _ := h.early hdone
  raised hc := h.raised (hup ▸ hc)
  bound := hbound
  sound hc := h.sound (hup ▸ hc)

/-- `thread_pool_create` raises `shutdown` and broadcasts.  Only workers are in their sections, and
a raised flag does not contradict what they know. -/
theorem Sane.giveUp (h : σ.Sane config req) (hdone : σ.creator.done = false) {c : Creator}
    (hworkers : c.workers n = σ.creator.workers n) (hc : c.gaveUp = true)
    {blocked : CondVar (Fin n)} (hsub : blocked ⊆ σ.pool.notEmpty) :
    Sane config req
      { σ with pool := { σ.pool with shutdown := true, notEmpty := blocked }, creator := c } where
  held sec hsec := by
    have hheld := h.held sec hsec
    cases sec with
    | worker w pc =>
        obtain ⟨hexists, hat, hknows⟩ := hheld
        refine ⟨hworkers ▸ hexists,
          hat.imp_right fun hw => ⟨hw.1, fun hmem => hw.2 (hsub hmem)⟩, ?_⟩
        cases pc with
        | testing => trivial
        | blocking => exact ⟨hknows.1, fun hup => absurd (hc.symm.trans hup) (by simp)⟩
        | checking => exact fun _ => rfl
        | leaving => exact ⟨hknows.1, rfl⟩
        | taking => exact hknows
        | signalling item => exact absurd (hdone.symm.trans hknows) (by simp)
        | unlocking item => exact absurd (hdone.symm.trans hknows) (by simp)
    | call i item pc => exact absurd (hdone.symm.trans hheld.1) (by simp)
    | cleaner pc => exact absurd (hdone.symm.trans hheld.1) (by simp)
  early _ := { h.early hdone with }
  raised _ := rfl
  bound := hworkers ▸ h.bound
  sound hup := absurd (hc.symm.trans hup) (by simp)

theorem Sane.creatorNext (h : σ.Sane config req) (fails : Bool) :
    (σ.creatorNext fails).Sane config req := by
  unfold LockedPool.creatorNext
  split
  · rename_i i hc
    have hworkers : σ.creator.workers n = i := by rw [hc]; rfl
    split
    · rename_i hi
      cases fails with
      | true => exact h.setCreator hworkers.le hi.le (by rw [hc]; rfl) (by rw [hc]; rfl)
      | false =>
          exact h.setCreator (hworkers ▸ Nat.le_succ i) hi (by rw [hc]; rfl) (by rw [hc]; rfl)
    · exact h.setCreator h.bound le_rfl (by rw [hc]; rfl) (by rw [hc]; rfl)
  · rename_i i hc
    exact h.giveUp (by rw [hc]; rfl) (by rw [hc]; rfl) rfl fun _ => id
  · rename_i i hc
    have hraised : σ.pool.shutdown = true := h.raised (by rw [hc]; rfl)
    have hsane := h.giveUp (c := .joining i 0) (by rw [hc]; rfl) (by rw [hc]; rfl) rfl
      (List.nil_subset _)
    rw [← hraised] at hsane
    exact hsane
  · rename_i i j hc
    have hworkers : σ.creator.workers n = i := by rw [hc]; rfl
    have hbound := h.bound
    rw [hworkers] at hbound
    split
    · split
      · exact h.setCreator hworkers.le hbound (by rw [hc]; rfl) (by rw [hc]; rfl)
      · exact h
    · exact h.setCreator hworkers.le hbound (by rw [hc]; rfl) (by rw [hc]; rfl)
  · exact h
  · exact h

theorem start_sane (s : State δ) : (start n s).Sane config req where
  held _ h := by cases h
  early _ := ⟨rfl, rfl, fun _ => rfl⟩
  raised h := by cases h
  bound := Nat.zero_le n
  sound _ := Pool.start_sound s

/-- As long as `thread_pool_create` has not given up, it leaves the coarse pool alone. -/
theorem creatorNext_coarse {fails : Bool}
    (hup : (σ.creatorNext fails).creator.gaveUp = false) :
    σ.creator.gaveUp = false ∧ (σ.creatorNext fails).coarse = σ.coarse := by
  unfold creatorNext at hup ⊢
  split at hup
  · rename_i i hc
    rw [hc]
    refine ⟨rfl, ?_⟩
    split <;> rfl
  · cases hup
  · cases hup
  · rename_i i j hc
    split at hup
    · split at hup
      · cases hup
      · rw [hc] at hup
        cases hup
    · cases hup
  · rename_i i hc
    rw [hc] at hup
    cases hup
  · exact ⟨hup, rfl⟩

theorem Sane.next (hn : 0 < n) (h : σ.Sane config req) (m : LockMove n) :
    (σ.next D config req m).Sane config req := by
  cases m with
  | step m => exact (step_carries hn h m).sane hn h
  | create fails => exact h.creatorNext fails

/-- **The sections are atomic.**  As long as `thread_pool_create` has not given up, every step is a
transition of the coarse pool. -/
theorem Sane.refines (hn : 0 < n) (h : σ.Sane config req) (m : LockMove n)
    (hup : (σ.next D config req m).creator.gaveUp = false) :
    Pool.Step D config req σ.coarse (σ.next D config req m).coarse := by
  cases m with
  | step m =>
      have hcarries := step_carries (D := D) hn h m
      rw [hcarries.creator] at hup
      exact hcarries.refines hup
  | create fails =>
      have hcoarse : (σ.next D config req (.create fails)).coarse = σ.coarse :=
        (creatorNext_coarse hup).2
      rw [hcoarse]
      exact .stay

/-- `thread_pool_create` does not take back that it gave up. -/
theorem gaveUp_of_next (hn : 0 < n) (h : σ.Sane config req) (m : LockMove n)
    (hup : (σ.next D config req m).creator.gaveUp = false) : σ.creator.gaveUp = false := by
  cases m with
  | step m => rwa [(step_carries (D := D) hn h m).creator] at hup
  | create fails => exact (creatorNext_coarse hup).1

/-- What every step keeps holds after every run. -/
theorem after_kept (Inv : LockedPool δ n → Prop)
    (hstep : ∀ σ m, Inv σ → Inv (σ.next D config req m)) (h : Inv σ) (moves : List (LockMove n)) :
    Inv (σ.after D config req moves) :=
  Machine.invariant Inv hstep h moves

theorem after_sane (hn : 0 < n) (h : σ.Sane config req) (moves : List (LockMove n)) :
    (σ.after D config req moves).Sane config req :=
  after_kept (Sane config req) (fun _ m h => h.next hn m) h moves

/-- What every transition of the coarse pool keeps holds after every run in which
`thread_pool_create` has not given up. -/
theorem after_invariant (hn : 0 < n) {Inv : Pool δ n → Prop}
    (hstep : ∀ ρ ρ', Inv ρ → Pool.Step D config req ρ ρ' → Inv ρ') {s : State δ}
    (h : Inv (.start n s)) (moves : List (LockMove n))
    (hup : ((start n s).after D config req moves).creator.gaveUp = false) :
    Inv ((start n s).after D config req moves).coarse := by
  have hrun := after_kept (D := D)
    (fun σ : LockedPool δ n => σ.Sane config req ∧ (σ.creator.gaveUp = false → Inv σ.coarse))
    (fun σ m hσ => ⟨hσ.1.next hn m, fun hup =>
      hstep _ _ (hσ.2 (gaveUp_of_next hn hσ.1 m hup)) (hσ.1.refines hn m hup)⟩)
    ⟨start_sane s, fun _ => h⟩ moves
  exact hrun.2 hup

end LockedPool

end KvEngine
