import KvEngine.Sections

/-! # Shutting the pool down

The two paths that raise `shutdown`: `thread_pool_destroy`, which holds `queue_lock` from the write
of the flag to its last broadcast, and `thread_pool_create` after a `pthread_create` that failed,
which does not take the lock.

Once the flag is raised, nobody who tests it goes to sleep.  So all that matters is who has tested
it before and is not asleep yet when the last broadcast is issued: `shutdown_wakes_all_iff`.  For
the direction from right to left, `Woken` says that nobody is asleep or about to be, and is kept by
every step; from such a state the holder of the lock can leave its section (`exists_unlocked`), the
workers can exit, and the joins go through. -/

namespace KvEngine

open Atomic

variable {δ : Type} {n : ℕ} {D : Driver δ} {config : Config} {req : ℕ → AsyncCall}

/-- A move that is not a spurious wakeup. -/
def LockMove.Regular : LockMove n → Prop
  | .step (.spuriousWorker _) => False
  | .step (.spuriousCall _) => False
  | _ => True

namespace LockedPool

/-- `shutdown` is raised, and nobody is asleep or about to go to sleep. -/
structure Woken (σ : LockedPool δ n) : Prop where
  raised : σ.pool.shutdown = true
  notEmpty : σ.pool.notEmpty = []
  notFull : σ.pool.notFull = []
  worker : ∀ w, σ.lock ≠ some (.worker w .blocking)
  call : ∀ i item, σ.lock ≠ some (.call i item .blocking)

variable {σ : LockedPool δ n}

theorem signal_nil {ι : Type} [DecidableEq ι] (i : ι) : CondVar.signal i ([] : CondVar ι) = [] := by
  simp [CondVar.signal]

theorem Woken.worker_inside (h : σ.Woken) {w : Fin n} {pc : WorkerSection}
    (hlock : σ.lock = some (.worker w pc)) (wakes : ℕ) {ρ : Pool δ n} {lock : Option (Section n)}
    (hnext : σ.pool.workerSection w wakes pc = (ρ, lock)) :
    Woken { σ with pool := ρ, lock := lock } := by
  have hraised := h.raised
  cases pc with
  | testing =>
      simp only [Pool.workerSection, hraised, Bool.not_true, Bool.and_false, Bool.false_eq_true,
        if_false, Prod.mk.injEq] at hnext
      obtain ⟨rfl, rfl⟩ := hnext
      exact ⟨hraised, h.notEmpty, h.notFull, by simp, by simp⟩
  | blocking => exact absurd hlock (h.worker w)
  | checking =>
      obtain ⟨rfl, rfl⟩ := Prod.mk.inj hnext
      refine ⟨hraised, h.notEmpty, h.notFull, fun v => ?_, by simp⟩
      split <;> simp
  | leaving =>
      obtain ⟨rfl, rfl⟩ := Prod.mk.inj hnext
      exact ⟨hraised, h.notEmpty, h.notFull, by simp, by simp⟩
  | taking =>
      simp only [Pool.workerSection] at hnext
      split at hnext
      · obtain ⟨rfl, rfl⟩ := Prod.mk.inj hnext
        exact ⟨hraised, h.notEmpty, h.notFull, by simp, by simp⟩
      · obtain ⟨rfl, rfl⟩ := Prod.mk.inj hnext
        exact ⟨hraised, h.notEmpty, h.notFull, by simp, by simp⟩
  | signalling item =>
      obtain ⟨rfl, rfl⟩ := Prod.mk.inj hnext
      refine ⟨hraised, h.notEmpty, ?_, by simp, by simp⟩
      simp only [h.notFull, signal_nil]
  | unlocking item =>
      obtain ⟨rfl, rfl⟩ := Prod.mk.inj hnext
      exact ⟨hraised, h.notEmpty, h.notFull, by simp, by simp⟩

theorem Woken.call_inside (h : σ.Woken) {i : ℕ} {item : WorkItem} {pc : SubmitSection}
    (hlock : σ.lock = some (.call i item pc)) (wakes : Fin n) {ρ : Pool δ n}
    {lock : Option (Section n)} (hnext : σ.pool.submitSection config i item wakes pc = (ρ, lock)) :
    Woken { σ with pool := ρ, lock := lock } := by
  have hraised := h.raised
  cases pc with
  | entering =>
      simp only [Pool.submitSection, hraised, if_true, Prod.mk.injEq] at hnext
      obtain ⟨rfl, rfl⟩ := hnext
      exact ⟨hraised, h.notEmpty, h.notFull, by simp, by simp⟩
  | testing =>
      simp only [Pool.submitSection, hraised, Bool.true_eq_false, and_false, if_false,
        Prod.mk.injEq] at hnext
      obtain ⟨rfl, rfl⟩ := hnext
      exact ⟨hraised, h.notEmpty, h.notFull, by simp, by simp⟩
  | blocking => exact absurd hlock (h.call i item)
  | checking =>
      simp only [Pool.submitSection, hraised, if_true, Prod.mk.injEq] at hnext
      obtain ⟨rfl, rfl⟩ := hnext
      exact ⟨hraised, h.notEmpty, h.notFull, by simp, by simp⟩
  | signalling =>
      obtain ⟨rfl, rfl⟩ := Prod.mk.inj hnext
      refine ⟨hraised, ?_, h.notFull, by simp, by simp⟩
      simp only [h.notEmpty, signal_nil]
  | _ =>
      obtain ⟨rfl, rfl⟩ := Prod.mk.inj hnext
      exact ⟨hraised, h.notEmpty, h.notFull, by simp, by simp⟩

theorem Woken.cleaner_inside (h : σ.Woken) {pc : DestroySection} {ρ : Pool δ n}
    {lock : Option (Section n)} (hnext : σ.pool.destroySection pc = (ρ, lock)) :
    Woken { σ with pool := ρ, lock := lock } := by
  cases pc <;> obtain ⟨rfl, rfl⟩ := Prod.mk.inj hnext <;>
    exact ⟨by first | rfl | exact h.raised, by first | rfl | exact h.notEmpty,
      by first | rfl | exact h.notFull, by simp, by simp⟩

/-- Once everybody is awake, nobody goes to sleep again. -/
theorem Woken.next (hn : 0 < n) (hsane : σ.Sane config req) (h : σ.Woken) (m : LockMove n) :
    (σ.next D config req m).Woken := by
  cases m with
  | step m =>
      have hstep : Step D config req σ m (σ.next D config req (.step m)) := next_step σ m
      generalize σ.next D config req (.step m) = τ at hstep ⊢
      cases hstep with
      | stay => exact h
      | worker hlock hnext => exact h.worker_inside hlock _ hnext
      | call hlock hnext => exact h.call_inside hlock _ hnext
      | cleaner hlock hnext => exact h.cleaner_inside hnext
      | enter hlock hruns henters =>
          refine ⟨h.raised, h.notEmpty, h.notFull, ?_, ?_⟩ <;> cases henters <;> simp
      | outside hgate =>
          have haside : Pool.Aside D config req σ.pool m _ :=
            Pool.next_aside hgate (hsane.leftovers_empty hn)
          refine ⟨haside.shutdown_eq.trans h.raised, ?_, ?_, h.worker, h.call⟩
          · exact List.sublist_nil.mp (h.notEmpty ▸ haside.notEmpty_sublist)
          · exact List.sublist_nil.mp (h.notFull ▸ haside.notFull_sublist)
  | create fails =>
      simp only [LockedPool.next, creatorNext]
      split
      · split <;> exact { h with }
      · exact { h with raised := rfl }
      · exact { h with notEmpty := rfl }
      · split
        · split
          · exact { h with }
          · exact h
        · exact { h with }
      · exact h
      · exact h

/-! ### Running to the end -/

variable (D config req)

/-- The threads can get from one state to the other without spurious wakeups. -/
abbrev Leads : LockedPool δ n → LockedPool δ n → Prop :=
  Relation.ReflTransGen fun σ τ => ∃ m, LockMove.Regular m ∧ τ = σ.next D config req m

variable {D config req}

theorem Leads.moves {τ : LockedPool δ n} (h : Leads D config req σ τ) :
    ∃ moves, (∀ m ∈ moves, LockMove.Regular m) ∧ σ.after D config req moves = τ :=
  Machine.exists_history h

theorem Leads.kept (Inv : LockedPool δ n → Prop)
    (hstep : ∀ σ m, Inv σ → Inv (σ.next D config req m)) {τ : LockedPool δ n}
    (h : Leads D config req σ τ) (hσ : Inv σ) : Inv τ := by
  obtain ⟨moves, _, rfl⟩ := h.moves
  exact after_kept Inv hstep hσ moves

/-- The broadcast of a `thread_pool_create` that gave up. -/
theorem next_waking {i : ℕ} (hc : σ.creator = .waking i) (fails : Bool) :
    σ.next D config req (.create fails) =
      { σ with pool := { σ.pool with notEmpty := [] }, creator := .joining i 0 } := by
  simp only [next, creatorNext, hc, CondVar.broadcast]

/-- A step of the worker that holds the lock. -/
theorem next_worker_inside {w : Fin n} {pc : WorkerSection}
    (hlock : σ.lock = some (.worker w pc)) (wakes : ℕ) :
    σ.next D config req (.step (.worker w wakes)) =
      { σ with
        pool := (σ.pool.workerSection w wakes pc).1
        lock := (σ.pool.workerSection w wakes pc).2 } := by
  simp [next, hlock, Section.next]

theorem next_call_inside {i : ℕ} {item : WorkItem} {pc : SubmitSection}
    (hlock : σ.lock = some (.call i item pc)) (wakes : Fin n) :
    σ.next D config req (.step (.call i wakes)) =
      { σ with
        pool := (σ.pool.submitSection config i item wakes pc).1
        lock := (σ.pool.submitSection config i item wakes pc).2 } := by
  simp [next, hlock, Section.next]

theorem next_cleaner_inside {pc : DestroySection} (hlock : σ.lock = some (.cleaner pc)) :
    σ.next D config req (.step .cleaner) =
      { σ with
        pool := (σ.pool.destroySection pc).1
        lock := (σ.pool.destroySection pc).2 } := by
  simp [next, hlock, Section.next]

end LockedPool

/-- The steps that remain to the end of the section, at most. -/
def Section.rank : Section n → ℕ
  | .worker _ .testing => 5
  | .worker _ .checking => 4
  | .worker _ .taking => 3
  | .worker _ (.signalling _) => 2
  | .worker _ _ => 1
  | .call _ _ .entering => 6
  | .call _ _ .testing => 5
  | .call _ _ .checking => 4
  | .call _ _ .enqueuing => 3
  | .call _ _ .signalling => 2
  | .call _ _ _ => 1
  | .cleaner .raising => 4
  | .cleaner .wakingWorkers => 3
  | .cleaner .wakingCalls => 2
  | .cleaner .unlocking => 1

namespace LockedPool

variable {σ : LockedPool δ n}

/-- The holder of the lock gets nearer to the end of its section. -/
theorem exists_step_inside (hn : 0 < n) (h : σ.Sane config req) {sec : Section n}
    (hlock : σ.lock = some sec) :
    ∃ m, LockMove.Regular (.step m) ∧
      ∀ sec', (σ.next D config req (.step m)).lock = some sec' → sec'.rank < sec.rank := by
  have hheld := h.held sec hlock
  cases sec with
  | worker w pc =>
      refine ⟨.worker w 0, trivial, ?_⟩
      rw [next_worker_inside hlock]
      cases pc with
      | testing =>
          rintro _ ⟨⟩
          split <;> simp [Section.rank]
      | checking =>
          rintro _ ⟨⟩
          split <;> simp [Section.rank]
      | taking =>
          obtain ⟨item, rest, hqueue⟩ := List.exists_cons_of_ne_nil hheld.2.2
          simp only [Pool.workerSection, hqueue]
          rintro _ ⟨⟩
          simp [Section.rank]
      | signalling item =>
          rintro _ ⟨⟩
          simp [Section.rank]
      | _ => exact fun sec' hsec' => (by cases hsec')
  | call i item pc =>
      refine ⟨.call i ⟨0, hn⟩, trivial, ?_⟩
      rw [next_call_inside hlock]
      cases pc with
      | blocking => exact fun sec' hsec' => (by cases hsec')
      | rejecting => exact fun sec' hsec' => (by cases hsec')
      | unlocking => exact fun sec' hsec' => (by cases hsec')
      | enqueuing =>
          rintro _ ⟨⟩
          simp [Section.rank]
      | signalling =>
          rintro _ ⟨⟩
          simp [Section.rank]
      | _ =>
          rintro _ ⟨⟩
          split <;> simp [Section.rank]
  | cleaner pc =>
      refine ⟨.cleaner, trivial, ?_⟩
      rw [next_cleaner_inside hlock]
      cases pc with
      | unlocking => exact fun sec' hsec' => (by cases hsec')
      | _ =>
          rintro _ ⟨⟩
          simp [Section.rank]

variable (D)

/-- The lock can become free. -/
theorem exists_unlocked (hn : 0 < n) (h : σ.Sane config req) :
    ∃ τ, Leads D config req σ τ ∧ τ.lock = none ∧ τ.creator = σ.creator := by
  have hrank (r : ℕ) (σ : LockedPool δ n) (h : σ.Sane config req)
      (hr : ∀ sec, σ.lock = some sec → sec.rank < r) :
      ∃ τ, Leads D config req σ τ ∧ τ.lock = none ∧ τ.creator = σ.creator := by
    induction r generalizing σ with
    | zero =>
        refine ⟨σ, .refl, ?_, rfl⟩
        rw [Option.eq_none_iff_forall_ne_some]
        exact fun sec hsec => absurd (hr sec hsec) (Nat.not_lt_zero _)
    | succ r ih =>
        cases hlock : σ.lock with
        | none => exact ⟨σ, .refl, hlock, rfl⟩
        | some sec =>
            obtain ⟨m, hm, hless⟩ := exists_step_inside (D := D) hn h hlock
            have hsec := hr sec hlock
            obtain ⟨τ, hleads, hfree, hcreator⟩ := ih (σ.next D config req (.step m)) (h.next hn _)
              fun sec' hsec' => by
                have hlt := hless sec' hsec'
                omega
            exact ⟨τ, .head ⟨_, hm, rfl⟩ hleads, hfree,
              hcreator.trans (step_carries hn h m).creator⟩
  cases hlock : σ.lock with
  | none => exact ⟨σ, .refl, hlock, rfl⟩
  | some sec =>
      refine hrank (sec.rank + 1) σ h fun sec' hsec' => ?_
      rw [hlock] at hsec'
      cases hsec'
      exact Nat.lt_succ_self _

variable {D}

/-- While the lock is free, a thread that is about to take it takes it. -/
theorem leads_gate {m : PoolMove n} (hm : LockMove.Regular (.step m)) (hlock : σ.lock = none)
    (hruns : σ.creator.runs m = true) {sec : Section n} (hgate : σ.pool.gate m = some sec) :
    Leads D config req σ { σ with lock := some sec } := by
  refine .single ⟨.step m, hm, ?_⟩
  simp [next, hlock, hruns, hgate]

/-- While the lock is free, the other threads take the steps of the coarse pool. -/
theorem leads_outside {m : PoolMove n} (hm : LockMove.Regular (.step m)) (hlock : σ.lock = none)
    (hruns : σ.creator.runs m = true) (hgate : σ.pool.gate m = none) :
    Leads D config req σ { σ with pool := σ.pool.next D config req m } := by
  refine .single ⟨.step m, hm, ?_⟩
  simp [next, hlock, hruns, hgate]

theorem leads_worker_inside {w : Fin n} {pc : WorkerSection} (wakes : ℕ) {ρ : Pool δ n}
    {lock : Option (Section n)} (hlock : σ.lock = some (.worker w pc))
    (hnext : σ.pool.workerSection w wakes pc = (ρ, lock)) :
    Leads D config req σ { σ with pool := ρ, lock := lock } := by
  refine .single ⟨.step (.worker w wakes), trivial, ?_⟩
  rw [next_worker_inside hlock, hnext]

theorem leads_cleaner_inside {pc : DestroySection} {ρ : Pool δ n} {lock : Option (Section n)}
    (hlock : σ.lock = some (.cleaner pc)) (hnext : σ.pool.destroySection pc = (ρ, lock)) :
    Leads D config req σ { σ with pool := ρ, lock := lock } := by
  refine .single ⟨.step .cleaner, trivial, ?_⟩
  rw [next_cleaner_inside hlock, hnext]

/-- A worker can go through its section. -/
theorem leads_dequeue {w : Fin n} (wakes : ℕ) (hlock : σ.lock = some (.worker w .testing)) :
    Leads D config req σ { σ with pool := σ.pool.dequeue w wakes, lock := none } := by
  unfold Pool.dequeue
  split
  · rename_i hempty
    split
    · rename_i hshut
      have htested : Leads D config req σ { σ with lock := some (.worker w .checking) } :=
        leads_worker_inside wakes hlock (by simp [Pool.workerSection, hshut])
      have hchecked : Leads D config req { σ with lock := some (.worker w .checking) }
          { σ with lock := some (.worker w .leaving) } :=
        leads_worker_inside wakes rfl (by simp [Pool.workerSection, hshut, hempty])
      exact htested.trans (hchecked.trans (leads_worker_inside wakes rfl rfl))
    · rename_i hshut
      have htested : Leads D config req σ { σ with lock := some (.worker w .blocking) } :=
        leads_worker_inside wakes hlock (by simp [Pool.workerSection, hshut, hempty])
      exact htested.trans (leads_worker_inside wakes rfl rfl)
  · rename_i item rest hqueue
    have htested : Leads D config req σ { σ with lock := some (.worker w .checking) } :=
      leads_worker_inside wakes hlock (by simp [Pool.workerSection, hqueue])
    have hchecked : Leads D config req { σ with lock := some (.worker w .checking) }
        { σ with lock := some (.worker w .taking) } :=
      leads_worker_inside wakes rfl (by simp [Pool.workerSection, hqueue])
    have htaken : Leads D config req { σ with lock := some (.worker w .taking) }
        { σ with
          pool := { σ.pool with queue := rest }
          lock := some (.worker w (.signalling item)) } :=
      leads_worker_inside wakes rfl (by simp [Pool.workerSection, hqueue])
    have hsignalled : Leads D config req
        { σ with
          pool := { σ.pool with queue := rest }
          lock := some (.worker w (.signalling item)) }
        { σ with
          pool := { σ.pool with queue := rest, notFull := σ.pool.notFull.signal wakes }
          lock := some (.worker w (.unlocking item)) } :=
      leads_worker_inside wakes rfl rfl
    exact htested.trans (hchecked.trans (htaken.trans (hsignalled.trans
      (leads_worker_inside wakes rfl rfl))))

/-- While the lock is free, a worker can take the steps that it has in the coarse pool. -/
theorem leads_worker {w : Fin n} (wakes : ℕ) (hlock : σ.lock = none)
    (hexists : w < σ.creator.workers n) :
    Leads D config req σ { σ with pool := σ.pool.next D config req (.worker w wakes) } := by
  have hruns : σ.creator.runs (.worker w wakes) = true := decide_eq_true hexists
  cases hgate : σ.pool.gate (.worker w wakes) with
  | none => exact leads_outside trivial hlock hruns hgate
  | some sec =>
      have hentered : Leads D config req σ { σ with lock := some sec } :=
        leads_gate (m := .worker w wakes) trivial hlock hruns hgate
      cases Pool.gate_enters hgate with
      | worker hw =>
          have hsection : Leads D config req { σ with lock := some (.worker w .testing) }
              { σ with pool := σ.pool.dequeue w wakes, lock := none } := leads_dequeue wakes rfl
          have hnext : σ.pool.next D config req (.worker w wakes) = σ.pool.dequeue w wakes := by
            rcases hw with hw | ⟨hw, hwoken⟩
            · simp only [Pool.next, Pool.workerNext, hw]
            · simp only [Pool.next, Pool.workerNext, hw, if_neg hwoken]
          rw [hnext]
          rw [← hlock] at hsection
          exact hentered.trans hsection

/-- The cleanup can go through its section. -/
theorem leads_raising (hlock : σ.lock = some (.cleaner .raising)) :
    Leads D config req σ
      { σ with
        pool := { σ.pool with shutdown := true, notEmpty := [], notFull := [], cleaner := .joining 0 }
        lock := none } := by
  have hraised : Leads D config req σ
      { σ with
        pool := { σ.pool with shutdown := true }
        lock := some (.cleaner .wakingWorkers) } := leads_cleaner_inside hlock rfl
  have hworkers : Leads D config req
      { σ with
        pool := { σ.pool with shutdown := true }
        lock := some (.cleaner .wakingWorkers) }
      { σ with
        pool := { σ.pool with shutdown := true, notEmpty := [] }
        lock := some (.cleaner .wakingCalls) } := leads_cleaner_inside rfl rfl
  have hcalls : Leads D config req
      { σ with
        pool := { σ.pool with shutdown := true, notEmpty := [] }
        lock := some (.cleaner .wakingCalls) }
      { σ with
        pool := { σ.pool with shutdown := true, notEmpty := [], notFull := [] }
        lock := some (.cleaner .unlocking) } := leads_cleaner_inside rfl rfl
  exact hraised.trans (hworkers.trans (hcalls.trans (leads_cleaner_inside rfl rfl)))

/-- While the lock is free, the cleanup can take the steps that it has in the coarse pool. -/
theorem leads_cleaner (hlock : σ.lock = none) (hdone : σ.creator.done = true) :
    Leads D config req σ { σ with pool := σ.pool.next D config req .cleaner } := by
  cases hgate : σ.pool.gate .cleaner with
  | none => exact leads_outside trivial hlock hdone hgate
  | some sec =>
      have hentered : Leads D config req σ { σ with lock := some sec } :=
        leads_gate (m := .cleaner) trivial hlock hdone hgate
      cases Pool.gate_enters hgate with
      | cleaner hc =>
          have hsection : Leads D config req { σ with lock := some (.cleaner .raising) }
              { σ with pool := σ.pool.next D config req .cleaner, lock := none } := by
            simp only [Pool.next, Pool.cleanerNext, hc]
            exact leads_raising rfl
          rw [← hlock] at hsection
          exact hentered.trans hsection

/-- While the lock is free, what the workers and the cleanup can reach in the coarse pool they can
reach here. -/
theorem leads_reaches (hlock : σ.lock = none) (hdone : σ.creator.done = true) {ρ : Pool δ n}
    (h : Pool.Reaches D config req σ.pool ρ) : Leads D config req σ { σ with pool := ρ } := by
  have hworkers : σ.creator.workers n = n := by
    cases hc : σ.creator <;> rw [hc] at hdone <;> first | rfl | cases hdone
  induction h with
  | refl => exact .refl
  | @tail ρ ρ' _ hstep ih =>
      obtain ⟨m, hm, rfl⟩ := hstep
      refine ih.trans ?_
      cases m with
      | worker w wakes => exact leads_worker wakes hlock (hworkers.symm ▸ w.isLt)
      | cleaner => exact leads_cleaner hlock hdone
      | _ => exact hm.elim

/-! ### The joins -/

/-- A pool that was returned stays so. -/
theorem after_done (hn : 0 < n) (h : σ.Sane config req) (hdone : σ.creator.done = true)
    (moves : List (LockMove n)) : (σ.after D config req moves).creator.done = true := by
  have hrun := after_kept (D := D)
    (fun σ : LockedPool δ n => σ.Sane config req ∧ σ.creator.done = true)
    (fun σ m hσ => ⟨hσ.1.next hn m, by
      cases m with
      | step m => exact (step_carries hn hσ.1 m).creator ▸ hσ.2
      | create fails =>
          cases hc : σ.creator with
          | created =>
              simp only [next, creatorNext, hc]
              rfl
          | _ =>
              have hnot := hσ.2
              rw [hc] at hnot
              cases hnot⟩) ⟨h, hdone⟩ moves
  exact hrun.2

/-- The path that raised `shutdown` has joined its threads. -/
def Joined (σ : LockedPool δ n) : Prop :=
  (∃ i, σ.creator = .failed i) ∨ σ.pool.cleaner = .finished

variable (D)

/-- While the lock is free, the workers and the cleanup can run to the end. -/
theorem exists_finished (hn : 0 < n) (h : σ.Sane config req) (hfree : σ.lock = none)
    (hdone : σ.creator.done = true) :
    ∃ ρ, Pool.Reaches D config req σ.pool ρ ∧ ρ.cleaner = .finished ∧
      Leads D config req σ { σ with pool := ρ } := by
  have hsound : σ.pool.Sound req := by
    have hsound := h.sound (by cases hc : σ.creator <;> rw [hc] at hdone <;> first | rfl | cases hdone)
    rwa [coarse, hfree] at hsound
  obtain ⟨ρ, hreaches, hfinished⟩ := Pool.exists_finished D config req hn hsound
  exact ⟨ρ, hreaches, hfinished, leads_reaches hfree hdone hreaches⟩

/-- The cleanup can be run to its end. -/
theorem exists_destroyed (hn : 0 < n) (h : σ.Sane config req) (hdone : σ.creator.done = true) :
    ∃ τ, Leads D config req σ τ ∧ τ.Joined := by
  obtain ⟨τ, hleads, hfree, hcreator⟩ := exists_unlocked D hn h
  have hτ : τ.Sane config req := hleads.kept (Sane config req) (fun _ m h => h.next hn m) h
  rw [← hcreator] at hdone
  obtain ⟨ρ, _, hfinished, hleads'⟩ := exists_finished D hn hτ hfree hdone
  exact ⟨_, hleads.trans hleads', .inr hfinished⟩

/-- What is kept while the threads of a pool that could not be created are joined. -/
structure Abandoned (config : Config) (req : ℕ → AsyncCall) (σ : LockedPool δ n) : Prop where
  sane : σ.Sane config req
  woken : σ.Woken
  gaveUp : σ.creator.gaveUp = true

theorem Abandoned.next (hn : 0 < n) (h : σ.Abandoned config req) (m : LockMove n) :
    (σ.next D config req m).Abandoned config req where
  sane := h.sane.next hn m
  woken := h.woken.next hn h.sane m
  gaveUp := by
    by_contra hup
    have hold := gaveUp_of_next hn h.sane m (Bool.not_eq_true _ ▸ hup)
    rw [h.gaveUp] at hold
    cases hold

variable {D}

theorem Leads.abandoned (hn : 0 < n) {τ : LockedPool δ n} (hleads : Leads D config req σ τ)
    (h : σ.Abandoned config req) : τ.Abandoned config req :=
  hleads.kept (Abandoned config req) (fun _ m h => h.next D hn m) h

variable (D)

/-- A worker of a pool that could not be created can run to its exit. -/
theorem exists_exit (h : σ.Abandoned config req) (hfree : σ.lock = none) {w : Fin n}
    (hexists : w < σ.creator.workers n) :
    ∃ τ, Leads D config req σ τ ∧ τ.lock = none ∧ τ.creator = σ.creator ∧
      τ.pool.workers w = .exited ∧ ∀ v, σ.pool.workers v = .exited → τ.pool.workers v = .exited := by
  have hdone : σ.creator.done = false := by
    have hup := h.gaveUp
    cases hc : σ.creator <;> rw [hc] at hup <;> first | rfl | cases hup
  have hearly := h.sane.early hdone
  have hexit (hnext : σ.pool.next D config req (.worker w 0) = σ.pool.dequeue w 0) :
      ∃ τ, Leads D config req σ τ ∧ τ.lock = none ∧ τ.creator = σ.creator ∧
        τ.pool.workers w = .exited ∧
        ∀ v, σ.pool.workers v = .exited → τ.pool.workers v = .exited := by
    have hleads : Leads D config req σ
        { σ with pool := σ.pool.next D config req (.worker w 0) } := leads_worker 0 hfree hexists
    have hgone : σ.pool.dequeue w 0 = σ.pool.setWorker w .exited := by
      simp only [Pool.dequeue, hearly.queue, h.woken.raised, if_true]
    rw [hnext, hgone] at hleads
    refine ⟨_, hleads, hfree, rfl, by simp [Pool.setWorker], fun v hv => ?_⟩
    by_cases hvw : v = w
    · subst hvw
      simp [Pool.setWorker]
    · simpa [Pool.setWorker, Function.update_of_ne hvw] using hv
  cases hw : σ.pool.workers w with
  | atLock => exact hexit (by simp only [Pool.next, Pool.workerNext, hw])
  | waiting =>
      have hwoken : w ∉ σ.pool.notEmpty := by simp [h.woken.notEmpty]
      exact hexit (by simp only [Pool.next, Pool.workerNext, hw, if_neg hwoken])
  | executing item p =>
      have hidle := hearly.workers w
      rw [hw] at hidle
      cases hidle
  | exited => exact ⟨σ, .refl, hfree, rfl, hw, fun _ => id⟩

/-- All of them can. -/
theorem exists_exits (hn : 0 < n) (h : σ.Abandoned config req) (hfree : σ.lock = none)
    (ws : List (Fin n)) (hws : ∀ w ∈ ws, w < σ.creator.workers n) :
    ∃ τ, Leads D config req σ τ ∧ τ.creator = σ.creator ∧ τ.lock = none ∧
      ∀ w ∈ ws, τ.pool.workers w = .exited := by
  induction ws with
  | nil => exact ⟨σ, .refl, rfl, hfree, by simp⟩
  | cons w ws ih =>
      obtain ⟨τ, hleads, hcreator, hfree', hexit⟩ :=
        ih fun v hv => hws v (List.mem_cons_of_mem w hv)
      have hexists : w < τ.creator.workers n := hcreator ▸ hws w List.mem_cons_self
      obtain ⟨υ, hleads', hfree'', hcreator', hw, hkept⟩ :=
        exists_exit D (hleads.abandoned hn h) hfree' hexists
      refine ⟨υ, hleads.trans hleads', hcreator'.trans hcreator, hfree'', fun v hv => ?_⟩
      rcases List.mem_cons.mp hv with rfl | hv
      · exact hw
      · exact hkept v (hexit v hv)

/-- After the last join `thread_pool_create` frees the pool and returns. -/
theorem exists_failed {i j : ℕ} (hc : σ.creator = .joining i j) (hj : ¬ (j < i ∧ j < n)) :
    ∃ τ, Leads D config req σ τ ∧ τ.Joined := by
  refine ⟨_, .single ⟨.create false, trivial, rfl⟩, .inl ⟨i, ?_⟩⟩
  simp only [next, creatorNext, hc, dif_neg hj]

/-- When the workers have exited, the joins go through. -/
theorem exists_joins (left : ℕ) (σ : LockedPool δ n) {i j : ℕ} (hc : σ.creator = .joining i j)
    (hleft : i ≤ j + left) (hexit : ∀ w : Fin n, w < i → σ.pool.workers w = .exited) :
    ∃ τ, Leads D config req σ τ ∧ τ.Joined := by
  induction left generalizing σ j with
  | zero => exact exists_failed D hc fun hj => by omega
  | succ left ih =>
      by_cases hj : j < i ∧ j < n
      · have hnext : σ.next D config req (.create false) =
            { σ with creator := .joining i (j + 1) } := by
          simp only [next, creatorNext, hc, dif_pos hj, hexit ⟨j, hj.2⟩ hj.1]
        obtain ⟨τ, hleads, hjoined⟩ :=
          ih { σ with creator := .joining i (j + 1) } rfl (by omega) hexit
        exact ⟨τ, .head ⟨.create false, trivial, hnext.symm⟩ hleads, hjoined⟩
      · exact exists_failed D hc hj

/-- A `thread_pool_create` that gave up can join its workers, if they are awake. -/
theorem exists_abandoned (hn : 0 < n) (h : σ.Abandoned config req) :
    ∃ τ, Leads D config req σ τ ∧ τ.Joined := by
  have hjoining (τ : LockedPool δ n) (hτ : τ.Abandoned config req) (hfree : τ.lock = none)
      {i j : ℕ} (hc : τ.creator = .joining i j) : ∃ υ, Leads D config req τ υ ∧ υ.Joined := by
    obtain ⟨υ, hleads, hcreator, _, hexit⟩ := exists_exits D hn hτ hfree
      ((List.finRange n).filter (· < i)) fun w hw => by
        rw [hc]
        exact of_decide_eq_true (List.mem_filter.mp hw).2
    have hexit' (w : Fin n) (hw : w < i) : υ.pool.workers w = .exited :=
      hexit w (List.mem_filter.mpr ⟨List.mem_finRange w, decide_eq_true hw⟩)
    obtain ⟨φ, hleads', hjoined⟩ : ∃ φ, Leads D config req υ φ ∧ φ.Joined :=
      exists_joins D i υ (hcreator.trans hc) (Nat.le_add_left i j) hexit'
    exact ⟨φ, hleads.trans hleads', hjoined⟩
  obtain ⟨τ, hleads, hfree, _⟩ := exists_unlocked D hn h.sane
  have hτ := hleads.abandoned hn h
  have hup := hτ.gaveUp
  cases hc : τ.creator with
  | waking i =>
      have hnext : τ.next D config req (.create false) = _ := next_waking hc false
      have hτ' := hτ.next D hn (.create false)
      rw [hnext] at hτ'
      obtain ⟨υ, hleads', hjoined⟩ := hjoining _ hτ' hfree rfl
      exact ⟨υ, hleads.trans (.head ⟨.create false, trivial, hnext.symm⟩ hleads'), hjoined⟩
  | joining i j =>
      obtain ⟨υ, hleads', hjoined⟩ := hjoining τ hτ hfree hc
      exact ⟨υ, hleads.trans hleads', hjoined⟩
  | failed i => exact ⟨τ, hleads, .inl ⟨i, hc⟩⟩
  | creating i => rw [hc] at hup; cases hup
  | raising i => rw [hc] at hup; cases hup
  | created => rw [hc] at hup; cases hup

variable {D}

/-- When all workers of a pool that could not be created are asleep, only a spurious wakeup can
change anything. -/
theorem next_of_asleep {i j : ℕ} (hlock : σ.lock = none) (hc : σ.creator = .joining i j)
    (hj : j < i ∧ j < n)
    (hasleep : ∀ w : Fin n, w < i → σ.pool.workers w = .waiting ∧ w ∈ σ.pool.notEmpty)
    {m : LockMove n} (hm : m.Regular) : σ.next D config req m = σ := by
  cases m with
  | create fails =>
      have hw := (hasleep ⟨j, hj.2⟩ hj.1).1
      simp only [next, creatorNext, hc, dif_pos hj, hw]
  | step m =>
      cases m with
      | worker w wakes =>
          by_cases hw : w < i
          · obtain ⟨hwaiting, hblocked⟩ := hasleep w hw
            have hgate : σ.pool.gate (.worker w wakes) = none := by
              simp [Pool.gate, hwaiting, hblocked]
            have hstay : σ.pool.next D config req (.worker w wakes) = σ.pool := by
              simp only [Pool.next, Pool.workerNext, hwaiting, if_pos hblocked]
            simp only [next, hlock, Option.bind_none, hgate, hstay]
            rw [← hlock]
            exact ite_self σ
          · have hruns : σ.creator.runs (.worker w wakes) = false := by
              rw [hc]
              exact decide_eq_false hw
            simp [next, hlock, hruns]
      | call k wakes => simp [next, hlock, Creator.runs, hc, Creator.done]
      | cleaner => simp [next, hlock, Creator.runs, hc, Creator.done]
      | spuriousWorker w => exact hm.elim
      | spuriousCall k => exact hm.elim

/-! ### The theorem -/

/-- The move is the last broadcast of the path that has raised `shutdown`. -/
def LastBroadcast (σ : LockedPool δ n) : LockMove n → Prop
  | .create _ => ∃ i, σ.creator = .waking i
  | .step .cleaner => σ.lock = some (.cleaner .wakingCalls)
  | .step _ => False

/-- The last broadcast wakes everybody, unless a worker is about to go to sleep. -/
theorem Sane.woken (h : σ.Sane config req) {m : LockMove n} (hm : σ.LastBroadcast m)
    (hawake : ∀ w, σ.lock ≠ some (.worker w .blocking)) : (σ.next D config req m).Woken := by
  cases m with
  | create fails =>
      obtain ⟨i, hc⟩ := hm
      have hdone : σ.creator.done = false := by rw [hc]; rfl
      rw [next_waking hc]
      refine ⟨h.raised (by rw [hc]; rfl), rfl, (h.early hdone).notFull, hawake, ?_⟩
      intro j item hlock
      exact absurd (hdone.symm.trans (h.held _ hlock).1) (by simp)
  | step m =>
      cases m with
      | cleaner =>
          obtain ⟨_, _, hraised, hworkers⟩ := h.held _ hm
          rw [next_cleaner_inside hm]
          exact ⟨hraised, hworkers, rfl, by simp [Pool.destroySection],
            by simp [Pool.destroySection]⟩
      | _ => exact hm.elim

end LockedPool

/-- **Who is reached by the shutdown.**  When a path that has raised `shutdown` issues its last
broadcast, then from there on nobody is or becomes blocked, and the path can join its threads,
exactly if no worker stands between its test of `shutdown` and its `pthread_cond_wait` at that
moment.  In `thread_pool_destroy` none does, for the path holds the lock. -/
theorem shutdown_wakes_all_iff (hn : 0 < n) (s : State δ) (moves : List (LockMove n))
    (m : LockMove n) (hm : ((LockedPool.start n s).after D config req moves).LastBroadcast m) :
    let σ := (LockedPool.start n s).after D config req moves
    (∀ more,
      let τ := σ.after D config req (m :: more)
      τ.pool.notEmpty = [] ∧ τ.pool.notFull = [] ∧
        ∃ rest, (∀ m ∈ rest, LockMove.Regular m) ∧ (τ.after D config req rest).Joined) ↔
      ∀ w, σ.lock ≠ some (.worker w .blocking) := by
  intro σ
  have hsane : σ.Sane config req := LockedPool.after_sane hn (LockedPool.start_sane s) moves
  constructor
  · intro hall w hlock
    cases m with
    | create fails =>
        -- the worker goes to sleep right after the broadcast
        obtain ⟨i, hc⟩ := hm
        have hasleep := (hall [.step (.worker w 0)]).1
        have hnext : (σ.next D config req (.create fails)).lock = some (.worker w .blocking) := by
          rw [LockedPool.next_waking hc]
          exact hlock
        have hlast : (σ.next D config req (.create fails)).next D config req
            (.step (.worker w 0)) = _ := LockedPool.next_worker_inside hnext 0
        have hrun : σ.after D config req [.create fails, .step (.worker w 0)] =
            (σ.next D config req (.create fails)).next D config req (.step (.worker w 0)) := rfl
        rw [hrun, hlast] at hasleep
        simp [Pool.workerSection] at hasleep
    | step m =>
        cases m with
        | cleaner => exact absurd (hlock.symm.trans hm) (by simp)
        | _ => exact hm.elim
  · intro hawake more τ
    have hwoken : (σ.next D config req m).Woken := hsane.woken hm hawake
    have hrun : τ = (σ.next D config req m).after D config req more := rfl
    have hτ : τ.Sane config req ∧ τ.Woken := by
      rw [hrun]
      exact LockedPool.after_kept (fun σ : LockedPool δ n => σ.Sane config req ∧ σ.Woken)
        (fun σ m h => ⟨h.1.next hn m, h.2.next hn h.1 m⟩) ⟨hsane.next hn m, hwoken⟩ more
    refine ⟨hτ.2.notEmpty, hτ.2.notFull, ?_⟩
    have hjoined : ∃ υ, LockedPool.Leads D config req τ υ ∧ υ.Joined := by
      cases m with
      | create fails =>
          obtain ⟨i, hc⟩ := hm
          have hup : (σ.next D config req (.create fails)).creator.gaveUp = true := by
            rw [LockedPool.next_waking hc]
            rfl
          exact LockedPool.exists_abandoned D hn (LockedPool.after_kept
            (LockedPool.Abandoned config req) (fun _ m h => h.next D hn m)
            ⟨hsane.next hn _, hwoken, hup⟩ more)
      | step m =>
          have hdone : σ.creator.done = true := by
            cases m with
            | cleaner => exact (hsane.held _ hm).1
            | _ => exact hm.elim
          exact LockedPool.exists_destroyed D hn hτ.1 (LockedPool.after_done hn hsane hdone _)
    obtain ⟨υ, hleads, hjoined⟩ := hjoined
    obtain ⟨rest, hrest, hafter⟩ := hleads.moves
    exact ⟨rest, hrest, hafter ▸ hjoined⟩

/-- No calls are made before the pool is returned. -/
def noCalls : ℕ → AsyncCall := fun _ => .delete none false 0

/-- The second worker cannot be created while the first one is asleep. -/
def sleepingWorker : LockedPool KeySpace 2 :=
  (LockedPool.start 2 freshEngine).after keySpaceDriver twoDevices noCalls
    [.create false, .step (.worker 0 0), .step (.worker 0 0), .step (.worker 0 0), .create true,
      .create false]

theorem shutdown_wakes_all_iff_sleepingWorker :
    sleepingWorker.pool.notEmpty = [0] ∧ sleepingWorker.creator = .waking 1 ∧
      ∀ more, let τ := sleepingWorker.after keySpaceDriver twoDevices noCalls (.create false :: more)
        τ.pool.notEmpty = [] ∧ τ.pool.notFull = [] ∧ ∃ rest, (∀ m ∈ rest, LockMove.Regular m) ∧
          (τ.after keySpaceDriver twoDevices noCalls rest).Joined := by
  have hlock : sleepingWorker.lock = none := rfl
  have hcreator : sleepingWorker.creator = .waking 1 := rfl
  refine ⟨rfl, hcreator, ?_⟩
  refine (shutdown_wakes_all_iff (by decide) freshEngine _ (.create false) ⟨1, hcreator⟩).mpr ?_
  intro w hw
  cases hlock.symm.trans hw

/-- The second worker cannot be created while the first one is between its test of `shutdown` and
its `pthread_cond_wait`. -/
def missedWorker : LockedPool KeySpace 2 :=
  (LockedPool.start 2 freshEngine).after keySpaceDriver twoDevices noCalls
    [.create false, .step (.worker 0 0), .step (.worker 0 0), .create true, .create false,
      .create false, .step (.worker 0 0)]

/-- After the broadcast the worker goes to sleep, and `thread_pool_create` waits for it for ever. -/
theorem missed_worker_hangs_create :
    missedWorker.pool.shutdown = true ∧ missedWorker.pool.notEmpty = [0] ∧
      missedWorker.creator = .joining 1 0 ∧
      ∀ more, (∀ m ∈ more, LockMove.Regular m) →
        missedWorker.after keySpaceDriver twoDevices noCalls more = missedWorker := by
  refine ⟨rfl, rfl, rfl, fun more hmore => ?_⟩
  have hstuck (m : LockMove 2) (hm : m.Regular) :
      missedWorker.next keySpaceDriver twoDevices noCalls m = missedWorker := by
    refine LockedPool.next_of_asleep (i := 1) (j := 0) rfl rfl (by decide) (fun w hw => ?_) hm
    obtain rfl : w = 0 := Fin.ext (by omega)
    exact ⟨rfl, List.mem_singleton_self 0⟩
  induction more with
  | nil => rfl
  | cons m more ih =>
      have hnext := hstuck m (hmore m List.mem_cons_self)
      rw [LockedPool.after, Machine.after_cons, hnext]
      exact ih fun m' hm' => hmore m' (List.mem_cons_of_mem m hm')

end KvEngine
