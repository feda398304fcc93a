import KvEngine.Shutdown

/-! # The pool and the calls inside it

`thread_pool_destroy` joins the workers and then destroys `queue_lock` and the condition variables
and frees the pool.  Nothing in it waits for the calls of `thread_pool_submit`: neither for one that
is about to lock, nor for one that the broadcast has woken and that has to take the lock again.

A call that is inside when `shutdown` is set can stay where it is while the workers drain the queue
and exit, so the pool is torn down around it (`exists_teardown_around`).  A call that has left stays
out (`next_left`).  Together, `pool_outlives_calls_iff`. -/

namespace KvEngine

open Atomic

variable {δ : Type} {n : ℕ} {D : Driver δ} {config : Config} {req : ℕ → AsyncCall}

/-! ### Inside `thread_pool_submit` -/

/-- `thread_pool_submit` up to its lock. -/
def allocWorkItem (request : ℕ) (ctx : AsyncContext) : M (Except KvResult WorkItem) := do
  let item ← atomically (.alloc workItemSize)
  match item with
  | none => do
      atomically (.freeContext request)
      return .error .io
  | some item => return .ok ⟨item, ctx⟩

-- Where the calls enter `thread_pool_submit`.
example (request : ℕ) (pointers : Bool) (key : Option Bytes)
    (create : Bytes → M (Option AsyncContext)) :
    asyncFrontEnd request pointers key create = (do
      let initialized ← atomically .loadInitialized
      match key with
      | none => return .error .invalidParam
      | some key =>
          if !initialized || !pointers then return .error .invalidParam
          else if key.length < 4 ∨ 255 < key.length then return .error .invalidParam
          else do
            let workers ← atomically .loadWorkers
            if !workers then return .error .notInitialized
            else do
              let ctx ← create key
              match ctx with
              | none => return .error .noMemory
              | some ctx => allocWorkItem request ctx) := rfl

/-- The call `i` is in `thread_pool_submit` and has not unlocked `queue_lock` for the last time. -/
def Submitter.Inside (i : ℕ) : Submitter → Prop
  | .preparing p => (∃ ctx, p = allocWorkItem i ctx) ∨ ∃ item, p = .ret (.ok item)
  | .atLock _ => True
  | .waiting _ => True
  | _ => False

/-- The call is done with the pool. -/
def Submitter.Left : Submitter → Prop
  | .rejected _ => True
  | .returned _ => True
  | _ => False

/-- The call has entered `thread_pool_submit`. -/
def Submitter.Entered (i : ℕ) (c : Submitter) : Prop := c.Inside i ∨ c.Left

theorem Submitter.Left.not_inside {i : ℕ} {c : Submitter} (h : c.Left) : ¬ c.Inside i := by
  cases c <;> first | exact id | exact h.elim

/-! ### A call that has left stays out -/

namespace Pool

variable {ρ ρ' : Pool δ n} {i : ℕ}

theorem setCall_left {j : ℕ} {c : Submitter} (h : (ρ.calls i).Left) (hc : j = i → c.Left) :
    ((ρ.setCall j c).calls i).Left := by
  unfold setCall
  by_cases hij : i = j
  · subst hij
    simpa using hc rfl
  · simpa [Function.update_of_ne hij] using h

theorem AtSubmit.not_left {item : WorkItem} (h : ρ.AtSubmit i item) : ¬ (ρ.calls i).Left := by
  rcases h with h | ⟨h, -⟩ <;> rw [h] <;> exact id

/-- A transition of the pool does not bring a call back. -/
theorem Step.left (hstep : Step D config req ρ ρ') (h : (ρ.calls i).Left) : (ρ'.calls i).Left := by
  have hback {j : ℕ} {c c' : Submitter} (hj : ρ.calls j = c) (hc : ¬ c.Left) (hji : j = i) :
      c'.Left := by
    rw [hji] at hj
    rw [hj] at h
    exact absurd h hc
  cases hstep with
  | invoke hj => exact setCall_left h (hback hj id)
  | prepare hj => exact setCall_left (ρ := { ρ with engine := _ }) h (hback hj id)
  | refuse hj => exact setCall_left h (hback hj id)
  | arrive hj => exact setCall_left h (hback hj id)
  | reject hj _ => exact setCall_left h fun hji => absurd h (hji ▸ hj.not_left)
  | block hj _ _ => exact setCall_left h fun hji => absurd h (hji ▸ hj.not_left)
  | accept wakes hj _ _ => exact setCall_left h fun hji => absurd h (hji ▸ hj.not_left)
  | unwind hj => exact setCall_left (ρ := { ρ with engine := _ }) h fun _ => trivial
  | giveUp hj => exact setCall_left h fun _ => trivial
  | _ => exact h

/-- The workers and the cleanup move no call. -/
theorem Reaches.calls (h : Reaches D config req ρ ρ') : ρ'.calls = ρ.calls := by
  induction h with
  | refl => rfl
  | @tail ρ' ρ'' _ hstep ih =>
      obtain ⟨m, hm, rfl⟩ := hstep
      rw [← ih]
      cases m with
      | worker w wakes =>
          simp only [Pool.next, workerNext, dequeue]
          split
          · split
            · split <;> rfl
            · rfl
          · split
            · rfl
            · split
              · split <;> rfl
              · rfl
          · rfl
          · rfl
          · rfl
      | cleaner =>
          simp only [Pool.next, cleanerNext]
          split
          all_goals first | rfl | (split <;> first | rfl | (split <;> rfl))
      | _ => exact hm.elim

theorem workerSection_calls (w : Fin n) (wakes : ℕ) (pc : WorkerSection) :
    (ρ.workerSection w wakes pc).1.calls = ρ.calls := by
  cases pc with
  | taking =>
      simp only [workerSection]
      split <;> rfl
  | _ => rfl

theorem submitSection_calls {j : ℕ} (hij : i ≠ j) (item : WorkItem) (wakes : Fin n)
    (pc : SubmitSection) : (ρ.submitSection config j item wakes pc).1.calls i = ρ.calls i := by
  cases pc with
  | blocking => exact Function.update_of_ne hij _ _
  | rejecting => exact Function.update_of_ne hij _ _
  | unlocking => exact Function.update_of_ne hij _ _
  | _ => rfl

theorem destroySection_calls (pc : DestroySection) : (ρ.destroySection pc).1.calls = ρ.calls := by
  cases pc <;> rfl

end Pool

namespace LockedPool

variable {σ : LockedPool δ n} {i : ℕ}

theorem creatorNext_calls (fails : Bool) : (σ.creatorNext fails).pool.calls = σ.pool.calls := by
  unfold creatorNext
  split
  · split <;> rfl
  · rfl
  · rfl
  · split
    · split <;> rfl
    · rfl
  · rfl
  · rfl

/-- No step brings a call back that has left. -/
theorem next_left (h : σ.Sane config req) (hleft : (σ.pool.calls i).Left) (m : LockMove n) :
    ((σ.next D config req m).pool.calls i).Left := by
  cases m with
  | create fails =>
      rw [next, creatorNext_calls]
      exact hleft
  | step m =>
      have hstep : Step D config req σ m (σ.next D config req (.step m)) := next_step σ m
      generalize σ.next D config req (.step m) = τ at hstep ⊢
      cases hstep with
      | stay => exact hleft
      | @worker w pc wakes ρ lock hlock hnext =>
          have hcalls := σ.pool.workerSection_calls w wakes pc
          rw [hnext] at hcalls
          exact hcalls ▸ hleft
      | @call j item pc wakes ρ lock hlock hnext =>
          -- the call in its section has not left
          have hij : i ≠ j := by
            rintro rfl
            exact (h.held _ hlock).2.1.not_left hleft
          have hcalls := @Pool.submitSection_calls δ n config σ.pool i j hij item wakes pc
          rw [hnext] at hcalls
          exact hcalls ▸ hleft
      | @cleaner pc ρ lock hlock hnext =>
          have hcalls := σ.pool.destroySection_calls pc
          rw [hnext] at hcalls
          exact hcalls ▸ hleft
      | enter _ _ _ => exact hleft
      | outside _ => exact (Pool.next_step σ.pool m).left hleft

theorem after_left (hn : 0 < n) (h : σ.Sane config req) (hleft : (σ.pool.calls i).Left)
    (moves : List (LockMove n)) : ((σ.after D config req moves).pool.calls i).Left := by
  have hrun := after_kept (D := D)
    (fun σ : LockedPool δ n => σ.Sane config req ∧ (σ.pool.calls i).Left)
    (fun σ m hσ => ⟨hσ.1.next hn m, next_left hσ.1 hσ.2 m⟩) ⟨h, hleft⟩ moves
  exact hrun.2

/-! ### A call that is inside can be left behind -/

variable (D)

/-- The workers and the cleanup can run until the pool is torn down, and no call takes a step. -/
theorem exists_teardown_around (hn : 0 < n) (h : σ.Sane config req)
    (hlock : σ.lock = some (.cleaner .raising)) :
    ∃ τ, Leads D config req σ τ ∧ τ.pool.cleaner.tearsDown = true ∧ τ.pool.calls = σ.pool.calls := by
  obtain ⟨τ, hraised, hfree, hcreator, hcalls⟩ : ∃ τ, Leads D config req σ τ ∧ τ.lock = none ∧
      τ.creator = σ.creator ∧ τ.pool.calls = σ.pool.calls := ⟨_, leads_raising hlock, rfl, rfl, rfl⟩
  have hdone : τ.creator.done = true := hcreator ▸ (h.held _ hlock).1
  have hτ : τ.Sane config req := hraised.kept (Sane config req) (fun _ m h => h.next hn m) h
  obtain ⟨ρ, hreaches, hfinished, hleads⟩ := exists_finished D hn hτ hfree hdone
  refine ⟨_, hraised.trans hleads, ?_, hreaches.calls.trans hcalls⟩
  dsimp only
  rw [hfinished]
  rfl

end LockedPool

/-- **Who is still inside at the teardown.**  From the moment in which `thread_pool_destroy` sets
`shutdown`, the pool is torn down only after every call that had entered `thread_pool_submit` is done
with it, exactly if no call is inside at that moment. -/
theorem pool_outlives_calls_iff (hn : 0 < n) (s : State δ) (moves : List (LockMove n))
    (hraising : ((LockedPool.start n s).after D config req moves).lock = some (.cleaner .raising)) :
    let σ := (LockedPool.start n s).after D config req moves
    (∀ more,
      let τ := σ.after D config req more
      τ.pool.cleaner.tearsDown = true →
        ∀ i, (σ.pool.calls i).Entered i → ¬ (τ.pool.calls i).Inside i) ↔
      ∀ i, ¬ (σ.pool.calls i).Inside i := by
  intro σ
  have hsane : σ.Sane config req := LockedPool.after_sane hn (LockedPool.start_sane s) moves
  constructor
  · intro hall i hinside
    obtain ⟨τ, hleads, hdown, hcalls⟩ := LockedPool.exists_teardown_around D hn hsane hraising
    obtain ⟨more, _, hafter⟩ := hleads.moves
    refine hall more ?_ i (.inl hinside) ?_
    · rw [hafter]
      exact hdown
    · rw [hafter, hcalls]
      exact hinside
  · intro hnone more τ _ i hentered
    have hleft : (σ.pool.calls i).Left := hentered.resolve_left (hnone i)
    exact (LockedPool.after_left hn hsane hleft more).not_inside

/-- One worker and a queue of one item. -/
def oneSlot : Config := { twoDevices with queueDepth := 1, numWorkerThreads := 1 }

/-- Every call deletes the same key. -/
def deletes : ℕ → AsyncCall := fun i => .delete (some [107, 101, 121, 49]) false i

/-- One call has returned, its item is in the queue, and `thread_pool_destroy` is about to set
`shutdown`. -/
def returnedCall : LockedPool KeySpace 1 :=
  (LockedPool.start 1 freshEngine).after keySpaceDriver oneSlot deletes
    (([.create false, .create false] : List (LockMove 1)) ++
      List.replicate 14 (.step (.call 0 0) : LockMove 1) ++
      List.replicate 7 (.step .cleaner : LockMove 1))

theorem pool_outlives_calls_iff_returnedCall :
    (returnedCall.pool.calls 0).Entered 0 ∧
      ∀ more, let τ := returnedCall.after keySpaceDriver oneSlot deletes more
        τ.pool.cleaner.tearsDown = true →
          ∀ i, (returnedCall.pool.calls i).Entered i → ¬ (τ.pool.calls i).Inside i := by
  have hraising : returnedCall.lock = some (.cleaner .raising) := rfl
  refine ⟨.inr trivial, (pool_outlives_calls_iff (by decide) freshEngine _ hraising).mpr ?_⟩
  rintro (_ | i)
  · exact id
  · exact id

/-- The same with a second call, which sleeps on `queue_not_full`. -/
def blockedCall : LockedPool KeySpace 1 :=
  (LockedPool.start 1 freshEngine).after keySpaceDriver oneSlot deletes
    (([.create false, .create false] : List (LockMove 1)) ++
      List.replicate 14 (.step (.call 0 0) : LockMove 1) ++
      List.replicate 11 (.step (.call 1 0) : LockMove 1) ++
      List.replicate 7 (.step .cleaner : LockMove 1))

/-- The cleanup goes through its section, the worker drains the queue and exits, and the cleanup
joins it. -/
def tornDown : LockedPool KeySpace 1 :=
  blockedCall.after keySpaceDriver oneSlot deletes
    (List.replicate 4 (.step .cleaner : LockMove 1) ++
      List.replicate 21 (.step (.worker 0 0) : LockMove 1) ++
      List.replicate 3 (.step .cleaner : LockMove 1))

/-- The broadcast has woken the second call, and the pool is torn down before the call takes the
lock again. -/
theorem woken_call_finds_no_pool :
    blockedCall.lock = some (.cleaner .raising) ∧ blockedCall.pool.notFull = [1] ∧
      (blockedCall.pool.calls 1).Inside 1 ∧
      tornDown.pool.cleaner.tearsDown = true ∧ tornDown.pool.notFull = [] ∧
      (tornDown.pool.calls 1).Inside 1 :=
  ⟨rfl, rfl, trivial, rfl, rfl, trivial⟩

end KvEngine
