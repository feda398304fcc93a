import KvEngine.Sections

/-! # No wakeup is lost

`pthread_cond_signal` wakes one thread, which can be overtaken by a newcomer that takes the item or
the slot.  Still no wakeup is lost: queued work finds a worker that is not asleep, and the free
slots of the queue are matched by notified calls.  `Wakeups.lean` has this for the coarse pool;
`no_lost_wakeup` states it there and, with the lock as in `QueueLock.lean`, for every state in which
no thread stands between its change of the queue and its signal. -/

namespace KvEngine

open Atomic

variable {δ : Type} {n : ℕ} {D : Driver δ} {config : Config} {req : ℕ → AsyncCall}

/-- Queued work finds a worker that is not asleep, and while calls are blocked, there are at least
as many notified ones as there are free slots. -/
def Pool.Alert (config : Config) (ρ : Pool δ n) : Prop :=
  (ρ.queue ≠ [] → ∃ w, w ∉ ρ.notEmpty) ∧
    ∀ i ∈ ρ.notFull, ∃ notified : List ℕ, notified.Nodup ∧ (∀ j ∈ notified, ρ.Notified j) ∧
      config.queueCapacity - ρ.queue.length ≤ notified.length

/-- What the transitions keep: the accounting, and nobody is left asleep. -/
structure Pool.Attended (config : Config) (req : ℕ → AsyncCall) (ρ : Pool δ n) : Prop where
  sound : ρ.Sound req
  roused : ρ.Roused
  matched : ρ.Matched config

theorem Pool.start_attended (s : State δ) : (start n s).Attended config req :=
  ⟨start_sound s, start_roused s, start_matched s⟩

theorem Pool.Attended.step (hn : 0 < n) {ρ ρ' : Pool δ n} (h : ρ.Attended config req)
    (hstep : Step D config req ρ ρ') : ρ'.Attended config req :=
  ⟨h.sound.step hn hstep, h.roused.step hn h.sound hstep, h.matched.step h.sound hstep⟩

theorem Pool.Attended.alert {ρ : Pool δ n} (h : ρ.Attended config req) : ρ.Alert config := by
  refine ⟨fun hne => ?_, fun i hi => ?_⟩
  · obtain ⟨w, hw, _⟩ := h.roused.awake hne
    exact ⟨w, hw⟩
  · obtain ⟨notified, hnodup, hmem, hle⟩ := h.matched.slots (List.ne_nil_of_mem hi)
    exact ⟨notified, hnodup, hmem, by omega⟩

/-- The holder of the lock has changed the queue, and is about to signal it. -/
def Section.signals : Section n → Bool
  | .worker _ (.signalling _) => true
  | .call _ _ .signalling => true
  | _ => false

/-- Apart from a signal that is still to come, the coarse pool shows who is asleep. -/
theorem LockedPool.alert_of_coarse {σ : LockedPool δ n} (h : σ.Sane config req)
    (hshut : σ.pool.shutdown = false) (hsignals : ∀ sec, σ.lock = some sec → sec.signals = false)
    (hcoarse : σ.coarse.Alert config) : σ.pool.Alert config := by
  cases hlock : σ.lock with
  | none => rwa [coarse, hlock] at hcoarse
  | some sec =>
      rw [coarse, hlock] at hcoarse
      have hheld := h.held sec hlock
      have hsec := hsignals sec hlock
      cases sec with
      | worker w pc =>
          cases pc with
          | signalling item => cases hsec
          | _ => exact hcoarse
      | call i item pc =>
          cases pc with
          | signalling => cases hsec
          | unlocking =>
              -- the holder of the lock is not one of the notified calls any more
              refine ⟨hcoarse.1, fun j hj => ?_⟩
              obtain ⟨notified, hnodup, hmem, hle⟩ := hcoarse.2 j hj
              refine ⟨notified, hnodup, fun k hk => ?_, hle⟩
              obtain ⟨⟨item', hwaiting⟩, hfree⟩ := hmem k hk
              have hki : k ≠ i := by
                rintro rfl
                simp [Section.coarse, Pool.setCall] at hwaiting
              refine ⟨⟨item', ?_⟩, hfree⟩
              simpa [Section.coarse, Pool.setCall, Function.update_of_ne hki] using hwaiting
          | _ => exact hcoarse
      | cleaner pc =>
          cases pc with
          | raising => exact hcoarse
          | wakingWorkers => exact absurd (hshut.symm.trans hheld.2.2) (by simp)
          | wakingCalls => exact absurd (hshut.symm.trans hheld.2.2.1) (by simp)
          | unlocking => exact absurd (hshut.symm.trans hheld.2.2.1) (by simp)

/-- **No lost wakeup.**  In every reachable state before the shutdown, queued work finds a worker
that is not blocked, and while calls are blocked the free slots are matched by calls that were
notified and have not resumed.  This holds with the critical sections as single steps, and with
`queue_lock` as in the code whenever no thread stands between its change of the queue and its
signal; in particular whenever the lock is free. -/
theorem no_lost_wakeup (hn : 0 < n) (D : Driver δ) (config : Config) (req : ℕ → AsyncCall)
    (s : State δ) :
    (∀ moves : List (PoolMove n),
      let ρ := (Pool.start n s).after D config req moves
      ρ.shutdown = false → ρ.Alert config) ∧
    ∀ moves : List (LockMove n),
      let σ := (LockedPool.start n s).after D config req moves
      σ.pool.shutdown = false → (∀ sec, σ.lock = some sec → sec.signals = false) →
        σ.pool.Alert config := by
  constructor
  · intro moves ρ _
    have hρ : ρ.Attended config req :=
      Pool.after_invariant (fun _ _ h hstep => h.step hn hstep) (Pool.start_attended s) moves
    exact hρ.alert
  · intro moves σ hshut hsignals
    have hsane : σ.Sane config req := LockedPool.after_sane hn (LockedPool.start_sane s) moves
    have hup : σ.creator.gaveUp = false := by
      by_contra hup
      rw [hsane.raised (Bool.not_eq_false _ ▸ hup)] at hshut
      cases hshut
    have hcoarse : σ.coarse.Attended config req :=
      LockedPool.after_invariant hn (fun _ _ h hstep => h.step hn hstep) (Pool.start_attended s)
        moves hup
    exact LockedPool.alert_of_coarse hsane hshut hsignals hcoarse.alert

/-- A queue of one slot: the first call fills it, two more are blocked, and the worker takes the
item. -/
def threeDeletes : Pool KeySpace 1 :=
  (Pool.start 1 freshEngine).after keySpaceDriver { twoDevices with queueDepth := 1 }
    (fun _ => .delete (some [107, 101, 121, 49]) true 0)
    (List.replicate 10 (.call 0 0 : PoolMove 1) ++ List.replicate 10 (.call 1 0 : PoolMove 1) ++
      List.replicate 10 (.call 2 0 : PoolMove 1) ++ ([.worker 0 1] : List (PoolMove 1)))

theorem no_lost_wakeup_threeDeletes :
    threeDeletes.shutdown = false ∧ threeDeletes.notFull = [2] ∧ threeDeletes.queue.length = 0 ∧
      ∃ notified : List ℕ, notified.Nodup ∧ (∀ j ∈ notified, threeDeletes.Notified j) ∧
        1 - 0 ≤ notified.length := by
  have hrun : threeDeletes.shutdown = false ∧ threeDeletes.notFull = [2] ∧
      threeDeletes.queue.length = 0 := by decide +kernel
  obtain ⟨hshut, hblocked, hempty⟩ := hrun
  refine ⟨hshut, hblocked, hempty, ?_⟩
  have halert : threeDeletes.Alert { twoDevices with queueDepth := 1 } :=
    (no_lost_wakeup (by decide) keySpaceDriver _ _ freshEngine).1 _ hshut
  have hslots := halert.2 2 (by rw [hblocked]; exact List.mem_singleton_self 2)
  rw [hempty] at hslots
  exact hslots

end KvEngine
