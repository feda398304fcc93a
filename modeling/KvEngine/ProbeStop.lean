import KvEngine.Lookup
import KvEngine.Machine
import KvEngine.Threads

/-! # Stopping the health probe

`health_probe_thread` and `health_probe_destroy` (`src/core/kv_engine_health.c`), access by access:
the loads and the store of `running`, the mutex, the timed wait and the signal.  The sweep over the
devices is the program of `Lifecycle.lean`, run action by action while other threads change the
engine as they like.  There is no clock: the deadline of a timed wait may pass at any time, which is
a move of its own.

The probe tests `running` before it takes the mutex and not again before it waits.  A signal that
falls between the test and the wait is lost, so all that matters is where the probe stands when the
signal is issued: `stop_signal_received_iff`. -/

namespace KvEngine

open Atomic

/-- Where the probe thread stands; it carries its recovery counts. -/
inductive ProbeThread where
  /-- At the condition of the loop. -/
  | testing (counts : ℕ → UInt32)
  /-- `running` was set: about to compute the deadline. -/
  | timing (counts : ℕ → UInt32)
  /-- About to lock the mutex. -/
  | locking (counts : ℕ → UInt32)
  /-- Holding the mutex, about to call `pthread_cond_timedwait`. -/
  | blocking (counts : ℕ → UInt32)
  /-- In `pthread_cond_timedwait`. -/
  | waiting (counts : ℕ → UInt32)
  | unlocking (counts : ℕ → UInt32)
  /-- At the second test of `running`. -/
  | checking (counts : ℕ → UInt32)
  /-- In the device recovery loop, with the rest of the sweep. -/
  | sweeping (p : M (ℕ → UInt32))
  | exited

/-- Where the thread in `health_probe_destroy` stands. -/
inductive ProbeStopper where
  /-- About to clear `running`. -/
  | clearing
  | locking
  | signalling
  | unlocking
  /-- About to join the probe thread. -/
  | joining
  /-- Behind the join, with the rest of the call. -/
  | releasing (p : M Unit)
  | returned

/-- The owner of the mutex. -/
inductive ProbeParty where
  | probe
  | stopper
deriving DecidableEq, Repr

/-- The fields of `health_probe_t` the two threads share, the threads, and the engine. -/
structure ProbeStop (δ : Type) where
  engine : State δ
  running : Bool
  mutex : Option ProbeParty
  cond : CondVar Unit
  probe : ProbeThread
  stopper : ProbeStopper

/-- A step of one of the two threads, an end of the timed wait, or a step of another thread. -/
inductive ProbeMove (δ : Type) where
  | probe
  | stopper
  | timeout
  | spurious
  | others (s : State δ)

namespace ProbeStop

variable {δ : Type}

/-- The probe thread is created. -/
def start (s : State δ) : ProbeStop δ where
  engine := s
  running := true
  mutex := none
  cond := []
  probe := .testing fun _ => 0
  stopper := .clearing

variable (D : Driver δ)

/-- A step of `health_probe_thread`. -/
def probeNext (σ : ProbeStop δ) : ProbeStop δ :=
  match σ.probe with
  | .testing counts => { σ with probe := if σ.running then .timing counts else .exited }
  | .timing counts => { σ with probe := .locking counts }
  | .locking counts =>
      if σ.mutex.isNone then { σ with mutex := some .probe, probe := .blocking counts } else σ
  | .blocking counts => { σ with mutex := none, cond := σ.cond ++ [()], probe := .waiting counts }
  | .waiting counts =>
      if σ.cond = [] ∧ σ.mutex = none then
        { σ with mutex := some .probe, probe := .unlocking counts }
      else σ
  | .unlocking counts => { σ with mutex := none, probe := .checking counts }
  | .checking counts =>
      { σ with probe := if σ.running then .sweeping (probeSweep counts) else .exited }
  | .sweeping (.act a k) =>
      { σ with engine := (exec D a σ.engine).2, probe := .sweeping (k (exec D a σ.engine).1) }
  | .sweeping (.ret counts) => { σ with probe := .testing counts }
  | .exited => σ

/-- A step of `health_probe_destroy`. -/
def stopperNext (σ : ProbeStop δ) : ProbeStop δ :=
  match σ.stopper with
  | .clearing => { σ with running := false, stopper := .locking }
  | .locking =>
      if σ.mutex.isNone then { σ with mutex := some .stopper, stopper := .signalling } else σ
  | .signalling => { σ with cond := σ.cond.signal (), stopper := .unlocking }
  | .unlocking => { σ with mutex := none, stopper := .joining }
  | .joining =>
      match σ.probe with
      | .exited => { σ with stopper := .releasing healthProbeDestroy }
      | _ => σ
  | .releasing (.act a k) =>
      { σ with engine := (exec D a σ.engine).2, stopper := .releasing (k (exec D a σ.engine).1) }
  | .releasing (.ret _) => { σ with stopper := .returned }
  | .returned => σ

/-- A step. -/
def next (σ : ProbeStop δ) : ProbeMove δ → ProbeStop δ
  | .probe => σ.probeNext D
  | .stopper => σ.stopperNext D
  | .timeout => { σ with cond := σ.cond.spurious () }
  | .spurious => { σ with cond := σ.cond.spurious () }
  | .others s => { σ with engine := s }

/-- The state after the moves. -/
def after (σ : ProbeStop δ) (moves : List (ProbeMove δ)) : ProbeStop δ :=
  Machine.after (fun σ m => ((), σ.next D m)) σ moves

end ProbeStop

/-! ### The invariant -/

/-- The probe has the mutex. -/
def ProbeThread.locked : ProbeThread → Bool
  | .blocking _ => true
  | .unlocking _ => true
  | _ => false

/-- The probe has found `running` set and goes on to wait, whatever happens to the flag. -/
def ProbeThread.committed : ProbeThread → Bool
  | .timing _ => true
  | .locking _ => true
  | .blocking _ => true
  | _ => false

/-- The thread in `health_probe_destroy` has the mutex. -/
def ProbeStopper.locked : ProbeStopper → Bool
  | .signalling => true
  | .unlocking => true
  | _ => false

namespace ProbeStop

variable {δ : Type} {D : Driver δ} {σ : ProbeStop δ}

/-- The mutex has one owner, only a probe in its wait is blocked, and `running` is cleared first. -/
structure Sound (σ : ProbeStop δ) : Prop where
  cleared : σ.stopper ≠ .clearing → σ.running = false
  cond : σ.cond = [] ∨ σ.cond = [()] ∧ ∃ counts, σ.probe = .waiting counts
  probe : σ.probe.locked = true → σ.mutex = some .probe
  stopper : σ.stopper.locked = true → σ.mutex = some .stopper

theorem start_sound (s : State δ) : (start s).Sound :=
  ⟨fun h => absurd rfl h, .inl rfl, nofun, nofun⟩

/-- While the probe is not in its wait, nobody is blocked. -/
theorem Sound.cond_eq_nil (h : σ.Sound) (hprobe : ∀ counts, σ.probe ≠ .waiting counts) :
    σ.cond = [] :=
  h.cond.resolve_right fun ⟨_, counts, hwaiting⟩ => hprobe counts hwaiting

/-- The mutex is not with the thread in `health_probe_destroy` when it is free or with the probe. -/
theorem Sound.stopper_unlocked (h : σ.Sound) (hmutex : σ.mutex ≠ some .stopper) :
    σ.stopper.locked ≠ true := fun hlocked => hmutex (h.stopper hlocked)

theorem Sound.probe_unlocked (h : σ.Sound) (hmutex : σ.mutex ≠ some .probe) :
    σ.probe.locked ≠ true := fun hlocked => hmutex (h.probe hlocked)

theorem Sound.probeNext (h : σ.Sound) : (σ.probeNext D).Sound := by
  obtain ⟨engine, running, mutex, cond, probe, stopper⟩ := σ
  cases probe with
  | testing counts =>
      have hcond : cond = [] := h.cond_eq_nil nofun
      cases running <;> exact ⟨h.cleared, .inl hcond, nofun, h.stopper⟩
  | timing counts => exact ⟨h.cleared, .inl (h.cond_eq_nil nofun), nofun, h.stopper⟩
  | locking counts =>
      cases mutex with
      | some party => exact h
      | none =>
          exact ⟨h.cleared, .inl (h.cond_eq_nil nofun), fun _ => rfl,
            fun hlocked => absurd hlocked (h.stopper_unlocked nofun)⟩
  | blocking counts =>
      have hcond : cond = [] := h.cond_eq_nil nofun
      have hmutex : mutex = some .probe := h.probe rfl
      subst hcond hmutex
      exact ⟨h.cleared, .inr ⟨rfl, counts, rfl⟩, nofun,
        fun hlocked => absurd hlocked (h.stopper_unlocked nofun)⟩
  | waiting counts =>
      simp only [ProbeStop.probeNext]
      split
      · rename_i hfree
        obtain ⟨hcond, hmutex⟩ := hfree
        refine ⟨h.cleared, .inl hcond, fun _ => rfl,
          fun hlocked => absurd hlocked (h.stopper_unlocked ?_)⟩
        rw [hmutex]
        nofun
      · exact h
  | unlocking counts =>
      have hmutex : mutex = some .probe := h.probe rfl
      subst hmutex
      exact ⟨h.cleared, .inl (h.cond_eq_nil nofun), nofun,
        fun hlocked => absurd hlocked (h.stopper_unlocked nofun)⟩
  | checking counts =>
      have hcond : cond = [] := h.cond_eq_nil nofun
      cases running <;> exact ⟨h.cleared, .inl hcond, nofun, h.stopper⟩
  | sweeping p =>
      have hcond : cond = [] := h.cond_eq_nil nofun
      cases p <;> exact ⟨h.cleared, .inl hcond, nofun, h.stopper⟩
  | exited => exact h

theorem Sound.stopperNext (h : σ.Sound) : (σ.stopperNext D).Sound := by
  obtain ⟨engine, running, mutex, cond, probe, stopper⟩ := σ
  cases stopper with
  | clearing => exact ⟨fun _ => rfl, h.cond, h.probe, nofun⟩
  | locking =>
      cases mutex with
      | some party => exact h
      | none =>
          exact ⟨fun _ => h.cleared nofun, h.cond,
            fun hlocked => absurd hlocked (h.probe_unlocked nofun), fun _ => rfl⟩
  | signalling =>
      refine ⟨fun _ => h.cleared nofun, .inl ?_, h.probe, fun _ => h.stopper rfl⟩
      rcases h.cond with hcond | ⟨hcond, -⟩ <;> simp only at hcond <;> subst hcond <;> rfl
  | unlocking =>
      have hmutex : mutex = some .stopper := h.stopper rfl
      subst hmutex
      exact ⟨fun _ => h.cleared nofun, h.cond,
        fun hlocked => absurd hlocked (h.probe_unlocked nofun), nofun⟩
  | joining =>
      have hcleared : running = false := h.cleared nofun
      cases probe <;> first | exact h | exact ⟨fun _ => hcleared, h.cond, h.probe, nofun⟩
  | releasing p => cases p <;> exact ⟨fun _ => h.cleared nofun, h.cond, h.probe, nofun⟩
  | returned => exact h

theorem Sound.next (h : σ.Sound) (m : ProbeMove δ) : (σ.next D m).Sound := by
  have hwoken : ProbeStop.Sound { σ with cond := σ.cond.spurious () } := by
    refine ⟨h.cleared, .inl ?_, h.probe, h.stopper⟩
    rcases h.cond with hcond | ⟨hcond, -⟩ <;> simp [hcond, CondVar.spurious]
  cases m with
  | probe => exact h.probeNext
  | stopper => exact h.stopperNext
  | timeout => exact hwoken
  | spurious => exact hwoken
  | others s => exact ⟨h.cleared, h.cond, h.probe, h.stopper⟩

theorem after_sound (s : State δ) (moves : List (ProbeMove δ)) : ((start s).after D moves).Sound :=
  Machine.invariant Sound (fun _ m h => h.next m) (start_sound s) moves

/-! ### After the signal -/

/-- The probe is not blocked, and does not go on to block. -/
structure Heard (σ : ProbeStop δ) : Prop where
  running : σ.running = false
  cond : σ.cond = []
  probe : σ.probe.committed = false

/-- The signal wakes a probe that is blocked, and one that has not tested `running` yet finds it
cleared. -/
theorem Sound.heard (h : σ.Sound) (hsignal : σ.stopper = .signalling)
    (hprobe : σ.probe.committed = false) : (σ.next D .stopper).Heard := by
  simp only [ProbeStop.next, ProbeStop.stopperNext, hsignal]
  refine ⟨h.cleared (by rw [hsignal]; nofun), ?_, hprobe⟩
  rcases h.cond with hcond | ⟨hcond, -⟩ <;> simp [hcond, CondVar.signal]

theorem Heard.next (h : σ.Heard) (m : ProbeMove δ) : (σ.next D m).Heard := by
  obtain ⟨engine, running, mutex, cond, probe, stopper⟩ := σ
  obtain ⟨hrunning, hcond, hprobe⟩ := h
  subst hrunning hcond
  cases m with
  | probe =>
      cases probe with
      | testing counts => exact ⟨rfl, rfl, rfl⟩
      | timing counts => cases hprobe
      | locking counts => cases hprobe
      | blocking counts => cases hprobe
      | waiting counts =>
          simp only [ProbeStop.next, ProbeStop.probeNext]
          split <;> exact ⟨rfl, rfl, rfl⟩
      | unlocking counts => exact ⟨rfl, rfl, rfl⟩
      | checking counts => exact ⟨rfl, rfl, rfl⟩
      | sweeping p => cases p <;> exact ⟨rfl, rfl, rfl⟩
      | exited => exact ⟨rfl, rfl, rfl⟩
  | stopper =>
      cases stopper with
      | locking => cases mutex <;> exact ⟨rfl, rfl, hprobe⟩
      | joining => cases probe <;> exact ⟨rfl, rfl, hprobe⟩
      | releasing p => cases p <;> exact ⟨rfl, rfl, hprobe⟩
      | _ => exact ⟨rfl, rfl, hprobe⟩
  | timeout => exact ⟨rfl, rfl, hprobe⟩
  | spurious => exact ⟨rfl, rfl, hprobe⟩
  | others s => exact ⟨rfl, rfl, hprobe⟩

/-- A probe that has committed itself blocks after the signal. -/
theorem Sound.exists_blocked (h : σ.Sound) (hsignal : σ.stopper = .signalling)
    (hprobe : σ.probe.committed = true) : ∃ more, (σ.after D (.stopper :: more)).cond ≠ [] := by
  obtain ⟨engine, running, mutex, cond, probe, stopper⟩ := σ
  subst hsignal
  have hmutex : mutex = some .stopper := h.stopper rfl
  subst hmutex
  cases probe with
  | timing counts =>
      exact ⟨[.stopper, .probe, .probe, .probe], List.append_ne_nil_of_right_ne_nil _ nofun⟩
  | locking counts =>
      exact ⟨[.stopper, .probe, .probe], List.append_ne_nil_of_right_ne_nil _ nofun⟩
  | blocking counts =>
      -- it has the mutex, which the signal is issued under
      have hprobe' : some ProbeParty.stopper = some ProbeParty.probe := h.probe rfl
      cases hprobe'
  | _ => cases hprobe

end ProbeStop

/-- **When the probe hears of its end.**  From the signal of `health_probe_destroy` on, the probe is
never blocked in its timed wait, exactly if it does not stand between its test of `running` and its
wait when the signal is issued. -/
theorem stop_signal_received_iff {δ : Type} (D : Driver δ) (s : State δ) (moves : List (ProbeMove δ))
    (hsignal : ((ProbeStop.start s).after D moves).stopper = .signalling) :
    let σ := (ProbeStop.start s).after D moves
    (∀ more, (σ.after D (.stopper :: more)).cond = []) ↔ σ.probe.committed = false := by
  intro σ
  have hsound : σ.Sound := ProbeStop.after_sound s moves
  constructor
  · intro hall
    by_contra hprobe
    obtain ⟨more, hblocked⟩ := hsound.exists_blocked (D := D) hsignal (Bool.not_eq_false _ ▸ hprobe)
    exact hblocked (hall more)
  · intro hprobe more
    have hrun : (σ.after D (.stopper :: more)) = (σ.next D .stopper).after D more := rfl
    have hheard : ((σ.next D .stopper).after D more).Heard :=
      Machine.invariant ProbeStop.Heard (fun _ m h => h.next m) (hsound.heard hsignal hprobe) more
    rw [hrun]
    exact hheard.cond

/-- The probe is in its timed wait when `health_probe_destroy` is about to signal. -/
def sleepingProbe : ProbeStop KeySpace :=
  (ProbeStop.start freshEngine).after keySpaceDriver
    [.probe, .probe, .probe, .probe, .stopper, .stopper]

theorem stop_signal_received_iff_sleepingProbe :
    sleepingProbe.stopper = .signalling ∧ sleepingProbe.cond = [()] ∧
      ∀ more, (sleepingProbe.after keySpaceDriver (.stopper :: more)).cond = [] :=
  ⟨rfl, rfl, (stop_signal_received_iff keySpaceDriver freshEngine _ rfl).mpr rfl⟩

/-- The probe tests `running`; before it takes the mutex, `health_probe_destroy` clears the flag,
signals, and goes on to its join. -/
def deafProbe : ProbeStop KeySpace :=
  (ProbeStop.start freshEngine).after keySpaceDriver
    [.probe, .stopper, .stopper, .stopper, .stopper, .probe, .probe, .probe]

/-- The signal is lost: the probe is blocked, the join waits for it, and neither thread can take a
step until the deadline passes. -/
theorem deaf_probe_stalls_stop :
    deafProbe.stopper = .joining ∧ deafProbe.running = false ∧ deafProbe.cond = [()] ∧
      deafProbe.next keySpaceDriver .probe = deafProbe ∧
      deafProbe.next keySpaceDriver .stopper = deafProbe :=
  ⟨rfl, rfl, rfl, rfl, rfl⟩

end KvEngine
