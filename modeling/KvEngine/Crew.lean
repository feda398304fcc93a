import KvEngine.Conduct

/-! # One move of a running engine

The promises of the threads of `Tasks.lean` put together.  A client thread follows the `conduct`
of its task; its phase is what the log says it has done in it.  The probe has a `ProbePhase`: its
recovery counters and its place in the body of the recovery loop.

`Crew.Tracked.next` is the rule from which every invariant of a running engine is derived.  It
says once what a move can be: a task starts or ends, a client performs an action that its task
allows, or the probe performs one of five actions (`ProbePhase.Ok`).  To a single device `i` a
client does one of six things (`Touch`). -/

namespace KvEngine

open Atomic

/-! ### The probe -/

/-- The place of the probe in the body of its loop: it does not look at an unhealthy device, it
has found one, it has counted enough successful queries of it, it has marked it healthy. -/
inductive Stage where
  | between
  | found (i : ℕ)
  | proven (i : ℕ)
  | clearing (i : ℕ)
deriving DecidableEq

/-- The recovery counters of the probe and its place in the loop. -/
structure ProbePhase where
  counts : ℕ → UInt32
  stage : Stage

namespace ProbePhase

/-- The probe has not looked at any device. -/
def first : ProbePhase := ⟨fun _ => 0, .between⟩

/-- The actions of the probe. -/
inductive Ok (q : ProbePhase) : Act → Prop where
  | bound (h : q.stage = .between) : Ok q .loadNumDevices
  | look (i : ℕ) (h : q.stage = .between) : Ok q (.loadHealthy i)
  | query (i : ℕ) (h : q.stage = .found i) : Ok q (.kvsGetDeviceUtilization i)
  | mark (i : ℕ) (h : q.stage = .proven i) : Ok q (.storeHealthy i true)
  | clear (i : ℕ) (h : q.stage = .clearing i) : Ok q (.storeConsecutiveErrors i 0)

/-- The phase after an action.  The counter of a device is taken to be zero as soon as the device
is marked; the source resets it after the two stores. -/
def next (q : ProbePhase) : (a : Act) → a.Resp → ProbePhase
  | .loadHealthy i, healthy => if healthy then q else ⟨q.counts, .found i⟩
  | .kvsGetDeviceUtilization i, r =>
      if r = .success then
        if recoveryThreshold ≤ q.counts i + 1 then ⟨q.counts, .proven i⟩
        else ⟨Function.update q.counts i (q.counts i + 1), .between⟩
      else ⟨Function.update q.counts i 0, .between⟩
  | .storeHealthy i _, _ => ⟨Function.update q.counts i 0, .clearing i⟩
  | .storeConsecutiveErrors _ _, _ => ⟨q.counts, .between⟩
  | _, _ => q

/-- A query of the device `k` does not concern another device. -/
theorem next_query_of_ne (q : ProbePhase) {i k : ℕ} (hk : k ≠ i) (r : KvsResult) :
    (q.next (.kvsGetDeviceUtilization k) r).counts i = q.counts i ∧
      (q.next (.kvsGetDeviceUtilization k) r).stage ≠ .found i ∧
      (q.next (.kvsGetDeviceUtilization k) r).stage ≠ .proven i := by
  simp only [next]
  split_ifs
  · exact ⟨rfl, Stage.noConfusion, fun h => hk (Stage.proven.inj h)⟩
  · exact ⟨Function.update_of_ne hk.symm _ _, Stage.noConfusion, Stage.noConfusion⟩
  · exact ⟨Function.update_of_ne hk.symm _ _, Stage.noConfusion, Stage.noConfusion⟩

end ProbePhase

/-! ### The promises of all threads -/

/-- The phases of the probe and of the other threads. -/
@[reducible] def CrewPhase (κ : Type) : Option κ → Type
  | none => ProbePhase
  | some _ => Events

/-- What the threads of an engine with `n` devices promise. -/
def crewDiscipline (κ : Type) (n : ℕ) :
    Discipline (Option κ) Task Act Act.Resp Outcome (CrewPhase κ) where
  first
    | none => .first
    | some _ => []
  enter
    | none, _, q => q
    | some _, _, _ => []
  ok
    | none, _, q => q.Ok
    | some _, t, ev => Allowed n t ev
  answers _ _ := Answered n
  next
    | none, q, a, answer => q.next a answer
    | some _, ev, a, answer => ⟨a, answer⟩ :: ev
  ends
    | none, _, q, o => o = .swept q.counts ∧ q.stage = .between
    | some _, t, ev, o => t.Accounts ev o
  leave
    | none, q => q
    | some _, _ => []
  rests
    | none, last, q => recoveryCountsOf last = q.counts ∧ q.stage = .between
    | some _, _, ev => ev = []

section programs

variable {κ : Type} {n : ℕ} {t : Task}

theorem probeDevice_follows (counts : ℕ → UInt32) (i : ℕ) :
    (probeDevice counts i).Follows ((crewDiscipline κ n).protocol none t)
      (fun q r => q = ⟨r, .between⟩) (⟨counts, .between⟩ : ProbePhase) := by
  refine ⟨.look i rfl, fun healthy _ => ?_⟩
  cases healthy with
  | true => exact rfl
  | false =>
      refine ⟨.query i rfl, fun r _ => ?_⟩
      show Prog.Follows _ _ (if r = .success then _ else _)
        (if r = .success then if recoveryThreshold ≤ counts i + 1 then _ else _ else _)
      by_cases hr : r = .success
      · rw [if_pos hr, if_pos hr]
        split
        · exact ⟨.mark i rfl, fun _ _ => ⟨.clear i rfl, fun _ _ => rfl⟩⟩
        · exact rfl
      · rw [if_neg hr, if_neg hr]
        exact rfl

theorem probeSweepFrom_follows (i turns : ℕ) (counts : ℕ → UInt32) :
    (probeSweepFrom i turns counts).Follows ((crewDiscipline κ n).protocol none t)
      (fun q r => q = ⟨r, .between⟩) (⟨counts, .between⟩ : ProbePhase) := by
  induction turns generalizing i counts with
  | zero => exact rfl
  | succ turns ih =>
      refine ⟨.bound rfl, fun m _ => ?_⟩
      show Prog.Follows _ _ (if _ then _ else _) _
      split
      · refine (probeDevice_follows counts i).bind fun q counts' hq => ?_
        subst hq
        exact ih (i + 1) counts'
      · exact rfl

/-- Every thread keeps its promises. -/
theorem crewDiscipline_lawful (κ : Type) (hn : 0 < n) : (crewDiscipline κ n).Lawful crewProg where
  starts
    | none => ⟨rfl, rfl⟩
    | some _ => rfl
  follows
    | none, t, last, q, hq => by
        obtain ⟨counts, stage⟩ := q
        obtain ⟨rfl, rfl⟩ : recoveryCountsOf last = counts ∧ stage = .between := hq
        refine (probeSweepFrom_follows 0 kvMaxDevices _).bind fun q counts hq => ?_
        subst hq
        exact ⟨rfl, rfl⟩
    | some _, t, _, _, _ => task_follows hn t
  rests
    | none, _, _, _, h => ⟨by rw [h.1]; rfl, h.2⟩
    | some _, _, _, _, _ => rfl

end programs

/-! ### The phases in the log -/

namespace History

variable {κ δ : Type}

/-- The phase of the probe. -/
def probe : History κ δ → ProbePhase
  | [] => .first
  | .acted none _ a answer :: log => (probe log).next a answer
  | .acted (some _) _ _ _ :: log => probe log
  | .began _ _ :: log => probe log
  | .ended _ _ _ :: log => probe log

variable [DecidableEq κ]

theorem phase_none (n : ℕ) (log : History κ δ) :
    (crewDiscipline κ n).phase none log = probe log := by
  induction log with
  | nil => rfl
  | cons e log ih =>
      cases e with
      | began who t =>
          cases who with
          | none => exact (if_pos rfl).trans ih
          | some j => exact (if_neg (by simp)).trans ih
      | acted who before a answer =>
          cases who with
          | none => exact (if_pos rfl).trans (congrArg (ProbePhase.next · a answer) ih)
          | some j => exact (if_neg (by simp)).trans ih
      | ended who t o =>
          cases who with
          | none => exact (if_pos rfl).trans ih
          | some j => exact (if_neg (by simp)).trans ih

theorem phase_some (n : ℕ) (j : κ) (log : History κ δ) :
    (crewDiscipline κ n).phase (some j) log = Log.own (some j) log := by
  induction log with
  | nil => rfl
  | cons e log ih =>
      cases e with
      | began who t => exact if_congr Iff.rfl rfl ih
      | acted who before a answer =>
          have hnext : (crewDiscipline κ n).next (some j)
              ((crewDiscipline κ n).phase (some j) log) a answer =
              ⟨a, answer⟩ :: Log.own (some j) log := by
            rw [ih]
            rfl
          exact if_congr Iff.rfl hnext ih
      | ended who t o => exact if_congr Iff.rfl rfl ih

end History

/-! ### What a client does to a device -/

/-- The actions of a running engine that do not write to the device slot `i`. -/
def Act.Away (i : ℕ) : Act → Prop
  | .fetchAddTotalOps j => j ≠ i
  | .fetchAddTotalErrors j => j ≠ i
  | .fetchAddConsecutiveErrors j => j ≠ i
  | .storeConsecutiveErrors j _ => j ≠ i
  | .storeHealthy j _ => j ≠ i
  | .loadTotalErrors _ => True
  | .loadTotalOps _ => True
  | .kvsStoreKvp _ _ _ _ => True
  | .kvsRetrieveKvp _ _ _ _ _ => True
  | .kvsDeleteKvp _ _ _ => True
  | .kvsExistKvPairs _ _ => True
  | .kvsGetDeviceUtilization _ => True
  | .updateStats _ => True
  | .resetStats => True
  | a => a.Neutral

/-- What an action of a client can be for the device slot `i`. -/
inductive Touch (t : Task) (ev : Events) (i : ℕ) : Act → Prop where
  | ops : Touch t ev i (.fetchAddTotalOps i)
  | errors (h : ∃ answer rest, ev = ⟨.fetchAddTotalOps i, answer⟩ :: rest) :
      Touch t ev i (.fetchAddTotalErrors i)
  | consecutive (h : ∃ answer rest, ev = ⟨.fetchAddTotalErrors i, answer⟩ :: rest) :
      Touch t ev i (.fetchAddConsecutiveErrors i)
  | reset : Touch t ev i (.storeConsecutiveErrors i 0)
  | condemn (h : Condemns t ev i) : Touch t ev i (.storeHealthy i false)
  | away {a : Act} (h : a.Away i) : Touch t ev i a

theorem Allowed.touch {n : ℕ} {t : Task} {ev : Events} {a : Act} (h : Allowed n t ev a) (i : ℕ) :
    Touch t ev i a := by
  cases a with
  | fetchAddTotalOps j =>
      by_cases hj : j = i
      · subst hj
        exact .ops
      · exact .away hj
  | fetchAddTotalErrors j =>
      by_cases hj : j = i
      · subst hj
        exact .errors h
      · exact .away hj
  | fetchAddConsecutiveErrors j =>
      by_cases hj : j = i
      · subst hj
        exact .consecutive h
      · exact .away hj
  | storeConsecutiveErrors j v =>
      by_cases hj : j = i
      · subst hj
        obtain rfl : v = 0 := h
        exact .reset
      · exact .away hj
  | storeHealthy j b =>
      by_cases hj : j = i
      · subst hj
        obtain ⟨rfl, hcondemns⟩ := h
        exact .condemn hcondemns
      · exact .away hj
  | _ => first | exact .away trivial | exact h.elim


/-! ### What the actions leave alone -/

section frames

variable {δ : Type} {D : Driver δ} {i : ℕ}

theorem Act.Away.exec {a : Act} (h : a.Away i) (s : State δ) :
    (KvEngine.exec D a s).2.devices i = s.devices i ∧
      (KvEngine.exec D a s).2.numDevices = s.numDevices := by
  by_cases hcommand : a.isCommand = true
  · obtain ⟨ssd, heq⟩ := exec_command (D := D) hcommand s
    rw [heq]
    exact ⟨rfl, rfl⟩
  cases a with
  | fetchAddTotalOps j => exact ⟨Function.update_of_ne h.symm _ _, rfl⟩
  | fetchAddTotalErrors j => exact ⟨Function.update_of_ne h.symm _ _, rfl⟩
  | fetchAddConsecutiveErrors j => exact ⟨Function.update_of_ne h.symm _ _, rfl⟩
  | storeConsecutiveErrors j v => exact ⟨Function.update_of_ne h.symm _ _, rfl⟩
  | storeHealthy j b => exact ⟨Function.update_of_ne h.symm _ _, rfl⟩
  | keyTableAdd key =>
      show (s.addTableKey key).devices i = _ ∧ (s.addTableKey key).numDevices = _
      unfold State.addTableKey
      split <;> exact ⟨rfl, rfl⟩
  | dmaPoolAcquire =>
      simp only [KvEngine.exec]
      split <;> exact ⟨rfl, rfl⟩
  | _ => first | exact absurd rfl hcommand | exact ⟨rfl, rfl⟩ | exact h.elim

theorem Touch.numDevices {t : Task} {ev : Events} {a : Act} (h : Touch t ev i a) (s : State δ) :
    (exec D a s).2.numDevices = s.numDevices := by
  cases h with
  | away h => exact (h.exec s).2
  | _ => rfl

theorem ProbePhase.Ok.numDevices {q : ProbePhase} {a : Act} (h : q.Ok a) (s : State δ) :
    (exec D a s).2.numDevices = s.numDevices := by
  cases h with
  | query j h =>
      have haway : (Act.kvsGetDeviceUtilization j).Away 0 := trivial
      exact (haway.exec s).2
  | _ => rfl

end frames

/-! ### The rule for one move -/

namespace Crew

variable {κ δ : Type} [DecidableEq κ] {D : Driver δ} {n : ℕ} {σ : Crew κ δ}

/-- The engine has `n` devices, and every thread is in the task and in the phase that the log
tells. -/
structure Tracked (n : ℕ) (σ : Crew κ δ) : Prop where
  numDevices : σ.shared.numDevices = n
  logged : Sessions.Logged σ
  sessions : Sessions.Tracked (crewDiscipline κ n) σ

theorem tracked_start {s : State δ} (hn : 0 < s.numDevices) :
    Tracked s.numDevices (Sessions.start s : Crew κ δ) :=
  ⟨rfl, Sessions.logged_start s, Sessions.tracked_start (crewDiscipline_lawful κ hn) s⟩

/-- In the middle of its loop the probe is about to perform an action. -/
theorem Tracked.probe_ok (h : Tracked n σ) (hstage : (History.probe σ.log).stage ≠ .between) :
    ∃ a, σ.nextAct none = some a ∧ (History.probe σ.log).Ok a := by
  cases hsession : σ.session none with
  | idle last =>
      have hrests := h.sessions.idle hsession
      rw [History.phase_none] at hrests
      exact absurd hrests.2 hstage
  | busy t p =>
      have hfollows := h.sessions.busy hsession
      rw [History.phase_none] at hfollows
      cases p with
      | ret o => exact absurd hfollows.2 hstage
      | act a k =>
          refine ⟨a, ?_, hfollows.1⟩
          simp only [Sessions.nextAct, hsession, Prog.head?_act]

theorem Tracked.nextAct_proven {i : ℕ} (h : Tracked n σ)
    (hstage : (History.probe σ.log).stage = .proven i) :
    σ.nextAct none = some (.storeHealthy i true) := by
  obtain ⟨a, ha, hok⟩ := h.probe_ok (by rw [hstage]; exact Stage.noConfusion)
  cases hok <;> simp_all

theorem Tracked.nextAct_clearing {i : ℕ} (h : Tracked n σ)
    (hstage : (History.probe σ.log).stage = .clearing i) :
    σ.nextAct none = some (.storeConsecutiveErrors i 0) := by
  obtain ⟨a, ha, hok⟩ := h.probe_ok (by rw [hstage]; exact Stage.noConfusion)
  cases hok <;> simp_all

/-- What a thread has done when it returns. -/
def Returns (log : History κ δ) : Option κ → Task → Outcome → Prop
  | none, _, o => ∃ recoveryCounts, o = .swept recoveryCounts
  | some j, t, o => t.Accounts (log.own (some j)) o

theorem answered {a : Act} {s : State δ} (hs : s.numDevices = n) : Answered n a (exec D a s).1 := by
  cases a with
  | loadNumDevices => exact hs
  | _ => exact trivial

/-- What a move can be.  An invariant of the state and the log is kept if it is kept by the start
of a task, by an action that its task allows, by an action of the probe and by a return. -/
theorem Tracked.next (Inv : State δ → History κ δ → Prop) (hn : 0 < n) (h : Tracked n σ)
    (hinv : Inv σ.shared σ.log) (m : Move (Option κ) Task)
    (hbegan : ∀ who t, m = .invoke who t → Inv σ.shared (.began who t :: σ.log))
    (hclient : ∀ j t a k, m = .step (some j) → σ.session (some j) = .busy t (.act a k) →
      Allowed n t (σ.log.own (some j)) a → Inv (exec D a σ.shared).2
        (.acted (some j) σ.shared a (exec D a σ.shared).1 :: σ.log))
    (hprobe : ∀ t a k, m = .step none → σ.session none = .busy t (.act a k) →
      (History.probe σ.log).Ok a → Inv (exec D a σ.shared).2
        (.acted none σ.shared a (exec D a σ.shared).1 :: σ.log))
    (hended : ∀ who t o, m = .step who → σ.session who = .busy t (.ret o) →
      Returns σ.log who t o → Inv σ.shared (.ended who t o :: σ.log)) :
    Tracked n (σ.next D m).2 ∧ Inv (σ.next D m).2.shared (σ.next D m).2.log := by
  suffices hnext : Sessions.Tracked (crewDiscipline κ n) (σ.next D m).2 ∧
      (σ.next D m).2.shared.numDevices = n ∧ Inv (σ.next D m).2.shared (σ.next D m).2.log from
    ⟨⟨hnext.2.1, h.logged.next m, hnext.1⟩, hnext.2.2⟩
  refine Sessions.Tracked.next (fun s log => s.numDevices = n ∧ Inv s log)
    (crewDiscipline_lawful κ hn) h.sessions ⟨h.numDevices, hinv⟩ m
    (fun who t _ hm _ => ⟨h.numDevices, hbegan who t hm⟩) ?_ ?_
  · intro who t a k hm hsession hok
    refine ⟨answered h.numDevices, ?_⟩
    cases who with
    | none =>
        have hok' : (History.probe σ.log).Ok a := by
          rw [← History.phase_none n]
          exact hok
        exact ⟨(hok'.numDevices _).trans h.numDevices, hprobe t a k hm hsession hok'⟩
    | some j =>
        have hok' : Allowed n t (σ.log.own (some j)) a := by
          rw [← History.phase_some n]
          exact hok
        exact ⟨((hok'.touch 0).numDevices _).trans h.numDevices, hclient j t a k hm hsession hok'⟩
  · intro who t o hm hsession hends
    refine ⟨h.numDevices, hended who t o hm hsession ?_⟩
    cases who with
    | none => exact ⟨_, hends.1⟩
    | some j =>
        show t.Accounts (σ.log.own (some j)) o
        rw [← History.phase_some n]
        exact hends

end Crew

/-! ### Runs of two clients and the probe -/

/-- Devices that answer every delete with `r`. -/
def failingDeletes (r : KvsResult) : Driver KeySpace :=
  { keySpaceDriver with deleteKvp := fun d _ _ => (r, d) }

/-- A thread takes `n` steps. -/
def stepping (who : Option (Fin 2)) (n : ℕ) : List (Move (Option (Fin 2)) Task) :=
  List.replicate n (.step who)

/-- A client starts to delete a key of the device 1 and takes `n` steps. -/
def deleting (j : Fin 2) (n : ℕ) : List (Move (Option (Fin 2)) Task) :=
  .invoke (some j) (.call (.delete (some [107, 101, 121, 49]))) :: stepping (some j) n

/-- The probe starts a sweep and takes `n` steps. -/
def sweeping (n : ℕ) : List (Move (Option (Fin 2)) Task) :=
  .invoke none .healthyDeviceCount :: stepping none n

end KvEngine
