import KvEngine.Progress
import KvEngine.Slots

/-! # Recovery of a device

Infinite runs of the growing engine of `Slots.lean`, in which the probe of `kv_engine_health.c`
sweeps again and again.  `Health.lean` says what has to happen before the probe marks a device
healthy; here is the converse, `device_recovers`: a device whose utilization can be queried is
marked healthy, however the sweep is interleaved with the calls that use the device, with those
that mark it unhealthy and with `kv_engine_add_device`.

A sweep that finds the device unhealthy and the query successful either marks the device or counts
one more success (`probeSweep_achieves`), and the counter reaches the threshold after finitely many
of them.  That the sweep gets as far as the device rests on the length of the table: it never gets
shorter (`Growing.numDevices_le_next`). -/

namespace KvEngine

open Atomic Machine

/-! ### One sweep -/

section sweep

variable {i : ℕ}

/-- The answers a sweep gets while the device of slot `i` is in the table and unhealthy, and can be
queried. -/
def SickAnswers (i : ℕ) : (a : Act) → a.Resp → Prop
  | .loadNumDevices, n => i < n
  | .loadHealthy j, healthy => j = i → healthy = false
  | .kvsGetDeviceUtilization j, r => j = i → r = .success
  | _, _ => True

/-- One more success has been counted, and the threshold has not been reached. -/
def CountedOn (i : ℕ) (counts counts' : ℕ → UInt32) : Prop :=
  counts' i = counts i + 1 ∧ counts i + 1 < recoveryThreshold

/-- The other turns of the loop leave the counter alone. -/
theorem probeDevice_counts_of_ne {j : ℕ} (hj : i ≠ j) (counts : ℕ → UInt32) :
    (probeDevice counts j).Ensures fun counts' => counts' i = counts i := by
  have hother (v : UInt32) : Function.update counts j v i = counts i := by
    rw [Function.update_of_ne hj]
  intro healthy
  cases healthy with
  | true => exact rfl
  | false =>
      intro res
      show Prog.Ensures _ (if res = .success then _ else _)
      split
      · split
        · exact fun _ _ => hother 0
        · exact hother _
      · exact hother 0

theorem probeSweepFrom_counts_of_lt {j : ℕ} (hj : i < j) (turns : ℕ) (counts : ℕ → UInt32) :
    (probeSweepFrom j turns counts).Ensures fun counts' => counts' i = counts i := by
  induction turns generalizing j counts with
  | zero => exact rfl
  | succ turns ih =>
      intro n
      show Prog.Ensures _ (if j < n then _ else _)
      split
      · refine (probeDevice_counts_of_ne (Nat.ne_of_lt hj) counts).bind fun counts' hcounts => ?_
        exact (ih (Nat.lt_succ_of_lt hj) counts').mono fun _ h => h.trans hcounts
      · exact rfl

/-- The turn of the device itself: it is marked healthy, or one more success is counted. -/
theorem probeDevice_achieves (counts : ℕ → UInt32) :
    (probeDevice counts i).Achieves (· = .storeHealthy i true) (SickAnswers i)
      (CountedOn i counts) := by
  refine .inr fun healthy hhealthy => ?_
  cases hhealthy rfl
  refine .inr fun res hres => ?_
  cases hres rfl
  show Prog.Achieves _ _ _ (if recoveryThreshold ≤ counts i + 1 then _ else _)
  split
  · exact .inl rfl
  · rename_i hcount
    exact ⟨Function.update_self .., UInt32.not_le.mp hcount⟩

theorem probeSweepFrom_achieves (turns : ℕ) {j : ℕ} (hj : j ≤ i) (hturns : i < j + turns)
    (counts : ℕ → UInt32) :
    (probeSweepFrom j turns counts).Achieves (· = .storeHealthy i true) (SickAnswers i)
      (CountedOn i counts) := by
  induction turns generalizing j counts with
  | zero => exact absurd hturns (Nat.not_lt.mpr hj)
  | succ turns ih =>
      refine .inr fun n hn => ?_
      show Prog.Achieves _ _ _ (if j < n then _ else _)
      rw [if_pos (Nat.lt_of_le_of_lt hj hn)]
      rcases Nat.eq_or_lt_of_le hj with rfl | hlt
      · refine (probeDevice_achieves counts).bind fun counts' hcounts => ?_
        refine Prog.Ensures.achieves ?_
        refine (probeSweepFrom_counts_of_lt (Nat.lt_succ_self j) turns counts').mono fun _ h => ?_
        exact ⟨h.trans hcounts.1, hcounts.2⟩
      · have hother := probeDevice_counts_of_ne (Nat.ne_of_gt hlt) counts
        refine hother.achieves.bind fun counts' hcounts => ?_
        have hsame : CountedOn i counts = CountedOn i counts' := by
          unfold CountedOn
          rw [hcounts]
        rw [hsame]
        exact ih hlt (by omega) counts'

/-- What a sweep does for an unhealthy device that can be queried. -/
theorem probeSweep_achieves {κ : Type} (hi : i < kvMaxDevices) (last : Option Outcome) :
    (handProg (.probe : Hand κ) .sweep last).Achieves (· = .storeHealthy i true) (SickAnswers i)
      (fun o => CountedOn i (recoveryCountsOf last) (recoveryCountsOf (some o))) :=
  (probeSweepFrom_achieves kvMaxDevices (Nat.zero_le i) (by omega) _).bind fun _ h => h

/-- The successes that are missing, the last of which marks the device.  It counts down whatever
the counter is, since the counter wraps around. -/
def missing (i : ℕ) (last : Option Outcome) : ℕ :=
  (recoveryThreshold - 1 - recoveryCountsOf last i).toNat

theorem CountedOn.missing_lt {last : Option Outcome} {o : Outcome}
    (h : CountedOn i (recoveryCountsOf last) (recoveryCountsOf (some o))) :
    missing i (some o) < missing i last := by
  have hlt : ((recoveryCountsOf last i).toNat + 1) % 2 ^ 32 < 3 := UInt32.lt_iff_toNat_lt.mp h.2
  have hbound := (recoveryCountsOf last i).toNat_lt
  simp only [missing, h.1, recoveryThreshold, UInt32.toNat_sub, UInt32.toNat_add,
    UInt32.reduceSub, UInt32.reduceToNat]
  omega

end sweep

/-! ### The table -/

section engine

variable {κ δ : Type} [DecidableEq κ] {D : Driver δ} {start : State δ}

/-- The table never gets shorter. -/
theorem Growing.numDevices_le_next {σ : Growing κ δ}
    (htracked : Sessions.Tracked (handDiscipline κ) σ) (h : Intact start σ.shared σ.log)
    (m : Move (Hand κ) Job) : σ.shared.numDevices ≤ (σ.next D m).2.shared.numDevices := by
  have htame {a : Act} (ha : a.Tame) :
      σ.shared.numDevices ≤ (exec D a σ.shared).2.numDevices :=
    Nat.le_of_eq ((exec_tame ha σ.shared) 0).numDevices.symm
  refine (Sessions.Tracked.next (fun s _ => σ.shared.numDevices ≤ s.numDevices)
    (handDiscipline_lawful κ) htracked (Nat.le_refl _) m (fun _ _ _ _ _ => Nat.le_refl _) ?_
    fun _ _ _ _ _ _ => Nat.le_refl _).2
  intro who c a k _ _ hok
  refine ⟨trivial, ?_⟩
  cases who with
  | probe => exact htame hok.1.tame
  | client j => exact htame hok
  | adder =>
      rcases AddPhase.Ok.alikeBelow (D := D) hok h.adding with halike | ⟨n, hq, _, rfl⟩
      · exact Nat.le_of_eq halike.numDevices.symm
      · have hready : AddPhase.Holds σ.shared (.ready n) := hq ▸ h.adding
        exact Nat.le_of_eq hready.1 |>.trans (Nat.le_succ n)

/-- The engine at a time of an infinite run, after a successful `kv_engine_init`. -/
def Growing.stateAt (D : Driver δ) (config : Config) (s : State δ) (moves : ℕ → Move (Hand κ) Job) :
    ℕ → Growing κ δ :=
  Machine.stateAt (Growing.next D) (.start (run D (kvEngineInit config) s).2) moves

variable {config : Config} {s : State δ} {moves : ℕ → Move (Hand κ) Job}

theorem Growing.stateAt_intact (hinit : (run D (kvEngineInit config) s).1 = .success)
    (moves : ℕ → Move (Hand κ) Job) (t : ℕ) :
    Sessions.Tracked (handDiscipline κ) (stateAt D config s moves t) ∧
      Intact (run D (kvEngineInit config) s).2 (stateAt D config s moves t).shared
        (stateAt D config s moves t).log :=
  stateAt_invariant (fun σ => Sessions.Tracked (handDiscipline κ) σ ∧ Intact _ σ.shared σ.log)
    (fun _ m h => h.2.next h.1 m)
    ⟨Sessions.tracked_start (handDiscipline_lawful κ) _, intact_start hinit⟩ moves t

theorem Growing.numDevices_mono (hinit : (run D (kvEngineInit config) s).1 = .success) {t u : ℕ}
    (htu : t ≤ u) : (stateAt D config s moves t).shared.numDevices ≤
      (stateAt D config s moves u).shared.numDevices := by
  induction htu with
  | refl => exact Nat.le_refl _
  | @step u _ ih =>
      have hintact := stateAt_intact hinit moves u
      exact ih.trans (numDevices_le_next hintact.1 hintact.2 (moves u))

/-! ### The runs of the probe -/

/-- A query of the utilization of the device would succeed. -/
def State.Responds (D : Driver δ) (s : State δ) (i : ℕ) : Prop :=
  (exec D (.kvsGetDeviceUtilization i) s).1 = .success

/-- The probe has nothing to do for the device, or cannot do it. -/
def State.Settled (D : Driver δ) (i : ℕ) (s : State δ) : Prop :=
  (s.devices i).healthy = true ∨ ¬ s.Responds D i ∨ ¬ i < s.numDevices

theorem sickAnswers_of_not_settled {i : ℕ} {s : State δ} (h : ¬ s.Settled D i) (a : Act) :
    SickAnswers i a (exec D a s).1 := by
  unfold State.Settled at h
  push Not at h
  obtain ⟨hsick, hresponds, hlength⟩ := h
  cases a with
  | loadNumDevices => exact hlength
  | loadHealthy j =>
      rintro rfl
      exact Bool.eq_false_iff.mpr hsick
  | kvsGetDeviceUtilization j =>
      rintro rfl
      exact hresponds
  | _ => exact trivial

theorem settled_of_storeHealthy {i : ℕ} {s : State δ} {a : Act} (ha : a = .storeHealthy i true) :
    (exec D a s).2.Settled D i := by
  subst ha
  left
  simp [exec, State.setDevice]

section probe

variable {i : ℕ} (hi : i < kvMaxDevices) (hsteps : Recurs (· = .step .probe) moves)
  (hsweeps : Recurs (· = .invoke .probe .sweep) moves)
  (hprobe : ∀ t job, moves t = .invoke .probe job → job = .sweep)
include hi hsteps hsweeps hprobe

/-- From one sweep to the next a success is counted, until none is missing. -/
theorem idle_leadsTo_settled (last : Option Outcome) :
    LeadsTo (Growing.stateAt D config s moves) (fun σ => σ.session .probe = .idle last)
      (fun σ => σ.shared.Settled D i) := by
  generalize hk : missing i last = k
  induction k using Nat.strongRecOn generalizing last with
  | ind k ih =>
      have hsweep : LeadsTo (Growing.stateAt D config s moves)
          (fun σ => σ.session .probe = .idle last)
          (fun σ => σ.shared.Settled D i ∨ ∃ o, σ.session .probe = .idle (some o) ∧
            CountedOn i (recoveryCountsOf last) (recoveryCountsOf (some o))) := by
        refine Sessions.idle_leadsTo (State.Settled D i) hsteps
          (fun _ a h => sickAnswers_of_not_settled h a) (fun _ _ _ ha => settled_of_storeHealthy ha)
          (fun t => (hsweeps t).imp fun _ h => ⟨h.1, _, h.2⟩) ?_
        intro t job hm
        obtain rfl := hprobe t job hm
        exact probeSweep_achieves hi last
      refine hsweep.trans ((leadsTo_of_imp fun _ h => h).or (leadsTo_exists fun o => ?_))
      rintro t ⟨hidle, hcounted⟩
      exact ih _ (hk ▸ hcounted.missing_lt) (some o) rfl t hidle

theorem leadsTo_settled : LeadsTo (Growing.stateAt D config s moves) (fun _ => True)
    (fun σ => σ.shared.Settled D i) := by
  rintro t -
  cases hsession : (Growing.stateAt D config s moves t).session .probe with
  | idle last => exact idle_leadsTo_settled hi hsteps hsweeps hprobe last t hsession
  | busy job p =>
      -- the sweep that is going on may have passed the device already
      have hend : LeadsTo (Growing.stateAt D config s moves)
          (fun σ => ∃ c, σ.session .probe = .busy c p)
          (fun σ => σ.shared.Settled D i ∨ ∃ o, σ.session .probe = .idle (some o) ∧ True) :=
        Sessions.busy_leadsTo (State.Settled D i) hsteps
          (fun _ a h => sickAnswers_of_not_settled h a) (fun _ _ _ ha => settled_of_storeHealthy ha)
          p p.ensures_true.achieves
      refine hend.trans ((leadsTo_of_imp fun _ h => h).or (leadsTo_exists fun o => ?_)) t
        ⟨job, hsession⟩
      rintro u ⟨hidle, -⟩
      exact idle_leadsTo_settled hi hsteps hsweeps hprobe (some o) u hidle

end probe

end engine

/-- **A device that answers is taken back into service.**  After a successful `kv_engine_init`, with
a probe that is scheduled and sweeps again and again, and any moves of the thread that adds devices
and of the other threads: if from some time on the utilization of a device of the table can be
queried, the device is healthy at that time or at a later one. -/
theorem device_recovers {κ δ : Type} [DecidableEq κ] {D : Driver δ} {config : Config} {s : State δ}
    (hinit : (run D (kvEngineInit config) s).1 = .success) {moves : ℕ → Move (Hand κ) Job}
    (hsteps : Recurs (· = .step .probe) moves) (hsweeps : Recurs (· = .invoke .probe .sweep) moves)
    (hprobe : ∀ t job, moves t = .invoke .probe job → job = .sweep) {i t : ℕ}
    (hi : i < (Growing.stateAt D config s moves t).shared.numDevices)
    (hresponds : ∀ u, t ≤ u → (Growing.stateAt D config s moves u).shared.Responds D i) :
    ∃ u, t ≤ u ∧ ((Growing.stateAt D config s moves u).shared.devices i).healthy = true := by
  have hmax : i < kvMaxDevices :=
    Nat.lt_of_lt_of_le hi (Growing.stateAt_intact hinit moves t).2.table.le
  have hprogress : LeadsTo (Growing.stateAt D config s moves) (fun _ => True)
      (fun σ => σ.shared.Settled D i) := leadsTo_settled hmax hsteps hsweeps hprobe
  obtain ⟨u, htu, hsettled⟩ := hprogress t trivial
  refine ⟨u, htu, hsettled.resolve_right ?_⟩
  rintro (hsilent | hlength)
  · exact hsilent (hresponds u htu)
  · exact hlength (Nat.lt_of_lt_of_le hi (Growing.numDevices_mono hinit htu))

/-- A client and the probe take turns; the client reports again and again that the device 0 is
gone. -/
def reporting (t : ℕ) : Move (Hand Unit) Job :=
  if t % 4 = 0 then .invoke (.client ()) (.task (.record 0 .devNotExist))
  else if t % 4 = 1 then .step (.client ())
  else if t % 4 = 2 then .invoke .probe .sweep
  else .step .probe

/-- The first report marks the device, and the probe takes it back. -/
theorem device_recovers_reporting :
    let σ := Growing.stateAt keySpaceDriver twoDevices (.blank fun _ => .empty) reporting
    ((σ 14).shared.devices 0).healthy = false ∧
      ∃ u, 14 ≤ u ∧ ((σ u).shared.devices 0).healthy = true := by
  intro σ
  have hinit : (run keySpaceDriver (kvEngineInit twoDevices)
      (.blank fun _ => .empty)).1 = .success :=
    kvEngineInit_ok keySpaceDriver_faultless twoDevices_paths fun _ => rfl
  have hdevice (t : ℕ) : 0 < (σ t).shared.numDevices :=
    (Growing.stateAt_intact hinit reporting t).2.table.pos
  refine ⟨by decide +kernel, device_recovers hinit ?_ ?_ ?_ (hdevice 14) fun u _ => ?_⟩
  · exact recurs_of_period (p := 4) (by decide) 3 fun k => by simp [reporting]
  · exact recurs_of_period (p := 4) (by decide) 2 fun k => by simp [reporting]
  · intro t job hm
    unfold reporting at hm
    split_ifs at hm
    · cases hm
    · cases hm
      rfl
  · -- the table is open, and this driver answers every query
    have hopen := (Growing.stateAt_intact hinit reporting u).2.table.slot 0 (hdevice u)
    obtain ⟨path, hpath, _⟩ := hopen.handles
    simp only [State.Responds, exec, State.deviceCommand, hpath]
    rfl

end KvEngine
