import KvEngine.Crew

/-! # The health of a device

The fields `healthy` and `consecutive_errors` of a device are written by the recorders of any
number of operations and by the probe, without a lock.  This module follows them through every
interleaving.  What happened is read off the log: `faulted` is the store `healthy := false` of a
recorder, `fell` such a store to a healthy device, `marked` the store `healthy := true` of the
probe, `erred` the `fetch_add` of a device error, and `queries` the results of the probe's
utilization queries, the latest first. -/

namespace KvEngine

open Atomic

/-! ### Reading the log -/

/-- The action stores `healthy := b` in the slot `i`. -/
def Act.stores (i : ℕ) (b : Bool) : Act → Bool
  | .storeHealthy j c => j == i && c == b
  | _ => false

/-- The action stores to `consecutive_errors` of the slot `i`. -/
def Act.clears (i : ℕ) : Act → Bool
  | .storeConsecutiveErrors j _ => j == i
  | _ => false

/-- The action counts a device error of the slot `i`. -/
def Act.errs (i : ℕ) : Act → Bool
  | .fetchAddConsecutiveErrors j => j == i
  | _ => false

namespace History

variable {κ δ : Type} (i : ℕ)

/-- A recorder stores `healthy := false`. -/
def faulted : Entry κ δ → Bool
  | .acted (some _) _ a _ => a.stores i false
  | _ => false

/-- The device goes from healthy to unhealthy. -/
def fell : Entry κ δ → Bool
  | .acted _ before a _ => (before.devices i).healthy && a.stores i false
  | _ => false

/-- The probe stores `healthy := true`. -/
def marked : Entry κ δ → Bool
  | .acted none _ a _ => a.stores i true
  | _ => false

/-- A recorder counts a device error. -/
def erred : Entry κ δ → Bool
  | .acted (some _) _ a _ => a.errs i
  | _ => false

/-- The result of a query of the probe. -/
def queried : Entry κ δ → Option KvsResult
  | .acted none _ (.kvsGetDeviceUtilization j) r => if j = i then some r else none
  | _ => none

/-- The results of the queries of the probe, the latest first. -/
def queries (log : History κ δ) : List KvsResult := log.filterMap (queried i)

variable {i}

theorem queries_cons_none {e : Entry κ δ} (h : queried i e = none) (log : History κ δ) :
    queries i (e :: log) = queries i log := List.filterMap_cons_none h

theorem queries_cons_some {e : Entry κ δ} {r : KvsResult} (h : queried i e = some r)
    (log : History κ δ) : queries i (e :: log) = r :: queries i log := List.filterMap_cons_some h

/-- The queries since an entry are the latest ones. -/
theorem queries_since (p : Entry κ δ → Bool) (log : History κ δ) :
    queries i (Log.since p log) <+: queries i log :=
  (List.takeWhile_prefix _).filterMap _

/-- An entry that is no query and does not satisfy `p` does not change the queries since `p`. -/
theorem queries_since_cons {p : Entry κ δ → Bool} {e : Entry κ δ} (hp : p e = false)
    (hq : queried i e = none) (log : History κ δ) :
    queries i (Log.since p (e :: log)) = queries i (Log.since p log) := by
  rw [Log.since_cons_neg hp, queries_cons_none hq]

end History

section away

variable {i : ℕ} {a : Act}

theorem Act.Away.stores (h : a.Away i) (b : Bool) : a.stores i b = false := by
  cases a with
  | storeHealthy j c =>
      have hj : (j == i) = false := beq_false_of_ne h
      simp only [Act.stores, hj, Bool.false_and]
  | _ => rfl

/-- No client makes a device healthy. -/
theorem Touch.healthy {δ : Type} {D : Driver δ} {t : Task} {ev : Events} (h : Touch t ev i a)
    (s : State δ) : ((exec D a s).2.devices i).healthy =
      ((s.devices i).healthy && !a.stores i false) := by
  cases h with
  | condemn _ => simp [exec, Act.stores]
  | away haway => rw [(haway.exec s).1, haway.stores, Bool.not_false, Bool.and_true]
  | _ => simp [exec, Act.stores]

/-- No step of the probe makes a device unhealthy. -/
theorem ProbePhase.Ok.healthy {δ : Type} {D : Driver δ} {q : ProbePhase} (h : q.Ok a)
    (s : State δ) : ((exec D a s).2.devices i).healthy =
      ((s.devices i).healthy || a.stores i true) := by
  cases h with
  | query k _ =>
      have haway : (Act.kvsGetDeviceUtilization k).Away i := trivial
      rw [(haway.exec s).1, haway.stores, Bool.or_false]
  | mark k _ =>
      by_cases hk : k = i
      · subst hk
        simp [exec, Act.stores]
      · have haway : (Act.storeHealthy k true).Away i := hk
        rw [(haway.exec s).1, haway.stores, Bool.or_false]
  | clear k _ =>
      by_cases hk : k = i
      · subst hk
        simp [exec, Act.stores]
      · have haway : (Act.storeConsecutiveErrors k 0).Away i := hk
        rw [(haway.exec s).1, haway.stores, Bool.or_false]
  | _ => exact (Bool.or_false _).symm

/-- The probe marks a device when it has proven it. -/
theorem ProbePhase.Ok.stage_of_stores {q : ProbePhase} {b : Bool} (h : q.Ok a)
    (hstores : a.stores i b = true) : a = .storeHealthy i true ∧ q.stage = .proven i := by
  cases h with
  | mark k hstage =>
      simp only [Act.stores, Bool.and_eq_true, beq_iff_eq] at hstores
      obtain ⟨rfl, -⟩ := hstores
      exact ⟨rfl, hstage⟩
  | _ => cases hstores

end away

section recovery

open History

variable {κ δ : Type} {D : Driver δ} {i : ℕ} {s s' : State δ} {log : History κ δ} {e : Entry κ δ}

/-! ### A full streak of good queries -/

/-- The recovery counter of the device `i`, the place of the probe in its loop and the results of
the queries since the device fell, the latest first.  While the device is unhealthy, the counter
counts the latest results, which were all successful; for a healthy device it is zero. -/
structure Streak (i : ℕ) (count : UInt32) (stage : Stage) (healthy : Bool)
    (results : List KvsResult) : Prop where
  small : count < recoveryThreshold
  atRest : healthy = true → count = 0 ∧ stage ≠ .found i ∧ stage ≠ .proven i
  counted : List.replicate count.toNat .success <+: results
  proven : stage = .proven i → List.replicate recoveryThreshold.toNat .success <+: results

namespace Streak

variable {count : UInt32} {stage stage' : Stage} {healthy : Bool} {results : List KvsResult}

/-- The device is marked unhealthy, again or for the first time. -/
theorem unhealthy (h : Streak i count stage healthy results) : Streak i count stage false results :=
  ⟨h.small, fun hfalse => (Bool.false_ne_true hfalse).elim, h.counted, h.proven⟩

/-- The device falls, and the queries made before do not count any more. -/
theorem fall (h : Streak i count stage true results) : Streak i count stage false [] := by
  obtain ⟨hcount, -, hproven⟩ := h.atRest rfl
  refine ⟨h.small, fun hfalse => (Bool.false_ne_true hfalse).elim, ?_, fun hp => absurd hp hproven⟩
  rw [hcount]
  exact List.nil_prefix

/-- The probe goes on, but neither finds the device unhealthy nor proves it. -/
theorem move (h : Streak i count stage healthy results) (hfound : stage' ≠ .found i)
    (hproven : stage' ≠ .proven i) : Streak i count stage' healthy results :=
  ⟨h.small, fun hhealthy => ⟨(h.atRest hhealthy).1, hfound, hproven⟩, h.counted,
    fun hp => absurd hp hproven⟩

/-- The probe finds the device unhealthy. -/
theorem found (h : Streak i count stage false results) : Streak i count (.found i) false results :=
  ⟨h.small, fun hfalse => (Bool.false_ne_true hfalse).elim, h.counted, fun hp => by cases hp⟩

/-- The counter is zero at the start, after a failed query and when the device is marked. -/
theorem zero (healthy : Bool) (results : List KvsResult) (hfound : stage ≠ .found i)
    (hproven : stage ≠ .proven i) : Streak i 0 stage healthy results :=
  ⟨by decide, fun _ => ⟨rfl, hfound, hproven⟩, List.nil_prefix, fun hp => absurd hp hproven⟩

theorem count_succ (h : Streak i count stage healthy results) :
    count.toNat < 3 ∧ (count + 1).toNat = count.toNat + 1 := by
  have hlt : count.toNat < 3 := UInt32.lt_iff_toNat_lt.mp h.small
  refine ⟨hlt, ?_⟩
  rw [UInt32.toNat_add]
  show (count.toNat + 1) % 2 ^ 32 = _
  exact Nat.mod_eq_of_lt (by omega)

/-- A good query makes the streak longer. -/
theorem longer (h : Streak i count stage healthy results) :
    List.replicate (count.toNat + 1) .success <+: .success :: results := by
  rw [List.replicate_succ]
  exact (List.prefix_cons_inj _).mpr h.counted

/-- A good query that is not the last one needed. -/
theorem goodQuery (h : Streak i count stage false results)
    (hless : ¬ recoveryThreshold ≤ count + 1) :
    Streak i (count + 1) .between false (.success :: results) := by
  refine ⟨UInt32.not_le.mp hless, fun hfalse => (Bool.false_ne_true hfalse).elim, ?_,
    fun hp => by cases hp⟩
  rw [h.count_succ.2]
  exact h.longer

/-- The last good query needed. -/
theorem lastQuery (h : Streak i count stage false results)
    (henough : recoveryThreshold ≤ count + 1) :
    Streak i count (.proven i) false (.success :: results) := by
  have hle : 3 ≤ (count + 1).toNat := UInt32.le_iff_toNat_le.mp henough
  obtain ⟨hlt, hsucc⟩ := h.count_succ
  refine ⟨h.small, fun hfalse => (Bool.false_ne_true hfalse).elim, ?_, fun _ => ?_⟩
  · refine List.IsPrefix.trans ?_ h.longer
    rw [List.replicate_succ']
    exact List.prefix_append _ _
  · have hthree : recoveryThreshold.toNat = count.toNat + 1 := by
      show 3 = _
      omega
    rw [hthree]
    exact h.longer

end Streak

/-- The streak of the device in the log. -/
def Recovering (i : ℕ) (s : State δ) (log : History κ δ) : Prop :=
  Streak i ((probe log).counts i) (probe log).stage (s.devices i).healthy
    (queries i (log.since (fell i)))

/-- An entry that is neither a query of the device nor its fall. -/
theorem Recovering.cons {healthy : Bool} (hs : (s'.devices i).healthy = healthy)
    (hfell : fell i e = false) (hquery : queried i e = none)
    (h : Streak i ((probe (e :: log)).counts i) (probe (e :: log)).stage healthy
      (queries i (log.since (fell i)))) :
    Recovering i s' (e :: log) := by
  unfold Recovering
  rw [hs, queries_since_cons hfell hquery]
  exact h

/-- A step of a recorder. -/
theorem Recovering.client {t : Task} {ev : Events} {j : κ} {a : Act} (h : Recovering i s log)
    (htouch : Touch t ev i a) (answer : a.Resp) :
    Recovering i (exec D a s).2 (.acted (some j) s a answer :: log) := by
  have hs := htouch.healthy (D := D) s
  cases hstores : a.stores i false with
  | false =>
      rw [hstores, Bool.not_false, Bool.and_true] at hs
      refine .cons hs ?_ rfl h
      simp only [fell, hstores, Bool.and_false]
  | true =>
      rw [hstores, Bool.not_true, Bool.and_false] at hs
      cases hhealthy : (s.devices i).healthy with
      | true =>
          have hfell : fell i (.acted (some j) s a answer : Entry κ δ) = true := by
            simp only [fell, hstores, hhealthy, Bool.and_self]
          unfold Recovering at h ⊢
          rw [hhealthy] at h
          rw [hs, Log.since_cons_pos hfell]
          exact h.fall
      | false =>
          refine .cons hs ?_ rfl h.unhealthy
          simp only [fell, hhealthy, Bool.false_and]

/-- A query of the device, whatever its result. -/
theorem Recovering.query (h : Recovering i s log) (hstage : (probe log).stage = .found i)
    (hs : (s'.devices i).healthy = (s.devices i).healthy) (r : KvsResult) :
    Recovering i s' (.acted none s (.kvsGetDeviceUtilization i) r :: log) := by
  have hdown : (s.devices i).healthy = false := by
    by_contra hup
    exact (h.atRest (Bool.eq_true_of_not_eq_false hup)).2.1 hstage
  have hquery : queried i (.acted none s (.kvsGetDeviceUtilization i) r : Entry κ δ) = some r :=
    if_pos rfl
  have hresults : queries i (Log.since (fell i)
      (.acted none s (.kvsGetDeviceUtilization i) r :: log : History κ δ)) =
      r :: queries i (log.since (fell i)) := by
    rw [Log.since_cons_neg (Bool.and_false _), queries_cons_some hquery]
  have hprobe : probe (.acted none s (.kvsGetDeviceUtilization i) r :: log) =
      if r = .success then
        if recoveryThreshold ≤ (probe log).counts i + 1 then ⟨(probe log).counts, .proven i⟩
        else ⟨Function.update (probe log).counts i ((probe log).counts i + 1), .between⟩
      else ⟨Function.update (probe log).counts i 0, .between⟩ := rfl
  unfold Recovering at h ⊢
  rw [hdown] at h hs
  rw [hs, hresults, hprobe]
  split_ifs with hr henough
  · rw [hr]
    exact h.lastQuery henough
  · rw [hr]
    simp only [Function.update_self]
    exact h.goodQuery henough
  · simp only [Function.update_self]
    exact .zero _ _ Stage.noConfusion Stage.noConfusion

/-- A step of the probe. -/
theorem Recovering.probing {a : Act} (h : Recovering i s log) (hok : (probe log).Ok a) :
    Recovering i (exec D a s).2 (.acted none s a (exec D a s).1 :: log) := by
  cases hok with
  | bound _ => exact .cons rfl (Bool.and_false _) rfl h
  | look k _ =>
      refine .cons rfl (Bool.and_false _) rfl ?_
      have hprobe : probe (.acted none s (.loadHealthy k) (s.devices k).healthy :: log) =
          if (s.devices k).healthy then probe log
          else ⟨(probe log).counts, .found k⟩ := rfl
      unfold Recovering at h
      rw [show (exec D (.loadHealthy k) s).1 = (s.devices k).healthy from rfl, hprobe]
      split_ifs with hk
      · exact h
      · by_cases hki : k = i
        · subst hki
          have hdown : (s.devices k).healthy = false := Bool.eq_false_of_not_eq_true hk
          show Streak k _ _ (s.devices k).healthy _
          rw [hdown] at h ⊢
          exact h.found
        · exact h.move (fun hf => hki (Stage.found.inj hf)) Stage.noConfusion
  | query k hstage =>
      have haway : (Act.kvsGetDeviceUtilization k).Away i := trivial
      have hs := congrArg DeviceCtx.healthy (haway.exec (D := D) s).1
      by_cases hk : k = i
      · subst hk
        exact h.query hstage hs _
      · refine .cons hs (Bool.and_false _) (if_neg hk) ?_
        obtain ⟨hcount, hfound, hproven⟩ :=
          (probe log).next_query_of_ne hk (exec D (.kvsGetDeviceUtilization k) s).1
        show Streak i (((probe log).next _ _).counts i) _ _ _
        rw [hcount]
        exact Streak.move h hfound hproven
  | mark k hstage =>
      by_cases hk : k = i
      · subst hk
        refine .cons rfl ?_ rfl ?_
        · simp [fell, Act.stores]
        · show Streak k (Function.update (probe log).counts k 0 k) _ _ _
          rw [Function.update_self]
          exact .zero _ _ Stage.noConfusion Stage.noConfusion
      · have haway : (Act.storeHealthy k true).Away i := hk
        refine .cons (congrArg DeviceCtx.healthy (haway.exec s).1) ?_ rfl ?_
        · simp only [fell, haway.stores, Bool.and_false]
        · show Streak i (Function.update (probe log).counts k 0 i) _ _ _
          rw [Function.update_of_ne (Ne.symm hk)]
          exact Streak.move h Stage.noConfusion Stage.noConfusion
  | clear k _ =>
      refine .cons ?_ (Bool.and_false _) rfl (Streak.move h Stage.noConfusion Stage.noConfusion)
      by_cases hk : k = i
      · subst hk
        simp [exec]
      · have haway : (Act.storeConsecutiveErrors k 0).Away i := hk
        exact congrArg DeviceCtx.healthy (haway.exec s).1

/-- What the probe knows when it marks a device: its latest `recovery_threshold` queries all
succeeded, and they were all made since the device fell. -/
def Earned (i : ℕ) (e : Entry κ δ) (earlier : History κ δ) : Prop :=
  marked i e = true →
    (queries i earlier).take recoveryThreshold.toNat =
        List.replicate recoveryThreshold.toNat .success ∧
      recoveryThreshold.toNat ≤ (queries i (earlier.since (fell i))).length

theorem Recovering.earned {a : Act} (h : Recovering i s log) (hok : (probe log).Ok a)
    (answer : a.Resp) : Earned i (.acted none s a answer) log := by
  intro hmarked
  have hrecent := h.proven (hok.stage_of_stores hmarked).2
  have hall := hrecent.trans (queries_since (fell i) log)
  constructor
  · rw [List.prefix_iff_eq_take, List.length_replicate] at hall
    exact hall.symm
  · simpa using hrecent.length_le

variable [DecidableEq κ] {n : ℕ} {σ : Crew κ δ}

/-- One move keeps the streak and marks no device that has not earned it. -/
theorem Recovering.next (hn : 0 < n) (htracked : Crew.Tracked n σ)
    (h : Recovering i σ.shared σ.log ∧ σ.log.Each (Earned i)) (m : Move (Option κ) Task) :
    Crew.Tracked n (σ.next D m).2 ∧ Recovering i (σ.next D m).2.shared (σ.next D m).2.log ∧
      (σ.next D m).2.log.Each (Earned i) := by
  obtain ⟨hrec, hearned⟩ := h
  refine htracked.next (fun s log => Recovering i s log ∧ log.Each (Earned i)) hn ⟨hrec, hearned⟩ m
    ?_ ?_ ?_ ?_
  · intro who t _
    exact ⟨.cons rfl rfl rfl hrec, hearned.cons fun hmarked => by cases hmarked⟩
  · intro j t a k _ _ hallowed
    exact ⟨hrec.client (hallowed.touch i) _, hearned.cons fun hmarked => by cases hmarked⟩
  · intro t a k _ _ hok
    exact ⟨hrec.probing hok, hearned.cons (hrec.earned hok _)⟩
  · intro who t o _ _ _
    exact ⟨.cons rfl rfl rfl hrec, hearned.cons fun hmarked => by cases hmarked⟩

/-- A device becomes healthy only when the probe marks it. -/
theorem healthy_next (hn : 0 < n) (htracked : Crew.Tracked n σ)
    (hdown : (σ.shared.devices i).healthy = false) (m : Move (Option κ) Task)
    (hup : ((σ.next D m).2.shared.devices i).healthy = true) :
    m = .step none ∧ σ.nextAct none = some (.storeHealthy i true) := by
  refine (htracked.next (fun s _ => (s.devices i).healthy = true →
    m = .step none ∧ σ.nextAct none = some (.storeHealthy i true)) hn ?_ m ?_ ?_ ?_ ?_).2 hup
  · intro h
    rw [hdown] at h
    cases h
  · intro who t _ h
    rw [hdown] at h
    cases h
  · intro j t a k _ _ hallowed h
    rw [(hallowed.touch i).healthy, hdown, Bool.false_and] at h
    cases h
  · intro t a k hm hsession hok h
    rw [hok.healthy, hdown, Bool.false_or] at h
    obtain ⟨rfl, -⟩ := hok.stage_of_stores h
    refine ⟨hm, ?_⟩
    simp only [Sessions.nextAct, hsession, Prog.head?_act]
  · intro who t o _ _ _ h
    rw [hdown] at h
    cases h

/-- Adding a device writes to no slot in use. -/
theorem AddRun.devices {t : State δ} {r : KvResult} (h : AddRun D s r t) (hi : i < s.numDevices) :
    t.devices i = s.devices i := by
  have hne : i ≠ s.numDevices := Nat.ne_of_lt hi
  cases h with
  | refused => rfl
  | failed => exact Function.update_of_ne hne _ _
  | added => exact Function.update_of_ne hne _ _

/-- In every interleaving of the probe with any number of other threads, and whatever the devices
answer: each time the probe marks a device healthy, its latest `recovery_threshold` queries of it
all succeeded, and all of them were made since the device last fell.  Nothing but that store of
the probe makes an unhealthy device healthy: no step of another thread, and no call of
`kv_engine_add_device`, which writes to a slot that is not in use. -/
theorem recovery_needs_full_streak (D : Driver δ) {s : State δ} (hn : 0 < s.numDevices) (i : ℕ)
    (moves : List (Move (Option κ) Task)) :
    (Crew.after D (.start s) moves).log.Each (Earned i) ∧
      (∀ m, ((Crew.after D (.start s) moves).shared.devices i).healthy = false →
        ((Crew.next D (Crew.after D (.start s) moves) m).2.shared.devices i).healthy = true →
        m = .step none ∧
          (Crew.after D (.start s) moves).nextAct none = some (.storeHealthy i true)) ∧
      ∀ t devicePath, i < t.numDevices →
        (run D (kvEngineAddDevice devicePath) t).2.devices i = t.devices i := by
  have hinv : Crew.Tracked s.numDevices (Crew.after D (.start s : Crew κ δ) moves) ∧
      Recovering i (Crew.after D (.start s) moves).shared (Crew.after D (.start s) moves).log ∧
      (Crew.after D (.start s) moves).log.Each (Earned i) := by
    refine Machine.invariant (fun σ : Crew κ δ => Crew.Tracked s.numDevices σ ∧
      Recovering i σ.shared σ.log ∧ σ.log.Each (Earned i)) ?_ ?_ moves
    · intro σ m h
      exact Recovering.next hn h.1 h.2 m
    · refine ⟨Crew.tracked_start hn, ?_, .nil⟩
      exact .zero _ _ Stage.noConfusion Stage.noConfusion
  refine ⟨hinv.2.2, fun m hdown hup => healthy_next hn hinv.1 hdown m hup, ?_⟩
  intro t devicePath hi
  exact (run_kvEngineAddDevice t devicePath).devices hi

end recovery

/-- The device 1 is unplugged and comes back. -/
def outage : List (Move (Option (Fin 2)) Task) :=
  deleting 0 12 ++ sweeping 7 ++ sweeping 7 ++ sweeping 9

theorem recovery_needs_full_streak_outage :
    let σ := Crew.after (failingDeletes .devNotExist) (.start freshEngine) outage
    σ.log.any (History.fell 1) = true ∧ σ.log.any (History.marked 1) = true ∧
      σ.log.Each (Earned 1) :=
  ⟨by decide +kernel, by decide +kernel,
    (recovery_needs_full_streak (failingDeletes .devNotExist) (by decide +kernel) 1 outage).1⟩

section evidence

open History

variable {κ δ : Type} {D : Driver δ} {i : ℕ} {s : State δ} {log : History κ δ} {e : Entry κ δ}

/-! ### Stale evidence -/

/-- What a mark should rest on: one of the successful queries that the probe counted was made
since a recorder last stored `healthy := false`. -/
def Timely (i : ℕ) (e : Entry κ δ) (earlier : History κ δ) : Prop :=
  marked i e = true →
    .success ∈ (queries i (earlier.since (faulted i))).take recoveryThreshold.toNat

instance (i : ℕ) (e : Entry κ δ) (earlier : History κ δ) : Decidable (Timely i e earlier) :=
  inferInstanceAs (Decidable (_ → _))

/-- The query with which the probe has proven the device was made since the last fault. -/
def Evidence (i : ℕ) (log : History κ δ) : Prop :=
  (probe log).stage = .proven i →
    (queries i (log.since (faulted i))).head? = some .success

theorem Evidence.cons (h : Evidence i log)
    (hprobe : (probe (e :: log)).stage = .proven i → (probe log).stage = .proven i)
    (hfault : faulted i e = false) (hquery : queried i e = none) : Evidence i (e :: log) := by
  intro hstage
  rw [queries_since_cons hfault hquery]
  exact h (hprobe hstage)

theorem Evidence.probing {a : Act} (h : Evidence i log) (hok : (probe log).Ok a)
    (answer : a.Resp) : Evidence i (.acted none s a answer :: log) := by
  cases hok with
  | bound _ => exact h.cons id rfl rfl
  | look k _ =>
      refine h.cons (fun hstage => ?_) rfl rfl
      have hprobe : probe (.acted none s (.loadHealthy k) answer :: log) =
          if answer then probe log else ⟨(probe log).counts, .found k⟩ := rfl
      rw [hprobe] at hstage
      split_ifs at hstage
      exact hstage
  | query k _ =>
      by_cases hk : k = i
      · subst hk
        intro hstage
        have hprobe : (probe (.acted none s (.kvsGetDeviceUtilization k) answer :: log)) =
            (probe log).next (.kvsGetDeviceUtilization k) answer := rfl
        have hquery : queried k (.acted none s (.kvsGetDeviceUtilization k) answer : Entry κ δ) =
            some answer := if_pos rfl
        have hsuccess : answer = .success := by
          by_contra hne
          rw [hprobe] at hstage
          simp only [ProbePhase.next, if_neg hne, reduceCtorEq] at hstage
        rw [Log.since_cons_neg rfl, queries_cons_some hquery, hsuccess]
        rfl
      · refine h.cons (fun hstage => ?_) rfl (if_neg hk)
        exact absurd hstage ((probe log).next_query_of_ne hk answer).2.2
  | mark k _ => exact h.cons (fun hstage => by cases hstage) rfl rfl
  | clear k _ => exact h.cons (fun hstage => by cases hstage) rfl rfl

theorem Evidence.timely {a : Act} (h : Evidence i log) (hok : (probe log).Ok a)
    (answer : a.Resp) : Timely i (.acted none s a answer) log := by
  intro hmarked
  obtain ⟨rest, hrest⟩ := List.head?_eq_some_iff.mp (h (hok.stage_of_stores hmarked).2)
  rw [hrest]
  exact List.mem_cons_self

variable [DecidableEq κ] {n : ℕ} {σ : Crew κ δ}

/-- The recorders keep away from the last moment: no store `healthy := false` falls between the
query that proves the device and the store `healthy := true` that follows it. -/
def Unraced (i : ℕ) (σ : Crew κ δ) : Move (Option κ) Task → Prop
  | .step (some j) => ¬ ((σ.nextAct (some j)).any (·.stores i false) = true ∧
      (σ.nextAct none).any (·.stores i true) = true)
  | _ => True

instance (i : ℕ) (σ : Crew κ δ) : DecidablePred (Unraced i σ)
  | .step (some _) => inferInstanceAs (Decidable (¬ (_ ∧ _)))
  | .step none => inferInstanceAs (Decidable True)
  | .invoke _ _ => inferInstanceAs (Decidable True)

theorem Evidence.client {j : κ} {t : Task} {a : Act} {k : a.Resp → M Outcome}
    (h : Evidence i σ.log) (htracked : Crew.Tracked n σ)
    (hsession : σ.session (some j) = .busy t (.act a k)) (hunraced : Unraced i σ (.step (some j)))
    (answer : a.Resp) : Evidence i (.acted (some j) σ.shared a answer :: σ.log) := by
  cases hfault : a.stores i false with
  | false => exact h.cons id hfault rfl
  | true =>
      intro hstage
      refine absurd ⟨?_, ?_⟩ hunraced
      · simp only [Sessions.nextAct, hsession, Prog.head?_act, Option.any_some, hfault]
      · rw [htracked.nextAct_proven hstage]
        simp [Act.stores]

theorem Evidence.next (hn : 0 < n) (htracked : Crew.Tracked n σ)
    (h : Evidence i σ.log ∧ σ.log.Each (Timely i)) {m : Move (Option κ) Task}
    (hunraced : Unraced i σ m) :
    Crew.Tracked n (σ.next D m).2 ∧ Evidence i (σ.next D m).2.log ∧
      (σ.next D m).2.log.Each (Timely i) := by
  obtain ⟨hev, htimely⟩ := h
  refine htracked.next (fun _ log => Evidence i log ∧ log.Each (Timely i)) hn ⟨hev, htimely⟩ m
    ?_ ?_ ?_ ?_
  · intro who t _
    exact ⟨hev.cons id rfl rfl, htimely.cons fun hmarked => by cases hmarked⟩
  · intro j t a k hm hsession _
    subst hm
    exact ⟨hev.client htracked hsession hunraced _, htimely.cons fun hmarked => by cases hmarked⟩
  · intro t a k _ _ hok
    exact ⟨hev.probing hok _, htimely.cons (hev.timely hok _)⟩
  · intro who t o _ _ _
    exact ⟨hev.cons id rfl rfl, htimely.cons fun hmarked => by cases hmarked⟩

/-- In every run in which no recorder stores `healthy := false` between the query that proves the
device and the store of the probe, every mark rests on a query made since the last fault. -/
theorem marks_timely_of_unraced (D : Driver δ) {s : State δ} (hn : 0 < s.numDevices) {i : ℕ}
    {moves : List (Move (Option κ) Task)}
    (hmoves : Machine.Always (Unraced i) (Crew.next D) (.start s) moves) :
    (Crew.after D (.start s) moves).log.Each (Timely i) := by
  have hinv : Crew.Tracked s.numDevices (Crew.after D (.start s : Crew κ δ) moves) ∧
      Evidence i (Crew.after D (.start s) moves).log ∧
      (Crew.after D (.start s) moves).log.Each (Timely i) := by
    refine hmoves.invariant (fun σ : Crew κ δ => Crew.Tracked s.numDevices σ ∧
      Evidence i σ.log ∧ σ.log.Each (Timely i)) ?_ ?_
    · intro σ m h hunraced
      exact Evidence.next hn h.1 h.2 hunraced
    · refine ⟨Crew.tracked_start hn, fun hstage => ?_, .nil⟩
      cases hstage
  exact hinv.2.2

/-- A run with a fault and a mark in which the condition holds. -/
theorem marks_timely_of_unraced_outage :
    let σ := Crew.after (failingDeletes .devNotExist) (.start freshEngine) outage
    σ.log.any (History.faulted 1) = true ∧ σ.log.any (History.marked 1) = true ∧
      σ.log.Each (Timely 1) := by
  have hmoves : Machine.Always (Unraced 1) (Crew.next (failingDeletes .devNotExist))
      (.start freshEngine) outage := by
    decide +kernel
  exact ⟨by decide +kernel, by decide +kernel,
    marks_timely_of_unraced (failingDeletes .devNotExist) (by decide +kernel) hmoves⟩

/-- Two deletes have passed the health check and are answered `KVS_ERR_DEV_NOT_EXIST`.  The first
records it; after two sweeps and the query of the third the second one records it too, and then
the probe stores `healthy := true`. -/
def lateFault : List (Move (Option (Fin 2)) Task) :=
  deleting 0 4 ++ deleting 1 4 ++ stepping (some 0) 4 ++ sweeping 7 ++ sweeping 7 ++ sweeping 5 ++
    stepping (some 1) 4 ++ stepping none 1

/-- The mark overwrites a fault that was recorded after the last query, and the device is
healthy. -/
theorem late_fault_overwritten :
    let σ := Crew.after (failingDeletes .devNotExist) (.start freshEngine) lateFault
    ¬ σ.log.Each (Timely 1) ∧ (σ.shared.devices 1).healthy = true := by
  decide +kernel

end evidence

end KvEngine
