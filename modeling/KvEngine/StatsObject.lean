import KvEngine.StatsLock
import KvEngine.Linearization

/-! # The statistics are linearizable

The statistics as an object of their own.  Its operations are the stores, retrieves and deletes,
synchronous ones and those that workers execute, `kv_engine_get_stats` and
`kv_engine_reset_stats`.  `StatsSpec` says what each of them does to the counters: a call that
returns `KV_SUCCESS` is counted once, as a success; a call that fails is counted once, as a
failure, or not at all; a snapshot shows all counters as they are at one moment.

In every run in which the counters are accessed one by one under `stats_lock`, with resets at any
time, the answers are those of this object (`statistics_linearizable`).  So each snapshot is
consistent in itself (`snapshots_balanced`). -/

namespace KvEngine

open Atomic

variable {κ δ : Type} {D : Driver δ}

/-! ### The object -/

/-- The operations that concern the statistics. -/
inductive StatsOp where
  | data (c : Call)
  | getStats
  | resetStats
deriving DecidableEq

/-- What they answer; of the reply of a data call only the success matters. -/
inductive StatsAnswer where
  | replied (ok : Bool)
  | stats (st : Stats)
  | done
deriving DecidableEq

/-- The updates that a call may make. -/
def Call.Counts : Call → StatsUpdate → Prop
  | .store _ value _, u => ∃ v, value = some v ∧
      u = ⟨false, true, false, u.success, v.bytes.length.toUInt64⟩
  | .retrieve _ _ _, u => u = ⟨true, false, false, u.success, u.bytes⟩
  | .delete _, u => u = ⟨false, false, true, u.success, 0⟩
  | .exists _ _, _ => False

/-- The operations on the counters. -/
inductive StatsSpec (st : Stats) : StatsOp → StatsAnswer → Stats → Prop where
  | counted {c : Call} {u : StatsUpdate} (h : c.Counts u) :
      StatsSpec st (.data c) (.replied u.success) (st.update u)
  | uncounted {c : Call} : StatsSpec st (.data c) (.replied false) st
  | shown : StatsSpec st .getStats (.stats st) st
  | reset : StatsSpec st .resetStats .done .zero

/-- The operation of a task. -/
def Task.statsOp : Task → Option StatsOp
  | .getStats => some .getStats
  | .resetStats => some .resetStats
  | t => t.dataCall.map .data

/-- What the client of an operation is told about the statistics. -/
def Outcome.statsAnswer : Outcome → Option StatsAnswer
  | .reply r => some (.replied (r.result = .success))
  | .stats _ st => some (.stats st)
  | .done => some .done
  | _ => none

/-- The operation of a thread: the probe has none. -/
def crewStatsOp : Option κ → Task → Option StatsOp
  | none, _ => none
  | some _, t => t.statsOp

/-! ### The moment of effect -/

/-- The actions that leave the counters alone. -/
def Act.KeepsStats : Act → Prop
  | .updateStats _ => False
  | .resetStats => False
  | a => a.Tame

/-- The actions with which an operation changes the counters. -/
def StatsOp.Writes : StatsOp → Act → Prop
  | .data c, .updateStats u => c.Counts u
  | .resetStats, .resetStats => True
  | _, _ => False

/-- The answer that an action fixes. -/
def StatsOp.fixes : StatsOp → (a : Act) → a.Resp → Option StatsAnswer
  | .data _, .updateStats u, _ => some (.replied u.success)
  | .getStats, .getStats, st => some (.stats st)
  | .resetStats, .resetStats, _ => some .done
  | _, _, _ => none

/-- The protocol of an operation: it changes the counters once, and this fixes its answer. -/
def untilCounted (n : ℕ) (op : Option StatsOp) : Protocol Act Act.Resp (Option StatsAnswer) where
  ok q a := a.KeepsStats ∨ q = none ∧ ∃ o, op = some o ∧ o.Writes a
  answers _ := Answered n
  next q a r := q.or (op.bind fun o => o.fixes a r)

theorem Act.KeepsStats.tame {a : Act} (h : a.KeepsStats) : a.Tame := by
  cases a <;> first | exact h | exact h.elim

theorem Act.KeepsStats.exec {a : Act} (h : a.KeepsStats) (s : State δ) :
    (KvEngine.exec D a s).2.stats = s.stats := by
  cases hsection : statsSection a with
  | none => exact exec_stats h.tame hsection s
  | some b =>
      cases a with
      | getStats => rfl
      | _ => first | exact h.elim | cases hsection

/-- An action that leaves the counters alone fixes an answer only if it shows them. -/
theorem Act.KeepsStats.fixes {a : Act} (h : a.KeepsStats) (o : StatsOp) (s : State δ) :
    o.fixes a (KvEngine.exec D a s).1 = none ∨
      o = .getStats ∧ o.fixes a (KvEngine.exec D a s).1 = some (.stats s.stats) := by
  cases o with
  | data c => cases a <;> first | exact .inl rfl | exact h.elim
  | getStats =>
      cases a with
      | getStats => exact .inr ⟨rfl, rfl⟩
      | _ => exact .inl rfl
  | resetStats => cases a <;> first | exact .inl rfl | exact h.elim

theorem StatsOp.Writes.exec {o : StatsOp} {a : Act} (h : o.Writes a) (s : State δ) :
    ∃ v, o.fixes a (KvEngine.exec D a s).1 = some v ∧
      StatsSpec s.stats o v (KvEngine.exec D a s).2.stats := by
  cases o with
  | data c =>
      cases a with
      | updateStats u => exact ⟨_, rfl, .counted h⟩
      | _ => exact h.elim
  | getStats => exact h.elim
  | resetStats =>
      cases a with
      | resetStats => exact ⟨_, rfl, .reset⟩
      | _ => exact h.elim

theorem StatsOp.Writes.tame {o : StatsOp} {a : Act} (h : o.Writes a) : a.Tame := by
  cases o <;> cases a <;> first | exact trivial | exact h.elim

/-- One action of a thread. -/
theorem untilCounted_exec {n : ℕ} {op : Option StatsOp} {q : Option StatsAnswer} {a : Act}
    {s : State δ} (hs : s.numDevices = n) (hok : (untilCounted n op).ok q a) :
    (untilCounted n op).answers q a (exec D a s).1 ∧ (exec D a s).2.numDevices = n ∧
      ((untilCounted n op).next q a (exec D a s).1 = q ∧ (exec D a s).2.stats = s.stats ∨
        ∃ o v, op = some o ∧ q = none ∧ (untilCounted n op).next q a (exec D a s).1 = some v ∧
          StatsSpec s.stats o v (exec D a s).2.stats) := by
  have htame : a.Tame := by
    rcases hok with hkeeps | ⟨_, o, _, hwrites⟩
    · exact hkeeps.tame
    · exact hwrites.tame
  refine ⟨Crew.answered hs, (exec_tame htame s 0).numDevices.trans hs, ?_⟩
  rcases hok with hkeeps | ⟨rfl, o, rfl, hwrites⟩
  · cases op with
    | none => exact .inl ⟨Option.or_none, hkeeps.exec s⟩
    | some o =>
        rcases hkeeps.fixes (D := D) o s with hnone | ⟨rfl, hshown⟩
        · refine .inl ⟨?_, hkeeps.exec s⟩
          show q.or (o.fixes a _) = q
          rw [hnone, Option.or_none]
        · cases q with
          | some v => exact .inl ⟨rfl, hkeeps.exec s⟩
          | none =>
              refine .inr ⟨.getStats, .stats s.stats, rfl, rfl, hshown, ?_⟩
              rw [hkeeps.exec s]
              exact .shown
  · obtain ⟨v, hv, hspec⟩ := hwrites.exec (D := D) s
    exact .inr ⟨o, v, rfl, rfl, hv, hspec⟩

/-! ### The programs -/

/-- What a call that has returned has done to the counters. -/
theorem Call.Accounts.updates {c : Call} {ev : Events} {r : Reply} (h : c.Accounts ev r) :
    KvEngine.updates ev = [] ∧ (c.dataCall.isSome → r.result ≠ .success) ∨
      ∃ u, KvEngine.updates ev = [u] ∧ c.Counts u ∧ u.success = decide (r.result = .success) := by
  cases c with
  | store key value overwrite =>
      rcases h with ⟨_, huncounted, hr⟩ | ⟨_, v, hv, hcounted⟩
      · exact .inl ⟨huncounted.2, fun _ => hr⟩
      · exact .inr ⟨_, hcounted.2, ⟨v, hv, rfl⟩, rfl⟩
  | retrieve key outs del =>
      rcases h with ⟨huncounted, hr⟩ | ⟨bytes, hcounted⟩
      · exact .inl ⟨huncounted.2, fun _ => hr⟩
      · exact .inr ⟨_, hcounted.2, rfl, rfl⟩
  | delete key =>
      rcases h with ⟨_, huncounted, hr⟩ | ⟨_, hcounted⟩
      · exact .inl ⟨huncounted.2, fun _ => hr⟩
      · exact .inr ⟨_, hcounted.2, rfl, rfl⟩
  | «exists» key outs =>
      have hnone (hsome : (Call.exists key outs).dataCall.isSome = true) : r.result ≠ .success := by
        cases hsome
      rcases h with ⟨_, huncounted⟩ | ⟨_, _, hupdates⟩
      · exact .inl ⟨huncounted.2, hnone⟩
      · exact .inl ⟨hupdates, hnone⟩

/-- The updates of a data call so far: none, or one that it may make. -/
def Tallies (call : Option Call) (us : List StatsUpdate) : Prop :=
  us = [] ∨ ∃ c u, call = some c ∧ us = [u] ∧ c.Counts u

/-- The answer that the updates so far have fixed. -/
def answerOf (us : List StatsUpdate) : Option StatsAnswer :=
  us.head?.map fun u => .replied u.success

theorem Tallies.tail {call : Option Call} {u : StatsUpdate} {us : List StatsUpdate}
    (h : Tallies call (u :: us)) : us = [] ∧ ∃ c, call = some c ∧ c.Counts u := by
  rcases h with h | ⟨c, u', hc, hus, hcounts⟩
  · cases h
  · cases hus
    exact ⟨rfl, c, hc, hcounts⟩

theorem Tallies.of_cons {call : Option Call} {e : Event Act Act.Resp} {ev : Events}
    (h : Tallies call (updates (e :: ev))) : Tallies call (updates ev) := by
  cases he : statsUpdate e with
  | none =>
      rw [updates, List.filterMap_cons_none he] at h
      exact h
  | some u =>
      rw [updates, List.filterMap_cons_some he] at h
      exact .inl h.tail.1

theorem Allowed.keepsStats {n : ℕ} {t : Task} {ev : Events} {a : Act} (h : Allowed n t ev a)
    (ht : t ≠ .resetStats) (ha : ∀ u, a ≠ .updateStats u) : a.KeepsStats := by
  cases a with
  | updateStats u => exact absurd rfl (ha u)
  | resetStats => exact absurd h ht
  | _ => first | exact trivial | exact h.elim

theorem updates_of_ne {a : Act} (ha : ∀ u, a ≠ .updateStats u) (r : a.Resp) (ev : Events) :
    updates (⟨a, r⟩ :: ev) = updates ev := by
  cases a with
  | updateStats u => exact absurd rfl (ha u)
  | _ => rfl

theorem StatsOp.fixes_of_ne {a : Act} (ha : ∀ u, a ≠ .updateStats u) (c : Call) (r : a.Resp) :
    (StatsOp.data c).fixes a r = none := by
  cases a with
  | updateStats u => exact absurd rfl (ha u)
  | _ => rfl

/-- What a task with the data call `call`, the updates `us` and the outcome `o` has done to the
counters. -/
structure Concluded (call : Option Call) (us : List StatsUpdate) (o : Outcome) : Prop where
  tallies : Tallies call us
  concludes : Concludes StatsSpec Outcome.statsAnswer (call.map .data) (answerOf us) o

theorem Call.Accounts.concluded {c : Call} {ev : Events} {r : Reply} (h : c.Accounts ev r) :
    Concluded c.dataCall (KvEngine.updates ev) (.reply r) := by
  rcases h.updates with ⟨hnone, hr⟩ | ⟨u, hu, hcounts, hsuccess⟩
  · rw [hnone]
    refine ⟨.inl rfl, ?_⟩
    cases hd : c.dataCall with
    | none => trivial
    | some c' =>
        refine ⟨.replied false, ?_, fun _ => .uncounted⟩
        simp [Outcome.statsAnswer, hr (by rw [hd]; rfl)]
  · have hd : c.dataCall = some c := by
      cases c with
      | «exists» key outs => exact hcounts.elim
      | _ => rfl
    rw [hd, hu]
    refine ⟨.inr ⟨c, u, rfl, rfl, hcounts⟩, ?_⟩
    exact congrArg (fun b => some (StatsAnswer.replied b)) hsuccess.symm

theorem concluded_of_no_updates {us : List StatsUpdate} (h : us = []) (o : Outcome) :
    Concluded none us o :=
  ⟨.inl h, trivial⟩

theorem Task.Accounts.concluded {t : Task} {ev : Events} {o : Outcome} (h : t.Accounts ev o) :
    Concluded t.dataCall (updates ev) o := by
  cases t with
  | call c =>
      obtain ⟨r, rfl, haccounts⟩ := h
      exact haccounts.concluded
  | execute item =>
      obtain ⟨r, rfl, haccounts⟩ := h
      exact haccounts.concluded
  | record i r => exact concluded_of_no_updates h o
  | getDeviceHealth i out => exact concluded_of_no_updates h.1.2 o
  | _ => exact concluded_of_no_updates h.2 o

section programs

variable (D) {s : State δ} (hn : 0 < s.numDevices)
include D hn

/-- A task other than the two statistics functions counts its call once, or not at all. -/
theorem task_untilCounted_data {t : Task} (ht : t ≠ .resetStats) :
    t.prog.Follows (untilCounted s.numDevices (t.dataCall.map .data))
      (Concludes StatsSpec Outcome.statsAnswer (t.dataCall.map .data)) none := by
  refine ((task_follows hn t).transfer (fun ev => answerOf (updates ev))
    (fun ev => Tallies t.dataCall (updates ev)) (fun _ _ h => ⟨h.concluded.tallies, h.concluded.concludes⟩)
    (fun _ _ _ h => h.of_cons) (fun _ a => ⟨(exec D a s).1, Crew.answered rfl⟩) ?_).2
  intro ev a hallowed htallies
  by_cases ha : ∃ u, a = .updateStats u
  · obtain ⟨u, rfl⟩ := ha
    have hcons : Tallies t.dataCall (u :: updates ev) := htallies () trivial
    obtain ⟨hev, c, hc, hcounts⟩ := hcons.tail
    refine ⟨.inr ⟨by rw [hev]; rfl, .data c, by rw [hc]; rfl, hcounts⟩, fun r _ => ⟨trivial, ?_⟩⟩
    show (answerOf (updates ev)).or ((t.dataCall.map StatsOp.data).bind fun o => o.fixes _ r) =
      answerOf (u :: updates ev)
    rw [hev, hc]
    rfl
  · have hne : ∀ u, a ≠ .updateStats u := fun u heq => ha ⟨u, heq⟩
    refine ⟨.inl (hallowed.keepsStats ht hne), fun r hr => ⟨hr, ?_⟩⟩
    show (answerOf (updates ev)).or ((t.dataCall.map StatsOp.data).bind fun o => o.fixes a r) =
      answerOf (updates (⟨a, r⟩ :: ev))
    rw [updates_of_ne hne]
    cases t.dataCall with
    | none => exact Option.or_none
    | some c =>
        show (answerOf (updates ev)).or ((StatsOp.data c).fixes a r) = _
        rw [StatsOp.fixes_of_ne hne, Option.or_none]

theorem task_untilCounted (t : Task) :
    t.prog.Follows (untilCounted s.numDevices t.statsOp)
      (Concludes StatsSpec Outcome.statsAnswer t.statsOp) none := by
  by_cases hget : t = .getStats
  · subst hget
    exact ⟨.inl trivial, fun _ _ => rfl⟩
  by_cases hreset : t = .resetStats
  · subst hreset
    exact ⟨.inr ⟨rfl, _, rfl, trivial⟩, fun _ _ => rfl⟩
  have hop : t.statsOp = t.dataCall.map .data := by
    cases t <;> first | rfl | exact absurd rfl hget | exact absurd rfl hreset
  rw [hop]
  exact task_untilCounted_data D hn hreset

theorem crew_untilCounted (who : Option κ) (t : Task) (last : Option Outcome) :
    (crewProg who t last).Follows (untilCounted s.numDevices (crewStatsOp who t))
      (Concludes StatsSpec Outcome.statsAnswer (crewStatsOp who t)) none := by
  cases who with
  | none =>
      have hsweep : (probeSweep (recoveryCountsOf last)).Performs Act.KeepsStats :=
        (probeSweepFrom_probes 0 kvMaxDevices _).mono fun a h => by
          cases a <;> first | exact trivial | exact h.elim
      have hprog : (crewProg (none : Option κ) t last).Performs Act.KeepsStats :=
        hsweep.bind fun _ => trivial
      have hfollows : (crewProg (none : Option κ) t last).Follows (untilCounted s.numDevices none)
          (fun q _ => q = none) none :=
        hprog.follows fun a ha => ⟨.inl ha, fun _ => rfl⟩
      exact hfollows.mono fun _ _ _ => trivial
  | some j => exact task_untilCounted D hn t

end programs

/-! ### All threads -/

section crew

variable [DecidableEq κ]

/-- What is seen of the operations on the statistics. -/
def statsHistory (seen : List (Atomic.Occurrence (Option κ) Task Outcome)) :
    List (Atomic.Occurrence (Option κ) StatsOp StatsAnswer) :=
  seen.filterMap (Atomic.Occurrence.select crewStatsOp Outcome.statsAnswer)

/-- The threads of the engine run as the clients of the statistics. -/
theorem crew_counts (D : Driver δ) {s : State δ} (hn : 0 < s.numDevices)
    (moves : List (Move (Option κ) Task)) :
    let τ := Crew.after D (Sessions.start s : Crew κ δ) moves
    Linearizable StatsSpec s.stats (τ.log.occurrences crewStatsOp Outcome.statsAnswer)
      τ.shared.stats := by
  have hsimulates : ∃ status, Sessions.Simulates StatsSpec crewStatsOp Outcome.statsAnswer
      (fun who t => untilCounted s.numDevices (crewStatsOp who t))
      (fun t => t.numDevices = s.numDevices) State.stats s.stats
      (Crew.after D (Sessions.start s : Crew κ δ) moves) status :=
    Sessions.simulates _ (fun t => t.numDevices = s.numDevices) State.stats rfl
      (fun who t last => crew_untilCounted D hn who t last)
      (fun _ _ _ _ _ hs hok => untilCounted_exec hs hok) moves
  obtain ⟨status, hsim⟩ := hsimulates
  exact hsim.linearizable

/-- **The statistics are linearizable.**  In every run in which the counters are accessed one by
one under `stats_lock`, the calls are answered as if each took effect on all counters together, at
one moment between its start and its end: a successful call is counted once, a failed one at most
once, a snapshot shows the counters of one moment and a reset clears them at one. -/
theorem statistics_linearizable (D : Driver δ) {s : State δ} (hn : 0 < s.numDevices)
    (moves : List (Move (Option κ) Task)) :
    let σ := LockedCrew.after D (.start s) moves
    ∃ st, Linearizable StatsSpec s.stats (statsHistory σ.seen) st ∧
      (σ.holder = none → σ.shared.stats = st) := by
  intro σ
  obtain ⟨moves', h⟩ := lockedCrew_simulates D s moves
  refine ⟨_, ?_, fun hfree => (congrArg State.stats (h.shared_eq hfree)).symm⟩
  rw [statsHistory, ← h.seen, ← Log.occurrences_eq_filterMap]
  exact crew_counts D hn moves'

/-- Another thread asks for the statistics when `update_stats` has counted a store in `total_ops`
and not yet in `write_ops`, and has to wait. -/
def waitingSnapshot : List (Move (Option (Fin 2)) Task) :=
  [.invoke (some 0) (.call (.store (some [107, 101, 121, 49]) (some ⟨4096, [118]⟩) true))] ++
    stepping (some 0) 10 ++ [.invoke (some 1) .getStats] ++ stepping (some 1) 1 ++
    stepping (some 0) 7 ++ stepping (some 1) 10

def waitingHistory : List (Atomic.Occurrence (Option (Fin 2)) StatsOp StatsAnswer) :=
  [.ret (some 1) .getStats (.stats ⟨1, 0, 1, 0, 0, 1, 0⟩),
    .ret (some 0) (.data (.store (some [107, 101, 121, 49]) (some ⟨4096, [118]⟩) true))
      (.replied true),
    .call (some 1) .getStats,
    .call (some 0) (.data (.store (some [107, 101, 121, 49]) (some ⟨4096, [118]⟩) true))]

def waiting : LockedCrew (Fin 2) KeySpace :=
  LockedCrew.after keySpaceDriver (.start freshEngine) waitingSnapshot

theorem waiting_seen : statsHistory waiting.seen = waitingHistory := by decide +kernel

theorem waiting_stats : waiting.holder = none ∧ waiting.shared.stats = ⟨1, 0, 1, 0, 0, 1, 0⟩ := by
  decide +kernel

theorem statistics_linearizable_waitingSnapshot :
    Linearizable StatsSpec .zero waitingHistory ⟨1, 0, 1, 0, 0, 1, 0⟩ := by
  obtain ⟨st, hrun, hfree⟩ := statistics_linearizable keySpaceDriver (s := freshEngine)
    (by decide +kernel) waitingSnapshot
  obtain ⟨hholder, hstats⟩ := waiting_stats
  have hst : st = ⟨1, 0, 1, 0, 0, 1, 0⟩ := (hfree hholder).symm.trans hstats
  rw [← waiting_seen, ← hst]
  exact hrun

/-! ### Snapshots -/

/-- Every operation is of one of the three kinds. -/
def Stats.Balanced (st : Stats) : Prop := st.totalOps = st.readOps + st.writeOps + st.deleteOps

theorem Stats.balanced_zero : Stats.zero.Balanced := rfl

theorem Call.Counts.balanced {c : Call} {u : StatsUpdate} (h : c.Counts u) {st : Stats}
    (hst : st.Balanced) : (st.update u).Balanced := by
  have hst : st.totalOps + 1 = st.readOps + st.writeOps + st.deleteOps + 1 := by rw [hst]
  cases c with
  | store key value overwrite =>
      obtain ⟨v, _, hu⟩ := h
      rw [hu]
      show st.totalOps + 1 = st.readOps + (st.writeOps + 1) + st.deleteOps
      rw [hst]
      ac_rfl
  | retrieve key outs del =>
      rw [show u = _ from h]
      show st.totalOps + 1 = st.readOps + 1 + st.writeOps + st.deleteOps
      rw [hst]
      ac_rfl
  | delete key =>
      rw [show u = _ from h]
      show st.totalOps + 1 = st.readOps + st.writeOps + (st.deleteOps + 1)
      rw [hst]
      ac_rfl
  | «exists» key outs => exact h.elim

theorem StatsSpec.balanced {st st' : Stats} {o : StatsOp} {v : StatsAnswer} (hst : st.Balanced)
    (h : StatsSpec st o v st') : st'.Balanced ∧ ∀ shown, v = .stats shown → shown.Balanced := by
  cases h with
  | counted hcounts =>
      refine ⟨hcounts.balanced hst, fun shown hv => ?_⟩
      cases hv
  | uncounted =>
      refine ⟨hst, fun shown hv => ?_⟩
      cases hv
  | shown =>
      refine ⟨hst, fun shown hv => ?_⟩
      cases hv
      exact hst
  | reset =>
      refine ⟨Stats.balanced_zero, fun shown hv => ?_⟩
      cases hv

/-- Every snapshot that `kv_engine_get_stats` hands out counts as many operations as reads, writes
and deletes, although its counters are copied one by one while other threads count and reset. -/
theorem snapshots_balanced (D : Driver δ) {s : State δ} (hn : 0 < s.numDevices)
    (hbalanced : s.stats.Balanced) (moves : List (Move (Option κ) Task)) (i : Option κ) (st : Stats)
    (hret : .ret i .getStats (.stats st) ∈
      statsHistory (LockedCrew.after D (.start s) moves).seen) : st.Balanced := by
  obtain ⟨moves', h⟩ := lockedCrew_simulates D s moves
  rw [statsHistory, ← h.seen, ← Log.occurrences_eq_filterMap] at hret
  obtain ⟨status, hrun⟩ := crew_counts D hn moves'
  have hanswers := hrun.answers Stats.Balanced
    (fun _ v => ∀ shown, v = .stats shown → shown.Balanced)
    (fun _ _ _ _ hm hspec => hspec.balanced hm) hbalanced
  exact hanswers.2.2 i _ _ hret st rfl

theorem snapshots_balanced_waitingSnapshot : Stats.Balanced ⟨1, 0, 1, 0, 0, 1, 0⟩ := by
  have hret : .ret (some 1) .getStats (.stats ⟨1, 0, 1, 0, 0, 1, 0⟩) ∈
      statsHistory waiting.seen := by
    rw [waiting_seen]
    exact List.mem_cons_self
  exact snapshots_balanced keySpaceDriver (s := freshEngine) (by decide +kernel) Stats.balanced_zero
    waitingSnapshot (some 1) _ hret

end crew

end KvEngine
