import KvEngine.Mutex
import KvEngine.Slots

/-! # The statistics under `stats_lock`

`update_stats`, `kv_engine_get_stats` and `kv_engine_reset_stats` read and write the counters one
by one between the lock and the unlock of `stats_lock`.  The engine of `Tasks.lean` takes each of
the three for one action.  Here they are the single accesses of the source, and the threads run as
in `Mutex.lean`: between two accesses of a section every other thread may move.

The accesses touch the counters and nothing else does, so the three sections are atomic
(`statsLock_reducible`), and the engine with single accesses has no behaviour that the engine of
`Tasks.lean` does not have (`lockedCrew_reduces`). -/

namespace KvEngine

open Atomic

variable {κ δ : Type} {D : Driver δ}

/-! ### The accesses -/

/-- The counters of `kv_engine_stats_t`. -/
inductive StatsField where
  | totalOps
  | readOps
  | writeOps
  | deleteOps
  | failedOps
  | bytesWritten
  | bytesRead
deriving DecidableEq, Repr

namespace Stats

def load (st : Stats) : StatsField → UInt64
  | .totalOps => st.totalOps
  | .readOps => st.readOps
  | .writeOps => st.writeOps
  | .deleteOps => st.deleteOps
  | .failedOps => st.failedOps
  | .bytesWritten => st.bytesWritten
  | .bytesRead => st.bytesRead

def store (st : Stats) (v : UInt64) : StatsField → Stats
  | .totalOps => { st with totalOps := v }
  | .readOps => { st with readOps := v }
  | .writeOps => { st with writeOps := v }
  | .deleteOps => { st with deleteOps := v }
  | .failedOps => { st with failedOps := v }
  | .bytesWritten => { st with bytesWritten := v }
  | .bytesRead => { st with bytesRead := v }

end Stats

/-- The accesses to the counters. -/
inductive StatsAccess where
  | load (f : StatsField)
  | store (f : StatsField) (v : UInt64)

@[reducible] def StatsAccess.Resp : StatsAccess → Type
  | .load _ => UInt64
  | .store _ _ => Unit

/-- What an access does to the counters. -/
def StatsAccess.on : (m : StatsAccess) → Stats → m.Resp × Stats
  | .load f, st => (st.load f, st)
  | .store f v, st => ((), st.store v f)

/-- The engine with other counters. -/
def State.setStats (s : State δ) (st : Stats) : State δ := { s with stats := st }

def statsAccess : Handler StatsAccess StatsAccess.Resp (State δ)
  | m, s => ((m.on s.stats).1, s.setStats (m.on s.stats).2)

/-! ### The sections -/

/-- The programs of the sections. -/
abbrev StatsM (α : Type) := Prog StatsAccess StatsAccess.Resp α

def loadStat (f : StatsField) : StatsM UInt64 := Prog.perform (StatsAccess.load f)

def storeStat (f : StatsField) (v : UInt64) : StatsM Unit := Prog.perform (StatsAccess.store f v)

/-- `stats.f += v`, which is a load and a store. -/
def addStat (f : StatsField) (v : UInt64) : StatsM Unit := do
  let x ← loadStat f
  storeStat f (x + v)

/-- `update_stats` between the lock and the unlock. -/
def updateStatsSection (u : StatsUpdate) : StatsM Unit := do
  addStat .totalOps 1
  if u.isRead then addStat .readOps 1
  if u.isWrite then addStat .writeOps 1
  if u.isDelete then addStat .deleteOps 1
  if !u.success then addStat .failedOps 1
  if u.isRead && u.success then addStat .bytesRead u.bytes
  else if u.isWrite && u.success then addStat .bytesWritten u.bytes

/-- `*stats = engine->stats`, counter by counter. -/
def getStatsSection : StatsM Stats := do
  let totalOps ← loadStat .totalOps
  let readOps ← loadStat .readOps
  let writeOps ← loadStat .writeOps
  let deleteOps ← loadStat .deleteOps
  let failedOps ← loadStat .failedOps
  let bytesWritten ← loadStat .bytesWritten
  let bytesRead ← loadStat .bytesRead
  return ⟨totalOps, readOps, writeOps, deleteOps, failedOps, bytesWritten, bytesRead⟩

/-- `memset(&engine->stats, 0, ..)`, counter by counter. -/
def resetStatsSection : StatsM Unit := do
  storeStat .totalOps 0
  storeStat .readOps 0
  storeStat .writeOps 0
  storeStat .deleteOps 0
  storeStat .failedOps 0
  storeStat .bytesWritten 0
  storeStat .bytesRead 0

/-- The section of an action under `stats_lock`; the other actions have none. -/
def statsSection : (a : Act) → Option (StatsM a.Resp)
  | .updateStats u => some (updateStatsSection u)
  | .getStats => some getStatsSection
  | .resetStats => some resetStatsSection
  | _ => none

/-! ### The sections without interruption -/

theorem updateStatsSection_run (u : StatsUpdate) (st : Stats) :
    (updateStatsSection u).run StatsAccess.on st = ((), st.update u) := by
  obtain ⟨isRead, isWrite, isDelete, success, bytes⟩ := u
  cases isRead <;> cases isWrite <;> cases isDelete <;> cases success <;> rfl

/-- A section runs on the counters. -/
theorem statsAccess_run {α : Type} (b : StatsM α) (s : State δ) :
    b.run statsAccess s =
      ((b.run StatsAccess.on s.stats).1, s.setStats (b.run StatsAccess.on s.stats).2) := by
  induction b generalizing s with
  | ret v => rfl
  | act m k ih =>
      simp only [Prog.run_act]
      exact ih _ _

theorem statsSection_run {a : Act} {b : StatsM a.Resp} (h : statsSection a = some b)
    (s : State δ) : exec D a s = b.run statsAccess s := by
  cases a with
  | updateStats u =>
      cases h
      rw [statsAccess_run, updateStatsSection_run]
      rfl
  | getStats =>
      cases h
      rw [statsAccess_run]
      rfl
  | resetStats =>
      cases h
      rw [statsAccess_run]
      rfl
  | _ => cases h

/-! ### The other actions do not see the counters -/

/-- A command does not see the counters. -/
theorem State.keyspaceCommand_setStats {α : Type} (s : State δ) (st : Stats) (i : ℕ) (refused : α)
    (c : δ → α × δ) :
    (s.setStats st).keyspaceCommand i refused c =
      ((s.keyspaceCommand i refused c).1, (s.keyspaceCommand i refused c).2.setStats st) := by
  simp only [State.keyspaceCommand, State.setStats]
  split <;> rfl

theorem State.deviceCommand_setStats {α : Type} (s : State δ) (st : Stats) (i : ℕ) (refused : α)
    (c : δ → α × δ) :
    (s.setStats st).deviceCommand i refused c =
      ((s.deviceCommand i refused c).1, (s.deviceCommand i refused c).2.setStats st) := by
  simp only [State.deviceCommand, State.setStats]
  split <;> rfl

/-- An action without a section does the same whatever the counters are. -/
theorem exec_setStats {a : Act} (ha : a.Tame) (hsection : statsSection a = none) (s : State δ)
    (st : Stats) : exec D a (s.setStats st) = ((exec D a s).1, (exec D a s).2.setStats st) := by
  cases a with
  | kvsStoreKvp | kvsRetrieveKvp | kvsDeleteKvp | kvsExistKvPairs =>
      exact s.keyspaceCommand_setStats st _ _ _
  | kvsGetDeviceUtilization | kvsReadUtilization | kvsGetDeviceCapacity | kvsCreateKeySpace =>
      exact s.deviceCommand_setStats st _ _ _
  | keyTableAdd key =>
      show ((), (s.setStats st).addTableKey key) = ((), (s.addTableKey key).setStats st)
      unfold State.addTableKey
      split
      · rename_i hlisted
        rw [if_pos (show (keyInTable s.keyTable key || !KeyTable.accepts key) = true from hlisted)]
      · rename_i hnew
        rw [if_neg (show ¬ (keyInTable s.keyTable key || !KeyTable.accepts key) = true from hnew)]
        rfl
  | dmaPoolAcquire => cases hpool : s.bufferPool <;> simp only [exec, State.setStats, hpool]
  | updateStats | getStats | resetStats => cases hsection
  | _ => first | rfl | exact ha.elim

/-- It leaves the counters alone. -/
theorem exec_stats {a : Act} (ha : a.Tame) (hsection : statsSection a = none) (s : State δ) :
    (exec D a s).2.stats = s.stats :=
  congrArg (fun r => r.2.stats) (exec_setStats (D := D) ha hsection s s.stats)

theorem statsAccess_commutes {a : Act} (ha : a.Tame) (hsection : statsSection a = none)
    (m : StatsAccess) : Commutes (exec D) statsAccess a m where
  action s := by simp only [statsAccess, exec_setStats ha hsection]
  access s := by simp only [statsAccess, exec_stats ha hsection]
  state s := by simp only [statsAccess, exec_setStats ha hsection, exec_stats ha hsection]

/-- The sections under `stats_lock` are atomic. -/
theorem statsLock_reducible :
    Mutex.Reducible (exec D) statsAccess statsSection Act.Tame where
  section_eq _ _ h s := statsSection_run h s
  commutes _ ha hsection m := statsAccess_commutes ha hsection m

/-! ### The engine -/

/-- An engine in use whose statistics are accessed one by one under `stats_lock`. -/
abbrev LockedCrew (κ δ : Type) :=
  Mutex (Option κ) Task Act Act.Resp Outcome (State δ) StatsAccess StatsAccess.Resp

section crew

variable [DecidableEq κ]

/-- The engine after the moves. -/
abbrev LockedCrew.after (D : Driver δ) (σ : LockedCrew κ δ)
    (moves : List (Move (Option κ) Task)) : LockedCrew κ δ :=
  Machine.after (Mutex.next (exec D) statsAccess statsSection crewProg) σ moves

omit [DecidableEq κ] in
theorem crewProg_tame (who : Option κ) (t : Task) (last : Option Outcome) :
    (crewProg who t last).Performs Act.Tame := by
  cases who with
  | none =>
      have hsweep : (probeSweep (recoveryCountsOf last)).Performs Act.Tame :=
        (probeSweepFrom_probes 0 kvMaxDevices _).mono fun _ h => h.tame
      exact hsweep.bind fun _ => trivial
  | some i => exact task_tame t

/-- Every run has a run in which the sections are single actions. -/
theorem lockedCrew_simulates (D : Driver δ) (s : State δ) (moves : List (Move (Option κ) Task)) :
    ∃ moves' : List (Move (Option κ) Task),
      Mutex.Simulates statsAccess Act.Tame (LockedCrew.after D (.start s) moves)
        (Crew.after D (.start s) moves') :=
  (Mutex.simulates_start s).after statsLock_reducible crewProg_tame moves

/-- **`stats_lock` makes the statistics functions atomic.**  In every interleaving of the single
accesses to the counters with all actions of the other threads, at most one thread is between the
lock and the unlock; the calls and returns are those of a run in which `update_stats`,
`kv_engine_get_stats` and `kv_engine_reset_stats` are single actions; and whenever nobody holds
the lock the whole state is the one of that run. -/
theorem lockedCrew_reduces (D : Driver δ) (s : State δ) (moves : List (Move (Option κ) Task)) :
    let σ := LockedCrew.after D (.start s) moves
    (∀ i, (σ.session i).isInside = true ↔ σ.holder = some i) ∧
      ∃ moves' : List (Move (Option κ) Task),
        let τ := Crew.after D (.start s) moves'
        σ.seen = τ.log.occurrences (fun _ t => some t) some ∧
          (σ.holder = none → σ.shared = τ.shared) := by
  obtain ⟨moves', h⟩ := lockedCrew_simulates D s moves
  exact ⟨h.holder, moves', h.seen.symm, fun hfree => (h.shared_eq hfree).symm⟩

end crew

end KvEngine
