import KvEngine.Snapshots
import Mathlib

/-! # The statistics are conserved

Every operation that issues a device command ends in one `update_stats` and one
`device_record_result` (`Task.Accounts`), however it was interleaved with other operations.  The
counters of the engine are sums over the actions in the log (`Tallied`), and when no call is in
progress these are sums over the calls that have returned (`Sessions.Booked.quiescent`).  So the
statistics can be read off the list of these calls. -/

namespace KvEngine

open Atomic

/-! ### The calls that have returned -/

/-- A task that has returned. -/
abbrev Done := Finished Task Act Act.Resp Outcome

/-- The operation that a task performs: that of a synchronous call or of a work item. -/
def Task.operation : Task → Option Call
  | .call c => some c
  | .execute item => some item.arg.call
  | _ => none

def Call.isStore : Call → Bool
  | .store _ _ _ => true
  | _ => false

def Call.isDelete : Call → Bool
  | .delete _ => true
  | _ => false

def Call.isExists : Call → Bool
  | .exists _ _ => true
  | _ => false

namespace Done

/-- The task performed an operation of the kind `p` that issued a device command. -/
def issuedBy (p : Call → Bool) (f : Done) : Bool := f.call.operation.any p && issued f.events

/-- The task was counted in `total_ops` of the statistics. -/
def counted (f : Done) : Bool := !(updates f.events).isEmpty

/-- The task returned `KV_SUCCESS`. -/
def succeeded (f : Done) : Bool :=
  match f.value with
  | .reply r => r.result = .success
  | _ => false

/-- The number of bytes of a store that returned `KV_SUCCESS`. -/
def stored (f : Done) : ℕ :=
  match f.call.operation with
  | some (.store _ (some value) _) => if f.succeeded then value.bytes.length else 0
  | _ => 0

end Done

/-! ### Sums over the log -/

/-- The weight of an action that updates the statistics. -/
def weigh (g : StatsUpdate → ℕ) (e : Event Act Act.Resp) : ℕ := (statsUpdate e).elim 0 g

/-- One for each result that is recorded. -/
def recordedOf (e : Event Act Act.Resp) : ℕ := (countedOn e).elim 0 fun _ => 1

theorem sum_weigh (g : StatsUpdate → ℕ) (ev : Events) :
    (ev.map (weigh g)).sum = ((updates ev).map g).sum := by
  induction ev with
  | nil => rfl
  | cons e ev ih =>
      unfold updates at ih ⊢
      cases he : statsUpdate e with
      | none =>
          rw [List.filterMap_cons_none he, List.map_cons, List.sum_cons, ih, weigh, he]
          exact Nat.zero_add _
      | some u =>
          rw [List.filterMap_cons_some he, List.map_cons, List.sum_cons, ih, weigh, he]
          rfl

theorem sum_recordedOf (ev : Events) : (ev.map recordedOf).sum = (recorded ev).length := by
  induction ev with
  | nil => rfl
  | cons e ev ih =>
      unfold recorded at ih ⊢
      cases he : countedOn e with
      | none =>
          rw [List.filterMap_cons_none he, List.map_cons, List.sum_cons, ih, recordedOf, he]
          exact Nat.zero_add _
      | some i =>
          rw [List.filterMap_cons_some he, List.map_cons, List.sum_cons, ih, recordedOf, he]
          exact Nat.add_comm _ _

theorem sum_indicator {α : Type} (p : α → Bool) (l : List α) :
    (l.map fun x => if p x then 1 else 0).sum = l.countP p := by
  induction l with
  | nil => rfl
  | cons x l ih => rw [List.map_cons, List.sum_cons, ih, List.countP_cons, Nat.add_comm]

/-! ### What the counters hold -/

section tally

variable {κ δ : Type} {D : Driver δ} {n i : ℕ} {s : State δ} {log : History κ δ}

/-- The bytes that an update adds to `bytes_written`. -/
def StatsUpdate.written (u : StatsUpdate) : ℕ :=
  if u.isRead && u.success then 0 else if u.isWrite && u.success then u.bytes.toNat else 0

/-- The statistics that the updates in the log add up to. -/
def History.stats (log : History κ δ) : Stats where
  totalOps := .ofNat (log.total (weigh fun _ => 1))
  readOps := .ofNat (log.total (weigh fun u => u.isRead.toNat))
  writeOps := .ofNat (log.total (weigh fun u => u.isWrite.toNat))
  deleteOps := .ofNat (log.total (weigh fun u => u.isDelete.toNat))
  failedOps := .ofNat (log.total (weigh fun u => (!u.success).toNat))
  bytesWritten := .ofNat (log.total (weigh StatsUpdate.written))
  bytesRead := .ofNat (log.total (weigh fun u =>
    if u.isRead && u.success then u.bytes.toNat else 0))

theorem stats_acted (who : Option κ) (s : State δ) (a : Act) (answer : a.Resp)
    (log : History κ δ) : History.stats (.acted who s a answer :: log) =
      (statsUpdate ⟨a, answer⟩).elim log.stats log.stats.update := by
  have htotal (g : StatsUpdate → ℕ) : Log.total (weigh g) (.acted who s a answer :: log) =
      (statsUpdate ⟨a, answer⟩).elim 0 g + log.total (weigh g) := rfl
  unfold History.stats
  simp only [htotal, UInt64.ofNat_add]
  cases statsUpdate ⟨a, answer⟩ with
  | none => simp
  | some u =>
      obtain ⟨isRead, isWrite, isDelete, success, bytes⟩ := u
      cases isRead <;> cases isWrite <;> cases isDelete <;> cases success <;>
        simp [Stats.update, StatsUpdate.written, UInt64.add_comm]

/-- Only `update_stats` and `kv_engine_reset_stats` write to the statistics. -/
theorem Allowed.stats {t : Task} {ev : Events} {a : Act} (h : Allowed n t ev a)
    (ht : t ≠ .resetStats) (s : State δ) : (exec D a s).2.stats =
      (statsUpdate ⟨a, (exec D a s).1⟩).elim s.stats s.stats.update := by
  by_cases hcommand : a.isCommand = true
  · obtain ⟨ssd, heq⟩ := exec_command (D := D) hcommand s
    rw [heq]
    cases a <;> first | rfl | cases hcommand
  cases a with
  | keyTableAdd key => exact State.addTableKey_stats s key
  | dmaPoolAcquire =>
      simp only [exec, statsUpdate, Option.elim_none]
      split <;> rfl
  | resetStats => exact absurd h ht
  | _ => first | exact absurd rfl hcommand | rfl | exact h.elim

theorem Touch.totalOps {t : Task} {ev : Events} {a : Act} (h : Touch t ev i a) (s : State δ) :
    ((exec D a s).2.devices i).totalOps =
      (s.devices i).totalOps + .ofNat (opsOf i ⟨a, (exec D a s).1⟩) := by
  cases h with
  | away haway =>
      rw [(haway.exec s).1, haway.opsOf]
      simp
  | _ => simp [exec, opsOf]

/-- The tasks of the applications and of the workers that leave the counters to the operations. -/
def Task.Ordinary : Task → Prop
  | .record _ _ => False
  | .resetStats => False
  | _ => True

instance : DecidablePred Task.Ordinary
  | .record _ _ => inferInstanceAs (Decidable False)
  | .resetStats => inferInstanceAs (Decidable False)
  | .call _ | .submit _ _ | .reject _ | .execute _ | .getDeviceHealth _ _ | .healthyDeviceCount
  | .getStats | .allocBuffer _ | .freeBuffer _ => inferInstanceAs (Decidable True)

/-- The move starts no other task. -/
def OrdinaryMove : Move (Option κ) Task → Prop
  | .invoke _ t => t.Ordinary
  | .step _ => True

instance : DecidablePred (@OrdinaryMove κ)
  | .invoke _ t => inferInstanceAs (Decidable t.Ordinary)
  | .step _ => inferInstanceAs (Decidable True)

theorem Task.Ordinary.given {t : Task} (h : t.Ordinary) : t.given = none := by
  cases t <;> first | rfl | exact h.elim

theorem Task.Ordinary.ne_resetStats {t : Task} (h : t.Ordinary) : t ≠ .resetStats := by
  rintro rfl
  exact h

/-- The task has done what it accounts for, or was a sweep of the probe. -/
def Done.Accounted (f : Done) : Prop :=
  f.call.Ordinary ∧ (f.call.Accounts f.events f.value ∨
    Fresh f.events ∧ ∃ recoveryCounts, f.value = .swept recoveryCounts)

variable [DecidableEq κ]

/-- The counters of the engine are what the actions in the log add up to. -/
structure Tallied (n : ℕ) (s : State δ) (log : History κ δ) : Prop where
  ordinary : ∀ who t, .began who t ∈ log → t.Ordinary
  stats : s.stats = log.stats
  ops : ∀ i < n, (s.devices i).totalOps = .ofNat (log.total (opsOf i))
  recorded : log.total recordedOf = ∑ i ∈ Finset.range n, log.total (opsOf i)
  accounted : ∀ f ∈ log.calls, Done.Accounted f
  probe : Fresh (log.own none)

theorem recordedOf_eq_sum {e : Event Act Act.Resp} (h : ∀ i, countedOn e = some i → i < n) :
    recordedOf e = ∑ i ∈ Finset.range n, opsOf i e := by
  obtain ⟨a, answer⟩ := e
  cases a with
  | fetchAddTotalOps j =>
      have hj : j < n := h j rfl
      show 1 = ∑ i ∈ Finset.range n, if j = i then 1 else 0
      rw [Finset.sum_ite_eq, if_pos (Finset.mem_range.mpr hj)]
  | _ => exact (Finset.sum_eq_zero fun _ _ => rfl).symm

/-- A step of a client whose task is ordinary. -/
theorem Tallied.client {j : κ} {t : Task} {a : Act} (h : Tallied n s log) (ht : t.Ordinary)
    (hallowed : Allowed n t (log.own (some j)) a) :
    Tallied n (exec D a s).2 (.acted (some j) s a (exec D a s).1 :: log) where
  ordinary who t' hmem := by
    rcases List.mem_cons.mp hmem with heq | hmem
    · cases heq
    · exact h.ordinary who t' hmem
  stats := by
    rw [hallowed.stats ht.ne_resetStats, stats_acted, h.stats]
  ops i hi := by
    rw [(hallowed.touch i).totalOps, h.ops i hi]
    show _ = UInt64.ofNat (_ + _)
    rw [UInt64.ofNat_add, UInt64.add_comm]
  recorded := by
    have hrange : ∀ k, countedOn ⟨a, (exec D a s).1⟩ = some k → k < n := by
      intro k hk
      cases a with
      | fetchAddTotalOps k' =>
          cases hk
          exact hallowed ht.given
      | _ => cases hk
    show recordedOf _ + log.total recordedOf = ∑ i ∈ Finset.range n, (opsOf i _ + log.total (opsOf i))
    rw [Finset.sum_add_distrib, h.recorded, recordedOf_eq_sum hrange]
  accounted := h.accounted
  probe := by
    have hne : (some j : Option κ) ≠ none := fun heq => by cases heq
    rw [Log.own_acted_of_ne hne]
    exact h.probe

/-- A step of the probe. -/
theorem Tallied.probing {q : ProbePhase} {a : Act} (h : Tallied n s log) (hok : q.Ok a) :
    Tallied n (exec D a s).2 (.acted none s a (exec D a s).1 :: log) where
  ordinary who t hmem := by
    rcases List.mem_cons.mp hmem with heq | hmem
    · cases heq
    · exact h.ordinary who t hmem
  stats := by
    rw [stats_acted, h.stats.symm]
    cases hok with
    | query k _ =>
        obtain ⟨ssd, heq⟩ := exec_command (D := D) (a := .kvsGetDeviceUtilization k) rfl s
        rw [heq]
        rfl
    | _ => rfl
  ops i hi := by
    have hzero : opsOf i ⟨a, (exec D a s).1⟩ = 0 := by cases hok <;> rfl
    rw [(hok.counters s).1, h.ops i hi]
    show _ = UInt64.ofNat (opsOf i _ + _)
    rw [hzero, Nat.zero_add]
  recorded := by
    have hzero (i : ℕ) : opsOf i ⟨a, (exec D a s).1⟩ = 0 := by cases hok <;> rfl
    have hzero' : recordedOf ⟨a, (exec D a s).1⟩ = 0 := by cases hok <;> rfl
    show recordedOf _ + log.total recordedOf = ∑ i ∈ Finset.range n, (opsOf i _ + log.total (opsOf i))
    simp only [hzero, hzero', Nat.zero_add]
    exact h.recorded
  accounted := h.accounted
  probe := by
    rw [Log.own_acted_self]
    obtain ⟨hissued, hrecorded, hupdates⟩ := h.probe
    cases hok <;> exact ⟨hissued, hrecorded, hupdates⟩

theorem Tallied.start (hstats : s.stats = .zero) (hops : ∀ i < n, (s.devices i).totalOps = 0) :
    Tallied n s ([] : History κ δ) where
  ordinary _ _ hmem := by cases hmem
  stats := hstats
  ops := hops
  recorded := (Finset.sum_eq_zero fun _ _ => rfl).symm
  accounted _ hf := by cases hf
  probe := fresh_nil

theorem Tallied.next {σ : Crew κ δ} (hn : 0 < n) (htracked : Crew.Tracked n σ)
    (h : Tallied n σ.shared σ.log) {m : Move (Option κ) Task} (hm : OrdinaryMove m) :
    Crew.Tracked n (σ.next D m).2 ∧ Tallied n (σ.next D m).2.shared (σ.next D m).2.log := by
  refine htracked.next (Tallied n) hn h m ?_ ?_ ?_ ?_
  · intro who t hinvoke
    refine ⟨fun who' t' hmem => ?_, h.stats, h.ops, h.recorded, h.accounted, ?_⟩
    · rcases List.mem_cons.mp hmem with heq | hmem
      · cases heq
        rw [hinvoke] at hm
        exact hm
      · exact h.ordinary who' t' hmem
    · rcases Log.own_began none who t σ.log with hnone | ⟨hsame, -⟩
      · rw [hnone]
        exact fresh_nil
      · rw [hsame]
        exact h.probe
  · intro j t a k _ hsession hallowed
    have hbegan := Log.began_of_doing (htracked.logged.busy hsession)
    exact h.client (h.ordinary _ _ hbegan) hallowed
  · intro t a k _ _ hok
    exact h.probing hok
  · intro who t o _ hsession hreturns
    have hbegan := Log.began_of_doing (htracked.logged.busy hsession)
    refine ⟨fun who' t' hmem => ?_, h.stats, h.ops, h.recorded, fun f hf => ?_, ?_⟩
    · rcases List.mem_cons.mp hmem with heq | hmem
      · cases heq
      · exact h.ordinary who' t' hmem
    · rcases List.mem_cons.mp hf with rfl | hf
      · refine ⟨h.ordinary _ _ hbegan, ?_⟩
        cases who with
        | none => exact .inr ⟨h.probe, hreturns⟩
        | some j => exact .inl hreturns
      · exact h.accounted f hf
    · rcases Log.own_ended none who t o σ.log with hnone | ⟨hsame, -⟩
      · rw [hnone]
        exact fresh_nil
      · rw [hsame]
        exact h.probe

end tally

/-! ### What a call adds to the counters -/

section calls

variable {f : Done}

/-- What a task that has returned has added to the counters. -/
structure Done.Contributes (f : Done) : Prop where
  kind : ∀ u ∈ updates f.events, u.isRead.toNat + u.isWrite.toNat + u.isDelete.toNat = 1
  counted : ((updates f.events).map fun _ => 1).sum = if f.counted then 1 else 0
  writes : ((updates f.events).map fun u => u.isWrite.toNat).sum =
    if f.issuedBy Call.isStore then 1 else 0
  deletes : ((updates f.events).map fun u => u.isDelete.toNat).sum =
    if f.issuedBy Call.isDelete then 1 else 0
  failed : ((updates f.events).map fun u => (!u.success).toNat).sum =
    if f.counted && !f.succeeded then 1 else 0
  bytes : ((updates f.events).map StatsUpdate.written).sum = f.stored % 2 ^ 64
  recorded : (recorded f.events).length =
    ((updates f.events).map fun _ => 1).sum + if f.issuedBy Call.isExists then 1 else 0

/-- A task that was not counted contributes nothing.  A retrieve may have issued a command. -/
theorem Done.contributes_of_uncounted (h : Uncounted f.events)
    (hstore : f.issuedBy Call.isStore = false) (hdelete : f.issuedBy Call.isDelete = false)
    (hexists : f.issuedBy Call.isExists = false) (hstored : f.stored = 0) : f.Contributes := by
  obtain ⟨hrecorded, hupdates⟩ := h
  constructor <;> simp [hrecorded, hupdates, hstore, hdelete, hexists, hstored, Done.counted]

/-- A task that was counted once contributes the one update it made. -/
theorem Done.contributes_of_counted {u : StatsUpdate} (h : Counted f.events u)
    (hkind : u.isRead.toNat + u.isWrite.toNat + u.isDelete.toNat = 1)
    (hsuccess : u.success = f.succeeded)
    (hwrite : f.issuedBy Call.isStore = u.isWrite) (hdelete : f.issuedBy Call.isDelete = u.isDelete)
    (hexists : f.issuedBy Call.isExists = false) (hbytes : u.written = f.stored % 2 ^ 64) :
    f.Contributes := by
  obtain ⟨⟨i, hrecorded⟩, hupdates⟩ := h
  have hcounted : f.counted = true := by
    unfold Done.counted
    rw [hupdates]
    rfl
  constructor
  · rw [hupdates]
    intro v hv
    rw [List.mem_singleton.mp hv]
    exact hkind
  · rw [hupdates, hcounted]
    rfl
  · rw [hupdates, hwrite]
    cases hu : u.isWrite <;> simp [hu]
  · rw [hupdates, hdelete]
    cases hu : u.isDelete <;> simp [hu]
  · rw [hupdates, hcounted, ← hsuccess]
    cases hu : u.success <;> simp [hu]
  · rw [hupdates]
    exact hbytes
  · rw [hupdates, hrecorded, hexists]
    rfl

section operation

variable {c : Call} {r : Reply}

theorem Done.issuedBy_eq (hop : f.call.operation = some c) (p : Call → Bool) :
    f.issuedBy p = (p c && issued f.events) := by
  unfold Done.issuedBy
  rw [hop]
  rfl

theorem Done.not_issuedBy (hop : f.call.operation = some c) (hissued : issued f.events = false)
    (p : Call → Bool) : f.issuedBy p = false := by
  rw [Done.issuedBy_eq hop, hissued, Bool.and_false]

theorem Done.succeeded_eq (hvalue : f.value = .reply r) :
    f.succeeded = decide (r.result = .success) := by
  unfold Done.succeeded
  rw [hvalue]

/-- Only a store adds bytes. -/
theorem Done.stored_eq_zero (hop : f.call.operation = some c) (hc : c.isStore = false) :
    f.stored = 0 := by
  unfold Done.stored
  rw [hop]
  cases c with
  | store key value overwrite => cases hc
  | _ => rfl

theorem Done.contributes_store {key : Option Bytes} {value : Option Buf} {overwrite : Bool}
    (hop : f.call.operation = some (.store key value overwrite)) (hvalue : f.value = .reply r)
    (h : (Call.store key value overwrite).Accounts f.events r) : f.Contributes := by
  have hstored : f.stored = value.elim 0 fun v => if f.succeeded then v.bytes.length else 0 := by
    unfold Done.stored
    rw [hop]
    cases value <;> rfl
  rcases h with ⟨hissued, huncounted, hfailed⟩ | ⟨hissued, v, rfl, hcounted⟩
  · have hnone := Done.not_issuedBy hop hissued
    refine Done.contributes_of_uncounted huncounted (hnone _) (hnone _) (hnone _) ?_
    rw [hstored, Done.succeeded_eq hvalue, decide_eq_false hfailed]
    cases value <;> rfl
  · refine Done.contributes_of_counted hcounted rfl (Done.succeeded_eq hvalue).symm ?_ ?_ ?_ ?_
    · rw [Done.issuedBy_eq hop, hissued]
      rfl
    · exact Done.issuedBy_eq hop _
    · exact Done.issuedBy_eq hop _
    · rw [hstored, Done.succeeded_eq hvalue]
      by_cases hr : r.result = .success <;> simp [StatsUpdate.written, hr]

theorem Done.contributes_retrieve {key : Option Bytes} {outs del : Bool}
    (hop : f.call.operation = some (.retrieve key outs del)) (hvalue : f.value = .reply r)
    (h : (Call.retrieve key outs del).Accounts f.events r) : f.Contributes := by
  have hstored : f.stored = 0 := Done.stored_eq_zero hop rfl
  rcases h with ⟨huncounted, -⟩ | ⟨bytes, hcounted⟩
  · exact Done.contributes_of_uncounted huncounted (Done.issuedBy_eq hop _)
      (Done.issuedBy_eq hop _) (Done.issuedBy_eq hop _) hstored
  · refine Done.contributes_of_counted hcounted rfl (Done.succeeded_eq hvalue).symm
      (Done.issuedBy_eq hop _) (Done.issuedBy_eq hop _) (Done.issuedBy_eq hop _) ?_
    rw [hstored]
    by_cases hr : r.result = .success <;> simp [StatsUpdate.written, hr]

theorem Done.contributes_delete {key : Option Bytes}
    (hop : f.call.operation = some (.delete key)) (hvalue : f.value = .reply r)
    (h : (Call.delete key).Accounts f.events r) : f.Contributes := by
  have hstored : f.stored = 0 := Done.stored_eq_zero hop rfl
  rcases h with ⟨hissued, huncounted, -⟩ | ⟨hissued, hcounted⟩
  · have hnone := Done.not_issuedBy hop hissued
    exact Done.contributes_of_uncounted huncounted (hnone _) (hnone _) (hnone _) hstored
  · refine Done.contributes_of_counted hcounted rfl (Done.succeeded_eq hvalue).symm
      (Done.issuedBy_eq hop _) ?_ (Done.issuedBy_eq hop _) ?_
    · rw [Done.issuedBy_eq hop, hissued]
      rfl
    · rw [hstored]
      simp [StatsUpdate.written]

theorem Done.contributes_exists {key : Option Bytes} {outs : Bool}
    (hop : f.call.operation = some (.exists key outs))
    (h : (Call.exists key outs).Accounts f.events r) : f.Contributes := by
  have hstored : f.stored = 0 := Done.stored_eq_zero hop rfl
  rcases h with ⟨hissued, huncounted⟩ | ⟨hissued, ⟨i, hrecorded⟩, hupdates⟩
  · have hnone := Done.not_issuedBy hop hissued
    exact Done.contributes_of_uncounted huncounted (hnone _) (hnone _) (hnone _) hstored
  · constructor <;>
      simp [Done.issuedBy_eq hop, hupdates, hrecorded, hissued, hstored, Done.counted, Call.isStore,
        Call.isDelete, Call.isExists]

/-- An operation contributes what it accounts for. -/
theorem Done.contributes_of_accounts (hop : f.call.operation = some c) (hvalue : f.value = .reply r)
    (h : c.Accounts f.events r) : f.Contributes := by
  cases c with
  | store key value overwrite => exact Done.contributes_store hop hvalue h
  | retrieve key outs del => exact Done.contributes_retrieve hop hvalue h
  | delete key => exact Done.contributes_delete hop hvalue h
  | «exists» key outs => exact Done.contributes_exists hop h

end operation

theorem Task.Accounts.of_operation {t : Task} {ev : Events} {o : Outcome} {c : Call}
    (h : t.Accounts ev o) (hop : t.operation = some c) : ∃ r, o = .reply r ∧ c.Accounts ev r := by
  cases t <;> first | (cases hop; exact h) | cases hop

theorem Task.Accounts.uncounted {t : Task} {ev : Events} {o : Outcome} (h : t.Accounts ev o)
    (hordinary : t.Ordinary) (hop : t.operation = none) : Uncounted ev := by
  cases t with
  | call c => cases hop
  | execute item => cases hop
  | record i r => exact hordinary.elim
  | getDeviceHealth i out => exact h.1
  | _ => exact h

/-- Every task that has returned contributes what its kind and its result say. -/
theorem Done.Accounted.contributes (h : f.Accounted) : f.Contributes := by
  obtain ⟨hordinary, haccounts | ⟨hfresh, counts, hvalue⟩⟩ := h
  · cases hop : f.call.operation with
    | some c =>
        obtain ⟨r, hvalue, hc⟩ := haccounts.of_operation hop
        exact Done.contributes_of_accounts hop hvalue hc
    | none =>
        have hissued (p : Call → Bool) : f.issuedBy p = false := by
          unfold Done.issuedBy
          rw [hop]
          rfl
        have hstored : f.stored = 0 := by
          unfold Done.stored
          rw [hop]
        exact Done.contributes_of_uncounted (haccounts.uncounted hordinary hop) (hissued _)
          (hissued _) (hissued _) hstored
  · have hissued (p : Call → Bool) : f.issuedBy p = false := by
      unfold Done.issuedBy
      rw [hfresh.issued, Bool.and_false]
    have hsucceeded : f.succeeded = false := by
      unfold Done.succeeded
      rw [hvalue]
    have hstored : f.stored = 0 := by
      unfold Done.stored
      rw [hsucceeded]
      split <;> rfl
    exact Done.contributes_of_uncounted hfresh.uncounted (hissued _) (hissued _) (hissued _) hstored

end calls

/-! ### The balance -/

section balance

variable {κ δ : Type} [DecidableEq κ] [Fintype κ] {D : Driver δ} {n : ℕ} {σ : Crew κ δ}

theorem ofNat_sum_mod (l : List ℕ) :
    UInt64.ofNat (l.map fun x => x % 2 ^ 64).sum = UInt64.ofNat l.sum := by
  induction l with
  | nil => rfl
  | cons x l ih =>
      rw [List.map_cons, List.sum_cons, List.sum_cons, UInt64.ofNat_add, UInt64.ofNat_add, ih]
      congr 1
      exact UInt64.toNat_inj.mp (by simp)

theorem sum_ofNat (f : ℕ → ℕ) (l : List ℕ) :
    (l.map fun i => UInt64.ofNat (f i)).sum = UInt64.ofNat (l.map f).sum := by
  induction l with
  | nil => rfl
  | cons x l ih => rw [List.map_cons, List.map_cons, List.sum_cons, List.sum_cons, UInt64.ofNat_add, ih]

/-- No call is in progress, and the counters are what the log adds up to. -/
structure Settled (n : ℕ) (σ : Crew κ δ) : Prop where
  quiescent : σ.Quiescent
  booked : ∀ w, Sessions.Booked w σ
  tallied : Tallied n σ.shared σ.log

namespace Settled

variable (h : Settled n σ)
include h

theorem contributes (f : Done) (hf : f ∈ σ.log.calls) : f.Contributes :=
  (h.tallied.accounted f hf).contributes

/-- A weight of the updates, summed over the calls that have returned. -/
theorem total_weigh (g : StatsUpdate → ℕ) : σ.log.total (weigh g) =
    (σ.log.calls.map fun f => ((updates f.events).map g).sum).sum := by
  rw [(h.booked (weigh g)).quiescent h.quiescent]
  simp only [sum_weigh]

/-- A weight that tells whether a call has the property `p` counts the calls that have it. -/
theorem total_weigh_eq_countP {g : StatsUpdate → ℕ} {p : Done → Bool}
    (hp : ∀ f : Done, f.Contributes → ((updates f.events).map g).sum = if p f then 1 else 0) :
    σ.log.total (weigh g) = σ.log.calls.countP p := by
  have hcongr : ∀ f ∈ σ.log.calls, ((updates f.events).map g).sum = if p f then 1 else 0 :=
    fun f hf => hp f (h.contributes f hf)
  rw [h.total_weigh, List.map_congr_left hcongr, sum_indicator]

/-- Every operation that is counted is of one kind. -/
theorem total_kinds : σ.log.total (weigh fun _ => 1) =
    σ.log.total (weigh fun u => u.isRead.toNat) + σ.log.total (weigh fun u => u.isWrite.toNat) +
      σ.log.total (weigh fun u => u.isDelete.toNat) := by
  have hkind : ∀ f ∈ σ.log.calls, ((updates f.events).map fun _ => 1).sum =
      ((updates f.events).map fun u => u.isRead.toNat).sum +
        ((updates f.events).map fun u => u.isWrite.toNat).sum +
        ((updates f.events).map fun u => u.isDelete.toNat).sum := by
    intro f hf
    rw [← List.sum_map_add, ← List.sum_map_add]
    exact congrArg List.sum
      (List.map_congr_left fun u hu => ((h.contributes f hf).kind u hu).symm)
  rw [h.total_weigh, h.total_weigh, h.total_weigh, h.total_weigh, ← List.sum_map_add,
    ← List.sum_map_add, List.map_congr_left hkind]

/-- A result is recorded for every operation that is counted and for every `kv_engine_exists`
that issued its command. -/
theorem total_recorded : σ.log.total recordedOf = σ.log.total (weigh fun _ => 1) +
    σ.log.calls.countP (Done.issuedBy Call.isExists) := by
  have hrecorded : ∀ f ∈ σ.log.calls, (f.events.map recordedOf).sum =
      ((updates f.events).map fun _ => 1).sum +
        if Done.issuedBy Call.isExists f then 1 else 0 := by
    intro f hf
    rw [sum_recordedOf]
    exact (h.contributes f hf).recorded
  rw [(h.booked recordedOf).quiescent h.quiescent, List.map_congr_left hrecorded, List.sum_map_add,
    sum_indicator, h.total_weigh]

theorem total_written : σ.log.total (weigh StatsUpdate.written) =
    ((σ.log.calls.map Done.stored).map fun x => x % 2 ^ 64).sum := by
  rw [h.total_weigh, List.map_map]
  exact congrArg List.sum (List.map_congr_left fun f hf => (h.contributes f hf).bytes)

/-- The operations of all devices together. -/
theorem sum_totalOps : ((List.range n).map fun i => (σ.shared.devices i).totalOps).sum =
    UInt64.ofNat (σ.log.total recordedOf) := by
  have hops : ∀ i ∈ List.range n, (σ.shared.devices i).totalOps =
      UInt64.ofNat (σ.log.total (opsOf i)) := fun i hi => h.tallied.ops i (List.mem_range.mp hi)
  rw [List.map_congr_left hops, sum_ofNat, h.tallied.recorded]
  rfl

end Settled

/-- In every state without a call in progress, the statistics of the engine and of its devices are
what the calls that have returned say, modulo 2^64.  The calls are the synchronous ones and the
work items executed by the workers, in any interleaving and with any device results; nobody
resets the statistics. -/
theorem statistics_conserved (D : Driver δ) {s : State δ} (hn : 0 < s.numDevices)
    (hstats : s.stats = .zero) (hops : ∀ i < s.numDevices, (s.devices i).totalOps = 0)
    {moves : List (Move (Option κ) Task)}
    (hmoves : ∀ m ∈ moves, OrdinaryMove m)
    (hquiescent : (Crew.after D (.start s) moves).Quiescent) :
    let σ := Crew.after D (.start s) moves
    let stats := σ.shared.stats
    stats.totalOps = stats.readOps + stats.writeOps + stats.deleteOps ∧
      stats.totalOps = .ofNat (σ.log.calls.countP Done.counted) ∧
      stats.writeOps = .ofNat (σ.log.calls.countP (Done.issuedBy Call.isStore)) ∧
      stats.deleteOps = .ofNat (σ.log.calls.countP (Done.issuedBy Call.isDelete)) ∧
      stats.failedOps = .ofNat (σ.log.calls.countP fun f => Done.counted f && !Done.succeeded f) ∧
      stats.bytesWritten = .ofNat (σ.log.calls.map Done.stored).sum ∧
      ((List.range s.numDevices).map fun i => (σ.shared.devices i).totalOps).sum =
        stats.totalOps + .ofNat (σ.log.calls.countP (Done.issuedBy Call.isExists)) := by
  intro σ stats
  have hinv : Crew.Tracked s.numDevices σ ∧ Tallied s.numDevices σ.shared σ.log := by
    have hall : Machine.Always (fun _ m => OrdinaryMove m) (Crew.next D) (.start s : Crew κ δ)
        moves := Machine.always_of_forall_mem hmoves _
    refine hall.invariant (fun σ : Crew κ δ => Crew.Tracked s.numDevices σ ∧
      Tallied s.numDevices σ.shared σ.log) ?_ ?_
    · intro σ m h hm
      exact Tallied.next hn h.1 h.2 hm
    · exact ⟨Crew.tracked_start hn, .start hstats hops⟩
  have h : Settled s.numDevices σ := ⟨hquiescent, fun w => Machine.invariant (Sessions.Booked w)
    (fun _ m hσ => hσ.next m) (Sessions.booked_start w s) moves, hinv.2⟩
  have hstats : stats = History.stats σ.log := h.tallied.stats
  rw [h.sum_totalOps, h.total_recorded, hstats]
  refine ⟨?_, ?_, ?_, ?_, ?_, ?_, ?_⟩
  · show UInt64.ofNat _ = UInt64.ofNat _ + UInt64.ofNat _ + UInt64.ofNat _
    rw [h.total_kinds, UInt64.ofNat_add, UInt64.ofNat_add]
  · rw [← h.total_weigh_eq_countP fun f hf => hf.counted]
    rfl
  · rw [← h.total_weigh_eq_countP fun f hf => hf.writes]
    rfl
  · rw [← h.total_weigh_eq_countP fun f hf => hf.deletes]
    rfl
  · rw [← h.total_weigh_eq_countP fun f hf => hf.failed]
    rfl
  · rw [← ofNat_sum_mod, ← h.total_written]
    rfl
  · rw [UInt64.ofNat_add]
    rfl

/-- A store and a retrieve of a missing key side by side, an asynchronous store executed by a
worker, an existence check, and a delete between two sweeps of the probe. -/
def mixedCalls : List (Move (Option (Fin 2)) Task) :=
  ([.invoke (some 0) (.call (.store (some [107, 101, 121, 49]) (some ⟨0, [118, 49]⟩) true)),
    .invoke (some 1) (.call (.retrieve (some [107, 101, 121, 50]) true false))] :
      List (Move (Option (Fin 2)) Task)) ++
  (List.replicate 14 ([.step (some 0), .step (some 1)] : List (Move _ Task))).flatten ++
  ([.invoke (some 0)
      (.execute ⟨0, ⟨7, .store, [107, 101, 121, 51], some ⟨0, [118]⟩, true, false, 0, true⟩⟩),
    .invoke (some 1) (.call (.exists (some [107, 101, 121, 49]) true))] :
      List (Move (Option (Fin 2)) Task)) ++
  (List.replicate 16
    ([.step (some 1), .step (some 0), .step none] : List (Move (Option (Fin 2)) Task))).flatten ++
  sweeping 7 ++ deleting 1 12

theorem statistics_conserved_mixedCalls :
    let σ := Crew.after keySpaceDriver (.start freshEngine) mixedCalls
    let stats := σ.shared.stats
    (stats.totalOps, stats.writeOps, stats.deleteOps, stats.failedOps, stats.bytesWritten) =
        (4, 2, 1, 1, 3) ∧
      stats.totalOps = stats.readOps + stats.writeOps + stats.deleteOps ∧
      stats.writeOps = .ofNat (σ.log.calls.countP (Done.issuedBy Call.isStore)) := by
  have hmoves : ∀ m ∈ mixedCalls, OrdinaryMove m := by decide +kernel
  have hquiescent : (Crew.after keySpaceDriver (.start freshEngine) mixedCalls).Quiescent := by
    decide +kernel
  have h := statistics_conserved keySpaceDriver (by decide +kernel) (by decide +kernel)
    (by decide +kernel) hmoves hquiescent
  exact ⟨by decide +kernel, h.1, h.2.2.1⟩

end balance

end KvEngine
