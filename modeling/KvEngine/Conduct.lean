import KvEngine.Tasks

/-! # What a task can do

`conduct` is the protocol that every task of `Tasks.lean` follows.  The phase of a task is the
list of its own actions with their answers, the latest first, so a promise can look back at what
the task did: an error is counted in `total_errors` only after the operation was counted in
`total_ops`, and in `consecutive_errors` only after that; a device is condemned only for an
unplug result or when `consecutive_errors` came back at the limit; `kv_engine_get_device_health`
loads the three counters in the opposite order; and no task declares a device healthy.

`Task.Accounts` relates the actions of a task that has returned to what it returned.  Both are
proved here once, for every task and whatever the engine answers (`task_follows`). -/

namespace KvEngine

open Atomic

/-- The actions of a task, the latest first. -/
abbrev Events := List (Event Act Act.Resp)

/-! ### Reading the actions of a task -/

/-- The result of a device command. -/
def commandResult : Event Act Act.Resp → Option KvsResult
  | ⟨.kvsStoreKvp _ _ _ _, r⟩ => some r
  | ⟨.kvsRetrieveKvp _ _ _ _ _, r⟩ => some r.1
  | ⟨.kvsDeleteKvp _ _ _, r⟩ => some r
  | ⟨.kvsExistKvPairs _ _, r⟩ => some r.1
  | _ => none

/-- The result a task is given to record. -/
def Task.given : Task → Option KvsResult
  | .record _ kvsRes => some kvsRes
  | _ => none

/-- The result that `device_record_result` records: that of the last device command, or the one
the task was given. -/
def lastResult (t : Task) (ev : Events) : Option KvsResult := (ev.findSome? commandResult).or t.given

/-- The task has issued a device command. -/
def issued (ev : Events) : Bool := ev.any fun e => (commandResult e).isSome

/-- The device whose `total_ops` the action counts. -/
def countedOn : Event Act Act.Resp → Option ℕ
  | ⟨.fetchAddTotalOps i, _⟩ => some i
  | _ => none

/-- The devices on which the task has recorded a result. -/
def recorded (ev : Events) : List ℕ := ev.filterMap countedOn

/-- The arguments of `update_stats`. -/
def statsUpdate : Event Act Act.Resp → Option StatsUpdate
  | ⟨.updateStats u, _⟩ => some u
  | _ => none

/-- The updates of the statistics that the task has made. -/
def updates (ev : Events) : List StatsUpdate := ev.filterMap statsUpdate

/-- What the rest of a task may depend on. -/
structure Tally where
  issued : Bool
  result : Option KvsResult
  recorded : List ℕ
  updates : List StatsUpdate

/-- The tally of the actions so far. -/
def tally (t : Task) (ev : Events) : Tally :=
  ⟨issued ev, lastResult t ev, recorded ev, updates ev⟩

/-! ### The protocol -/

/-- The results of an unplugged device. -/
def isUnplug : KvsResult → Bool
  | .devNotExist => true
  | .devNotOpened => true
  | _ => false

/-- The task is entitled to mark the device `i` unhealthy: it has just counted an error of it,
and either the device is unplugged or the count has reached the limit it has loaded. -/
def Condemns (t : Task) (ev : Events) (i : ℕ) : Prop :=
  (∃ prev rest, ev = ⟨.fetchAddConsecutiveErrors i, prev⟩ :: rest ∧
    ∃ r, lastResult t ev = some r ∧ isUnplug r = true) ∨
  ∃ (max : UInt32) (prev : UInt64) (rest : Events),
    ev = ⟨.loadMaxConsecutiveErrors i, max⟩ :: ⟨.fetchAddConsecutiveErrors i, prev⟩ :: rest ∧
      max.toUInt64 ≤ prev + 1

/-- The actions that have nothing to do with the counters. -/
def Act.Neutral : Act → Prop
  | .loadInitialized => True
  | .loadNumDevices => True
  | .loadHealthy _ => True
  | .loadMaxConsecutiveErrors _ => True
  | .loadConsecutiveErrors _ => True
  | .loadDevicePath _ => True
  | .keyTableAdd _ => True
  | .keyTableDelete _ => True
  | .keyTableFind _ => True
  | .kvsReadUtilization _ => True
  | .kvsGetDeviceCapacity _ => True
  | .getStats => True
  | .dmaPoolAcquire => True
  | .dmaPoolRelease _ => True
  | .alloc _ => True
  | .free _ => True
  | .loadBufferPool => True
  | .loadWorkers => True
  | .callback _ => True
  | .freeContext _ => True
  | _ => False

/-- What the task `t` may do next on an engine with `n` devices. -/
def Allowed (n : ℕ) (t : Task) (ev : Events) : Act → Prop
  | .fetchAddTotalOps i => t.given = none → i < n
  | .fetchAddTotalErrors i => ∃ answer rest, ev = ⟨.fetchAddTotalOps i, answer⟩ :: rest
  | .fetchAddConsecutiveErrors i => ∃ answer rest, ev = ⟨.fetchAddTotalErrors i, answer⟩ :: rest
  | .storeConsecutiveErrors _ v => v = 0
  | .storeHealthy i b => b = false ∧ Condemns t ev i
  | .loadTotalErrors i => ∃ answer rest, ev = ⟨.loadConsecutiveErrors i, answer⟩ :: rest
  | .loadTotalOps i => ∃ errors consecutive rest,
      ev = ⟨.loadTotalErrors i, errors⟩ :: ⟨.loadConsecutiveErrors i, consecutive⟩ :: rest
  | .kvsStoreKvp _ _ _ _ => True
  | .kvsRetrieveKvp _ _ _ _ _ => True
  | .kvsDeleteKvp _ _ _ => True
  | .kvsExistKvPairs _ _ => True
  | .updateStats _ => True
  | .resetStats => t = .resetStats
  | a => a.Neutral

/-- The answers a task can get: the number of devices stays. -/
def Answered (n : ℕ) : (a : Act) → a.Resp → Prop
  | .loadNumDevices, m => m = n
  | _, _ => True

/-- The protocol of the task `t`. -/
def conduct (n : ℕ) (t : Task) : Protocol Act Act.Resp Events where
  ok := Allowed n t
  answers _ := Answered n
  next ev a answer := ⟨a, answer⟩ :: ev

variable {n : ℕ} {t : Task} {ev : Events}

theorem Act.Neutral.allowed {a : Act} (h : a.Neutral) : Allowed n t ev a := by
  cases a <;> first | exact h | exact h.elim

theorem tally_neutral {a : Act} (h : a.Neutral) (answer : a.Resp) :
    tally t (⟨a, answer⟩ :: ev) = tally t ev := by
  cases a <;> first | rfl | exact h.elim

theorem neutral_conduct {α : Type} {p : M α} (hp : p.Performs Act.Neutral) :
    p.Follows (conduct n t) (fun ev' _ => tally t ev' = tally t ev) ev := by
  induction p generalizing ev with
  | ret value => exact rfl
  | act a k ih =>
      obtain ⟨ha, hk⟩ := hp
      refine ⟨ha.allowed, fun answer _ => ?_⟩
      have hrest : (k answer).Follows (conduct n t)
          (fun ev' _ => tally t ev' = tally t (⟨a, answer⟩ :: ev)) (⟨a, answer⟩ :: ev) :=
        ih answer (hk answer)
      rw [tally_neutral ha] at hrest
      exact hrest

/-! ### What a task has done when it returns -/

/-- Nothing was recorded and the statistics were left alone. -/
def Uncounted (ev : Events) : Prop := recorded ev = [] ∧ updates ev = []

/-- One result was recorded and the statistics were updated once, with `u`. -/
def Counted (ev : Events) (u : StatsUpdate) : Prop := (∃ i, recorded ev = [i]) ∧ updates ev = [u]

/-- The actions of a call that has returned `r`. -/
def Call.Accounts (c : Call) (ev : Events) (r : Reply) : Prop :=
  match c with
  | .store _ value _ =>
      issued ev = false ∧ Uncounted ev ∧ r.result ≠ .success ∨
        issued ev = true ∧ ∃ v, value = some v ∧
          Counted ev ⟨false, true, false, r.result = .success, v.bytes.length.toUInt64⟩
  | .retrieve _ _ _ =>
      Uncounted ev ∧ r.result ≠ .success ∨
        ∃ bytes, Counted ev ⟨true, false, false, r.result = .success, bytes⟩
  | .delete _ =>
      issued ev = false ∧ Uncounted ev ∧ r.result ≠ .success ∨
        issued ev = true ∧ Counted ev ⟨false, false, true, r.result = .success, 0⟩
  | .exists _ _ =>
      issued ev = false ∧ Uncounted ev ∨
        issued ev = true ∧ (∃ i, recorded ev = [i]) ∧ updates ev = []

/-- The snapshot shows the counters as they were loaded: the total of the operations last, just
after the total of the errors, and this just after the consecutive errors. -/
def Snapshot (i : ℕ) (ev : Events) (h : DeviceHealth) : Prop :=
  ∃ later earlier, ev = later ++ ⟨.loadTotalOps i, h.totalOps⟩ ::
    ⟨.loadTotalErrors i, h.totalErrors⟩ ::
    ⟨.loadConsecutiveErrors i, h.consecutiveErrors⟩ :: earlier

/-- The actions of a task that has returned. -/
def Task.Accounts (t : Task) (ev : Events) (o : Outcome) : Prop :=
  match t with
  | .call c => ∃ r, o = .reply r ∧ c.Accounts ev r
  | .execute item => ∃ r, o = .reply r ∧ item.arg.call.Accounts ev r
  | .record _ _ => updates ev = []
  | .getDeviceHealth i _ => Uncounted ev ∧ ∀ r h, o = .health r (some h) → Snapshot i ev h
  | _ => Uncounted ev

/-! ### The functions of the source -/

section functions

/-- Recording the result of the last command counts one operation of the device. -/
theorem deviceRecordResult_conduct {i : ℕ} (hi : t.given = none → i < n) {r : KvsResult}
    (hr : lastResult t ev = some r) :
    (deviceRecordResult i r).Follows (conduct n t)
      (fun ev' _ => tally t ev' = { tally t ev with recorded := i :: recorded ev }) ev := by
  refine ⟨hi, fun ops _ => ?_⟩
  show Prog.Follows _ _ (if _ then _ else _) _
  split
  · refine ⟨⟨_, _, rfl⟩, fun errors _ => ⟨⟨_, _, rfl⟩, fun prev _ => ?_⟩⟩
    show Prog.Follows _ _ (if _ then _ else _) _
    split
    · rename_i hunplug
      refine ⟨⟨rfl, .inl ⟨_, _, rfl, r, hr, ?_⟩⟩, fun _ _ => rfl⟩
      rcases hunplug with rfl | rfl <;> rfl
    · refine ⟨trivial, fun max _ => ?_⟩
      show Prog.Follows _ _ (if _ then _ else _) _
      split
      · rename_i hlimit
        exact ⟨⟨rfl, .inr ⟨max, prev, _, rfl, hlimit⟩⟩, fun _ _ => rfl⟩
      · exact rfl
  · exact ⟨rfl, fun _ _ => rfl⟩

/-- The checks at the start of an operation. -/
theorem guarded_conduct (hn : 0 < n) {α : Type} {pointers : Bool} {key : Option Bytes}
    {refuse : KvResult → α} {body : Bytes → ℕ → M α} {post : Events → α → Prop}
    (hrefuse : ∀ e ev', e ≠ .success → tally t ev' = tally t ev → post ev' (refuse e))
    (hbody : ∀ key i ev', i < n → tally t ev' = tally t ev →
      (body key i).Follows (conduct n t) post ev') :
    (guarded pointers key refuse body).Follows (conduct n t) post ev := by
  refine ⟨trivial, fun initialized _ => ?_⟩
  cases key with
  | none => exact hrefuse _ _ (by decide) rfl
  | some key =>
      show Prog.Follows _ _ (if _ then _ else _) _
      split
      · exact hrefuse _ _ (by decide) rfl
      · split
        · exact hrefuse _ _ (by decide) rfl
        · refine ⟨trivial, fun m hm => ?_⟩
          obtain rfl : m = n := hm
          refine ⟨trivial, fun healthy _ => ?_⟩
          cases healthy with
          | false => exact hrefuse _ _ (by decide) rfl
          | true => exact hbody key _ _ (kvEngineShardForKey_lt key hn) rfl

theorem dmaAlloc_neutral (size : ℕ) : (dmaAlloc size).Performs Act.Neutral :=
  dmaAlloc_performs trivial

theorem releaseBuffer_neutral (fromPool : Bool) (b : Addr) :
    (releaseBuffer fromPool b).Performs Act.Neutral :=
  releaseBuffer_performs trivial trivial fromPool

theorem forgetRetrieved_neutral (key : Bytes) (deleted : Bool) :
    (forgetRetrieved key deleted).Performs Act.Neutral := by
  cases deleted
  · exact trivial
  · exact ⟨trivial, fun _ => trivial⟩

theorem freeAligned_neutral (b : Option Addr) : (freeAligned b).Performs Act.Neutral := by
  cases b
  · exact trivial
  · exact ⟨trivial, fun _ => trivial⟩

/-- The task has not done anything that counts. -/
structure Fresh (ev : Events) : Prop where
  issued : issued ev = false
  recorded : recorded ev = []
  updates : updates ev = []

theorem Fresh.of_tally {ev' : Events} (h : Fresh ev) (heq : tally t ev' = tally t ev) :
    Fresh ev' where
  issued := (congrArg Tally.issued heq).trans h.issued
  recorded := (congrArg Tally.recorded heq).trans h.recorded
  updates := (congrArg Tally.updates heq).trans h.updates

theorem Fresh.uncounted (h : Fresh ev) : Uncounted ev := ⟨h.recorded, h.updates⟩

theorem Uncounted.of_tally {ev' : Events} (h : Uncounted ev) (heq : tally t ev' = tally t ev) :
    Uncounted ev' :=
  ⟨(congrArg Tally.recorded heq).trans h.1, (congrArg Tally.updates heq).trans h.2⟩

theorem Uncounted.cons (h : Uncounted ev) {e : Event Act Act.Resp} (hops : countedOn e = none)
    (hstats : statsUpdate e = none) : Uncounted (e :: ev) := by
  unfold Uncounted recorded updates at h ⊢
  rw [List.filterMap_cons_none hops, List.filterMap_cons_none hstats]
  exact h

/-- The end of an operation: one result recorded, and then one update of the statistics. -/
theorem counted_of_tally {ev' ev'' : Events} {i : ℕ}
    (hrecord : tally t ev' = { tally t ev with recorded := i :: recorded ev }) (h : Uncounted ev)
    (hneutral : tally t ev'' = tally t ev') (u : StatsUpdate) (answer : (Act.updateStats u).Resp) :
    issued (⟨.updateStats u, answer⟩ :: ev'') = issued ev ∧
      Counted (⟨.updateStats u, answer⟩ :: ev'') u := by
  have heq := hneutral.trans hrecord
  have hissued : issued ev'' = issued ev := congrArg Tally.issued heq
  have hrecorded : recorded ev'' = i :: recorded ev := congrArg Tally.recorded heq
  have hupdates : updates ev'' = updates ev := congrArg Tally.updates heq
  rw [h.1] at hrecorded
  rw [h.2] at hupdates
  refine ⟨hissued, ⟨i, hrecorded⟩, ?_⟩
  show u :: updates ev'' = [u]
  rw [hupdates]

theorem decide_mapKvsResult (r : KvsResult) :
    decide (mapKvsResult r = .success) = decide (r = .success) := by
  simp only [mapKvsResult_eq_success]

theorem storeTail_conduct {i : ℕ} (hi : i < n) (hfresh : Fresh ev) (key value : Bytes)
    (overwrite : Bool) (b : Option Addr) :
    (storeTail key i value overwrite b).Follows (conduct n t)
      (fun ev' r => issued ev' = true ∧
        Counted ev' ⟨false, true, false, r = .success, value.length.toUInt64⟩) ev := by
  refine ⟨trivial, fun _ _ => ⟨trivial, fun r _ => ?_⟩⟩
  refine (deviceRecordResult_conduct (fun _ => hi) rfl).bind fun ev₁ _ hrecord => ?_
  refine (neutral_conduct (freeAligned_neutral b)).bind fun ev₂ _ hneutral => ?_
  refine ⟨trivial, fun answer _ => ?_⟩
  obtain ⟨hissued, hcounted⟩ := counted_of_tally hrecord
    ((hfresh.uncounted.cons rfl rfl).cons rfl rfl) hneutral
    ⟨false, true, false, decide (r = .success), value.length.toUInt64⟩ answer
  refine ⟨hissued, ?_⟩
  simp only [decide_mapKvsResult]
  exact hcounted

theorem kvEngineStore_conduct (hn : 0 < n) (hfresh : Fresh ev) (key : Option Bytes)
    (value : Option Buf) (overwrite : Bool) :
    (kvEngineStore key value overwrite).Follows (conduct n t)
      (fun ev' r => (Call.store key value overwrite).Accounts ev' ⟨r, none, none⟩) ev := by
  refine guarded_conduct hn (fun e ev' he heq => ?_) fun key i ev' hi heq => ?_
  · have hfresh' := hfresh.of_tally heq
    exact .inl ⟨hfresh'.issued, hfresh'.uncounted, he⟩
  · have hfresh' := hfresh.of_tally heq
    cases value with
    | none => exact .inl ⟨hfresh'.issued, hfresh'.uncounted, by decide⟩
    | some value =>
        have htail (ev'' : Events) (b : Option Addr) (h : Fresh ev'') :
            (storeTail key i value.bytes overwrite b).Follows (conduct n t)
              (fun ev' r => (Call.store (some key) (some value) overwrite).Accounts ev'
                ⟨r, none, none⟩) ev'' := by
          refine (storeTail_conduct hi h key value.bytes overwrite b).mono fun ev' r hdone => ?_
          exact .inr ⟨hdone.1, value, rfl, hdone.2⟩
        show Prog.Follows _ _ (if _ then _ else _) _
        split
        · exact htail ev' none hfresh'
        · refine (neutral_conduct (dmaAlloc_neutral _)).bind fun ev'' b heq' => ?_
          have hfresh'' := hfresh'.of_tally heq'
          cases b with
          | none => exact .inl ⟨hfresh''.issued, hfresh''.uncounted, by decide⟩
          | some b => exact htail ev'' (some b) hfresh''

theorem retrieveTail_conduct {i : ℕ} (hi : i < n) (huncounted : Uncounted ev)
    {reply : KvsResult × KvsValue} (hr : lastResult t ev = some reply.1) (key : Bytes)
    (del fromPool : Bool) (b : Addr) :
    (retrieveTail key i del fromPool b reply).Follows (conduct n t)
      (fun ev' r => ∃ bytes, Counted ev' ⟨true, false, false, r.1 = .success, bytes⟩) ev := by
  refine (deviceRecordResult_conduct (fun _ => hi) hr).bind fun ev₁ _ hrecord => ?_
  refine (neutral_conduct (forgetRetrieved_neutral _ _)).bind fun ev₂ _ hforget => ?_
  split
  · rename_i hfailed
    refine (neutral_conduct (releaseBuffer_neutral _ _)).bind fun ev₃ _ hrelease => ?_
    refine ⟨trivial, fun answer _ => ⟨0, ?_⟩⟩
    simp only [decide_mapKvsResult, hfailed, decide_false]
    exact (counted_of_tally hrecord huncounted (hrelease.trans hforget) _ answer).2
  · exact ⟨trivial, fun answer _ => ⟨_, (counted_of_tally hrecord huncounted hforget _ answer).2⟩⟩

theorem retrieveInto_conduct {i : ℕ} (hi : i < n) (huncounted : Uncounted ev) (key : Bytes)
    (del fromPool : Bool) (b : Addr) :
    (retrieveInto key i del fromPool b).Follows (conduct n t)
      (fun ev' r => Uncounted ev' ∧ r.1 ≠ .success ∨
        ∃ bytes, Counted ev' ⟨true, false, false, r.1 = .success, bytes⟩) ev := by
  refine ⟨trivial, fun reply _ => ?_⟩
  show Prog.Follows _ _ (if _ then _ else _) _
  split
  · -- the second attempt, into a buffer of the size the device reported
    refine (neutral_conduct (releaseBuffer_neutral _ _)).bind fun ev₁ _ hrelease => ?_
    refine (neutral_conduct (dmaAlloc_neutral _)).bind fun ev₂ second halloc => ?_
    have huncounted' := (huncounted.cons rfl rfl).of_tally (halloc.trans hrelease)
    cases second with
    | none => exact .inl ⟨huncounted', by decide⟩
    | some b' =>
        refine ⟨trivial, fun reply' _ => ?_⟩
        exact (retrieveTail_conduct hi (huncounted'.cons rfl rfl) rfl key del false b').mono
          fun _ _ h => .inr h
  · exact (retrieveTail_conduct hi (huncounted.cons rfl rfl) rfl key del fromPool b).mono
      fun _ _ h => .inr h

theorem kvEngineRetrieve_conduct (hn : 0 < n) (hfresh : Fresh ev) (key : Option Bytes)
    (outs del : Bool) :
    (kvEngineRetrieve key outs del).Follows (conduct n t)
      (fun ev' r => (Call.retrieve key outs del).Accounts ev' ⟨r.1, r.2, none⟩) ev := by
  refine guarded_conduct hn (fun e ev' he heq => ?_) fun key i ev' hi heq => ?_
  · exact .inl ⟨(hfresh.of_tally heq).uncounted, he⟩
  · refine ⟨trivial, fun pooled _ => ?_⟩
    cases pooled with
    | some b =>
        exact retrieveInto_conduct hi ((hfresh.of_tally heq).uncounted.cons rfl rfl) key del true b
    | none =>
        refine (neutral_conduct (dmaAlloc_neutral _)).bind fun ev'' b heq' => ?_
        have huncounted := ((hfresh.of_tally heq).uncounted.cons rfl rfl).of_tally heq'
        cases b with
        | none => exact .inl ⟨huncounted, by decide⟩
        | some b => exact retrieveInto_conduct hi huncounted key del false b

theorem kvEngineDelete_conduct (hn : 0 < n) (hfresh : Fresh ev) (key : Option Bytes) :
    (kvEngineDelete key).Follows (conduct n t)
      (fun ev' r => (Call.delete key).Accounts ev' ⟨r, none, none⟩) ev := by
  refine guarded_conduct hn (fun e ev' he heq => ?_) fun key i ev' hi heq => ?_
  · have hfresh' := hfresh.of_tally heq
    exact .inl ⟨hfresh'.issued, hfresh'.uncounted, he⟩
  · refine ⟨trivial, fun r _ => ?_⟩
    refine (deviceRecordResult_conduct (fun _ => hi) rfl).bind fun ev₁ _ hrecord => ?_
    refine ⟨trivial, fun deleted _ => ⟨trivial, fun answer _ => .inr ?_⟩⟩
    have hneutral : tally t (⟨.keyTableDelete key, deleted⟩ :: ev₁) = tally t ev₁ := rfl
    obtain ⟨hissued, hcounted⟩ := counted_of_tally hrecord
      ((hfresh.of_tally heq).uncounted.cons rfl rfl) hneutral
      ⟨false, false, true, decide (r = .success), 0⟩ answer
    refine ⟨hissued, ?_⟩
    simp only [decide_mapKvsResult]
    exact hcounted

theorem kvEngineExists_conduct (hn : 0 < n) (hfresh : Fresh ev) (key : Option Bytes) (outs : Bool) :
    (kvEngineExists key outs).Follows (conduct n t)
      (fun ev' r => (Call.exists key outs).Accounts ev' ⟨r.1, none, r.2⟩) ev := by
  refine guarded_conduct hn (fun e ev' he heq => ?_) fun key i ev' hi heq => ?_
  · have hfresh' := hfresh.of_tally heq
    exact .inl ⟨hfresh'.issued, hfresh'.uncounted⟩
  · refine ⟨trivial, fun found _ => ⟨trivial, fun reply _ => ?_⟩⟩
    refine (deviceRecordResult_conduct (fun _ => hi) rfl).bind fun ev₁ _ hrecord => ?_
    have hfresh' := hfresh.of_tally heq
    have hissued : issued ev₁ = true := congrArg Tally.issued hrecord
    have hrecorded : recorded ev₁ = i :: recorded ev' := congrArg Tally.recorded hrecord
    have hupdates : updates ev₁ = updates ev' := congrArg Tally.updates hrecord
    rw [hfresh'.recorded] at hrecorded
    rw [hfresh'.updates] at hupdates
    split <;> exact .inr ⟨hissued, ⟨i, hrecorded⟩, hupdates⟩

/-- The four operations. -/
theorem call_conduct (hn : 0 < n) (hfresh : Fresh ev) (c : Call) :
    c.prog.Follows (conduct n t) (fun ev' r => c.Accounts ev' r) ev := by
  cases c with
  | store key value overwrite =>
      exact (kvEngineStore_conduct hn hfresh key value overwrite).bind fun _ _ h => h
  | retrieve key outs del =>
      exact (kvEngineRetrieve_conduct hn hfresh key outs del).bind fun _ _ h => h
  | delete key => exact (kvEngineDelete_conduct hn hfresh key).bind fun _ _ h => h
  | «exists» key outs => exact (kvEngineExists_conduct hn hfresh key outs).bind fun _ _ h => h

theorem Call.Accounts.of_tally {ev' : Events} {c : Call} {r : Reply} (h : c.Accounts ev r)
    (heq : tally t ev' = tally t ev) : c.Accounts ev' r := by
  have hissued : issued ev' = issued ev := congrArg Tally.issued heq
  have hrecorded : recorded ev' = recorded ev := congrArg Tally.recorded heq
  have hupdates : updates ev' = updates ev := congrArg Tally.updates heq
  cases c <;>
    simpa only [Call.Accounts, Uncounted, Counted, hissued, hrecorded, hupdates] using h

/-- The execution of a work item does what its operation does. -/
theorem work_conduct (hn : 0 < n) (hfresh : Fresh ev) (ctx : AsyncContext) :
    ctx.work.Follows (conduct n t) (fun ev' r => ctx.call.Accounts ev' r) ev := by
  refine (call_conduct hn hfresh ctx.call).bind fun ev₁ reply haccounts => ?_
  have hcomplete : (complete ctx.completion ⟨ctx.request, ctx.userData, reply.result,
      reply.value⟩).Performs Act.Neutral := by
    unfold complete
    split
    · exact ⟨trivial, fun _ => trivial⟩
    · exact trivial
  refine (neutral_conduct hcomplete).bind fun ev₂ _ hneutral => ?_
  exact ⟨trivial, fun _ _ => haccounts.of_tally hneutral⟩

theorem Act.Submits.neutral {a : Act} (h : a.Submits) : a.Neutral := by
  cases a <;> first | exact trivial | exact h.elim

/-- The actions of `kv_engine_get_device_health`. -/
def Act.Examines : Act → Prop
  | .loadInitialized => True
  | .loadNumDevices => True
  | .loadHealthy _ => True
  | .loadConsecutiveErrors _ => True
  | .loadTotalErrors _ => True
  | .loadTotalOps _ => True
  | .loadDevicePath _ => True
  | .kvsGetDeviceCapacity _ => True
  | .kvsReadUtilization _ => True
  | _ => False

theorem kvEngineGetDeviceHealth_examines (i : ℕ) (out : Bool) :
    (kvEngineGetDeviceHealth i out).Performs Act.Examines := by
  refine ⟨trivial, fun initialized => ?_⟩
  show Prog.Performs _ (if _ then _ else _)
  split
  · exact trivial
  · refine ⟨trivial, fun numDevices => ?_⟩
    show Prog.Performs _ (if _ then _ else _)
    split
    · exact trivial
    · exact ⟨trivial, fun _ => ⟨trivial, fun _ => ⟨trivial, fun _ => ⟨trivial, fun _ =>
        ⟨trivial, fun _ => ⟨trivial, fun _ => ⟨trivial, fun _ => trivial⟩⟩⟩⟩⟩⟩⟩

/-- The snapshot loads the three counters one after the other. -/
theorem kvEngineGetDeviceHealth_conduct (i : ℕ) (out : Bool) :
    (kvEngineGetDeviceHealth i out).Follows (conduct n t)
      (fun ev r => Uncounted ev ∧ ∀ h, r.2 = some h → Snapshot i ev h) [] := by
  refine ⟨trivial, fun initialized _ => ?_⟩
  show Prog.Follows _ _ (if _ then _ else _) _
  split
  · exact ⟨⟨rfl, rfl⟩, fun h hh => by cases hh⟩
  · refine ⟨trivial, fun numDevices _ => ?_⟩
    show Prog.Follows _ _ (if _ then _ else _) _
    split
    · exact ⟨⟨rfl, rfl⟩, fun h hh => by cases hh⟩
    · refine ⟨trivial, fun healthy _ => ⟨trivial, fun consecutive _ => ⟨⟨_, _, rfl⟩, fun errors _ =>
        ⟨⟨_, _, _, rfl⟩, fun ops _ => ⟨trivial, fun path _ => ⟨trivial, fun capacity _ =>
          ⟨trivial, fun utilization _ => ⟨⟨rfl, rfl⟩, fun h hh => ?_⟩⟩⟩⟩⟩⟩⟩⟩
      cases hh
      exact ⟨[_, _, _], _, rfl⟩

/-- The actions of `kv_engine_healthy_device_count`. -/
def Act.Looks : Act → Prop
  | .loadInitialized => True
  | .loadNumDevices => True
  | .loadHealthy _ => True
  | _ => False

theorem countHealthyFrom_looks (i turns count : ℕ) :
    (countHealthyFrom i turns count).Performs Act.Looks := by
  induction turns generalizing i count with
  | zero => exact trivial
  | succ turns ih =>
      refine ⟨trivial, fun numDevices => ?_⟩
      show Prog.Performs _ (if _ then _ else _)
      split
      · exact ⟨trivial, fun healthy => ih _ _⟩
      · exact trivial

theorem kvEngineHealthyDeviceCount_looks : kvEngineHealthyDeviceCount.Performs Act.Looks := by
  refine ⟨trivial, fun initialized => ?_⟩
  cases initialized
  · exact trivial
  · exact countHealthyFrom_looks _ _ _

theorem Act.Looks.neutral {a : Act} (h : a.Looks) : a.Neutral := by
  cases a <;> first | exact trivial | exact h.elim

theorem kvEngineAllocBuffer_neutral (size : ℕ) :
    (kvEngineAllocBuffer size).Performs Act.Neutral := by
  refine ⟨trivial, fun pool => ?_⟩
  show Prog.Performs _ (if _ then _ else _)
  split
  · refine ⟨trivial, fun pooled => ?_⟩
    cases pooled with
    | none => exact dmaAlloc_neutral _
    | some b => exact trivial
  · exact dmaAlloc_neutral _

theorem kvEngineFreeBuffer_neutral (buffer : Option Addr) :
    (kvEngineFreeBuffer buffer).Performs Act.Neutral := by
  cases buffer with
  | none => exact trivial
  | some b => exact ⟨trivial, fun pool => releaseBuffer_neutral _ b⟩

end functions

/-! ### Every task -/

theorem fresh_nil : Fresh [] := ⟨rfl, rfl, rfl⟩

/-- A task of neutral actions counts nothing. -/
theorem uncounted_of_neutral {α : Type} {p : M α} (hp : p.Performs Act.Neutral)
    (f : α → Outcome) :
    Prog.Follows (conduct n t) (fun ev _ => Uncounted ev) (do return f (← p)) [] :=
  (neutral_conduct hp).bind fun _ _ heq => fresh_nil.uncounted.of_tally heq

/-- Every task follows its protocol from its start and has done what it accounts for. -/
theorem task_follows (hn : 0 < n) (t : Task) :
    t.prog.Follows (conduct n t) (fun ev o => t.Accounts ev o) [] := by
  cases t with
  | call c => exact (call_conduct hn fresh_nil c).bind fun _ r h => ⟨r, rfl, h⟩
  | submit request c =>
      exact uncounted_of_neutral ((asyncCall_submits request c).mono fun _ => Act.Submits.neutral)
        .prepared
  | reject item =>
      exact uncounted_of_neutral ((asyncRejected_submits item).mono fun _ => Act.Submits.neutral)
        fun r => .reply ⟨r, none, none⟩
  | execute item =>
      refine (work_conduct hn fresh_nil item.arg).bind fun ev r h => ⟨trivial, fun answer _ => ?_⟩
      have heq : tally (.execute item) (⟨.free item.addr, answer⟩ :: ev) =
        tally (.execute item) ev := rfl
      exact ⟨r, rfl, h.of_tally heq⟩
  | record i kvsRes =>
      have hgiven : (Task.record i kvsRes).given = none → i < n := fun h => by cases h
      refine (deviceRecordResult_conduct hgiven rfl).bind fun ev _ h => ?_
      exact congrArg Tally.updates h
  | getDeviceHealth i out =>
      refine (kvEngineGetDeviceHealth_conduct i out).bind fun ev r h => ⟨h.1, fun res health heq => ?_⟩
      injection heq with _ hhealth
      exact h.2 health hhealth
  | healthyDeviceCount =>
      exact uncounted_of_neutral
        (kvEngineHealthyDeviceCount_looks.mono fun _ => Act.Looks.neutral) .count
  | getStats =>
      have hp : kvEngineGetStats.Performs Act.Neutral := ⟨trivial, fun _ => trivial⟩
      exact uncounted_of_neutral hp fun r => .stats r.1 r.2
  | resetStats => exact ⟨rfl, fun _ _ => ⟨rfl, rfl⟩⟩
  | allocBuffer size => exact uncounted_of_neutral (kvEngineAllocBuffer_neutral size) .buffer
  | freeBuffer buffer =>
      exact uncounted_of_neutral (kvEngineFreeBuffer_neutral buffer) fun _ => .done

end KvEngine
