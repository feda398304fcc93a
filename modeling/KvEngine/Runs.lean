import KvEngine.Lifecycle

/-! # What a call does

One equation for each operation of `Engine.lean`: the answer of an uninterrupted call and the
state after it, in terms of the state before and of what the devices answer.  Later modules
cite these and do not unfold the operations.

* `State.admission` is what the shared checks decide, `DeviceCtx.record` what
  `device_record_result` does to the health fields.
* A store, delete or exists call on a slot with an open keyspace is described by
  `run_storeTail`, `run_kvEngineDelete` and `run_kvEngineExists`.
* A retrieve also takes buffers; `Attempts` lists the device commands it can issue.  Without
  assumptions on the allocator the call is described by `run_kvEngineRetrieve_cases`; when
  allocations succeed its answer is the one of `retrieveOutcome`
  (`run_kvEngineRetrieve_of_allocs`). -/

namespace KvEngine

open Atomic

variable {δ : Type} {D : Driver δ}

/-- The run of a program over devices driven by `D`. -/
abbrev run {α : Type} (D : Driver δ) (p : M α) (s : State δ) : α × State δ := p.run (exec D) s

/-- The key lengths the operations accept. -/
def KeyOk (key : Bytes) : Prop := 4 ≤ key.length ∧ key.length ≤ 255

instance (key : Bytes) : Decidable (KeyOk key) := inferInstanceAs (Decidable (_ ∧ _))

theorem KeyOk.accepts {key : Bytes} (h : KeyOk key) : KeyTable.accepts key = true := by
  obtain ⟨h4, h255⟩ := h
  simp only [KeyTable.accepts, Bool.and_eq_true, decide_eq_true_eq]
  omega

theorem KeyOk.kvsKeyOf_length {key : Bytes} (h : KeyOk key) :
    (kvsKeyOf key).length.toNat = key.length := by
  have hlt : key.length < 2 ^ 16 := by
    have := h.2
    omega
  show (UInt16.ofNat key.length).toNat = key.length
  rw [UInt16.toNat_ofNat', Nat.mod_eq_of_lt hlt]

theorem KeyOk.lengthOk {key : Bytes} (h : KeyOk key) : (kvsKeyOf key).LengthOk := by
  rw [KvsKey.LengthOk, h.kvsKeyOf_length]
  exact h

/-- The device sees the whole key. -/
theorem KeyOk.kvsKeyOf_bytes {key : Bytes} (h : KeyOk key) : (kvsKeyOf key).bytes = key := by
  rw [KvsKey.bytes, h.kvsKeyOf_length]
  exact List.take_length

/-! ### State updates -/

/-- `device_record_result` on the health fields of a slot. -/
def DeviceCtx.record (r : KvsResult) (c : DeviceCtx) : DeviceCtx :=
  if isDeviceError r then
    { c with
      totalOps := c.totalOps + 1
      totalErrors := c.totalErrors + 1
      consecutiveErrors := c.consecutiveErrors + 1
      healthy := c.healthy && !(r = .devNotExist || r = .devNotOpened ||
        c.maxConsecutiveErrors.toUInt64 ≤ c.consecutiveErrors + 1) }
  else { c with totalOps := c.totalOps + 1, consecutiveErrors := 0 }

namespace DeviceCtx

@[simp] theorem record_device (r : KvsResult) (c : DeviceCtx) : (c.record r).device = c.device := by
  unfold record; split <;> rfl
@[simp] theorem record_keyspace (r : KvsResult) (c : DeviceCtx) :
    (c.record r).keyspace = c.keyspace := by
  unfold record; split <;> rfl

/-- A result that is no device error keeps a slot healthy. -/
theorem record_healthy {r : KvsResult} (c : DeviceCtx) (h : isDeviceError r = false) :
    (c.record r).healthy = c.healthy := by simp [record, h]

end DeviceCtx

namespace State

/-- The slot a key is sharded to. -/
def shard (s : State δ) (key : Bytes) : ℕ := kvEngineShardForKey key s.numDevices

@[simp] theorem setDevice_devices_self (s : State δ) (i : ℕ) (f : DeviceCtx → DeviceCtx) :
    (s.setDevice i f).devices i = f (s.devices i) := by simp [setDevice]

theorem setDevice_setDevice (s : State δ) (i : ℕ) (f g : DeviceCtx → DeviceCtx) :
    (s.setDevice i f).setDevice i g = s.setDevice i fun c => g (f c) := by
  simp [setDevice]

theorem setDevice_congr (s : State δ) {i : ℕ} {f g : DeviceCtx → DeviceCtx}
    (h : f (s.devices i) = g (s.devices i)) : s.setDevice i f = s.setDevice i g := by
  simp [setDevice, h]

/-- The keyspace at `p` is left in state `d`. -/
@[simps -fullyApplied] def setSsd (s : State δ) (p : Place) (d : δ) : State δ :=
  { s with ssd := Function.update s.ssd p d }

/-- The pool and the allocator have moved on. -/
@[simps -fullyApplied] def withBuffers (s : State δ) (pool : Option DmaPool)
    (heap : ℕ → Option Addr) : State δ :=
  { s with bufferPool := pool, heap := heap }

/-- The health fields of slot `i` and the statistics after a command answered `r`. -/
@[simps -fullyApplied] def account (s : State δ) (i : ℕ) (r : KvsResult)
    (u : StatsUpdate) : State δ :=
  { s with devices := Function.update s.devices i ((s.devices i).record r)
           stats := s.stats.update u }

/-- The key is no longer in the table. -/
@[simps -fullyApplied] def dropTableKey (s : State δ) (key : Bytes) : State δ :=
  { s with keyTable := deleteKey s.keyTable key }

/-- What `guarded` decides: an error, or the key and its slot. -/
def admission (s : State δ) (pointers : Bool) (key : Option Bytes) : Except KvResult (Bytes × ℕ) :=
  match key with
  | none => .error .invalidParam
  | some key =>
      if !s.initialized || !pointers then .error .invalidParam
      else if ¬ KeyOk key then .error .invalidParam
      else if (s.devices (s.shard key)).healthy then .ok (key, s.shard key)
      else .error .deviceDegraded

section addTableKey
variable (s : State δ) (key : Bytes)

@[simp] theorem addTableKey_ssd : (s.addTableKey key).ssd = s.ssd := by
  unfold addTableKey; split <;> rfl
@[simp] theorem addTableKey_devices : (s.addTableKey key).devices = s.devices := by
  unfold addTableKey; split <;> rfl
@[simp] theorem addTableKey_numDevices : (s.addTableKey key).numDevices = s.numDevices := by
  unfold addTableKey; split <;> rfl
@[simp] theorem addTableKey_stats : (s.addTableKey key).stats = s.stats := by
  unfold addTableKey; split <;> rfl
@[simp] theorem addTableKey_initialized : (s.addTableKey key).initialized = s.initialized := by
  unfold addTableKey; split <;> rfl

/-- The table after the store's section, when the length is accepted. -/
theorem addTableKey_keyTable (hk : KeyTable.accepts key = true) :
    (s.addTableKey key).keyTable =
      if s.nextAlloc.isSome then insert key s.keyTable else s.keyTable := by
  unfold addTableKey
  by_cases hm : key ∈ s.keyTable
  · simp [keyInTable, hk, hm]
  · cases h : s.nextAlloc.isSome <;> simp [keyInTable, addKey, hk, hm, h]

end addTableKey

end State

/-! ### Helpers -/

theorem run_deviceRecordResult (i : ℕ) (r : KvsResult) (s : State δ) :
    run D (deviceRecordResult i r) s = ((), s.setDevice i (·.record r)) := by
  unfold deviceRecordResult
  cases hr : isDeviceError r with
  | false => simp [hr, exec, State.setDevice_setDevice, DeviceCtx.record]
  | true =>
      by_cases hu : r = .devNotExist ∨ r = .devNotOpened
      · simp only [hu, if_true, Prog.perform_bind, Prog.run_act, Prog.run_perform, exec,
          State.setDevice_setDevice]
        refine congrArg (Prod.mk ()) (s.setDevice_congr ?_)
        rcases hu with rfl | rfl <;> simp [DeviceCtx.record, hr]
      · obtain ⟨hu₁, hu₂⟩ := not_or.mp hu
        simp only [hu₁, hu₂, or_self, if_true, if_false, Prog.perform_bind, Prog.run_act, exec,
          State.setDevice_setDevice, State.setDevice_devices_self]
        split
        · rename_i hmax
          simp only [Prog.run_perform, exec, State.setDevice_setDevice]
          refine congrArg (Prod.mk ()) (s.setDevice_congr ?_)
          simp [DeviceCtx.record, hr, hmax]
        · rename_i hmax
          simp only [Prog.pure_eq, Prog.run_ret]
          refine congrArg (Prod.mk ()) (s.setDevice_congr ?_)
          simp [DeviceCtx.record, hr, hmax, hu₁, hu₂]

/-- The checks shared by the operations. -/
theorem run_guarded {α : Type} (pointers : Bool) (key : Option Bytes) (refuse : KvResult → α)
    (body : Bytes → ℕ → M α) (s : State δ) :
    run D (guarded pointers key refuse body) s =
      match s.admission pointers key with
      | .error e => (refuse e, s)
      | .ok (key, devIdx) => run D (body key devIdx) s := by
  unfold guarded State.admission
  simp only [Prog.perform_bind, Prog.run_act, exec]
  cases key with
  | none => rfl
  | some key =>
      by_cases hi : (!s.initialized || !pointers) = true
      · simp [hi]
      · by_cases hk : key.length < 4 ∨ 255 < key.length
        · have : ¬ KeyOk key := by unfold KeyOk; omega
          simp [hi, hk, this]
        · have : KeyOk key := by unfold KeyOk; omega
          simp only [hi, hk, Bool.false_eq_true, if_false, this, not_true_eq_false, Prog.run_act,
            exec, checkDeviceHealth, Prog.act_bind, Prog.perform_bind, State.shard]
          by_cases hh : (s.devices (kvEngineShardForKey key s.numDevices)).healthy = true
          · simp [hh]
          · simp [hh]

/-- A command through an open keyspace handle. -/
theorem keyspaceCommand_eq {α : Type} {s : State δ} {i : ℕ} {p : Place}
    (hp : (s.devices i).keyspace = some p) (refused : α) (c : δ → α × δ) :
    s.keyspaceCommand i refused c = ((c (s.ssd p)).1, s.setSsd p (c (s.ssd p)).2) := by
  simp [State.keyspaceCommand, hp, State.command, State.setSsd]

/-! ### Store, delete, exists -/

/-- The store type of the `overwrite` argument. -/
def storeTypeOf (overwrite : Bool) : StoreType := if overwrite then .post else .noOverwrite

/-- The answer of the device to a store of `value` under `key`. -/
def storeOutcome (D : Driver δ) (d : δ) (key value : Bytes) (overwrite : Bool) : KvsResult × δ :=
  D.storeKvp d (kvsKeyOf key) (kvsValueOf value) (storeTypeOf overwrite)

theorem run_freeAligned (b : Option Addr) (s : State δ) : run D (freeAligned b) s = ((), s) := by
  cases b <;> rfl

/-- The state after a store on slot `i` whose device, at `p`, answered `o`. -/
def State.afterStore (s : State δ) (i : ℕ) (p : Place) (key value : Bytes) (o : KvsResult × δ) :
    State δ :=
  ((s.addTableKey key).setSsd p o.2).account i o.1
    ⟨false, true, false, o.1 = .success, value.length.toUInt64⟩

theorem run_storeTail {s : State δ} {i : ℕ} {p : Place} (hp : (s.devices i).keyspace = some p)
    (key value : Bytes) (overwrite : Bool) (alignedBuf : Option Addr) :
    run D (storeTail key i value overwrite alignedBuf) s =
      (mapKvsResult (storeOutcome D (s.ssd p) key value overwrite).1,
        s.afterStore i p key value (storeOutcome D (s.ssd p) key value overwrite)) := by
  have hp' : ((s.addTableKey key).devices i).keyspace = some p := by simpa using hp
  simp only [storeTail, Prog.perform_bind, Prog.run_act, exec, keyspaceCommand_eq hp', Prog.run_bind,
    run_deviceRecordResult, run_freeAligned, State.addTableKey_ssd, Prog.pure_eq, Prog.run_ret]
  rfl

/-- The bounce buffer is freed and leaves no trace. -/
theorem run_storeTail_buffer (key : Bytes) (i : ℕ) (value : Bytes) (overwrite : Bool)
    (b b' : Option Addr) (s : State δ) :
    run D (storeTail key i value overwrite b) s = run D (storeTail key i value overwrite b') s := by
  simp only [storeTail, Prog.perform_bind, Prog.run_act, Prog.run_bind, run_freeAligned]

/-- The state after a delete on slot `i` whose device, at `p`, answered `o`. -/
def State.afterDelete (s : State δ) (i : ℕ) (p : Place) (key : Bytes) (o : KvsResult × δ) :
    State δ :=
  ((s.setSsd p o.2).dropTableKey key).account i o.1 ⟨false, false, true, o.1 = .success, 0⟩

theorem run_kvEngineDelete {s : State δ} {key : Option Bytes} {k : Bytes} {i : ℕ} {p : Place}
    (hk : s.admission true key = .ok (k, i)) (hp : (s.devices i).keyspace = some p) :
    run D (kvEngineDelete key) s =
      (mapKvsResult (D.deleteKvp (s.ssd p) (kvsKeyOf k) false).1,
        s.afterDelete i p k (D.deleteKvp (s.ssd p) (kvsKeyOf k) false)) := by
  rw [kvEngineDelete, run_guarded, hk]
  simp only [Prog.perform_bind, Prog.run_act, exec, keyspaceCommand_eq hp, Prog.run_bind,
    run_deviceRecordResult, Prog.pure_eq, Prog.run_ret]
  rfl

/-- The state after an exists call on slot `i` whose device, at `p`, answered `o`. -/
def State.afterExists (s : State δ) (i : ℕ) (p : Place) (o : (KvsResult × UInt8) × δ) : State δ :=
  (s.setSsd p o.2).setDevice i (·.record o.1.1)

/-- The answer of an exists call on a key, given the answers of the table and of the device. -/
def existsAnswer (inTable : Bool) (o : KvsResult × UInt8) : KvResult × Option Bool :=
  if o.1 ≠ .success then (mapKvsResult o.1, none) else (.success, some (o.2 ≠ 0 && inTable))

theorem run_kvEngineExists {s : State δ} {key : Option Bytes} {outs : Bool} {k : Bytes} {i : ℕ}
    {p : Place} (hk : s.admission outs key = .ok (k, i)) (hp : (s.devices i).keyspace = some p) :
    run D (kvEngineExists key outs) s =
      (existsAnswer (keyInTable s.keyTable k) (D.existKvPairs (s.ssd p) (kvsKeyOf k)).1,
        s.afterExists i p (D.existKvPairs (s.ssd p) (kvsKeyOf k))) := by
  rw [kvEngineExists, run_guarded, hk]
  simp only [Prog.perform_bind, Prog.run_act, exec, keyspaceCommand_eq hp, Prog.run_bind,
    run_deviceRecordResult, existsAnswer]
  split <;> rfl

/-! ### Retrieve -/

/-- The device commands of a retrieve: how the last one was answered (`none` if the call
stopped for want of a second buffer) and the state they leave the device in. -/
inductive Attempts (D : Driver δ) (d : δ) (key : Bytes) (del : Bool) :
    Option (KvsResult × KvsValue) → δ → Prop
  | first {r : KvsResult × KvsValue} {d' : δ}
      (h : D.retrieveKvp d (kvsKeyOf key) retrieveRequest del = (r, d'))
      (hr : r.1 ≠ .bufferSmall) : Attempts D d key del (some r) d'
  | noMemory {v : KvsValue} {d' : δ}
      (h : D.retrieveKvp d (kvsKeyOf key) retrieveRequest del = ((.bufferSmall, v), d')) :
      Attempts D d key del none d'
  | second {v : KvsValue} {d' d'' : δ} {r : KvsResult × KvsValue}
      (h : D.retrieveKvp d (kvsKeyOf key) retrieveRequest del = ((.bufferSmall, v), d'))
      (h' : D.retrieveKvp d' (kvsKeyOf key) (secondRequest v) del = (r, d'')) :
      Attempts D d key del (some r) d''

/-- The commands of a retrieve whose allocations succeed. -/
def retrieveOutcome (D : Driver δ) (d : δ) (key : Bytes) (del : Bool) :
    Option (KvsResult × KvsValue) × δ :=
  let first := D.retrieveKvp d (kvsKeyOf key) retrieveRequest del
  if first.1.1 = .bufferSmall then
    if first.1.2.actualValueSize.toNat = 0 then (none, first.2)
    else
      let second := D.retrieveKvp first.2 (kvsKeyOf key) (secondRequest first.1.2) del
      (some second.1, second.2)
  else (some first.1, first.2)

/-- What the call returns when its last command was answered `o`. -/
def retrieveAnswer (buffer : Addr) : Option (KvsResult × KvsValue) → KvResult × Option Retrieved
  | none => (.noMemory, none)
  | some r =>
      if r.1 = .success then (.success, some ⟨buffer, r.2.bytes, r.2.length.toNat⟩)
      else (mapKvsResult r.1, none)

/-- The statistics of a retrieve answered `r`. -/
def readStats (r : KvsResult × KvsValue) : StatsUpdate :=
  ⟨true, false, false, r.1 = .success,
    if r.1 = .success then r.2.actualValueSize.toUInt64 else 0⟩

/-- The key table after a retrieve. -/
def State.forget (s : State δ) (key : Bytes) (deleted : Bool) : State δ :=
  if deleted then s.dropTableKey key else s

/-- The engine's own records after a retrieve on slot `i` whose last command was answered `o`. -/
def State.afterRetrieve (s : State δ) (i : ℕ) (key : Bytes) (del : Bool) :
    Option (KvsResult × KvsValue) → State δ
  | none => s
  | some r => (s.forget key (del && r.1 = .success)).account i r.1 (readStats r)

theorem run_releaseBuffer (fromPool : Bool) (b : Addr) (s : State δ) :
    ∃ pool, run D (releaseBuffer fromPool b) s = ((), s.withBuffers pool s.heap) := by
  cases fromPool with
  | true => exact ⟨_, rfl⟩
  | false => exact ⟨s.bufferPool, rfl⟩

theorem run_forgetRetrieved (key : Bytes) (deleted : Bool) (s : State δ) :
    run D (forgetRetrieved key deleted) s = ((), s.forget key deleted) := by
  cases deleted <;> rfl

theorem run_retrieveTail (key : Bytes) (i : ℕ) (del fromPool : Bool) (buffer : Addr)
    (reply : KvsResult × KvsValue) (s : State δ) :
    ∃ pool, run D (retrieveTail key i del fromPool buffer reply) s =
      (retrieveAnswer buffer (some reply),
        (s.afterRetrieve i key del (some reply)).withBuffers pool s.heap) := by
  simp only [retrieveTail, Prog.run_bind, run_deviceRecordResult, run_forgetRetrieved]
  by_cases h : reply.1 = .success
  · refine ⟨s.bufferPool, ?_⟩
    simp only [h, ne_eq, not_true_eq_false, if_false, Prog.perform_bind, Prog.run_act, Prog.pure_eq,
      Prog.run_ret, retrieveAnswer, if_true, State.afterRetrieve, readStats]
    cases del <;> rfl
  · obtain ⟨pool, hpool⟩ := run_releaseBuffer (D := D) fromPool buffer
      ((s.setDevice i (·.record reply.1)).forget key false)
    refine ⟨pool, ?_⟩
    simp only [h, decide_false, Bool.and_false, ne_eq, not_false_eq_true, if_true, Prog.run_bind,
      hpool, Prog.pure_eq, Prog.run_ret, Prog.run_perform, retrieveAnswer, if_false,
      State.afterRetrieve, readStats]
    rfl

theorem dmaAlloc_cases {n : ℕ} (s : State δ) :
    (n = 0 ∧ run D (dmaAlloc n) s = (none, s)) ∨
      (n ≠ 0 ∧ run D (dmaAlloc n) s = (s.nextAlloc, s.dropAlloc)) := by
  by_cases hn : n = 0
  · exact .inl ⟨hn, by simp [dmaAlloc, hn]⟩
  · exact .inr ⟨hn, by simp [dmaAlloc, hn, exec]⟩

/-- A retrieve after its first command, which left the device in state `d₁`. -/
theorem run_retrieveRetry {s : State δ} {i : ℕ} {p : Place} (hp : (s.devices i).keyspace = some p)
    {key : Bytes} {del : Bool} {d : δ} {reply : KvsResult × KvsValue}
    (hf : D.retrieveKvp d (kvsKeyOf key) retrieveRequest del = (reply, s.ssd p))
    (fromPool : Bool) (buffer : Addr) :
    ∃ b pool heap o d', Attempts D d key del o d' ∧
      ((∀ n, (s.heap n).isSome) →
        (o, d') = retrieveOutcome D d key del ∧ ∀ n, (heap n).isSome) ∧
      run D (retrieveRetry key i del fromPool buffer reply) s =
        (retrieveAnswer b o, ((s.setSsd p d').afterRetrieve i key del o).withBuffers pool heap) := by
  obtain ⟨res, v⟩ := reply
  have hsame : s.setSsd p (s.ssd p) = s := by simp [State.setSsd]
  unfold retrieveRetry
  by_cases hsmall : res = .bufferSmall
  · subst hsmall
    obtain ⟨pool, hpool⟩ := run_releaseBuffer (D := D) fromPool buffer s
    simp only [if_true, Prog.run_bind, hpool]
    rcases dmaAlloc_cases (D := D) (n := v.actualValueSize.toNat) (s.withBuffers pool s.heap)
      with ⟨h0, hrun⟩ | ⟨h0, hrun⟩
    · refine ⟨0, pool, s.heap, none, s.ssd p, .noMemory hf, fun ha => ⟨?_, ha⟩, ?_⟩
      · simp [retrieveOutcome, hf, h0]
      · simp only [hrun, hsame]
        rfl
    · simp only [hrun]
      cases hnext : (s.withBuffers pool s.heap).nextAlloc with
      | none =>
          refine ⟨0, pool, fun n => s.heap (n + 1), none, s.ssd p, .noMemory hf, fun ha => ?_, ?_⟩
          · have := ha 0
            simp only [State.nextAlloc, State.withBuffers] at hnext
            rw [hnext] at this
            cases this
          · rw [hsame]
            rfl
      | some b =>
          have hp' : (((s.withBuffers pool s.heap).dropAlloc).devices i).keyspace = some p := hp
          generalize hs : D.retrieveKvp (s.ssd p) (kvsKeyOf key) (secondRequest v) del = second
          obtain ⟨reply, d₂⟩ := second
          have hssd : ((s.withBuffers pool s.heap).dropAlloc).ssd p = s.ssd p := rfl
          simp only [Prog.perform_bind, Prog.run_act, exec, keyspaceCommand_eq hp', hssd, hs]
          obtain ⟨pool', hpool'⟩ := run_retrieveTail (D := D) key i del false b reply
            (((s.withBuffers pool s.heap).dropAlloc).setSsd p d₂)
          refine ⟨b, pool', fun n => s.heap (n + 1), some reply, d₂, .second hf hs,
            fun ha => ⟨?_, ?_⟩, ?_⟩
          · simp [retrieveOutcome, hf, h0, hs]
          · exact fun n => ha (n + 1)
          · refine hpool'.trans ?_
            simp only [State.afterRetrieve]
            cases (del && decide (reply.1 = .success)) <;> rfl
  · obtain ⟨pool, hpool⟩ := run_retrieveTail (D := D) key i del fromPool buffer (res, v) s
    refine ⟨buffer, pool, s.heap, some (res, v), s.ssd p, .first hf hsmall, fun ha => ⟨?_, ha⟩, ?_⟩
    · simp [retrieveOutcome, hf, hsmall]
    · simp only [hsmall, if_false, hsame]
      exact hpool

/-- A retrieve that has its first buffer. -/
theorem run_retrieveInto {s : State δ} {i : ℕ} {p : Place} (hp : (s.devices i).keyspace = some p)
    (key : Bytes) (del fromPool : Bool) (buffer : Addr) :
    ∃ b pool heap o d', Attempts D (s.ssd p) key del o d' ∧
      ((∀ n, (s.heap n).isSome) →
        (o, d') = retrieveOutcome D (s.ssd p) key del ∧ ∀ n, (heap n).isSome) ∧
      run D (retrieveInto key i del fromPool buffer) s =
        (retrieveAnswer b o, ((s.setSsd p d').afterRetrieve i key del o).withBuffers pool heap) := by
  generalize hf : D.retrieveKvp (s.ssd p) (kvsKeyOf key) retrieveRequest del = first
  obtain ⟨reply, d₁⟩ := first
  have hself : (s.setSsd p d₁).ssd p = d₁ := by simp [State.setSsd]
  obtain ⟨b, pool, heap, o, d', ha, hout, hrun⟩ :=
    run_retrieveRetry (D := D) (s := s.setSsd p d₁) (i := i) (p := p) hp
      (hf.trans (congrArg (Prod.mk reply) hself.symm)) fromPool buffer
  refine ⟨b, pool, heap, o, d', ha, hout, ?_⟩
  have hset : (s.setSsd p d₁).setSsd p d' = s.setSsd p d' := by simp [State.setSsd]
  rw [hset] at hrun
  simp only [retrieveInto, Prog.perform_bind, Prog.run_act, exec, keyspaceCommand_eq hp, hf]
  exact hrun

theorem exec_dmaPoolAcquire (s : State δ) :
    ∃ r pool, exec D .dmaPoolAcquire s = (r, s.withBuffers pool s.heap) := by
  cases h : s.bufferPool with
  | none => exact ⟨none, none, by simp only [exec, h]; rw [← h]; rfl⟩
  | some p => exact ⟨p.acquire.1, some p.acquire.2, by simp only [exec, h]; rfl⟩

theorem afterRetrieve_withBuffers (s : State δ) (i : ℕ) (key : Bytes) (del : Bool)
    (o : Option (KvsResult × KvsValue)) (pool : Option DmaPool) (heap : ℕ → Option Addr) :
    (s.withBuffers pool heap).afterRetrieve i key del o =
      (s.afterRetrieve i key del o).withBuffers pool heap := by
  cases o with
  | none => rfl
  | some r =>
      simp only [State.afterRetrieve]
      cases (del && decide (r.1 = .success)) <;> rfl

/-- The buffers a retrieve starts with have no influence on the records it leaves. -/
theorem afterRetrieve_of_buffers (s : State δ) (p : Place) (d : δ) (i : ℕ) (key : Bytes) (del : Bool)
    (o : Option (KvsResult × KvsValue)) (pool pool' : Option DmaPool) (heap heap' : ℕ → Option Addr) :
    (((s.withBuffers pool heap).setSsd p d).afterRetrieve i key del o).withBuffers pool' heap' =
      ((s.setSsd p d).afterRetrieve i key del o).withBuffers pool' heap' := by
  have h := congrArg (State.withBuffers · pool' heap')
    (afterRetrieve_withBuffers (s.setSsd p d) i key del o pool heap)
  exact h

/-- An admitted retrieve finds no buffer, or it issues its device commands. -/
theorem run_kvEngineRetrieve_cases {s : State δ} {key : Option Bytes} {outs : Bool} {k : Bytes}
    {i : ℕ} {p : Place} (del : Bool) (hk : s.admission outs key = .ok (k, i))
    (hp : (s.devices i).keyspace = some p) :
    ∃ b pool heap,
      ((∀ n, (s.heap n).isSome) → ∀ n, (heap n).isSome) ∧
      ((¬ (∀ n, (s.heap n).isSome) ∧
          run D (kvEngineRetrieve key outs del) s = ((.noMemory, none), s.withBuffers pool heap)) ∨
        ∃ o d', Attempts D (s.ssd p) k del o d' ∧
          ((∀ n, (s.heap n).isSome) → (o, d') = retrieveOutcome D (s.ssd p) k del) ∧
          run D (kvEngineRetrieve key outs del) s =
            (retrieveAnswer b o,
              ((s.setSsd p d').afterRetrieve i k del o).withBuffers pool heap)) := by
  obtain ⟨pooled, pool, hacq⟩ := exec_dmaPoolAcquire (D := D) s
  -- behind the checks, the retrieve takes a buffer of the pool or allocates one
  have hstart : run D (kvEngineRetrieve key outs del) s = _ := run_guarded outs key _ _ s
  rw [hk] at hstart
  simp only [Prog.perform_bind, Prog.run_act, hacq] at hstart
  rw [hstart]
  cases pooled with
  | some buffer =>
      obtain ⟨b, pool', heap, o, d', ha, hout, hrun⟩ := run_retrieveInto (D := D)
        (s := s.withBuffers pool s.heap) (i := i) (p := p) hp k del true buffer
      refine ⟨b, pool', heap, fun h => (hout h).2, .inr ⟨o, d', ha, fun h => (hout h).1, ?_⟩⟩
      exact hrun.trans (congrArg (Prod.mk _) (afterRetrieve_of_buffers ..))
  | none =>
      have halloc : run D (dmaAlloc kvEngineRetrieveSize) (s.withBuffers pool s.heap) =
          (s.heap 0, s.withBuffers pool fun n => s.heap (n + 1)) := rfl
      simp only [Prog.run_bind, halloc]
      cases h0 : s.heap 0 with
      | none =>
          refine ⟨0, pool, fun n => s.heap (n + 1), fun h n => h (n + 1), .inl ⟨fun h => ?_, rfl⟩⟩
          have := h 0
          rw [h0] at this
          cases this
      | some buffer =>
          obtain ⟨b, pool', heap, o, d', ha, hout, hrun⟩ := run_retrieveInto (D := D)
            (s := s.withBuffers pool fun n => s.heap (n + 1)) (i := i) (p := p) hp k del false buffer
          have hshift (h : ∀ n, (s.heap n).isSome) := hout fun n => h (n + 1)
          refine ⟨b, pool', heap, fun h => (hshift h).2,
            .inr ⟨o, d', ha, fun h => (hshift h).1, ?_⟩⟩
          exact hrun.trans (congrArg (Prod.mk _) (afterRetrieve_of_buffers ..))

/-- An admitted retrieve whose allocations succeed. -/
theorem run_kvEngineRetrieve_of_allocs {s : State δ} {key : Option Bytes} {outs : Bool}
    {k : Bytes} {i : ℕ} {p : Place} (del : Bool) (hk : s.admission outs key = .ok (k, i))
    (hp : (s.devices i).keyspace = some p) (halloc : ∀ n, (s.heap n).isSome) :
    ∃ b pool heap, (∀ n, (heap n).isSome) ∧
      run D (kvEngineRetrieve key outs del) s =
        (retrieveAnswer b (retrieveOutcome D (s.ssd p) k del).1,
          ((s.setSsd p (retrieveOutcome D (s.ssd p) k del).2).afterRetrieve i k del
            (retrieveOutcome D (s.ssd p) k del).1).withBuffers pool heap) := by
  obtain ⟨b, pool, heap, hheap, h⟩ := run_kvEngineRetrieve_cases (D := D) del hk hp
  refine ⟨b, pool, heap, hheap halloc, ?_⟩
  rcases h with ⟨hno, _⟩ | ⟨o, d', _, hout, hrun⟩
  · exact absurd halloc hno
  · rw [← hout halloc]
    exact hrun

/-! ### The bounce buffer of a store -/

/-- The bounce buffer a store takes for an unaligned value: whether the store can go on, and
the state after the allocation.  A request of size zero is refused by `dma_alloc`. -/
def State.bounce (s : State δ) (value : Buf) : Bool × State δ :=
  if isDmaAligned value.addr then (true, s)
  else if value.bytes = [] then (false, s)
  else (s.nextAlloc.isSome, s.dropAlloc)

/-- An admitted store: it finds no bounce buffer, or it goes on to the key table. -/
theorem run_kvEngineStore {s : State δ} {key : Option Bytes} {k : Bytes} {i : ℕ} (value : Buf)
    (overwrite : Bool) (hk : s.admission true key = .ok (k, i)) :
    run D (kvEngineStore key (some value) overwrite) s =
      if (s.bounce value).1 then
        run D (storeTail k i value.bytes overwrite none) (s.bounce value).2
      else (.noMemory, (s.bounce value).2) := by
  -- behind the checks, the store takes a bounce buffer or goes straight to the key table
  have hstart : run D (kvEngineStore key (some value) overwrite) s = _ := run_guarded true key _ _ s
  rw [hk] at hstart
  rw [hstart]
  dsimp only
  unfold State.bounce
  by_cases hal : isDmaAligned value.addr = true
  · simp only [hal, if_true]
  · simp only [hal, Bool.false_eq_true, if_false, Prog.run_bind]
    rcases dmaAlloc_cases (D := D) (n := value.bytes.length) s with ⟨h0, hrun⟩ | ⟨h0, hrun⟩
    · have hnil : value.bytes = [] := List.length_eq_zero_iff.mp h0
      simp only [hrun, if_pos hnil]
      rfl
    · have hne : value.bytes ≠ [] := fun h => h0 (by rw [h, List.length_nil])
      simp only [hrun, hne, if_false]
      cases s.nextAlloc with
      | none => rfl
      | some b => exact run_storeTail_buffer _ _ _ _ _ _ _

/-! ### The actions of the operations -/

/-- The actions that the four operations perform. -/
def Act.Operates : Act → Prop
  | .loadInitialized => True
  | .loadNumDevices => True
  | .loadHealthy _ => True
  | .storeHealthy _ _ => True
  | .fetchAddTotalOps _ => True
  | .fetchAddTotalErrors _ => True
  | .fetchAddConsecutiveErrors _ => True
  | .storeConsecutiveErrors _ _ => True
  | .loadMaxConsecutiveErrors _ => True
  | .keyTableAdd _ => True
  | .keyTableDelete _ => True
  | .keyTableFind _ => True
  | .kvsStoreKvp .. => True
  | .kvsRetrieveKvp .. => True
  | .kvsDeleteKvp .. => True
  | .kvsExistKvPairs .. => True
  | .updateStats _ => True
  | .dmaPoolAcquire => True
  | .dmaPoolRelease _ => True
  | .alloc _ => True
  | .free _ => True
  | _ => False

theorem guarded_operates {α : Type} {pointers : Bool} {key : Option Bytes} {refuse : KvResult → α}
    {body : Bytes → ℕ → M α} (hbody : ∀ k i, (body k i).Performs Act.Operates) :
    (guarded pointers key refuse body).Performs Act.Operates := by
  refine ⟨trivial, fun initialized => ?_⟩
  cases key with
  | none => trivial
  | some key =>
      show Prog.Performs _ (if _ then _ else _)
      split
      · trivial
      · split
        · trivial
        · refine ⟨trivial, fun n => ⟨trivial, fun healthy => ?_⟩⟩
          cases healthy with
          | false => trivial
          | true => exact hbody _ _

/-- The actions of `device_record_result`. -/
def Act.Records : Act → Prop
  | .fetchAddTotalOps _ => True
  | .fetchAddTotalErrors _ => True
  | .fetchAddConsecutiveErrors _ => True
  | .storeConsecutiveErrors _ _ => True
  | .storeHealthy _ _ => True
  | .loadMaxConsecutiveErrors _ => True
  | _ => False

theorem deviceRecordResult_records (i : ℕ) (r : KvsResult) :
    (deviceRecordResult i r).Performs Act.Records := by
  refine ⟨trivial, fun _ => ?_⟩
  show Prog.Performs _ (if _ then _ else _)
  split
  · refine ⟨trivial, fun _ => ⟨trivial, fun prev => ?_⟩⟩
    show Prog.Performs _ (if _ then _ else _)
    split
    · exact ⟨trivial, fun _ => trivial⟩
    · refine ⟨trivial, fun max => ?_⟩
      show Prog.Performs _ (if _ then _ else _)
      split
      · exact ⟨trivial, fun _ => trivial⟩
      · trivial
  · exact ⟨trivial, fun _ => trivial⟩

theorem deviceRecordResult_operates (i : ℕ) (r : KvsResult) :
    (deviceRecordResult i r).Performs Act.Operates :=
  (deviceRecordResult_records i r).mono fun a h => by
    cases a <;> first | exact trivial | exact h.elim

theorem dmaAlloc_performs {Q : Act → Prop} {size : ℕ} (halloc : Q (.alloc size)) :
    (dmaAlloc size).Performs Q := by
  unfold dmaAlloc
  split
  · trivial
  · exact ⟨halloc, fun _ => trivial⟩

theorem dmaAlloc_operates (size : ℕ) : (dmaAlloc size).Performs Act.Operates :=
  dmaAlloc_performs trivial

theorem releaseBuffer_performs {Q : Act → Prop} {b : Addr} (hrelease : Q (.dmaPoolRelease b))
    (hfree : Q (.free b)) (fromPool : Bool) : (releaseBuffer fromPool b).Performs Q := by
  cases fromPool with
  | false => exact ⟨hfree, fun _ => trivial⟩
  | true => exact ⟨hrelease, fun _ => trivial⟩

theorem releaseBuffer_operates (fromPool : Bool) (b : Addr) :
    (releaseBuffer fromPool b).Performs Act.Operates :=
  releaseBuffer_performs trivial trivial fromPool

theorem kvEngineStore_operates (key : Option Bytes) (value : Option Buf) (overwrite : Bool) :
    (kvEngineStore key value overwrite).Performs Act.Operates := by
  have htail (k : Bytes) (i : ℕ) (v : Bytes) (b : Option Addr) :
      (storeTail k i v overwrite b).Performs Act.Operates := by
    refine ⟨trivial, fun _ => ⟨trivial, fun r => ?_⟩⟩
    refine (deviceRecordResult_operates i r).bind fun _ => ?_
    cases b with
    | none => exact ⟨trivial, fun _ => trivial⟩
    | some b => exact ⟨trivial, fun _ => ⟨trivial, fun _ => trivial⟩⟩
  refine guarded_operates fun k i => ?_
  cases value with
  | none => trivial
  | some value =>
      show Prog.Performs _ (if _ then _ else _)
      split
      · exact htail _ _ _ _
      · refine (dmaAlloc_operates _).bind fun b => ?_
        cases b with
        | none => trivial
        | some b => exact htail _ _ _ _

theorem retrieveInto_operates (k : Bytes) (i : ℕ) (del fromPool : Bool) (b : Addr) :
    (retrieveInto k i del fromPool b).Performs Act.Operates := by
  have htail (fromPool : Bool) (b : Addr) (reply : KvsResult × KvsValue) :
      (retrieveTail k i del fromPool b reply).Performs Act.Operates := by
    refine (deviceRecordResult_operates i _).bind fun _ => Prog.Performs.bind ?_ fun _ => ?_
    · unfold forgetRetrieved
      split
      · exact ⟨trivial, fun _ => trivial⟩
      · trivial
    · split
      · exact (releaseBuffer_operates _ _).bind fun _ => ⟨trivial, fun _ => trivial⟩
      · exact ⟨trivial, fun _ => trivial⟩
  refine ⟨trivial, fun reply => ?_⟩
  show (retrieveRetry k i del fromPool b reply).Performs _
  unfold retrieveRetry
  split
  · refine (releaseBuffer_operates _ _).bind fun _ => (dmaAlloc_operates _).bind fun second => ?_
    cases second with
    | none => trivial
    | some b => exact ⟨trivial, fun reply => htail _ _ _⟩
  · exact htail _ _ _

theorem kvEngineRetrieve_operates (key : Option Bytes) (outs del : Bool) :
    (kvEngineRetrieve key outs del).Performs Act.Operates := by
  refine guarded_operates fun k i => ⟨trivial, fun pooled => ?_⟩
  cases pooled with
  | some b => exact retrieveInto_operates _ _ _ _ _
  | none =>
      refine (dmaAlloc_operates _).bind fun b => ?_
      cases b with
      | none => trivial
      | some b => exact retrieveInto_operates _ _ _ _ _

theorem kvEngineDelete_operates (key : Option Bytes) :
    (kvEngineDelete key).Performs Act.Operates := by
  refine guarded_operates fun k i => ⟨trivial, fun r => ?_⟩
  exact (deviceRecordResult_operates i r).bind fun _ =>
    ⟨trivial, fun _ => ⟨trivial, fun _ => trivial⟩⟩

theorem kvEngineExists_operates (key : Option Bytes) (outs : Bool) :
    (kvEngineExists key outs).Performs Act.Operates := by
  refine guarded_operates fun k i => ⟨trivial, fun found => ⟨trivial, fun reply => ?_⟩⟩
  refine (deviceRecordResult_operates i _).bind fun _ => ?_
  split <;> trivial

theorem call_operates (c : Call) : c.prog.Performs Act.Operates := by
  cases c with
  | store key value overwrite =>
      exact (kvEngineStore_operates key value overwrite).bind fun _ => trivial
  | retrieve key outs del => exact (kvEngineRetrieve_operates key outs del).bind fun _ => trivial
  | delete key => exact (kvEngineDelete_operates key).bind fun _ => trivial
  | «exists» key outs => exact (kvEngineExists_operates key outs).bind fun _ => trivial

/-- The operations leave the records of the asynchronous layer alone. -/
theorem exec_operates {a : Act} (ha : a.Operates) (s : State δ) :
    (exec D a s).2.callbacks = s.callbacks ∧ (exec D a s).2.freedContexts = s.freedContexts := by
  by_cases hcommand : a.isCommand = true
  · obtain ⟨ssd, heq⟩ := exec_command (D := D) hcommand s
    rw [heq]
    exact ⟨rfl, rfl⟩
  cases a with
  | keyTableAdd key =>
      simp only [exec, State.addTableKey]
      split <;> exact ⟨rfl, rfl⟩
  | dmaPoolAcquire =>
      simp only [exec]
      split <;> exact ⟨rfl, rfl⟩
  | _ => first | exact absurd rfl hcommand | exact ha.elim | exact ⟨rfl, rfl⟩

theorem run_call_callbacks (c : Call) (s : State δ) :
    (run D c.prog s).2.callbacks = s.callbacks :=
  Prog.run_rel (exec D) (R := fun s t => t.callbacks = s.callbacks) (fun _ => rfl)
    (fun h h' => h'.trans h) (fun _ s ha => (exec_operates ha s).1) (call_operates c) s

end KvEngine
