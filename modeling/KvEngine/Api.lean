import KvEngine.Machine
import KvEngine.Lookup

/-! # Histories of the API

Everything a single thread can do to an initialised engine, in any order and with any
arguments, together with the sweeps of the health probe.

* `CallRun D s c r t` lists what a call can do: one constructor for each way out of the four
  operations.  `run_call` says that the program of a call does one of these; later proofs
  split on it instead of unfolding the operations.
* `System.step` is the machine of such histories.  `Mounted` is its invariant
  (`step_mounted`): whatever the devices answer and the allocator does, every slot below
  `num_devices` keeps an open keyspace. -/

namespace KvEngine

open Atomic

variable {δ : Type} {D : Driver δ}

/-- The key argument of a call. -/
def Call.key : Call → Option Bytes
  | .store key _ _ => key
  | .retrieve key _ _ => key
  | .delete key => key
  | .exists key _ => key

/-- Whether the other pointers of a call are given. -/
def Call.pointers : Call → Bool
  | .store _ value _ => value.isSome
  | .retrieve _ outs _ => outs
  | .delete _ => true
  | .exists _ outs => outs

/-- The ways through a call: its answer `r` and the state `t` after it. -/
inductive CallRun (D : Driver δ) (s : State δ) : Call → Reply → State δ → Prop
  | refused {c : Call} {e : KvResult} (h : s.admission c.pointers c.key = .error e) :
      CallRun D s c ⟨e, none, none⟩ s
  | storeNoMemory {key : Option Bytes} {k : Bytes} {i : ℕ} {value : Buf} {overwrite : Bool}
      (hk : s.admission true key = .ok (k, i)) (hb : (s.bounce value).1 = false) :
      CallRun D s (.store key (some value) overwrite) ⟨.noMemory, none, none⟩ (s.bounce value).2
  | stored {key : Option Bytes} {k : Bytes} {i : ℕ} {p : Place} {value : Buf} {overwrite : Bool}
      (hk : s.admission true key = .ok (k, i)) (hp : (s.devices i).keyspace = some p)
      (hb : (s.bounce value).1 = true) :
      CallRun D s (.store key (some value) overwrite)
        ⟨mapKvsResult (storeOutcome D (s.ssd p) k value.bytes overwrite).1, none, none⟩
        ((s.bounce value).2.afterStore i p k value.bytes
          (storeOutcome D (s.ssd p) k value.bytes overwrite))
  | retrieveNoMemory {key : Option Bytes} {k : Bytes} {i : ℕ} {outs del : Bool}
      {pool : Option DmaPool} {heap : ℕ → Option Addr}
      (hk : s.admission outs key = .ok (k, i)) (hheap : s.AllocsSucceed → ∀ n, (heap n).isSome) :
      CallRun D s (.retrieve key outs del) ⟨.noMemory, none, none⟩ (s.withBuffers pool heap)
  | retrieved {key : Option Bytes} {k : Bytes} {i : ℕ} {p : Place} {outs del : Bool} {b : Addr}
      {pool : Option DmaPool} {heap : ℕ → Option Addr} {o : Option (KvsResult × KvsValue)} {d' : δ}
      (hk : s.admission outs key = .ok (k, i)) (hp : (s.devices i).keyspace = some p)
      (ho : Attempts D (s.ssd p) k del o d') (hheap : s.AllocsSucceed → ∀ n, (heap n).isSome) :
      CallRun D s (.retrieve key outs del) ⟨(retrieveAnswer b o).1, (retrieveAnswer b o).2, none⟩
        (((s.setSsd p d').afterRetrieve i k del o).withBuffers pool heap)
  | deleted {key : Option Bytes} {k : Bytes} {i : ℕ} {p : Place}
      (hk : s.admission true key = .ok (k, i)) (hp : (s.devices i).keyspace = some p) :
      CallRun D s (.delete key)
        ⟨mapKvsResult (D.deleteKvp (s.ssd p) (kvsKeyOf k) false).1, none, none⟩
        (s.afterDelete i p k (D.deleteKvp (s.ssd p) (kvsKeyOf k) false))
  | existed {key : Option Bytes} {k : Bytes} {i : ℕ} {p : Place} {outs : Bool}
      (hk : s.admission outs key = .ok (k, i)) (hp : (s.devices i).keyspace = some p) :
      CallRun D s (.exists key outs)
        ⟨(existsAnswer (keyInTable s.keyTable k) (D.existKvPairs (s.ssd p) (kvsKeyOf k)).1).1, none,
          (existsAnswer (keyInTable s.keyTable k) (D.existKvPairs (s.ssd p) (kvsKeyOf k)).1).2⟩
        (s.afterExists i p (D.existKvPairs (s.ssd p) (kvsKeyOf k)))

/-- A refused call returns the error and changes nothing. -/
theorem run_call_refused {s : State δ} {c : Call} {e : KvResult}
    (h : s.admission c.pointers c.key = .error e) :
    run D c.prog s = (⟨e, none, none⟩, s) := by
  cases c <;>
    simp only [Call.pointers, Call.key] at h <;>
    simp only [Call.prog, kvEngineStore, kvEngineRetrieve, kvEngineDelete, kvEngineExists,
      Prog.run_bind, run_guarded, h, id_eq, Prog.pure_eq, Prog.run_ret]

/-- The admitted key is the argument, and its slot is the shard. -/
theorem admission_ok {s : State δ} {b : Bool} {key : Option Bytes} {k : Bytes} {i : ℕ}
    (h : s.admission b key = .ok (k, i)) :
    key = some k ∧ i = s.shard k ∧ KeyOk k ∧ s.initialized = true ∧ b = true ∧
      (s.devices i).healthy = true := by
  unfold State.admission at h
  cases key with
  | none => cases h
  | some key =>
      simp only at h
      by_cases hi : (!s.initialized || !b) = true
      · rw [if_pos hi] at h
        cases h
      · rw [if_neg hi] at h
        by_cases hk : KeyOk key
        · by_cases hh : (s.devices (s.shard key)).healthy = true
          · simp only [hk, not_true_eq_false, if_false, hh, if_true, Except.ok.injEq,
              Prod.mk.injEq] at h
            obtain ⟨rfl, rfl⟩ := h
            simp only [Bool.or_eq_true, Bool.not_eq_true', not_or, Bool.not_eq_false] at hi
            exact ⟨rfl, rfl, hk, hi.1, hi.2, hh⟩
          · simp [hk, hh] at h
        · simp [hk] at h

/-- A refusal is one of two errors. -/
theorem admission_error {s : State δ} {b : Bool} {key : Option Bytes} {e : KvResult}
    (h : s.admission b key = .error e) : e = .invalidParam ∨ e = .deviceDegraded := by
  unfold State.admission at h
  cases key with
  | none =>
      cases h
      exact .inl rfl
  | some key =>
      simp only at h
      by_cases hi : (!s.initialized || !b) = true
      · rw [if_pos hi] at h
        cases h
        exact .inl rfl
      · rw [if_neg hi] at h
        by_cases hk : KeyOk key
        · by_cases hh : (s.devices (s.shard key)).healthy = true
          · simp [hk, hh] at h
          · simp only [hk, not_true_eq_false, if_false, hh, Bool.false_eq_true,
              Except.error.injEq] at h
            exact .inr h.symm
        · simp only [hk, not_false_eq_true, if_true, Except.error.injEq] at h
          exact .inl h.symm

/-- Every call goes one of these ways. -/
theorem run_call {s : State δ} (hs : s.Mounted) (c : Call) :
    CallRun D s c (run D c.prog s).1 (run D c.prog s).2 := by
  cases hk : s.admission c.pointers c.key with
  | error e =>
      rw [run_call_refused hk]
      exact .refused hk
  | ok ki =>
      obtain ⟨k, i⟩ := ki
      obtain ⟨hkey, rfl, hok, _, hptr, _⟩ := admission_ok hk
      obtain ⟨path, hp⟩ := hs.place k
      cases c with
      | store key value overwrite =>
          cases value with
          | none => cases hptr
          | some value =>
              have hk' : s.admission true key = .ok (k, s.shard k) := hk
              have hrun := run_kvEngineStore (D := D) value overwrite hk'
              cases hb : (s.bounce value).1 with
              | false =>
                  rw [hb] at hrun
                  simp only [Call.prog, Prog.run_bind, hrun, Prog.pure_eq, Prog.run_ret]
                  exact .storeNoMemory hk' hb
              | true =>
                  have hbounce := s.sameSlots_bounce value
                  have hp' : ((s.bounce value).2.devices (s.shard k)).keyspace = some ⟨path, _⟩ :=
                    (hbounce.keyspace _).trans hp
                  rw [hb, if_pos rfl, run_storeTail hp', s.bounce_ssd] at hrun
                  simp only [Call.prog, Prog.run_bind, hrun, Prog.pure_eq, Prog.run_ret]
                  exact .stored hk' hp hb
      | retrieve key outs del =>
          have hk' : s.admission outs key = .ok (k, s.shard k) := hk
          obtain ⟨b, pool, heap, hheap, hcase⟩ := run_kvEngineRetrieve_cases (D := D) del hk' hp
          rcases hcase with ⟨_, hrun⟩ | ⟨o, d', ho, _, hrun⟩
          · simp only [Call.prog, Prog.run_bind, hrun, Prog.pure_eq, Prog.run_ret]
            exact .retrieveNoMemory hk' hheap
          · simp only [Call.prog, Prog.run_bind, hrun, Prog.pure_eq, Prog.run_ret]
            exact .retrieved hk' hp ho hheap
      | delete key =>
          have hk' : s.admission true key = .ok (k, s.shard k) := hk
          simp only [Call.prog, Prog.run_bind, run_kvEngineDelete hk' hp, Prog.pure_eq,
            Prog.run_ret]
          exact .deleted hk' hp
      | «exists» key outs =>
          have hk' : s.admission outs key = .ok (k, s.shard k) := hk
          simp only [Call.prog, Prog.run_bind, run_kvEngineExists hk' hp, Prog.pure_eq,
            Prog.run_ret]
          exact .existed hk' hp

/-- No call moves a slot. -/
theorem CallRun.sameSlots {s t : State δ} {c : Call} {r : Reply} (h : CallRun D s c r t) :
    State.SameSlots s t := by
  cases h with
  | refused => exact .refl s
  | storeNoMemory => exact s.sameSlots_bounce _
  | stored => exact (s.sameSlots_bounce _).trans (State.sameSlots_afterStore ..)
  | retrieveNoMemory => exact ⟨rfl, rfl, fun _ => rfl⟩
  | retrieved =>
      obtain ⟨h₁, h₂, h₃⟩ := State.sameSlots_afterRetrieve (s.setSsd _ _) _ _ _ _
      exact ⟨h₁, h₂, h₃⟩
  | deleted => exact State.sameSlots_afterDelete ..
  | existed => exact State.sameSlots_afterExists ..

/-! ### Adding a device -/

/-- The ways through `kv_engine_add_device`. -/
inductive AddRun (D : Driver δ) (s : State δ) : KvResult → State δ → Prop
  | refused : AddRun D s .invalidParam s
  | failed {path : String} {d : δ} {c : DeviceCtx} {n : ℕ}
      (hd : Manages D (s.ssd ⟨path, s.numDevices⟩) d) :
      AddRun D s .deviceOpen (s.atSlot s.numDevices path d c n)
  | added {path : String} {d : δ} {copy : Option String} {n : ℕ}
      (hmax : s.numDevices < kvMaxDevices) (hw : s.stats.writeOps = 0)
      (hd : Manages D (s.ssd ⟨path, s.numDevices⟩) d) :
      AddRun D s .success
        { s.atSlot s.numDevices path d (.fresh path s.numDevices copy) n with
          numDevices := s.numDevices + 1 }

theorem run_kvEngineAddDevice (s : State δ) (devicePath : Option String) :
    AddRun D s (run D (kvEngineAddDevice devicePath) s).1
      (run D (kvEngineAddDevice devicePath) s).2 := by
  unfold kvEngineAddDevice
  simp only [Prog.perform_bind, Prog.run_act, exec]
  cases devicePath with
  | none => exact .refused
  | some path =>
      by_cases hi : s.initialized = true
      · simp only [hi, Bool.not_true, Bool.false_eq_true, if_false, Prog.run_act, exec]
        by_cases hmax : kvMaxDevices ≤ s.numDevices
        · simp only [hmax, if_true]
          exact .refused
        · simp only [hmax, if_false, Prog.run_act, exec]
          by_cases hw : 0 < s.stats.writeOps
          · simp only [hw, if_true]
            exact .refused
          · have hw0 : s.stats.writeOps = 0 := by
              rw [UInt64.lt_iff_toNat_lt, UInt64.toNat_zero] at hw
              exact UInt64.toNat_inj.mp (by rw [UInt64.toNat_zero]; omega)
            obtain ⟨r, d, c, n, hopen, hd, hcase⟩ :=
              run_kvEngineOpenDevice_cases (D := D) s s.numDevices path
            simp only [hw, if_false, Prog.run_bind, hopen]
            rcases hcase with rfl | ⟨rfl, copy, rfl⟩
            · exact .failed hd
            · exact .added (Nat.not_le.mp hmax) hw0 hd
      · simp only [hi, Bool.not_false, if_true]
        exact .refused

/-- Adding a device moves no slot that is in use. -/
theorem AddRun.mounted {s t : State δ} {r : KvResult} (h : AddRun D s r t) (hs : s.Mounted) :
    t.Mounted := by
  cases h with
  | refused => exact hs
  | failed hd =>
      refine ⟨hs.initialized, hs.pos, fun i hi => ?_⟩
      have hne : i ≠ s.numDevices := Nat.ne_of_lt hi
      simpa [State.atSlot, Function.update_of_ne hne] using hs.slot i hi
  | @added path d copy n hmax hw hd =>
      refine ⟨hs.initialized, Nat.succ_pos _, fun i hi => ?_⟩
      by_cases hne : i = s.numDevices
      · subst hne
        exact ⟨path, by simp [State.atSlot, DeviceCtx.fresh]⟩
      · have hlt : i < s.numDevices := Nat.lt_of_le_of_ne (Nat.le_of_lt_succ hi) hne
        simpa [State.atSlot, Function.update_of_ne hne] using hs.slot i hlt

/-! ### The probe -/

/-- What a sweep of the probe can change: health fields, and devices it only manages. -/
structure Swept (D : Driver δ) (s t : State δ) : Prop where
  slots : State.SameSlots s t
  healthy : ∀ i, (s.devices i).healthy = true → (t.devices i).healthy = true
  ssd : ∀ p, Manages D (s.ssd p) (t.ssd p)
  keyTable : t.keyTable = s.keyTable
  stats : t.stats = s.stats
  heap : t.heap = s.heap

theorem Swept.refl (s : State δ) : Swept D s s :=
  ⟨.refl s, fun _ => id, fun _ => .refl, rfl, rfl, rfl⟩

theorem Swept.trans {s t u : State δ} (h : Swept D s t) (h' : Swept D t u) : Swept D s u :=
  ⟨h.slots.trans h'.slots, fun i hi => h'.healthy i (h.healthy i hi),
    fun p => (h.ssd p).trans (h'.ssd p), h'.keyTable.trans h.keyTable, h'.stats.trans h.stats,
    h'.heap.trans h.heap⟩

/-- A write of health fields that never marks a device unhealthy. -/
theorem swept_setDevice (s : State δ) (i : ℕ) (f : DeviceCtx → DeviceCtx)
    (hk : (f (s.devices i)).keyspace = (s.devices i).keyspace)
    (hf : (s.devices i).healthy = true → (f (s.devices i)).healthy = true) :
    Swept D s (s.setDevice i f) := by
  refine ⟨s.sameSlots_setDevice i hk, fun j hj => ?_, fun _ => .refl, rfl, rfl, rfl⟩
  by_cases hne : j = i
  · subst hne
    simpa using hf hj
  · simpa [Function.update_of_ne hne] using hj

/-- The actions of the probe. -/
def Act.Probes : Act → Prop
  | .loadNumDevices => True
  | .loadHealthy _ => True
  | .kvsGetDeviceUtilization _ => True
  | .storeHealthy _ b => b = true
  | .storeConsecutiveErrors _ _ => True
  | _ => False

theorem exec_probes {a : Act} (ha : a.Probes) (s : State δ) : Swept D s (exec D a s).2 := by
  cases a <;> simp only [Act.Probes] at ha
  case kvsGetDeviceUtilization i =>
    simp only [exec, State.deviceCommand]
    split
    · exact .refl s
    · rename_i path _
      obtain ⟨hssd, _⟩ := @command_managed δ D s ⟨path, i⟩ _ D.getDeviceUtilization
        .getDeviceUtilization
      exact ⟨⟨rfl, rfl, fun _ => rfl⟩, fun _ => id, hssd, rfl, rfl, rfl⟩
  case storeHealthy i b =>
    exact swept_setDevice s i (fun c => { c with healthy := b }) rfl fun _ => ha
  case storeConsecutiveErrors i v =>
    exact swept_setDevice s i (fun c => { c with consecutiveErrors := v }) rfl id
  all_goals exact .refl s

theorem probeDevice_probes (counts : ℕ → UInt32) (i : ℕ) :
    (probeDevice counts i).Performs Act.Probes := by
  simp only [probeDevice, Prog.perform_bind, Prog.performs_act, Act.Probes, true_and]
  intro healthy
  split
  · trivial
  · simp only [Prog.performs_act, Act.Probes, true_and]
    intro res
    split
    · split
      · exact ⟨rfl, fun _ => ⟨trivial, fun _ => trivial⟩⟩
      · trivial
    · trivial

theorem probeSweepFrom_probes (i turns : ℕ) (counts : ℕ → UInt32) :
    (probeSweepFrom i turns counts).Performs Act.Probes := by
  induction turns generalizing i counts with
  | zero => trivial
  | succ turns ih =>
      simp only [probeSweepFrom, Prog.perform_bind, Prog.performs_act, Act.Probes, true_and]
      intro n
      split
      · exact (probeDevice_probes counts i).bind fun counts' => ih (i + 1) counts'
      · trivial

theorem run_probeSweep (counts : ℕ → UInt32) (s : State δ) :
    Swept D s (run D (probeSweep counts) s).2 :=
  Prog.run_rel (exec D) Swept.refl Swept.trans (fun _ s ha => exec_probes ha s)
    (probeSweepFrom_probes 0 kvMaxDevices counts) s

/-! ### The machine -/

/-- An engine with its probe thread; `recoveryCounts` is the probe's own array. -/
structure System (δ : Type) where
  engine : State δ
  recoveryCounts : ℕ → UInt32

/-- One event of a single-threaded history. -/
inductive ApiEvent where
  | call (c : Call)
  | getStats
  | resetStats
  | addDevice (path : Option String)
  | sweep

/-- The answers to the events. -/
inductive ApiReply where
  | reply (r : Reply)
  | stats (r : KvResult) (st : Stats)
  | result (r : KvResult)
  | none

/-- Perform one event. -/
def System.step (D : Driver δ) (σ : System δ) : ApiEvent → ApiReply × System δ
  | .call c => (.reply (run D c.prog σ.engine).1, { σ with engine := (run D c.prog σ.engine).2 })
  | .getStats =>
      let (r, st) := (run D kvEngineGetStats σ.engine).1
      (.stats r st, { σ with engine := (run D kvEngineGetStats σ.engine).2 })
  | .resetStats => (.none, { σ with engine := (run D kvEngineResetStats σ.engine).2 })
  | .addDevice path =>
      (.result (run D (kvEngineAddDevice path) σ.engine).1,
        { σ with engine := (run D (kvEngineAddDevice path) σ.engine).2 })
  | .sweep =>
      let (counts, s) := run D (probeSweep σ.recoveryCounts) σ.engine
      (.none, ⟨s, counts⟩)

/-- An initialised engine, with the probe's array zeroed. -/
def System.boot (D : Driver δ) (config : Config) (s : State δ) : System δ :=
  ⟨(run D (kvEngineInit config) s).2, fun _ => 0⟩

theorem System.step_mounted {σ : System δ} (h : σ.engine.Mounted) (e : ApiEvent) :
    (σ.step D e).2.engine.Mounted := by
  cases e with
  | call c => exact (run_call h c).sameSlots.mounted h
  | getStats => exact h
  | resetStats => exact ⟨h.initialized, h.pos, h.slot⟩
  | addDevice path => exact (run_kvEngineAddDevice σ.engine path).mounted h
  | sweep => exact (run_probeSweep σ.recoveryCounts σ.engine).slots.mounted h

theorem System.boot_mounted {config : Config} {s : State δ}
    (h : (run D (kvEngineInit config) s).1 = .success) :
    (System.boot D config s).engine.Mounted := by
  obtain ⟨paths, hpaths, hboot⟩ := kvEngineInit_success h
  exact hboot.mounted (paths_ne_nil hpaths)

end KvEngine
