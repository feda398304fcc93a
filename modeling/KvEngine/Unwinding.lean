import KvEngine.Ledger

/-! # The unwinding sequences of an initialisation

The devices and the pools of `kv_engine_init` (`src/core/kv_engine.c`) on the account of
`Ledger.lean`.

* `kv_engine_open_device` gains what its slot holds afterwards, and nothing when it fails;
  `kv_engine_close_device` gives up what its slot holds.
* The device loop that fails has closed the devices before.
* From the statistics on, a call that fails gives up everything it and the steps before acquired. -/

namespace KvEngine

open Atomic

variable {δ : Type} {D : Driver δ}

/-! ### Devices -/

/-- What a slot of the device array holds. -/
def DeviceCtx.assets (c : DeviceCtx) (i : ℕ) : Multiset Asset :=
  owned c.devicePath.isSome (.resource (.devicePath i)) + owned c.device.isSome (.device i) +
    owned c.keyspace.isSome (.keyspace i)

@[simp] theorem DeviceCtx.assets_zero (i : ℕ) : DeviceCtx.zero.assets i = 0 := by
  simp [DeviceCtx.assets, DeviceCtx.zero]

/-- What the first `n` slots hold. -/
def State.slotAssets (s : State δ) (is : List ℕ) : Multiset Asset :=
  (is.map fun i => (s.devices i).assets i).sum

theorem State.slotAssets_congr {s t : State δ} {is : List ℕ}
    (h : ∀ i ∈ is, s.devices i = t.devices i) : s.slotAssets is = t.slotAssets is := by
  unfold State.slotAssets
  rw [List.map_congr_left fun i hi => by rw [h i hi]]

theorem State.slotAssets_range_succ (s : State δ) (n : ℕ) :
    s.slotAssets (List.range (n + 1)) = s.slotAssets (List.range n) + (s.devices n).assets n := by
  simp [State.slotAssets, List.range_succ]

section commands

variable {α : Type} {base final : Multiset Asset} {s : State δ} {i : ℕ}

theorem turns_kvsOpenDevice {path : String} {k : KvsResult → M α}
    (hk : Turns D (base + owned ((exec D (.kvsOpenDevice i path) s).1 = .success) (.device i))
      (k (exec D (.kvsOpenDevice i path) s).1) (exec D (.kvsOpenDevice i path) s).2 final) :
    Turns D base (.act (.kvsOpenDevice i path) k) s final := by
  refine .act ?_ hk
  simp [ledger, assetsGained, assetsGiven]

theorem turns_kvsOpenKeySpace {k : KvsResult → M α}
    (hk : Turns D (base + owned ((exec D (.kvsOpenKeySpace i) s).1 = .success) (.keyspace i))
      (k (exec D (.kvsOpenKeySpace i) s).1) (exec D (.kvsOpenKeySpace i) s).2 final) :
    Turns D base (.act (.kvsOpenKeySpace i) k) s final := by
  refine .act ?_ hk
  simp [ledger, assetsGained, assetsGiven]

theorem turns_kvsCloseKeySpace {k : Unit → M α}
    (hk : Turns D base (k ()) (exec D (.kvsCloseKeySpace i) s).2 final) :
    Turns D (base + owned (s.devices i).keyspace.isSome (.keyspace i)) (.act (.kvsCloseKeySpace i) k) s
      final := by
  refine .act ?_ hk
  simp [ledger, assetsGained, assetsGiven, add_comm]

theorem turns_kvsCloseDevice {k : Unit → M α}
    (hk : Turns D base (k ()) (exec D (.kvsCloseDevice i) s).2 final) :
    Turns D (base + owned (s.devices i).device.isSome (.device i)) (.act (.kvsCloseDevice i) k) s
      final := by
  refine .act ?_ hk
  simp [ledger, assetsGained, assetsGiven, add_comm]

theorem turns_releaseDevicePath {k : Unit → M α} (hk : Turns D base (k ()) s final) :
    Turns D (base + owned (s.devices i).devicePath.isSome (.resource (.devicePath i)))
      (.act (.release (.devicePath i)) k) s final := by
  refine .act ?_ hk
  simp [ledger, assetsGained, assetsGiven, add_comm]

end commands

/-- The slot after its keyspace is closed. -/
theorem exec_kvsCloseKeySpace_devices (s : State δ) (i : ℕ) :
    (exec D (.kvsCloseKeySpace i) s).2.devices =
      Function.update s.devices i { s.devices i with keyspace := none } := by
  obtain ⟨ssd, h⟩ := s.keyspaceCommand_frame i KvsResult.paramInvalid D.closeKeySpace
  simp only [exec, h, State.setDevice]

theorem exec_kvsCloseDevice_devices (s : State δ) (i : ℕ) :
    (exec D (.kvsCloseDevice i) s).2.devices =
      Function.update s.devices i { s.devices i with device := none } := by
  obtain ⟨ssd, h⟩ := s.deviceCommand_frame i KvsResult.paramInvalid D.closeDevice
  simp only [exec, h, State.setDevice]

/-- Closing a slot gives up all it holds. -/
theorem kvEngineCloseDevice_turns (i : ℕ) (s : State δ) :
    Turns D ((s.devices i).assets i) (kvEngineCloseDevice i) s 0 := by
  have hfirst := exec_kvsCloseKeySpace_devices (D := D) s i
  have hsecond := exec_kvsCloseDevice_devices (D := D) (exec D (.kvsCloseKeySpace i) s).2 i
  have hdevice : (s.devices i).device = ((exec D (.kvsCloseKeySpace i) s).2.devices i).device := by
    rw [hfirst, Function.update_self]
  have hpath : (s.devices i).devicePath = ((exec D (.kvsCloseDevice i)
      (exec D (.kvsCloseKeySpace i) s).2).2.devices i).devicePath := by
    rw [hsecond, Function.update_self, hfirst, Function.update_self]
  refine turns_kvsCloseKeySpace ?_
  rw [hdevice]
  refine turns_kvsCloseDevice ?_
  rw [hpath, ← zero_add (owned _ _)]
  exact turns_releaseDevicePath (turns_unbooked trivial (.ret _))

/-- Closing a slot touches no other slot. -/
theorem run_kvEngineCloseDevice_devices {i j : ℕ} (hij : j ≠ i) (s : State δ) :
    (run D (kvEngineCloseDevice i) s).2.devices j = s.devices j := by
  have hlast (t : State δ) : (exec D (.freeDevicePath i) t).2.devices j = t.devices j :=
    Function.update_of_ne hij _ _
  simp only [kvEngineCloseDevice, Prog.perform_bind, Prog.run_act, Prog.run_perform, hlast]
  change (exec D (.kvsCloseDevice i) (exec D (.kvsCloseKeySpace i) s).2).2.devices j = _
  rw [exec_kvsCloseDevice_devices, Function.update_of_ne hij, exec_kvsCloseKeySpace_devices,
    Function.update_of_ne hij]

theorem closeDevices_turns {is : List ℕ} (hnodup : is.Nodup) (s : State δ) :
    Turns D (s.slotAssets is) (closeDevices is) s 0 := by
  induction is generalizing s with
  | nil => exact .ret _
  | cons i is ih =>
      obtain ⟨hi, hnodup⟩ := List.nodup_cons.mp hnodup
      have hrest : (run D (kvEngineCloseDevice i) s).2.slotAssets is = s.slotAssets is :=
        State.slotAssets_congr fun j hj =>
          run_kvEngineCloseDevice_devices (ne_of_mem_of_not_mem hj hi) s
      have hclose := (kvEngineCloseDevice_turns (D := D) i s).spend (s.slotAssets is)
      rw [add_comm] at hclose
      refine hclose.bind ?_
      rw [← hrest]
      exact ih hnodup _

theorem closeAllDevices_turns (s : State δ) :
    Turns D (s.slotAssets (List.range s.numDevices)) closeAllDevices s 0 :=
  turns_unbooked trivial (closeDevices_turns List.nodup_range s)

/-- The run turns `base` into what slot `i` holds after it, and leaves the slot empty when it
fails. -/
def OpensSlot (D : Driver δ) (i : ℕ) (base : Multiset Asset) (p : M KvResult) (s : State δ) : Prop :=
  Turns D base p s (((run D p s).2.devices i).assets i) ∧
    ((run D p s).1 ≠ .success → ((run D p s).2.devices i).assets i = 0)

section slot

variable {s : State δ} {i : ℕ} {path : String} {d : δ} {c : DeviceCtx}

theorem OpensSlot.kvsOpenDevice {base : Multiset Asset} {k : KvsResult → M KvResult} {r : KvsResult}
    {t : State δ} (hexec : exec D (.kvsOpenDevice i path) s = (r, t))
    (h : OpensSlot D i (base + owned (r = .success) (.device i)) (k r) t) :
    OpensSlot D i base (.act (.kvsOpenDevice i path) k) s := by
  obtain ⟨rfl, rfl⟩ := Prod.mk.inj hexec
  exact ⟨turns_kvsOpenDevice h.1, h.2⟩

theorem OpensSlot.kvsOpenKeySpace {base : Multiset Asset} {k : KvsResult → M KvResult}
    {r : KvsResult} {t : State δ} (hexec : exec D (.kvsOpenKeySpace i) s = (r, t))
    (h : OpensSlot D i (base + owned (r = .success) (.keyspace i)) (k r) t) :
    OpensSlot D i base (.act (.kvsOpenKeySpace i) k) s := by
  obtain ⟨rfl, rfl⟩ := Prod.mk.inj hexec
  exact ⟨turns_kvsOpenKeySpace h.1, h.2⟩

theorem OpensSlot.kvsCreateKeySpace {base : Multiset Asset} {k : KvsResult → M KvResult}
    {r : KvsResult} {t : State δ} (hexec : exec D (.kvsCreateKeySpace i) s = (r, t))
    (h : OpensSlot D i base (k r) t) : OpensSlot D i base (.act (.kvsCreateKeySpace i) k) s := by
  obtain ⟨rfl, rfl⟩ := Prod.mk.inj hexec
  exact ⟨turns_unbooked trivial h.1, h.2⟩

/-- With the device and the keyspace open only the copy of the path is missing. -/
theorem finishOpenDevice_opensSlot (hc : c.device = some path) (hk : c.keyspace = some ⟨path, i⟩) :
    OpensSlot D i (0 + {.device i} + {.keyspace i}) (finishOpenDevice i path)
      (s.atSlot i path d c 0) := by
  refine ⟨turns_acquire rfl (turns_unbooked trivial ?_), fun h => absurd rfl h⟩
  have hfinal : ((run D (finishOpenDevice i path) (s.atSlot i path d c 0)).2.devices i).assets i =
      0 + {.device i} + {.keyspace i} + owned (s.heap 0).isSome (.resource (.devicePath i)) := by
    simp only [finishOpenDevice, Prog.perform_bind, Prog.run_act, exec, Prog.pure_eq, Prog.run_ret,
      State.setDevice, State.dropAlloc, State.atSlot, State.nextAlloc, Function.update_self,
      DeviceCtx.assets, hc, hk]
    by_cases hcopy : (s.heap 0).isSome = true <;> simp [hcopy, add_comm]
  rw [hfinal]
  exact .ret _

/-- When the keyspace cannot be opened, the device is closed again. -/
theorem closeDevice_opensSlot (hc : c.device = some path) (hk : c.keyspace = none)
    (hp : c.devicePath = none) (r : KvResult) :
    OpensSlot D i (0 + {.device i}) (.act (.kvsCloseDevice i) fun _ => .ret r)
      (s.atSlot i path d c 0) := by
  have hslot : (s.atSlot i path d c 0).devices i = c := by simp [State.atSlot]
  have hfinal : ((exec D (.kvsCloseDevice i) (s.atSlot i path d c 0)).2.devices i).assets i = 0 := by
    rw [exec_kvsCloseDevice_devices, Function.update_self, hslot]
    simp [DeviceCtx.assets, hk, hp]
  have hdevice : owned ((s.atSlot i path d c 0).devices i).device.isSome (.device i) =
      {.device i} := by
    simp [hslot, hc]
  refine ⟨?_, fun _ => hfinal⟩
  change Turns D _ _ _ (((exec D (.kvsCloseDevice i) (s.atSlot i path d c 0)).2.devices i).assets i)
  rw [hfinal, ← hdevice]
  exact turns_kvsCloseDevice (.ret _)

/-- Opening an empty slot gains what the slot holds afterwards, and a call that fails leaves it
empty. -/
theorem kvEngineOpenDevice_opensSlot (hempty : s.devices i = .zero) :
    OpensSlot D i 0 (kvEngineOpenDevice i path) s := by
  simp only [kvEngineOpenDevice, Prog.perform_bind]
  refine .kvsOpenDevice (exec_kvsOpenDevice s i path) ?_
  rw [hempty]
  generalize D.openDevice (s.ssd ⟨path, i⟩) = first
  obtain ⟨r₁, d₁⟩ := first
  by_cases hr₁ : r₁ = .success
  · simp only [hr₁, ne_eq, not_true_eq_false, if_true, if_false, decide_true, owned_true]
    generalize hc : ({ DeviceCtx.zero with device := some path } : DeviceCtx) = c
    have hdev : c.device = some path := hc ▸ rfl
    have hks : c.keyspace = none := hc ▸ rfl
    have hpath : c.devicePath = none := hc ▸ rfl
    refine .kvsOpenKeySpace (exec_kvsOpenKeySpace hdev) ?_
    generalize D.openKeySpace d₁ = second
    obtain ⟨r₂, d₂⟩ := second
    by_cases hr₂ : r₂ = .success
    · simp only [hr₂, if_true, decide_true, owned_true]
      exact finishOpenDevice_opensSlot (c := { c with keyspace := some ⟨path, i⟩ }) hdev rfl
    · simp only [hr₂, if_false, decide_false, owned_false, add_zero]
      have hcreate : exec D (.kvsCreateKeySpace i) (s.atSlot i path d₂ c 0) =
          ((D.createKeySpace d₂).1, s.atSlot i path (D.createKeySpace d₂).2 c 0) :=
        deviceCommand_atSlot hdev _ _
      refine .kvsCreateKeySpace hcreate ?_
      generalize D.createKeySpace d₂ = third
      obtain ⟨r₃, d₃⟩ := third
      by_cases hr₃ : r₃ = .success
      · simp only [hr₃, not_true_eq_false, if_false]
        refine .kvsOpenKeySpace (exec_kvsOpenKeySpace hdev) ?_
        generalize D.openKeySpace d₃ = fourth
        obtain ⟨r₄, d₄⟩ := fourth
        by_cases hr₄ : r₄ = .success
        · simp only [hr₄, not_true_eq_false, if_true, if_false, decide_true, owned_true]
          exact finishOpenDevice_opensSlot (c := { c with keyspace := some ⟨path, i⟩ }) hdev rfl
        · simp only [hr₄, not_false_eq_true, if_true, if_false, decide_false, owned_false, add_zero]
          exact closeDevice_opensSlot hdev hks hpath _
      · simp only [hr₃, not_false_eq_true, if_true]
        exact closeDevice_opensSlot hdev hks hpath _
  · simp only [hr₁, ne_eq, not_false_eq_true, if_true, if_false, decide_false, owned_false, add_zero]
    have hslot : ((s.atSlot i path d₁ .zero 0).devices i).assets i = 0 := by simp [State.atSlot]
    refine ⟨?_, fun _ => hslot⟩
    change Turns D 0 _ _ (((s.atSlot i path d₁ .zero 0).devices i).assets i)
    rw [hslot]
    exact .ret _

end slot

/-- A device that cannot be opened takes the ones before it down. -/
theorem openDevices_turns {i : ℕ} {paths : List String} {s : State δ}
    (hempty : ∀ j, i ≤ j → s.devices j = .zero) :
    Turns D (s.slotAssets (List.range i)) (openDevices i paths) s
      (if (run D (openDevices i paths) s).1 = .success then
        (run D (openDevices i paths) s).2.slotAssets (List.range (i + paths.length)) else 0) := by
  induction paths generalizing i s with
  | nil => exact .ret _
  | cons path paths ih =>
      obtain ⟨r, d, c, n, hopen, -, hcase⟩ := run_kvEngineOpenDevice_cases (D := D) s i path
      have hopens : OpensSlot D i 0 (kvEngineOpenDevice i path) s :=
        kvEngineOpenDevice_opensSlot (hempty i (Nat.le_refl i))
      obtain ⟨hturns, hfail⟩ := hopens
      have hslot : (s.atSlot i path d c n).devices i = c := by simp [State.atSlot]
      have hbelow : (s.atSlot i path d c n).slotAssets (List.range i) =
          s.slotAssets (List.range i) :=
        State.slotAssets_congr fun j hj =>
          Function.update_of_ne (Nat.ne_of_lt (List.mem_range.mp hj)) _ _
      simp only [hopen, hslot] at hturns hfail
      simp only [openDevices, Prog.run_bind, hopen]
      refine (hturns.earn _).bind ?_
      simp only [hopen]
      by_cases hr : r = .success
      · simp only [hr, ne_eq, not_true_eq_false, if_false, Prog.perform_bind, Prog.run_act, exec]
        refine turns_unbooked trivial ?_
        have hnext := ih (i := i + 1) (s := { s.atSlot i path d c n with numDevices := i + 1 })
          fun j hj => by
            have hne : j ≠ i := by omega
            exact (Function.update_of_ne hne _ _).trans (hempty j (by omega))
        have hslots : State.slotAssets { s.atSlot i path d c n with numDevices := i + 1 }
            (List.range (i + 1)) = s.slotAssets (List.range i) + c.assets i := by
          rw [State.slotAssets_range_succ, ← hbelow]
          exact congrArg (_ + DeviceCtx.assets · i) hslot
        rw [hslots] at hnext
        rw [List.length_cons, ← Nat.add_assoc, Nat.add_right_comm]
        exact hnext
      · simp only [hr, ne_eq, not_false_eq_true, if_true, Prog.run_bind, Prog.pure_eq, Prog.run_ret,
          if_false, hfail hr, add_zero]
        rw [← hbelow]
        exact (closeDevices_turns List.nodup_range _).bind (.ret _)

/-! ### The unwinding sequences -/

/-- The copies of the configuration strings. -/
def stringAssets (copiedPath copiedEmul : Bool) : Multiset Asset :=
  owned copiedEmul (.resource .configEmulFile) + owned copiedPath (.resource .configDevicePath)

/-- What the engine block, the strings and the devices are worth. -/
def State.engineAssets (s : State δ) (copiedPath copiedEmul : Bool) : Multiset Asset :=
  stringAssets copiedPath copiedEmul + {.resource .engine} + s.slotAssets (List.range s.numDevices)

/-- The thread pool, if there is one. -/
def State.workerAssets (s : State δ) (config : Config) : Multiset Asset :=
  if s.workers then threadPoolAssets config.numWorkerThreads else 0

/-- The DMA pool, if there is one. -/
def State.bufferPoolAssets (s : State δ) : Multiset Asset := s.bufferPool.elim 0 DmaPool.assets

theorem run_memoryPoolDestroy (s : State δ) : (run D memoryPoolDestroy s).2 = s := rfl

theorem destroyBufferPool_turns (s : State δ) : Turns D s.bufferPoolAssets destroyBufferPool s 0 := by
  refine turns_unbooked trivial ?_
  simp only [exec, State.bufferPoolAssets]
  cases s.bufferPool with
  | none => exact .ret _
  | some p => exact dmaPoolDestroy_turns p s

theorem run_destroyBufferPool (s : State δ) : ∃ n, (run D destroyBufferPool s).2 = s.skip n := by
  simp only [destroyBufferPool, Prog.perform_bind, Prog.run_act, exec]
  cases s.bufferPool with
  | none => exact ⟨0, rfl⟩
  | some p => exact run_allocates (dmaPoolDestroy_allocates p) s

theorem destroyWorkers_turns (config : Config) (s : State δ) :
    Turns D (s.workerAssets config) (destroyWorkers config) s 0 := by
  refine turns_unbooked trivial ?_
  simp only [exec, State.workerAssets]
  cases s.workers with
  | false => exact .ret _
  | true => exact threadPoolDestroy_turns config.numWorkerThreads s

theorem run_destroyWorkers (config : Config) (s : State δ) :
    ∃ n, (run D (destroyWorkers config) s).2 = s.skip n := by
  simp only [destroyWorkers, Prog.perform_bind, Prog.run_act, exec]
  cases s.workers with
  | false => exact ⟨0, rfl⟩
  | true =>
      exact run_allocates (threadPoolDestroy_allocates _) s

theorem ifPresent_release_turns (present : Bool) {r : Resource} (hr : r.isPlain = true)
    (s : State δ) :
    Turns D (owned present (.resource r)) (ifPresent present (atomically (.release r))) s 0 := by
  cases present with
  | false => exact .ret _
  | true =>
      rw [owned_true, ← zero_add {Asset.resource r}]
      exact turns_release hr (.ret _)

/-- The exit of the key table frees everything. -/
theorem initTable_turns {config : Config} {copiedPath copiedEmul : Bool} {s : State δ}
    (h : (run D (initTable config copiedPath copiedEmul) s).1 ≠ .success) :
    Turns D (s.engineAssets copiedPath copiedEmul + memPoolAssets + s.workerAssets config +
      s.bufferPoolAssets) (initTable config copiedPath copiedEmul) s 0 := by
  simp only [initTable, Prog.perform_bind, Prog.run_act, exec, State.nextAlloc] at h ⊢
  refine turns_unbooked trivial (turns_unbooked rfl ?_)
  simp only [exec, State.nextAlloc]
  by_cases htable : (s.heap 0).isSome = true
  · simp [htable, Prog.run_bind] at h
  · simp only [htable, Bool.not_false, if_true]
    -- The pools go first, then the devices and the strings; only the allocator moves in between.
    refine ((destroyBufferPool_turns (State.dropAlloc { s with keyTable := ∅ })).spend _).bind ?_
    obtain ⟨n₁, h₁⟩ := run_destroyBufferPool (D := D) (State.dropAlloc { s with keyTable := ∅ })
    simp only [h₁]
    refine ((destroyWorkers_turns config ((State.dropAlloc { s with keyTable := ∅ }).skip n₁)).spend
      _).bind ?_
    obtain ⟨n₂, h₂⟩ := run_destroyWorkers (D := D) config
      ((State.dropAlloc { s with keyTable := ∅ }).skip n₁)
    simp only [h₂]
    refine ((memoryPoolDestroy_turns _).spend _).bind ?_
    have hslots : s.slotAssets (List.range s.numDevices) = State.slotAssets
        (((State.dropAlloc { s with keyTable := ∅ }).skip n₁).skip n₂) (List.range s.numDevices) := rfl
    rw [run_memoryPoolDestroy, State.engineAssets, hslots]
    refine ((closeAllDevices_turns _).spend _).bind ?_
    rw [stringAssets, add_comm, ← add_assoc]
    refine ((ifPresent_release_turns copiedPath rfl _).spend _).bind ?_
    refine ((ifPresent_release_turns copiedEmul rfl _).spend _).bind ?_
    rw [← zero_add {Asset.resource .engine}]
    exact turns_unbooked rfl (turns_release rfl (.ret _))

theorem initBufferPool_turns {config : Config} {s : State δ} (hpool : s.bufferPool = none) :
    Turns D 0 (initBufferPool config) s (run D (initBufferPool config) s).2.bufferPoolAssets := by
  unfold initBufferPool
  split
  · refine (dmaPoolCreate_turns _ _ s).bind (turns_unbooked trivial ?_)
    simp only [Prog.run_bind]
    exact .ret _
  · have hnone : s.bufferPoolAssets = 0 := by rw [State.bufferPoolAssets, hpool, Option.elim_none]
    simp only [Prog.pure_eq, Prog.run_ret, hnone]
    exact .ret _

theorem initStats_turns {config : Config} {copiedPath copiedEmul : Bool} {s : State δ}
    (hpool : s.bufferPool = none)
    (h : (run D (initStats config copiedPath copiedEmul) s).1 ≠ .success) :
    Turns D (s.engineAssets copiedPath copiedEmul + memPoolAssets + s.workerAssets config)
      (initStats config copiedPath copiedEmul) s 0 := by
  simp only [initStats, Prog.perform_bind, Prog.run_act, exec, Prog.run_bind] at h ⊢
  refine turns_unbooked rfl (turns_unbooked trivial ?_)
  obtain ⟨pool, n, hrun⟩ := run_initBufferPool (D := D) config { s.dropAlloc with stats := .zero }
  have hturns := @initBufferPool_turns δ D config { s.dropAlloc with stats := .zero } hpool
  simp only [hrun] at hturns h
  refine (hturns.earn _).bind ?_
  simp only [hrun]
  exact initTable_turns h

end KvEngine
