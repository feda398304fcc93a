import KvEngine.Boot
import Mathlib.Algebra.Ring.Nat

/-! # Where the data is

`State.lookup contents s key` is the value `key` has on the device it is sharded to: the one
map that the devices hold together.  This module says what each call does to it.

* `State.Mounted`: the engine is initialised, it has a device, and every slot has an open
  keyspace.  Slots have distinct keyspaces since the slot index is part of the name, so a
  command on one slot changes the lookup of the keys of that slot only
  (`lookup_setSsd_update`).
* `SameSlots` is the frame condition that all calls of the API satisfy.
* `State.Serving`: a mounted engine whose devices are all healthy and whose allocations
  succeed.  Over devices that report no fault every call keeps `Serving`, and its answer and
  its effect on the lookup and on the key table are determined
  (`serving_store`, `serving_retrieve`, `serving_delete`, `serving_exists`). -/

namespace KvEngine

open Atomic

variable {δ : Type} {D : Driver δ} {contents : δ → Bytes → Option Bytes}

namespace State

/-- The value of a key on the device it is sharded to. -/
def lookup (contents : δ → Bytes → Option Bytes) (s : State δ) (key : Bytes) : Option Bytes :=
  match (s.devices (s.shard key)).keyspace with
  | none => none
  | some p => contents (s.ssd p) key

theorem lookup_eq (contents : δ → Bytes → Option Bytes) {s : State δ} {key : Bytes} {p : Place}
    (hp : (s.devices (s.shard key)).keyspace = some p) :
    s.lookup contents key = contents (s.ssd p) key := by
  simp [lookup, hp]

/-! ### Slots -/

/-- The engine is initialised and every slot has an open keyspace. -/
structure Mounted (s : State δ) : Prop where
  initialized : s.initialized = true
  pos : 0 < s.numDevices
  slot : ∀ i < s.numDevices, ∃ path, (s.devices i).keyspace = some ⟨path, i⟩

theorem Mounted.place {s : State δ} (h : s.Mounted) (key : Bytes) :
    ∃ path, (s.devices (s.shard key)).keyspace = some ⟨path, s.shard key⟩ :=
  h.slot _ (kvEngineShardForKey_lt key h.pos)

/-- The two states agree on what routes a key. -/
structure SameSlots (s t : State δ) : Prop where
  initialized : t.initialized = s.initialized
  numDevices : t.numDevices = s.numDevices
  keyspace : ∀ i, (t.devices i).keyspace = (s.devices i).keyspace

theorem SameSlots.refl (s : State δ) : SameSlots s s := ⟨rfl, rfl, fun _ => rfl⟩

theorem SameSlots.trans {s t u : State δ} (h : SameSlots s t) (h' : SameSlots t u) :
    SameSlots s u :=
  ⟨h'.initialized.trans h.initialized, h'.numDevices.trans h.numDevices,
    fun i => (h'.keyspace i).trans (h.keyspace i)⟩

theorem SameSlots.shard {s t : State δ} (h : SameSlots s t) (key : Bytes) :
    t.shard key = s.shard key := by rw [State.shard, State.shard, h.numDevices]

theorem SameSlots.mounted {s t : State δ} (h : SameSlots s t) (hs : s.Mounted) : t.Mounted where
  initialized := h.initialized.trans hs.initialized
  pos := by rw [h.numDevices]; exact hs.pos
  slot i hi := by
    rw [h.keyspace]
    exact hs.slot i (by rwa [← h.numDevices])

/-- The lookup depends on the routing and on the devices only. -/
theorem SameSlots.lookup {s t : State δ} (h : SameSlots s t) (hssd : t.ssd = s.ssd) :
    t.lookup contents = s.lookup contents := by
  funext key
  simp only [State.lookup, h.shard, h.keyspace, hssd]

theorem sameSlots_setDevice (s : State δ) (i : ℕ) {f : DeviceCtx → DeviceCtx}
    (hf : (f (s.devices i)).keyspace = (s.devices i).keyspace) : SameSlots s (s.setDevice i f) := by
  refine ⟨rfl, rfl, fun j => ?_⟩
  by_cases hj : j = i
  · subst hj
    simpa using hf
  · simp [Function.update_of_ne hj]

theorem sameSlots_account (s : State δ) (i : ℕ) (r : KvsResult) (u : StatsUpdate) :
    SameSlots s (s.account i r u) := by
  obtain ⟨_, _, h⟩ := s.sameSlots_setDevice i (f := (·.record r)) (by simp)
  exact ⟨rfl, rfl, h⟩

/-! ### The calls keep the slots, and change at most one device -/

section frame
variable (s : State δ) (i : ℕ) (p : Place) (key value : Bytes) (del : Bool)

theorem sameSlots_afterStore (o : KvsResult × δ) : SameSlots s (s.afterStore i p key value o) := by
  have h : SameSlots s ((s.addTableKey key).setSsd p o.2) := ⟨by simp, by simp, by simp⟩
  exact h.trans (sameSlots_account _ i _ _)

theorem sameSlots_afterDelete (o : KvsResult × δ) : SameSlots s (s.afterDelete i p key o) := by
  have h : SameSlots s ((s.setSsd p o.2).dropTableKey key) := ⟨rfl, rfl, fun _ => rfl⟩
  exact h.trans (sameSlots_account _ i _ _)

theorem sameSlots_afterExists (o : (KvsResult × UInt8) × δ) :
    SameSlots s (s.afterExists i p o) := by
  have h : SameSlots s (s.setSsd p o.2) := ⟨rfl, rfl, fun _ => rfl⟩
  exact h.trans (sameSlots_setDevice _ i (by simp))

/-- The bounce buffer costs at most one allocation. -/
theorem bounce_skip (value : Buf) : ∃ n, (s.bounce value).2 = s.skip n := by
  unfold bounce
  split
  · exact ⟨0, rfl⟩
  · split
    · exact ⟨0, rfl⟩
    · exact ⟨1, rfl⟩

theorem sameSlots_bounce (value : Buf) : SameSlots s (s.bounce value).2 := by
  obtain ⟨n, hn⟩ := s.bounce_skip value
  rw [hn]
  exact ⟨rfl, rfl, fun _ => rfl⟩

@[simp] theorem bounce_ssd (value : Buf) : (s.bounce value).2.ssd = s.ssd := by
  obtain ⟨n, hn⟩ := s.bounce_skip value
  rw [hn]
  rfl

@[simp] theorem bounce_keyTable (value : Buf) : (s.bounce value).2.keyTable = s.keyTable := by
  obtain ⟨n, hn⟩ := s.bounce_skip value
  rw [hn]
  rfl

theorem sameSlots_forget (deleted : Bool) : SameSlots s (s.forget key deleted) := by
  cases deleted <;> exact ⟨rfl, rfl, fun _ => rfl⟩

theorem sameSlots_afterRetrieve (o : Option (KvsResult × KvsValue)) :
    SameSlots s (s.afterRetrieve i key del o) := by
  cases o with
  | none => exact .refl s
  | some r => exact (s.sameSlots_forget key _).trans (sameSlots_account _ i _ _)

@[simp] theorem afterStore_ssd (o : KvsResult × δ) :
    (s.afterStore i p key value o).ssd = (s.setSsd p o.2).ssd := by simp [afterStore]
@[simp] theorem afterDelete_ssd (o : KvsResult × δ) :
    (s.afterDelete i p key o).ssd = (s.setSsd p o.2).ssd := rfl
@[simp] theorem afterExists_ssd (o : (KvsResult × UInt8) × δ) :
    (s.afterExists i p o).ssd = (s.setSsd p o.2).ssd := rfl
@[simp] theorem afterRetrieve_ssd (o : Option (KvsResult × KvsValue)) :
    (s.afterRetrieve i key del o).ssd = s.ssd := by
  cases o with
  | none => rfl
  | some r => cases h : (del && decide (r.1 = .success)) <;> simp [afterRetrieve, forget, h]

theorem lookup_of_ssd {t : State δ} {d : δ} (h : SameSlots s t)
    (hssd : t.ssd = (s.setSsd p d).ssd) :
    t.lookup contents = (s.setSsd p d).lookup contents := by
  have h' : SameSlots (s.setSsd p d) t := ⟨h.initialized, h.numDevices, h.keyspace⟩
  exact h'.lookup hssd

theorem lookup_afterStore (o : KvsResult × δ) :
    (s.afterStore i p key value o).lookup contents = (s.setSsd p o.2).lookup contents :=
  s.lookup_of_ssd p (s.sameSlots_afterStore i p key value o) (by simp)

theorem lookup_afterDelete (o : KvsResult × δ) :
    (s.afterDelete i p key o).lookup contents = (s.setSsd p o.2).lookup contents :=
  s.lookup_of_ssd p (s.sameSlots_afterDelete i p key o) rfl

theorem lookup_afterExists (o : (KvsResult × UInt8) × δ) :
    (s.afterExists i p o).lookup contents = (s.setSsd p o.2).lookup contents :=
  s.lookup_of_ssd p (s.sameSlots_afterExists i p o) rfl

theorem lookup_afterRetrieve (o : Option (KvsResult × KvsValue)) :
    (s.afterRetrieve i key del o).lookup contents = s.lookup contents :=
  (s.sameSlots_afterRetrieve i key del o).lookup (by simp)

theorem lookup_withBuffers (pool : Option DmaPool) (heap : ℕ → Option Addr) :
    (s.withBuffers pool heap).lookup contents = s.lookup contents := rfl

end frame

/-! ### The lookup after a device command -/

/-- A command that changes one pair changes the lookup of its key. -/
theorem lookup_setSsd_update {s : State δ} (hs : s.Mounted) {key : Bytes} {p : Place} {d : δ}
    {v : Option Bytes} (hp : (s.devices (s.shard key)).keyspace = some p)
    (hd : contents d = Function.update (contents (s.ssd p)) key v) :
    (s.setSsd p d).lookup contents = Function.update (s.lookup contents) key v := by
  obtain ⟨path, hpath⟩ := hs.place key
  obtain rfl : p = ⟨path, s.shard key⟩ := by simpa [hp] using hpath
  funext key'
  obtain ⟨path', hpath'⟩ := hs.place key'
  have hleft : (s.setSsd ⟨path, s.shard key⟩ d).lookup contents key' =
      contents (Function.update s.ssd ⟨path, s.shard key⟩ d ⟨path', s.shard key'⟩) key' :=
    lookup_eq contents hpath'
  rw [hleft]
  by_cases hkey : key' = key
  · subst hkey
    obtain rfl : path = path' := by
      rw [hp] at hpath'
      cases hpath'
      rfl
    rw [Function.update_self, hd, Function.update_self, Function.update_self]
  · rw [Function.update_of_ne hkey, lookup_eq contents hpath']
    by_cases hsame : (⟨path', s.shard key'⟩ : Place) = ⟨path, s.shard key⟩
    · rw [hsame, Function.update_self, hd, Function.update_of_ne hkey]
    · rw [Function.update_of_ne hsame]

/-- A command that changes no pair keeps the lookup. -/
theorem lookup_setSsd_same (s : State δ) {p : Place} {d : δ}
    (hd : contents d = contents (s.ssd p)) :
    (s.setSsd p d).lookup contents = s.lookup contents := by
  funext key
  simp only [lookup, shard, setSsd_devices, setSsd_numDevices, setSsd_ssd]
  split
  · rfl
  · rename_i q _
    by_cases hq : q = p
    · subst hq
      rw [Function.update_self, hd]
    · rw [Function.update_of_ne hq]

/-! ### Empty keyspaces -/

/-- No keyspace holds a pair. -/
def Empty (contents : δ → Bytes → Option Bytes) (s : State δ) : Prop :=
  ∀ p key, contents (s.ssd p) key = none

theorem Empty.lookup {s : State δ} (h : s.Empty contents) (key : Bytes) :
    s.lookup contents key = none := by
  unfold State.lookup
  split
  · rfl
  · exact h _ key

theorem Empty.of_ssd {s t : State δ} (h : s.Empty contents) (hssd : t.ssd = s.ssd) :
    t.Empty contents := by
  intro p key
  rw [hssd]
  exact h p key

/-- A command that adds no pair keeps the keyspaces empty. -/
theorem Empty.setSsd {s : State δ} (h : s.Empty contents) {p : Place} {d : δ}
    (hd : ∀ key, contents (s.ssd p) key = none → contents d key = none) :
    (s.setSsd p d).Empty contents := by
  intro q key
  by_cases hq : q = p
  · subst hq
    rw [State.setSsd_ssd, Function.update_self]
    exact hd key (h q key)
  · rw [State.setSsd_ssd, Function.update_of_ne hq]
    exact h q key

theorem Empty.of_manages (hD : Documented D contents) {s t : State δ}
    (h : s.Empty contents) (hssd : ∀ p, Manages D (s.ssd p) (t.ssd p)) : t.Empty contents := by
  intro p key
  rw [(hssd p).contents_eq hD]
  exact h p key

/-! ### Serving engines -/

/-- All devices are healthy and allocations succeed. -/
structure Serving (s : State δ) : Prop extends Mounted s where
  healthy : ∀ i < s.numDevices, (s.devices i).healthy = true
  allocs : s.AllocsSucceed

theorem Serving.admission {s : State δ} (hs : s.Serving) {key : Bytes} (hk : KeyOk key) :
    s.admission true (some key) = .ok (key, s.shard key) := by
  simp [State.admission, hs.initialized, hk, hs.healthy _ (kvEngineShardForKey_lt key hs.pos), shard]

/-- The states reached from a serving engine by a call that saw no device error. -/
structure Served (contents : δ → Bytes → Option Bytes) (s t : State δ) (m : Bytes → Option Bytes)
    (table : KeyTable) : Prop where
  slots : SameSlots s t
  healthy : ∀ i, (t.devices i).healthy = (s.devices i).healthy
  allocs : t.AllocsSucceed
  lookup : t.lookup contents = m
  keyTable : t.keyTable = table

theorem Served.serving {s t : State δ} {m : Bytes → Option Bytes} {table : KeyTable}
    (h : Served contents s t m table) (hs : s.Serving) : t.Serving where
  toMounted := h.slots.mounted hs.toMounted
  healthy i hi := by
    rw [h.healthy]
    exact hs.healthy i (by rwa [← h.slots.numDevices])
  allocs := h.allocs

theorem record_healthy_update (s : State δ) (i : ℕ) {r : KvsResult} (hr : isDeviceError r = false)
    (j : ℕ) :
    (Function.update s.devices i ((s.devices i).record r) j).healthy = (s.devices j).healthy := by
  by_cases hj : j = i
  · subst hj
    rw [Function.update_self, DeviceCtx.record_healthy _ hr]
  · rw [Function.update_of_ne hj]

/-- With allocations that succeed a non-empty value gets its bounce buffer. -/
theorem bounce_of_allocs {s : State δ} (h : s.AllocsSucceed) {value : Buf}
    (hpos : value.bytes ≠ []) : (s.bounce value).1 = true ∧ ∃ n, (s.bounce value).2 = s.skip n := by
  by_cases hal : isDmaAligned value.addr = true
  · rw [bounce, if_pos hal]
    exact ⟨rfl, 0, rfl⟩
  · rw [bounce, if_neg hal, if_neg hpos]
    exact ⟨h 0, 1, rfl⟩

theorem addTableKey_allocs {s : State δ} (h : s.AllocsSucceed) (key : Bytes) :
    (s.addTableKey key).AllocsSucceed := by
  unfold addTableKey
  split
  · exact h
  · exact fun n => h (n + 1)

/-- Buffers and device contents before the call do not matter. -/
theorem Served.of_sameSlots {s u t : State δ} {m : Bytes → Option Bytes} {table : KeyTable}
    (h : Served contents u t m table) (hslots : SameSlots s u)
    (hhealthy : ∀ i, (u.devices i).healthy = (s.devices i).healthy) :
    Served contents s t m table :=
  ⟨hslots.trans h.slots, fun i => (h.healthy i).trans (hhealthy i), h.allocs, h.lookup, h.keyTable⟩

theorem served_afterStore {s : State δ} (hs : s.AllocsSucceed) (i : ℕ) (p : Place) {key : Bytes}
    (hk : KeyOk key) (value : Bytes) {o : KvsResult × δ} (ho : isDeviceError o.1 = false) :
    Served contents s (s.afterStore i p key value o) ((s.setSsd p o.2).lookup contents)
      (insert key s.keyTable) where
  slots := s.sameSlots_afterStore i p key value o
  healthy j := by simpa [afterStore] using s.record_healthy_update i ho j
  allocs := addTableKey_allocs hs key
  lookup := s.lookup_afterStore i p key value o
  keyTable := by
    have hnext : s.nextAlloc.isSome = true := hs 0
    simp [afterStore, addTableKey_keyTable s key hk.accepts, hnext]

theorem served_afterDelete {s : State δ} (hs : s.AllocsSucceed) (i : ℕ) (p : Place) {key : Bytes}
    (hk : KeyOk key) {o : KvsResult × δ} (ho : isDeviceError o.1 = false) :
    Served contents s (s.afterDelete i p key o) ((s.setSsd p o.2).lookup contents)
      (s.keyTable.erase key) where
  slots := s.sameSlots_afterDelete i p key o
  healthy j := by simpa [afterDelete] using s.record_healthy_update i ho j
  allocs := hs
  lookup := s.lookup_afterDelete i p key o
  keyTable := by simp [afterDelete, deleteKey, hk.accepts]

theorem served_afterExists {s : State δ} (hs : s.AllocsSucceed) (i : ℕ) (p : Place)
    {o : (KvsResult × UInt8) × δ} (ho : isDeviceError o.1.1 = false) :
    Served contents s (s.afterExists i p o) ((s.setSsd p o.2).lookup contents) s.keyTable where
  slots := s.sameSlots_afterExists i p o
  healthy j := by simpa [afterExists] using s.record_healthy_update i ho j
  allocs := hs
  lookup := s.lookup_afterExists i p o
  keyTable := rfl

theorem served_afterRetrieve {s : State δ} (i : ℕ) {key : Bytes} (hk : KeyOk key) (del : Bool)
    {r : KvsResult × KvsValue} (hr : isDeviceError r.1 = false) (pool : Option DmaPool)
    {heap : ℕ → Option Addr} (hheap : ∀ n, (heap n).isSome) :
    Served contents s ((s.afterRetrieve i key del (some r)).withBuffers pool heap)
      (s.lookup contents)
      (if del && r.1 = .success then s.keyTable.erase key else s.keyTable) where
  slots := by
    obtain ⟨h₁, h₂, h₃⟩ := s.sameSlots_afterRetrieve i key del (some r)
    exact ⟨h₁, h₂, h₃⟩
  healthy j := by
    cases h : (del && decide (r.1 = .success)) <;>
      simpa [afterRetrieve, forget, h] using s.record_healthy_update i hr j
  allocs := hheap
  lookup := by
    rw [lookup_withBuffers]
    exact s.lookup_afterRetrieve i key del (some r)
  keyTable := by
    cases h : (del && decide (r.1 = .success)) <;>
      simp [afterRetrieve, forget, h, deleteKey, hk.accepts]

end State

/-! ### The calls of a serving engine -/

/-- The device sees the whole value if its length fits into 32 bits. -/
theorem kvsValueOf_length {value : Bytes} (h : value.length < 2 ^ 32) :
    (kvsValueOf value).length.toNat = value.length := by
  show (UInt32.ofNat value.length).toNat = value.length
  rw [UInt32.toNat_ofNat', Nat.mod_eq_of_lt h]

theorem kvsValueOf_bytes {value : Bytes} (h : value.length < 2 ^ 32) :
    (kvsValueOf value).bytes = value := by
  rw [KvsValue.bytes, kvsValueOf_length h]
  exact List.take_length

section faultless

variable {created : δ → Bool} (hD : Faultless D contents created)
include hD

/-- A store is refused only because the key is present; otherwise the device holds the bytes
its 32-bit length field names. -/
theorem storeOutcome_faultless (d : δ) {key value : Bytes} (hk : KeyOk key)
    (hv : (kvsValueOf value).length.toNat ≤ kvsMaxValueLength) (overwrite : Bool) :
    (storeOutcome D d key value overwrite).1 =
        (if !overwrite && (contents d key).isSome then .valueUpdateNotAllowed else .success) ∧
      contents (storeOutcome D d key value overwrite).2 =
        if !overwrite && (contents d key).isSome then contents d
        else Function.update (contents d) key (some (kvsValueOf value).bytes) := by
  have hdone (t : StoreType) (ht : t = .post ∨ t = .noOverwrite)
      (hs : (D.storeKvp d (kvsKeyOf key) (kvsValueOf value) t).1 = .success) :
      contents (D.storeKvp d (kvsKeyOf key) (kvsValueOf value) t).2 =
        Function.update (contents d) key (some (kvsValueOf value).bytes) := by
    have := (hD.store_done d _ _ t ht hs).2
    rwa [hk.kvsKeyOf_bytes] at this
  cases overwrite with
  | true =>
      have hs := hD.store_post d (kvsKeyOf key) (kvsValueOf value) hk.lengthOk hv rfl
      exact ⟨hs, hdone .post (.inl rfl) hs⟩
  | false =>
      have hs := hD.store_noOverwrite d (kvsKeyOf key) (kvsValueOf value) hk.lengthOk hv rfl
      rw [hk.kvsKeyOf_bytes] at hs
      cases hp : (contents d key).isSome with
      | true =>
          rw [hp] at hs
          have hne : (D.storeKvp d (kvsKeyOf key) (kvsValueOf value) .noOverwrite).1 ≠ .success := by
            rw [hs]
            simp
          exact ⟨hs, hD.store_failed d _ _ _ hne⟩
      | false =>
          rw [hp] at hs
          exact ⟨hs, hdone .noOverwrite (.inr rfl) hs⟩

/-- A store on a device that reports no fault never counts as a device error. -/
theorem storeOutcome_no_device_error (d : δ) {key : Bytes} (hk : KeyOk key)
    (value : Bytes) (overwrite : Bool) :
    isDeviceError (storeOutcome D d key value overwrite).1 = false := by
  by_cases hv : (kvsValueOf value).length.toNat ≤ kvsMaxValueLength
  · rw [(storeOutcome_faultless hD d hk hv overwrite).1]
    split <;> rfl
  · have hlong := hD.store_long d (kvsKeyOf key) (kvsValueOf value) (storeTypeOf overwrite)
      hk.lengthOk (Nat.not_le.mp hv)
    rw [storeOutcome, hlong]
    rfl

theorem delete_no_device_error (d : δ) {key : Bytes} (hk : KeyOk key) :
    isDeviceError (D.deleteKvp d (kvsKeyOf key) false).1 = false := by
  rw [hD.delete_ok _ _ hk.lengthOk]
  rfl

theorem exist_no_device_error (d : δ) {key : Bytes} (hk : KeyOk key) :
    isDeviceError (D.existKvPairs d (kvsKeyOf key)).1.1 = false := by
  rw [hD.exist_ok _ _ hk.lengthOk]
  rfl

/-- A store answers and acts as on the lookup; its key is in the table afterwards. -/
theorem serving_store {s : State δ} (hs : s.Serving) {key : Bytes} (hk : KeyOk key) {value : Buf}
    (hpos : value.bytes ≠ []) (hv : (kvsValueOf value.bytes).length.toNat ≤ kvsMaxValueLength)
    (overwrite : Bool) :
    ∃ t, run D (kvEngineStore (some key) (some value) overwrite) s =
        (if !overwrite && (s.lookup contents key).isSome then .keyAlreadyExists else .success, t) ∧
      State.Served contents s t
        (if !overwrite && (s.lookup contents key).isSome then s.lookup contents
          else Function.update (s.lookup contents) key (some (kvsValueOf value.bytes).bytes))
        (insert key s.keyTable) := by
  obtain ⟨path, hp⟩ := hs.place key
  obtain ⟨hready, n, hbounce⟩ := State.bounce_of_allocs hs.allocs hpos
  obtain ⟨hres, hcont⟩ := storeOutcome_faultless hD (s.ssd ⟨path, s.shard key⟩) hk hv overwrite
  have hrun := run_kvEngineStore (D := D) value overwrite (hs.admission hk)
  rw [hready, if_pos rfl, hbounce, run_storeTail (s := s.skip n) hp] at hrun
  have hssd : (s.skip n).ssd = s.ssd := rfl
  rw [hssd] at hrun
  rw [← State.lookup_eq contents hp] at hres hcont
  generalize storeOutcome D (s.ssd ⟨path, s.shard key⟩) key value.bytes overwrite = o at *
  have hmap : mapKvsResult o.1 =
      if !overwrite && (s.lookup contents key).isSome then .keyAlreadyExists else .success := by
    rw [hres]
    split <;> rfl
  have hok : isDeviceError o.1 = false := by
    rw [hres]
    split <;> rfl
  have hlookup : (s.setSsd ⟨path, s.shard key⟩ o.2).lookup contents =
      if !overwrite && (s.lookup contents key).isSome then s.lookup contents
      else Function.update (s.lookup contents) key (some (kvsValueOf value.bytes).bytes) := by
    by_cases hc : (!overwrite && (s.lookup contents key).isSome) = true
    · rw [if_pos hc] at hcont ⊢
      exact State.lookup_setSsd_same s hcont
    · rw [if_neg hc] at hcont ⊢
      exact State.lookup_setSsd_update hs.toMounted hp hcont
  refine ⟨_, hrun.trans (congrArg (·, _) hmap), ?_⟩
  have hserved : State.Served contents _ _ _ _ := State.served_afterStore (s := s.skip n)
    (hs.allocs.skip n) (s.shard key) ⟨path, s.shard key⟩ hk value.bytes hok
  rw [← hlookup]
  exact hserved.of_sameSlots ⟨rfl, rfl, fun _ => rfl⟩ fun _ => rfl

/-- A delete succeeds and removes the key from the lookup and from the table. -/
theorem serving_delete {s : State δ} (hs : s.Serving) {key : Bytes} (hk : KeyOk key) :
    ∃ t, run D (kvEngineDelete (some key)) s = (.success, t) ∧
      State.Served contents s t (Function.update (s.lookup contents) key none)
        (s.keyTable.erase key) := by
  obtain ⟨path, hp⟩ := hs.place key
  have hok := hD.delete_ok (s.ssd ⟨path, s.shard key⟩) (kvsKeyOf key) hk.lengthOk
  have hcont := hD.delete_done (s.ssd ⟨path, s.shard key⟩) (kvsKeyOf key) false hok
  rw [hk.kvsKeyOf_bytes] at hcont
  have hrun := run_kvEngineDelete (D := D) (hs.admission hk) hp
  rw [hok] at hrun
  refine ⟨_, hrun, ?_⟩
  have hserved : State.Served contents _ _ _ _ := State.served_afterDelete hs.allocs (s.shard key)
    ⟨path, s.shard key⟩ hk (o := D.deleteKvp (s.ssd ⟨path, s.shard key⟩) (kvsKeyOf key) false)
    (delete_no_device_error hD _ hk)
  rwa [State.lookup_setSsd_update hs.toMounted hp hcont] at hserved

/-- An exists call answers whether the key is in the lookup and in the table. -/
theorem serving_exists {s : State δ} (hs : s.Serving) {key : Bytes} (hk : KeyOk key) :
    ∃ t, run D (kvEngineExists (some key) true) s =
        ((.success, some ((s.lookup contents key).isSome && key ∈ s.keyTable)), t) ∧
      State.Served contents s t (s.lookup contents) s.keyTable := by
  obtain ⟨path, hp⟩ := hs.place key
  have hok := hD.exist_ok (s.ssd ⟨path, s.shard key⟩) (kvsKeyOf key) hk.lengthOk
  have hcont := hD.existKvPairs (s.ssd ⟨path, s.shard key⟩) (kvsKeyOf key)
  have hflag := hD.exist_flag (s.ssd ⟨path, s.shard key⟩) (kvsKeyOf key) hok
  rw [hk.kvsKeyOf_bytes, ← State.lookup_eq contents hp] at hflag
  have hrun := run_kvEngineExists (D := D) (hs.admission hk) hp
  refine ⟨_, hrun.trans (congrArg (·, _) ?_), ?_⟩
  · have hflag' : decide ((D.existKvPairs (s.ssd ⟨path, s.shard key⟩) (kvsKeyOf key)).1.2 ≠ 0) =
        (s.lookup contents key).isSome := by
      rw [Bool.eq_iff_iff, decide_eq_true_iff]
      exact hflag
    simp only [existsAnswer, hok, ne_eq, not_true_eq_false, if_false, keyInTable, hk.accepts,
      Bool.true_and]
    rw [← hflag']
  · have hserved : State.Served contents _ _ _ _ := State.served_afterExists hs.allocs (s.shard key)
      ⟨path, s.shard key⟩ (o := D.existKvPairs (s.ssd ⟨path, s.shard key⟩) (kvsKeyOf key))
      (exist_no_device_error hD _ hk)
    rwa [State.lookup_setSsd_same s hcont] at hserved

/-- The first attempt of a retrieve is large enough for every value. -/
theorem retrieve_first_fits (d : δ) {key : Bytes} (hk : KeyOk key) (del : Bool) :
    (D.retrieveKvp d (kvsKeyOf key) retrieveRequest del).1.1 =
      if (contents d key).isSome then .success else .keyNotExist := by
  have hlen : retrieveRequest.length.toNat = kvsMaxValueLength := by decide
  cases hc : contents d key with
  | none =>
      exact hD.retrieve_absent d (kvsKeyOf key) retrieveRequest del hk.lengthOk hlen rfl
        (by rw [hk.kvsKeyOf_bytes, hc])
  | some stored =>
      exact hD.retrieve_present d (kvsKeyOf key) retrieveRequest del stored hk.lengthOk hlen rfl
        (by rw [hk.kvsKeyOf_bytes, hc])

theorem retrieve_first_ne_small (d : δ) {key : Bytes} (hk : KeyOk key) (del : Bool) :
    (D.retrieveKvp d (kvsKeyOf key) retrieveRequest del).1.1 ≠ .bufferSmall := by
  rw [retrieve_first_fits hD d hk del]
  split <;> simp

theorem retrieve_first_no_device_error (d : δ) {key : Bytes} (hk : KeyOk key) (del : Bool) :
    isDeviceError (D.retrieveKvp d (kvsKeyOf key) retrieveRequest del).1.1 = false := by
  rw [retrieve_first_fits hD d hk del]
  split <;> rfl

/-- The device answers a retrieve at the first attempt. -/
theorem retrieveOutcome_faultless (d : δ) {key : Bytes} (hk : KeyOk key) (del : Bool) :
    ∃ r d', retrieveOutcome D d key del = (some r, d') ∧
      (r.1 = .keyNotExist ∧ contents d key = none ∧ contents d' = contents d ∨
        r.1 = .success ∧ contents d key = some r.2.bytes ∧
          r.2.length.toNat = r.2.bytes.length ∧ r.2.actualValueSize.toNat = r.2.bytes.length ∧
          contents d' = if del then Function.update (contents d) key none else contents d) := by
  have hfits := retrieve_first_fits hD d hk del
  refine ⟨(D.retrieveKvp d (kvsKeyOf key) retrieveRequest del).1,
    (D.retrieveKvp d (kvsKeyOf key) retrieveRequest del).2, ?_, ?_⟩
  · simp only [retrieveOutcome, retrieve_first_ne_small hD d hk del, if_false]
  · cases hc : contents d key with
    | none =>
        rw [hc] at hfits
        have hkeep := hD.retrieve_failed d (kvsKeyOf key) retrieveRequest del (by rw [hfits]; simp)
        exact .inl ⟨hfits, rfl, hkeep⟩
    | some stored =>
        rw [hc] at hfits
        obtain ⟨⟨stored', hst, hb, hl, ha⟩, hkeep⟩ :=
          hD.retrieve_done d (kvsKeyOf key) retrieveRequest del rfl hfits
        rw [hk.kvsKeyOf_bytes] at hst hkeep
        refine .inr ⟨hfits, ?_, ?_, ?_, hkeep⟩
        · rw [hb, ← hst, hc]
        · rw [hl, hb]
        · rw [ha, hb]

/-- A retrieve answers the lookup; with the delete option it removes the pair. -/
theorem serving_retrieve {s : State δ} (hs : s.Serving) {key : Bytes} (hk : KeyOk key)
    (del : Bool) :
    ∃ b t, run D (kvEngineRetrieve (some key) true del) s =
        ((match s.lookup contents key with
          | none => (.keyNotFound, none)
          | some v => (.success, some ⟨b, v, v.length⟩)), t) ∧
      State.Served contents s t
        (if del then Function.update (s.lookup contents) key none else s.lookup contents)
        (if del && (s.lookup contents key).isSome then s.keyTable.erase key else s.keyTable) := by
  obtain ⟨path, hp⟩ := hs.place key
  obtain ⟨b, pool, heap, hheap, hrun⟩ :=
    run_kvEngineRetrieve_of_allocs (D := D) del (hs.admission hk) hp hs.allocs
  obtain ⟨r, d', hout, hcase⟩ :=
    retrieveOutcome_faultless hD (s.ssd ⟨path, s.shard key⟩) hk del
  rw [hout] at hrun
  rw [← State.lookup_eq contents hp] at hcase
  have hserved (hr : isDeviceError r.1 = false) : State.Served contents s _ _ _ :=
    (State.served_afterRetrieve
    (s := s.setSsd ⟨path, s.shard key⟩ d') (s.shard key) hk del hr pool hheap).of_sameSlots (s := s)
    ⟨rfl, rfl, fun _ => rfl⟩ fun _ => rfl
  rcases hcase with ⟨hr, hnone, hkeep⟩ | ⟨hr, hsome, hlen, _, hkeep⟩
  · have h := hserved (by rw [hr]; rfl)
    rw [State.lookup_setSsd_same s hkeep] at h
    refine ⟨b, _, hrun.trans (congrArg (·, _) ?_), ?_⟩
    · simp [retrieveAnswer, hr, hnone, mapKvsResult]
    · have hsame : Function.update (s.lookup contents) key none = s.lookup contents := by
        rw [← hnone, Function.update_eq_self]
      simpa [hr, hnone, hsame] using h
  · have h := hserved (by rw [hr]; rfl)
    refine ⟨b, _, hrun.trans (congrArg (·, _) ?_), ?_⟩
    · simp [retrieveAnswer, hr, hsome, hlen]
    · cases del with
      | false =>
          rw [State.lookup_setSsd_same s hkeep] at h
          simpa using h
      | true =>
          rw [State.lookup_setSsd_update hs.toMounted hp hkeep] at h
          simpa [hr, hsome] using h

end faultless

/-! ### A booted engine serves -/

theorem Booted.mounted {paths : List String} {s t : State δ} (h : Booted D paths s t)
    (hpaths : paths ≠ []) : t.Mounted where
  initialized := h.initialized
  pos := by
    rw [h.numDevices]
    exact List.length_pos_iff.mpr hpaths
  slot i hi := by
    rw [h.numDevices] at hi
    obtain ⟨copy, hc⟩ := h.slot i _ (List.getElem?_eq_getElem hi)
    exact ⟨_, by rw [hc]; rfl⟩

theorem Booted.healthy {paths : List String} {s t : State δ} (h : Booted D paths s t) {i : ℕ}
    (hi : i < t.numDevices) : (t.devices i).healthy = true := by
  rw [h.numDevices] at hi
  obtain ⟨copy, hc⟩ := h.slot i _ (List.getElem?_eq_getElem hi)
  rw [hc]
  rfl

theorem Booted.serving {paths : List String} {s t : State δ} (h : Booted D paths s t)
    (hpaths : paths ≠ []) (hs : s.AllocsSucceed) : t.Serving where
  toMounted := h.mounted hpaths
  healthy _ hi := h.healthy hi
  allocs := h.allocsSucceed hs

/-- The keyspace a key is sharded to when the engine runs on `paths`. -/
def placeOn (paths : List String) (key : Bytes) : Place :=
  ⟨paths.getD (kvEngineShardForKey key paths.length) "", kvEngineShardForKey key paths.length⟩

theorem Booted.place {paths : List String} {s t : State δ} (h : Booted D paths s t)
    (hpaths : paths ≠ []) (key : Bytes) :
    (t.devices (t.shard key)).keyspace = some (placeOn paths key) := by
  have hlt : kvEngineShardForKey key paths.length < paths.length :=
    kvEngineShardForKey_lt key (List.length_pos_iff.mpr hpaths)
  obtain ⟨copy, hc⟩ := h.slot _ _ (List.getElem?_eq_getElem hlt)
  rw [State.shard, h.numDevices, hc, placeOn, List.getD_eq_getElem?_getD,
    List.getElem?_eq_getElem hlt]
  rfl

/-- A booted engine looks keys up where the devices held them before. -/
theorem Booted.lookup (hD : Documented D contents) {paths : List String} {s t : State δ}
    (h : Booted D paths s t) (hpaths : paths ≠ []) (key : Bytes) :
    t.lookup contents key = contents (s.ssd (placeOn paths key)) key := by
  rw [State.lookup_eq contents (h.place hpaths key), (h.ssd _).contents_eq hD]

theorem paths_ne_nil {config : Config} {paths : List String}
    (h : kvEngineResolveDevicePaths config = .ok paths) : paths ≠ [] :=
  List.length_pos_iff.mp (kvEngineResolveDevicePaths_length h).1

/-! ### Two new devices -/

/-- A configuration with two devices. -/
def twoDevices : Config where
  devicePath := none
  emulConfigFile := none
  memoryPoolSize := 0
  queueDepth := 0
  numWorkerThreads := 2
  devicePaths := fun i => if i = 0 then some "/dev/nvme0n1" else some "/dev/nvme1n1"
  numDevices := 2
  dmaPoolCount := 1

theorem twoDevices_paths :
    kvEngineResolveDevicePaths twoDevices = .ok ["/dev/nvme0n1", "/dev/nvme1n1"] := rfl

/-- Two new devices behind an initialised engine. -/
def freshEngine : State KeySpace :=
  (run keySpaceDriver (kvEngineInit twoDevices) (.blank fun _ => .empty)).2

theorem freshEngine_booted : Booted keySpaceDriver ["/dev/nvme0n1", "/dev/nvme1n1"]
    (.blank fun _ => .empty) freshEngine :=
  kvEngineInit_booted keySpaceDriver_faultless twoDevices_paths fun _ => rfl

theorem freshEngine_serving : freshEngine.Serving :=
  freshEngine_booted.serving (by simp) fun _ => rfl

theorem freshEngine_empty : freshEngine.Empty KeySpace.pairs :=
  State.Empty.of_manages (s := .blank fun _ => .empty) keySpaceDriver_documented (fun _ _ => rfl)
    freshEngine_booted.ssd

end KvEngine
