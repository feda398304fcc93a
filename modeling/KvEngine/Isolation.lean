import KvEngine.Refinement
import KvEngine.Api

/-! # Faults stay on their device

Two runs of the same calls and probe sweeps, on engines that start alike except for the state
of device `j`.  A device state holds all the answers a device will ever give, so the two runs
may see faults, unplugs, wrong data and probe answers from device `j` that have nothing to do
with each other.

* `Alike j s t`: the two states agree on every slot but `j`, on every keyspace of another slot
  and on the table entries of the keys sharded elsewhere.
* `Confined j s t`: going from `s` to `t` touched only slot `j`.  Calls on keys of shard `j`
  are confined in each run (`CallRun.confined`), so they keep `Alike` whatever they answer.
* Calls on other keys read and write only what `Alike` says is equal: they answer alike and
  keep the relation (`alike_call`).  The same split, slot by slot, settles a sweep of the probe
  (`alike_sweep`). -/

namespace KvEngine

open Atomic

variable {δ : Type} {D : Driver δ} {j : ℕ}

/-- The two states agree on everything that is not of device `j`. -/
structure Alike (j : ℕ) (s t : State δ) : Prop where
  slots : State.SameSlots s t
  mounted : s.Mounted
  devices : ∀ i, i ≠ j → t.devices i = s.devices i
  ssd : ∀ p : Place, p.index ≠ j → t.ssd p = s.ssd p
  keyTable : ∀ key, s.shard key ≠ j → (key ∈ t.keyTable ↔ key ∈ s.keyTable)
  allocs : s.AllocsSucceed ∧ t.AllocsSucceed

/-- Only slot `j` was touched between the two states. -/
structure Confined (j : ℕ) (s t : State δ) : Prop where
  slots : State.SameSlots s t
  devices : ∀ i, i ≠ j → t.devices i = s.devices i
  ssd : ∀ p : Place, p.index ≠ j → t.ssd p = s.ssd p
  keyTable : ∀ key, s.shard key ≠ j → (key ∈ t.keyTable ↔ key ∈ s.keyTable)
  allocs : s.AllocsSucceed → t.AllocsSucceed

theorem Confined.refl (s : State δ) : Confined j s s :=
  ⟨.refl s, fun _ _ => rfl, fun _ _ => rfl, fun _ _ => Iff.rfl, id⟩

/-- What touches only slot `j` in either run keeps the runs alike. -/
theorem Alike.of_confined {s t s' t' : State δ} (h : Alike j s t) (hs : Confined j s s')
    (ht : Confined j t t') : Alike j s' t' where
  slots := ⟨by rw [ht.slots.initialized, h.slots.initialized, hs.slots.initialized],
    by rw [ht.slots.numDevices, h.slots.numDevices, hs.slots.numDevices],
    fun i => by rw [ht.slots.keyspace, h.slots.keyspace, hs.slots.keyspace]⟩
  mounted := hs.slots.mounted h.mounted
  devices i hi := by rw [ht.devices i hi, h.devices i hi, hs.devices i hi]
  ssd p hp := by rw [ht.ssd p hp, h.ssd p hp, hs.ssd p hp]
  keyTable key hkey := by
    rw [hs.slots.shard] at hkey
    rw [ht.keyTable key (by rwa [h.slots.shard]), h.keyTable key hkey, hs.keyTable key hkey]
  allocs := ⟨hs.allocs h.allocs.1, ht.allocs h.allocs.2⟩

/-! ### Calls on keys of shard `j` -/

theorem mem_deleteKey {t : KeyTable} {k key : Bytes} (hne : key ≠ k) :
    key ∈ deleteKey t k ↔ key ∈ t := by
  unfold deleteKey
  split
  · simp [hne]
  · exact Iff.rfl

theorem State.mem_addTableKey (s : State δ) {k key : Bytes} (hne : key ≠ k) :
    key ∈ (s.addTableKey k).keyTable ↔ key ∈ s.keyTable := by
  unfold State.addTableKey
  split
  · exact Iff.rfl
  · simp only [addKey]
    split
    · simp [hne]
    · exact Iff.rfl

theorem CallRun.confined {s t : State δ} {c : Call} {r : Reply} (hs : s.Mounted)
    (h : CallRun D s c r t) (hj : ∀ k, c.key = some k → s.shard k = j) : Confined j s t := by
  have hother {i : ℕ} {k : Bytes} (hi : i = s.shard k) (hkey : c.key = some k) : i = j :=
    hi.trans (hj k hkey)
  -- A keyspace of another slot is not the one the call talks to.
  have hfar {k : Bytes} {p q : Place} (hp : (s.devices (s.shard k)).keyspace = some p)
      (hk : s.shard k = j) (hq : q.index ≠ j) : q ≠ p := by
    obtain ⟨path, hpath⟩ := hs.place k
    rw [hp] at hpath
    cases hpath
    rintro rfl
    exact hq hk
  have hne {k key : Bytes} (hk : s.shard k = j) (hkey : s.shard key ≠ j) : key ≠ k := by
    rintro rfl
    exact hkey hk
  have hslots := h.sameSlots
  cases h with
  | refused => exact .refl s
  | @storeNoMemory _ k i value _ hk hb =>
      obtain ⟨n, hn⟩ := s.bounce_skip value
      rw [hn]
      exact ⟨⟨rfl, rfl, fun _ => rfl⟩, fun _ _ => rfl, fun _ _ => rfl, fun _ _ => Iff.rfl,
        fun h => h.skip n⟩
  | @stored _ k i p value _ hk hp hb =>
      obtain ⟨hkey, rfl, _⟩ := admission_ok hk
      have hij := hother rfl hkey
      obtain ⟨n, hn⟩ := s.bounce_skip value
      refine ⟨hslots, fun i' hi' => ?_, fun q hq => ?_, fun key hkey' => ?_, fun h => ?_⟩
      · rw [hn]
        simp [State.afterStore, State.skip, Function.update_of_ne (hij ▸ hi')]
      · simp [Function.update_of_ne (hfar hp hij hq)]
      · have := State.mem_addTableKey (s.bounce value).2 (hne hij hkey')
        simpa [State.afterStore] using this
      · rw [hn]
        exact State.addTableKey_allocs (h.skip n) k
  | retrieveNoMemory hk hheap =>
      exact ⟨⟨rfl, rfl, fun _ => rfl⟩, fun _ _ => rfl, fun _ _ => rfl, fun _ _ => Iff.rfl, hheap⟩
  | @retrieved _ k i p _ del b pool heap o d' hk hp ho hheap =>
      obtain ⟨hkey, rfl, _⟩ := admission_ok hk
      have hij := hother rfl hkey
      refine ⟨hslots, fun i' hi' => ?_, fun q hq => ?_, fun key hkey' => ?_, hheap⟩
      · cases o with
        | none => rfl
        | some r =>
            cases hdel : (del && decide (r.1 = .success)) <;>
              simp [State.afterRetrieve, State.forget, hdel, Function.update_of_ne (hij ▸ hi')]
      · simp [Function.update_of_ne (hfar hp hij hq)]
      · cases o with
        | none => exact Iff.rfl
        | some r =>
            cases hdel : (del && decide (r.1 = .success)) with
            | false => simp [State.afterRetrieve, State.forget, hdel]
            | true => simp [State.afterRetrieve, State.forget, hdel, mem_deleteKey (hne hij hkey')]
  | @deleted _ k i p hk hp =>
      obtain ⟨hkey, rfl, _⟩ := admission_ok hk
      have hij := hother rfl hkey
      refine ⟨hslots, fun i' hi' => ?_, fun q hq => ?_, fun key hkey' => ?_, id⟩
      · simp [State.afterDelete, Function.update_of_ne (hij ▸ hi')]
      · simp [Function.update_of_ne (hfar hp hij hq)]
      · simp [State.afterDelete, mem_deleteKey (hne hij hkey')]
  | @existed _ k i p _ hk hp =>
      obtain ⟨hkey, rfl, _⟩ := admission_ok hk
      have hij := hother rfl hkey
      refine ⟨hslots, fun i' hi' => ?_, fun q hq => ?_, fun key hkey' => Iff.rfl, id⟩
      · simp [State.afterExists, Function.update_of_ne (hij ▸ hi')]
      · simp [Function.update_of_ne (hfar hp hij hq)]

/-! ### Calls on other keys -/

theorem Alike.admission {s t : State δ} (h : Alike j s t) (b : Bool) {key : Option Bytes}
    (hj : ∀ k, key = some k → s.shard k ≠ j) : t.admission b key = s.admission b key := by
  cases key with
  | none => rfl
  | some k =>
      simp only [State.admission, h.slots.initialized, h.slots.shard, h.devices _ (hj k rfl)]

/-- Runs that were alike stay alike if they end alike. -/
theorem Alike.next {s t s' t' : State δ} (h : Alike j s t) (hs : State.SameSlots s s')
    (ht : State.SameSlots t t') (hdev : ∀ i, i ≠ j → t'.devices i = s'.devices i)
    (hssd : ∀ p : Place, p.index ≠ j → t'.ssd p = s'.ssd p)
    (htable : ∀ key, s.shard key ≠ j → (key ∈ t'.keyTable ↔ key ∈ s'.keyTable))
    (halloc : s'.AllocsSucceed ∧ t'.AllocsSucceed) : Alike j s' t' where
  slots := ⟨by rw [ht.initialized, h.slots.initialized, hs.initialized],
    by rw [ht.numDevices, h.slots.numDevices, hs.numDevices],
    fun i => by rw [ht.keyspace, h.slots.keyspace, hs.keyspace]⟩
  mounted := hs.mounted h.mounted
  devices := hdev
  ssd := hssd
  keyTable key hkey := htable key (by rwa [← hs.shard])
  allocs := halloc

section update
variable {s t : State δ} (h : Alike j s t) {i : ℕ} (hi : i ≠ j)
include h

/-- The same write to a slot in both runs. -/
theorem Alike.record (hi : i ≠ j) (r : KvsResult) (i' : ℕ) (hi' : i' ≠ j) :
    Function.update t.devices i ((t.devices i).record r) i' =
      Function.update s.devices i ((s.devices i).record r) i' := by
  rw [h.devices i hi]
  by_cases hii : i' = i
  · rw [hii, Function.update_self, Function.update_self]
  · rw [Function.update_of_ne hii, Function.update_of_ne hii, h.devices i' hi']

/-- The same device state in both runs. -/
theorem Alike.setSsd (p : Place) (d : δ) (q : Place) (hq : q.index ≠ j) :
    Function.update t.ssd p d q = Function.update s.ssd p d q := by
  by_cases hqp : q = p
  · rw [hqp, Function.update_self, Function.update_self]
  · rw [Function.update_of_ne hqp, Function.update_of_ne hqp, h.ssd q hq]

theorem Alike.mem_deleteKey {key : Bytes} (hkey : s.shard key ≠ j) (k : Bytes) :
    key ∈ deleteKey t.keyTable k ↔ key ∈ deleteKey s.keyTable k := by
  unfold deleteKey
  split
  · simp [h.keyTable key hkey]
  · exact h.keyTable key hkey

theorem Alike.afterStore (hi : i ≠ j) (p : Place) {k : Bytes} (hk : KeyOk k) (value : Bytes)
    (o : KvsResult × δ) :
    Alike j (s.afterStore i p k value o) (t.afterStore i p k value o) := by
  refine h.next (s.sameSlots_afterStore i p k value o) (t.sameSlots_afterStore i p k value o)
    (fun i' hi' => ?_) (fun q hq => ?_) (fun key hkey => ?_)
    ⟨State.addTableKey_allocs h.allocs.1 k, State.addTableKey_allocs h.allocs.2 k⟩
  · simpa [State.afterStore] using h.record hi o.1 i' hi'
  · simpa using h.setSsd p o.2 q hq
  · have hs0 : s.nextAlloc.isSome = true := h.allocs.1 0
    have ht0 : t.nextAlloc.isSome = true := h.allocs.2 0
    simp [State.afterStore, State.addTableKey_keyTable _ _ hk.accepts, hs0, ht0,
      h.keyTable key hkey]

theorem Alike.afterDelete (hi : i ≠ j) (p : Place) (k : Bytes) (o : KvsResult × δ) :
    Alike j (s.afterDelete i p k o) (t.afterDelete i p k o) := by
  refine h.next (s.sameSlots_afterDelete i p k o) (t.sameSlots_afterDelete i p k o)
    (fun i' hi' => ?_) (fun q hq => h.setSsd p o.2 q hq) (fun key hkey => ?_) h.allocs
  · simpa [State.afterDelete] using h.record hi o.1 i' hi'
  · simpa [State.afterDelete] using h.mem_deleteKey hkey k

theorem Alike.afterExists (hi : i ≠ j) (p : Place) (o : (KvsResult × UInt8) × δ) :
    Alike j (s.afterExists i p o) (t.afterExists i p o) := by
  refine h.next (s.sameSlots_afterExists i p o) (t.sameSlots_afterExists i p o)
    (fun i' hi' => ?_) (fun q hq => h.setSsd p o.2 q hq) (fun key hkey => h.keyTable key hkey)
    h.allocs
  simpa [State.afterExists] using h.record hi o.1.1 i' hi'

theorem Alike.afterRetrieve (hi : i ≠ j) (p : Place) (d : δ) (k : Bytes) (del : Bool)
    (o : Option (KvsResult × KvsValue)) {pool pool' : Option DmaPool}
    {heap heap' : ℕ → Option Addr} (hheap : ∀ n, (heap n).isSome) (hheap' : ∀ n, (heap' n).isSome) :
    Alike j (((s.setSsd p d).afterRetrieve i k del o).withBuffers pool heap)
      (((t.setSsd p d).afterRetrieve i k del o).withBuffers pool' heap') := by
  have hslots (u : State δ) (pool : Option DmaPool) (heap : ℕ → Option Addr) : State.SameSlots u
      (((u.setSsd p d).afterRetrieve i k del o).withBuffers pool heap) := by
    obtain ⟨h₁, h₂, h₃⟩ := (u.setSsd p d).sameSlots_afterRetrieve i k del o
    exact ⟨h₁, h₂, h₃⟩
  refine h.next (hslots s pool heap) (hslots t pool' heap') (fun i' hi' => ?_) (fun q hq => ?_)
    (fun key hkey => ?_) ⟨hheap, hheap'⟩
  · cases o with
    | none => exact h.devices i' hi'
    | some r =>
        cases hdel : (del && decide (r.1 = .success)) <;>
          simpa [State.afterRetrieve, State.forget, hdel] using h.record hi r.1 i' hi'
  · simpa using h.setSsd p d q hq
  · cases o with
    | none => exact h.keyTable key hkey
    | some r =>
        cases hdel : (del && decide (r.1 = .success)) with
        | false => simpa [State.afterRetrieve, State.forget, hdel] using h.keyTable key hkey
        | true => simpa [State.afterRetrieve, State.forget, hdel] using h.mem_deleteKey hkey k

/-- The bounce buffer: with allocations that succeed, only the value decides. -/
theorem Alike.bounce (value : Buf) :
    (t.bounce value).1 = (s.bounce value).1 ∧ Alike j (s.bounce value).2 (t.bounce value).2 := by
  unfold State.bounce
  split
  · exact ⟨rfl, h⟩
  · split
    · exact ⟨rfl, h⟩
    · have hs0 : s.nextAlloc.isSome = true := h.allocs.1 0
      have ht0 : t.nextAlloc.isSome = true := h.allocs.2 0
      refine ⟨by simp [hs0, ht0], ?_⟩
      exact h.next ⟨rfl, rfl, fun _ => rfl⟩ ⟨rfl, rfl, fun _ => rfl⟩ h.devices h.ssd h.keyTable
        ⟨fun n => h.allocs.1 (n + 1), fun n => h.allocs.2 (n + 1)⟩

end update

theorem Alike.store {s t : State δ} (h : Alike j s t) {key : Option Bytes} {k : Bytes} {i : ℕ}
    (hk : s.admission true key = .ok (k, i)) (hadm : t.admission true key = .ok (k, i))
    (hij : i ≠ j) (value : Buf) (overwrite : Bool) :
    (run D (kvEngineStore key (some value) overwrite) t).1 =
        (run D (kvEngineStore key (some value) overwrite) s).1 ∧
      Alike j (run D (kvEngineStore key (some value) overwrite) s).2
        (run D (kvEngineStore key (some value) overwrite) t).2 := by
  obtain ⟨_, hi, hok, _⟩ := admission_ok hk
  obtain ⟨path, hp⟩ := h.mounted.place k
  rw [← hi] at hp
  have hrun := run_kvEngineStore (D := D) value overwrite hk
  have hrun' := run_kvEngineStore (D := D) value overwrite hadm
  obtain ⟨hb, hbounce⟩ := h.bounce value
  rw [hb] at hrun'
  cases hready : (s.bounce value).1 with
  | false =>
      rw [hready] at hrun hrun'
      rw [hrun, hrun']
      exact ⟨rfl, hbounce⟩
  | true =>
      have hq : ((s.bounce value).2.devices i).keyspace = some ⟨path, i⟩ :=
        ((s.sameSlots_bounce value).keyspace i).trans hp
      have hq' : ((t.bounce value).2.devices i).keyspace = some ⟨path, i⟩ :=
        (hbounce.slots.keyspace i).trans hq
      have hssd : t.ssd ⟨path, i⟩ = s.ssd ⟨path, i⟩ := h.ssd _ hij
      rw [hready, if_pos rfl, run_storeTail hq, State.bounce_ssd] at hrun
      rw [hready, if_pos rfl, run_storeTail hq', State.bounce_ssd, hssd] at hrun'
      rw [hrun, hrun']
      exact ⟨rfl, hbounce.afterStore hij ⟨path, i⟩ hok value.bytes _⟩

/-- A call on a key of another shard answers alike in both runs and keeps them alike. -/
theorem alike_call {s t : State δ} (h : Alike j s t) {c : Call}
    (hj : ∀ k, c.key = some k → s.shard k ≠ j) :
    (run D c.prog t).1.output = (run D c.prog s).1.output ∧
      Alike j (run D c.prog s).2 (run D c.prog t).2 := by
  have hadm := h.admission c.pointers hj
  cases hk : s.admission c.pointers c.key with
  | error e =>
      rw [hk] at hadm
      rw [run_call_refused hk, run_call_refused hadm]
      exact ⟨rfl, h⟩
  | ok ki =>
      obtain ⟨k, i⟩ := ki
      rw [hk] at hadm
      obtain ⟨hkey, hi, _, _, hptr, _⟩ := admission_ok hk
      have hij : i ≠ j := by
        rw [hi]
        exact hj k hkey
      obtain ⟨path, hp⟩ := h.mounted.place k
      rw [← hi] at hp
      have hp' : (t.devices i).keyspace = some ⟨path, i⟩ := (h.slots.keyspace i).trans hp
      have hssd : t.ssd ⟨path, i⟩ = s.ssd ⟨path, i⟩ := h.ssd _ hij
      cases c with
      | store key value overwrite =>
          cases value with
          | none => cases hptr
          | some value =>
              obtain ⟨hres, hnext⟩ := h.store (D := D) (show s.admission true key = _ from hk)
                hadm hij value overwrite
              simp only [Call.prog, Prog.run_bind, Prog.pure_eq, Prog.run_ret]
              exact ⟨congrArg (fun r => Reply.output ⟨r, none, none⟩) hres, hnext⟩
      | retrieve key outs del =>
          obtain ⟨b, pool, heap, hheap, hrun⟩ := run_kvEngineRetrieve_of_allocs (D := D) del
            (show s.admission outs key = _ from hk) hp h.allocs.1
          obtain ⟨b', pool', heap', hheap', hrun'⟩ := run_kvEngineRetrieve_of_allocs (D := D) del
            (show t.admission outs key = _ from hadm) hp' h.allocs.2
          rw [hssd] at hrun'
          simp only [Call.prog, Prog.run_bind, hrun, hrun', Prog.pure_eq, Prog.run_ret]
          refine ⟨?_, h.afterRetrieve hij _ _ k del _ hheap hheap'⟩
          generalize (retrieveOutcome D (s.ssd ⟨path, i⟩) k del).1 = o
          cases o with
          | none => rfl
          | some r =>
              by_cases hr : r.1 = .success
              · simp [Reply.output, retrieveAnswer, hr]
              · simp [Reply.output, retrieveAnswer, hr]
      | delete key =>
          have hrun := run_kvEngineDelete (D := D) (show s.admission true key = _ from hk) hp
          have hrun' := run_kvEngineDelete (D := D) (show t.admission true key = _ from hadm) hp'
          rw [hssd] at hrun'
          simp only [Call.prog, Prog.run_bind, hrun, hrun']
          exact ⟨rfl, h.afterDelete hij _ k _⟩
      | «exists» key outs =>
          have hrun := run_kvEngineExists (D := D) (show s.admission outs key = _ from hk) hp
          have hrun' := run_kvEngineExists (D := D) (show t.admission outs key = _ from hadm) hp'
          have htable : keyInTable t.keyTable k = keyInTable s.keyTable k := by
            simp only [keyInTable, h.keyTable k (hi ▸ hij)]
          rw [hssd, htable] at hrun'
          simp only [Call.prog, Prog.run_bind, hrun, hrun', Prog.pure_eq, Prog.run_ret]
          exact ⟨trivial, h.afterExists hij _ _⟩

/-! ### Sweeps of the probe -/

/-- The health fields after a recovery. -/
def DeviceCtx.recovered (c : DeviceCtx) : DeviceCtx :=
  { c with healthy := true, consecutiveErrors := 0 }

theorem run_probeDevice (counts : ℕ → UInt32) (i : ℕ) (s : State δ) :
    run D (probeDevice counts i) s =
      if (s.devices i).healthy then (counts, s)
      else
        let o := s.deviceCommand i .paramInvalid D.getDeviceUtilization
        if o.1 = .success then
          if recoveryThreshold ≤ counts i + 1 then
            (Function.update counts i 0, o.2.setDevice i DeviceCtx.recovered)
          else (Function.update counts i (counts i + 1), o.2)
        else (Function.update counts i 0, o.2) := by
  simp only [probeDevice, Prog.perform_bind, Prog.run_act, exec]
  by_cases hh : (s.devices i).healthy = true
  · simp only [hh, if_true, Prog.pure_eq, Prog.run_ret]
  · simp only [hh, Bool.false_eq_true, if_false, Prog.run_act, exec]
    by_cases hres : (s.deviceCommand i KvsResult.paramInvalid D.getDeviceUtilization).1 = .success
    · simp only [hres, if_true]
      by_cases hthr : recoveryThreshold ≤ counts i + 1
      · simp only [hthr, if_true, Prog.run_act, exec, Prog.pure_eq, Prog.run_ret,
          State.setDevice_setDevice]
        rfl
      · simp only [hthr, if_false, Prog.pure_eq, Prog.run_ret]
    · simp only [hres, if_false, Prog.pure_eq, Prog.run_ret]

theorem confined_setDevice (s : State δ) {f : DeviceCtx → DeviceCtx}
    (hf : (f (s.devices j)).keyspace = (s.devices j).keyspace) : Confined j s (s.setDevice j f) :=
  ⟨s.sameSlots_setDevice j hf, fun i hi => by simp [Function.update_of_ne hi], fun _ _ => rfl,
    fun _ _ => Iff.rfl, id⟩

theorem confined_deviceCommand (s : State δ) {α : Type} (refused : α) (cmd : δ → α × δ) :
    Confined j s (s.deviceCommand j refused cmd).2 := by
  unfold State.deviceCommand
  split
  · exact .refl s
  · rename_i path _
    refine ⟨⟨rfl, rfl, fun _ => rfl⟩, fun _ _ => rfl, fun p hp => ?_, fun _ _ => Iff.rfl, id⟩
    have hne : p ≠ ⟨path, j⟩ := by
      rintro rfl
      exact hp rfl
    simp [State.command, Function.update_of_ne hne]

theorem Confined.trans {s t u : State δ} (h : Confined j s t) (h' : Confined j t u) :
    Confined j s u :=
  ⟨h.slots.trans h'.slots, fun i hi => (h'.devices i hi).trans (h.devices i hi),
    fun p hp => (h'.ssd p hp).trans (h.ssd p hp),
    fun key hkey => (h'.keyTable key (by rwa [h.slots.shard])).trans (h.keyTable key hkey),
    fun ha => h'.allocs (h.allocs ha)⟩

/-- Probing slot `j` touches only slot `j`. -/
theorem confined_probeDevice (counts : ℕ → UInt32) (s : State δ) :
    Confined j s (run D (probeDevice counts j) s).2 ∧
      ∀ i, i ≠ j → (run D (probeDevice counts j) s).1 i = counts i := by
  have hcmd := confined_deviceCommand (j := j) s KvsResult.paramInvalid D.getDeviceUtilization
  rw [run_probeDevice]
  split
  · exact ⟨.refl s, fun _ _ => rfl⟩
  · simp only
    split
    · split
      · exact ⟨hcmd.trans (confined_setDevice _ rfl), fun i hi => Function.update_of_ne hi _ _⟩
      · exact ⟨hcmd, fun i hi => Function.update_of_ne hi _ _⟩
    · exact ⟨hcmd, fun i hi => Function.update_of_ne hi _ _⟩

theorem Alike.deviceCommand {s t : State δ} (h : Alike j s t) {i : ℕ} (hi : i ≠ j) {α : Type}
    (refused : α) (cmd : δ → α × δ) :
    (t.deviceCommand i refused cmd).1 = (s.deviceCommand i refused cmd).1 ∧
      Alike j (s.deviceCommand i refused cmd).2 (t.deviceCommand i refused cmd).2 := by
  unfold State.deviceCommand
  rw [h.devices i hi]
  split
  · exact ⟨rfl, h⟩
  · rename_i path _
    have hssd : t.ssd ⟨path, i⟩ = s.ssd ⟨path, i⟩ := h.ssd _ hi
    simp only [State.command, hssd]
    exact ⟨trivial, h.next ⟨rfl, rfl, fun _ => rfl⟩ ⟨rfl, rfl, fun _ => rfl⟩ h.devices
      (fun q hq => h.setSsd ⟨path, i⟩ _ q hq) h.keyTable h.allocs⟩

theorem Alike.setDevice {s t : State δ} (h : Alike j s t) {i : ℕ} (hi : i ≠ j)
    {f : DeviceCtx → DeviceCtx} (hf : ∀ c, (f c).keyspace = c.keyspace) :
    Alike j (s.setDevice i f) (t.setDevice i f) := by
  refine h.next (s.sameSlots_setDevice i (hf _)) (t.sameSlots_setDevice i (hf _))
    (fun i' hi' => ?_) h.ssd h.keyTable h.allocs
  by_cases hii : i' = i
  · subst hii
    simp [h.devices i' hi]
  · simp [Function.update_of_ne hii, h.devices i' hi']

/-- Probing another slot goes alike in both runs. -/
theorem alike_probeDevice {s t : State δ} (h : Alike j s t) {i : ℕ} (hi : i ≠ j)
    {counts counts' : ℕ → UInt32} (hc : ∀ i, i ≠ j → counts' i = counts i) :
    Alike j (run D (probeDevice counts i) s).2 (run D (probeDevice counts' i) t).2 ∧
      ∀ i', i' ≠ j → (run D (probeDevice counts' i) t).1 i' = (run D (probeDevice counts i) s).1 i' := by
  obtain ⟨hres, hcmd⟩ := h.deviceCommand hi KvsResult.paramInvalid D.getDeviceUtilization
  have hupd (v : UInt32) (i' : ℕ) (hi' : i' ≠ j) :
      Function.update counts' i v i' = Function.update counts i v i' := by
    by_cases hii : i' = i
    · rw [hii, Function.update_self, Function.update_self]
    · rw [Function.update_of_ne hii, Function.update_of_ne hii, hc i' hi']
  rw [run_probeDevice, run_probeDevice, h.devices i hi]
  simp only [hres, hc i hi]
  split
  · exact ⟨h, hc⟩
  · split
    · split
      · exact ⟨hcmd.setDevice hi fun _ => rfl, hupd 0⟩
      · exact ⟨hcmd, hupd _⟩
    · exact ⟨hcmd, hupd 0⟩

/-- A sweep keeps the runs alike: the turns on other slots go alike, the turn on slot `j` is
confined. -/
theorem alike_sweep {s t : State δ} (h : Alike j s t) {counts counts' : ℕ → UInt32}
    (hc : ∀ i, i ≠ j → counts' i = counts i) (i turns : ℕ) :
    Alike j (run D (probeSweepFrom i turns counts) s).2 (run D (probeSweepFrom i turns counts') t).2 ∧
      ∀ i', i' ≠ j → (run D (probeSweepFrom i turns counts') t).1 i' =
        (run D (probeSweepFrom i turns counts) s).1 i' := by
  induction turns generalizing i s t counts counts' with
  | zero => exact ⟨h, hc⟩
  | succ turns ih =>
      simp only [probeSweepFrom, Prog.perform_bind, Prog.run_act, exec, h.slots.numDevices]
      by_cases hlt : i < s.numDevices
      · simp only [hlt, if_true, Prog.run_bind]
        by_cases hij : i = j
        · subst hij
          obtain ⟨hs, hcs⟩ := confined_probeDevice (D := D) (j := i) counts s
          obtain ⟨ht, hct⟩ := confined_probeDevice (D := D) (j := i) counts' t
          have hcn (i' : ℕ) (hi' : i' ≠ i) : (run D (probeDevice counts' i) t).1 i' =
              (run D (probeDevice counts i) s).1 i' := by
            rw [hct i' hi', hcs i' hi', hc i' hi']
          exact ih (h.of_confined hs ht) hcn (i + 1)
        · obtain ⟨hnext, hcn⟩ := alike_probeDevice (D := D) h hij hc
          exact ih hnext hcn (i + 1)
      · simp only [hlt, if_false, Prog.pure_eq, Prog.run_ret]
        exact ⟨h, hc⟩

/-! ### Two runs -/

/-- The runs are alike, and the probe has counted alike on the other slots. -/
def AlikeSystems (j : ℕ) (σ τ : System δ) : Prop :=
  Alike j σ.engine τ.engine ∧ ∀ i, i ≠ j → τ.recoveryCounts i = σ.recoveryCounts i

/-- The event adds no device. -/
def ApiEvent.Steady : ApiEvent → Prop
  | .addDevice _ => False
  | _ => True

theorem alikeSystems_step {σ τ : System δ} (e : ApiEvent) (he : e.Steady)
    (h : AlikeSystems j σ τ) : AlikeSystems j (σ.step D e).2 (τ.step D e).2 := by
  obtain ⟨halike, hcounts⟩ := h
  cases e with
  | call c =>
      refine ⟨?_, hcounts⟩
      by_cases hj : ∀ k, c.key = some k → σ.engine.shard k ≠ j
      · exact (alike_call halike hj).2
      · -- The key is one of shard `j`: both runs are confined to it.
        obtain ⟨k, hk⟩ := not_forall.mp hj
        obtain ⟨hkey, hshard⟩ := Classical.not_imp.mp hk
        have hall : ∀ k', c.key = some k' → σ.engine.shard k' = j := by
          intro k' hk'
          cases hkey.symm.trans hk'
          exact not_not.mp hshard
        have hmounted := halike.slots.mounted halike.mounted
        exact halike.of_confined ((run_call halike.mounted c).confined halike.mounted hall)
          ((run_call hmounted c).confined hmounted
            fun k' hk' => (halike.slots.shard k').trans (hall k' hk'))
  | getStats => exact ⟨halike, hcounts⟩
  | resetStats =>
      exact ⟨halike.next ⟨rfl, rfl, fun _ => rfl⟩ ⟨rfl, rfl, fun _ => rfl⟩ halike.devices halike.ssd
        halike.keyTable halike.allocs, hcounts⟩
  | addDevice path => exact he.elim
  | sweep => exact alike_sweep halike hcounts 0 kvMaxDevices

/-- **Fault isolation.**  Start two engines in the same state, but for the device in slot `j`,
and give them the same calls and probe sweeps.  At every point the health fields of the other
devices are equal, and every call on a key that is not sharded to `j` answers alike. -/
theorem fault_isolation {s t : State δ} (hs : s.Mounted) (halloc : s.AllocsSucceed)
    (hsame : t = { s with ssd := t.ssd })
    (hssd : ∀ p : Place, p.index ≠ j → t.ssd p = s.ssd p) (counts : ℕ → UInt32)
    {es : List ApiEvent} (hes : ∀ e ∈ es, e.Steady) :
    let σ := Machine.after (System.step D) ⟨s, counts⟩ es
    let τ := Machine.after (System.step D) ⟨t, counts⟩ es
    (∀ i, i ≠ j → τ.engine.devices i = σ.engine.devices i) ∧
      ∀ c : Call, (∀ k, c.key = some k → σ.engine.shard k ≠ j) →
        (run D c.prog τ.engine).1.output = (run D c.prog σ.engine).1.output := by
  have hstart : AlikeSystems j ⟨s, counts⟩ ⟨t, counts⟩ := by
    refine ⟨?_, fun _ _ => rfl⟩
    rw [hsame]
    exact ⟨⟨rfl, rfl, fun _ => rfl⟩, hs, fun _ _ => rfl, hssd, fun _ _ => Iff.rfl, halloc, halloc⟩
  have hend := Machine.after_related (R := AlikeSystems j) (P := ApiEvent.Steady)
    (fun σ τ e he h => alikeSystems_step (D := D) e he h) hstart hes
  exact ⟨hend.1.devices, fun c hc => (alike_call hend.1 hc).1⟩

/-- The documented device with a switch: while it is off, every command fails as if the device
were unplugged. -/
def pluggable : Driver (Bool × KeySpace) where
  openDevice d := (.success, d)
  closeDevice d := (.success, d)
  openKeySpace d := (.success, d)
  createKeySpace d := (.success, d)
  closeKeySpace d := (.success, d)
  storeKvp d k v t :=
    if d.1 then ((storeKvp d.2 k v t).1, true, (storeKvp d.2 k v t).2) else (.devNotExist, d)
  retrieveKvp d k v del :=
    if d.1 then ((retrieveKvp d.2 k v del).1, true, (retrieveKvp d.2 k v del).2)
    else ((.devNotExist, v), d)
  deleteKvp d k e :=
    if d.1 then ((deleteKvp d.2 k e).1, true, (deleteKvp d.2 k e).2) else (.devNotExist, d)
  existKvPairs d k :=
    if d.1 then ((existKvPairs d.2 k).1, true, (existKvPairs d.2 k).2) else ((.devNotExist, 0), d)
  getDeviceUtilization d := (if d.1 then .success else .devNotExist, d)

/-- The same engine with the device in slot 0 plugged in or not. -/
def plug (plugged : Bool) (s : State (Bool × KeySpace)) : State (Bool × KeySpace) :=
  { s with ssd := fun p => if p.index = 0 then (plugged, .empty) else s.ssd p }

theorem plug_mounted (plugged : Bool) {s : State (Bool × KeySpace)} (h : s.Mounted) :
    (plug plugged s).Mounted := ⟨h.initialized, h.pos, h.slot⟩

theorem plug_same (s : State (Bool × KeySpace)) :
    plug false s = { plug true s with ssd := (plug false s).ssd } := rfl

theorem plug_ssd (s : State (Bool × KeySpace)) (p : Place) (hp : p.index ≠ 0) :
    (plug false s).ssd p = (plug true s).ssd p := by simp [plug, hp]

theorem plug_allocs (plugged : Bool) {s : State (Bool × KeySpace)} (h : s.AllocsSucceed) :
    (plug plugged s).AllocsSucceed := h

/-- An engine on two such devices. -/
def pluggedEngine : State (Bool × KeySpace) :=
  (run pluggable (kvEngineInit twoDevices) (.blank fun _ => (true, .empty))).2

theorem pluggedEngine_mounted : pluggedEngine.Mounted ∧ pluggedEngine.AllocsSucceed := by
  have hinit : (run pluggable (kvEngineInit twoDevices) (.blank fun _ => (true, .empty))).1 =
      .success := by decide +kernel
  obtain ⟨paths, hpaths, hboot⟩ := kvEngineInit_success hinit
  exact ⟨hboot.mounted (paths_ne_nil hpaths), hboot.allocsSucceed fun _ => rfl⟩

/-- Some calls for two devices, and a sweep. -/
def sampleHistory : List ApiEvent :=
  [.call (.store (some [0, 0, 0, 0]) (some someValue.buf) true),
    .call (.store (some [0, 0, 0, 1]) (some someValue.buf) true), .sweep]

/-- The device in slot 0 is unplugged in one of the two runs: the engine marks it unhealthy
there, and reads the key of the other slot alike in both. -/
theorem fault_isolation_unplugged :
    let σ := Machine.after (System.step pluggable) ⟨plug true pluggedEngine, fun _ => 0⟩ sampleHistory
    let τ := Machine.after (System.step pluggable) ⟨plug false pluggedEngine, fun _ => 0⟩ sampleHistory
    (σ.engine.devices 0).healthy = true ∧ (τ.engine.devices 0).healthy = false ∧
      (run pluggable (Call.prog (.retrieve (some [0, 0, 0, 0]) true false)) τ.engine).1.output =
        (run pluggable (Call.prog (.retrieve (some [0, 0, 0, 0]) true false)) σ.engine).1.output := by
  refine ⟨by decide +kernel, by decide +kernel, ?_⟩
  obtain ⟨hmounted, halloc⟩ := pluggedEngine_mounted
  have hsteady : ∀ e ∈ sampleHistory, e.Steady := by
    intro e he
    simp only [sampleHistory, List.mem_cons, List.not_mem_nil, or_false] at he
    rcases he with rfl | rfl | rfl <;> trivial
  refine (fault_isolation (plug_mounted true hmounted) (plug_allocs true halloc)
    (plug_same pluggedEngine) (plug_ssd pluggedEngine) (fun _ => 0) hsteady).2 _ ?_
  intro k hk
  cases hk
  decide +kernel

end KvEngine
