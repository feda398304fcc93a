import KvEngine.Threads
import KvEngine.Lookup

/-! # The key table under concurrent calls

`kv_engine_exists` answers 1 when the key is on its device and in the key table.  A store adds
the key to the table first and writes the device second; a delete, and a retrieve with the
delete option, change the device first and the table second; no lock spans the two steps.

Clients run any of the four calls, their atomic actions interleaved in any order
(`Clients.next`).  The calls keep to a protocol (`tableFirst`): what follows the table entry of
a key is the device store of that key.  Hence every key on its device is in the table as long
as no client takes a key out of the table while the key is on its device, or about to be stored
there (`Orderly`); then `kv_engine_exists` and `kv_engine_retrieve` agree on every key
(`exists_iff_retrievable`).

Nothing in the code makes the clients orderly: in `delete_overtakes_store` a delete runs as a
whole between the two steps of a store, and the pair stays on the device without its table
entry. -/

namespace KvEngine

open Atomic

variable {δ : Type} {D : Driver δ} {contents : δ → Bytes → Option Bytes} {created : δ → Bool}

/-! ### The order of the actions of a call -/

/-- A device command on the slot that the key is sharded to. -/
def OnShard (n i : ℕ) (k : KvsKey) : Prop :=
  ∃ key, KeyOk key ∧ i = kvEngineShardForKey key n ∧ k = kvsKeyOf key

/-- The actions of the calls, apart from the device store. -/
def Act.Serves (n : ℕ) : Act → Prop
  | .loadInitialized => True
  | .loadNumDevices => True
  | .loadHealthy _ => True
  | .fetchAddTotalOps _ => True
  | .storeConsecutiveErrors _ _ => True
  | .updateStats _ => True
  | .dmaPoolAcquire => True
  | .dmaPoolRelease _ => True
  | .alloc _ => True
  | .free _ => True
  | .keyTableFind _ => True
  | .keyTableAdd key => KeyOk key
  | .keyTableDelete key => KeyOk key
  | .kvsRetrieveKvp i k _ v _ => v = retrieveRequest ∧ OnShard n i k
  | .kvsDeleteKvp i k e => e = false ∧ OnShard n i k
  | .kvsExistKvPairs i k => OnShard n i k
  | _ => False

/-- The device store that follows the table entry of `key`. -/
def Act.Stores (n : ℕ) (key : Bytes) (a : Act) : Prop :=
  KeyOk key ∧ ∃ value overwrite, a = .kvsStoreKvp (kvEngineShardForKey key n) (kvsKeyOf key)
    (kvsValueOf value) (storeTypeOf overwrite)

/-- What a call is answered by an engine with `n` devices that report no fault. -/
def Act.Answered (n : ℕ) : (a : Act) → a.Resp → Prop
  | .loadNumDevices, r => r = n
  | .kvsStoreKvp .., r => isDeviceError r = false
  | .kvsRetrieveKvp .., r => isDeviceError r.1 = false ∧ r.1 ≠ .bufferSmall
  | .kvsDeleteKvp .., r => isDeviceError r = false
  | .kvsExistKvPairs .., r => isDeviceError r.1 = false
  | _, _ => True

/-- The key a call is about to store after it has been answered. -/
def Act.announces (pending : Option Bytes) : Act → Option Bytes
  | .keyTableAdd key => some key
  | .kvsStoreKvp .. => none
  | _ => pending

/-- The protocol of the calls: the phase is the key that was added to the table and is stored
on its device next. -/
def tableFirst (n : ℕ) : Protocol Act Act.Resp (Option Bytes) where
  ok
    | none, a => a.Serves n
    | some key, a => a.Stores n key
  answers _ a r := a.Answered n r
  next pending a _ := a.announces pending

section follows
variable {n : ℕ} {α : Type}

theorem guarded_follows {post : Option Bytes → α → Prop} {pointers : Bool} {key : Option Bytes}
    {refuse : KvResult → α} {body : Bytes → ℕ → M α} (hrefuse : ∀ r, post none (refuse r))
    (hbody : ∀ key, KeyOk key →
      (body key (kvEngineShardForKey key n)).Follows (tableFirst n) post none) :
    (guarded pointers key refuse body).Follows (tableFirst n) post none := by
  refine ⟨trivial, fun initialized _ => ?_⟩
  cases key with
  | none => exact hrefuse _
  | some key =>
      show Prog.Follows _ _ (if _ then _ else _) _
      split
      · exact hrefuse _
      · split
        · exact hrefuse _
        · rename_i hlen
          have hk : KeyOk key := by
            rw [KeyOk]
            omega
          refine ⟨trivial, fun m hm => ?_⟩
          obtain rfl : m = n := hm
          refine ⟨trivial, fun healthy _ => ?_⟩
          cases healthy with
          | false => exact hrefuse _
          | true => exact hbody key hk

theorem deviceRecordResult_follows (i : ℕ) {r : KvsResult} (hr : isDeviceError r = false) :
    (deviceRecordResult i r).Follows (tableFirst n) (fun q _ => q = none) none := by
  refine ⟨trivial, fun _ _ => ?_⟩
  simp only [hr]
  exact ⟨trivial, fun _ _ => rfl⟩

theorem releaseBuffer_follows (fromPool : Bool) (b : Addr) :
    (releaseBuffer fromPool b).Follows (tableFirst n) (fun q _ => q = none) none := by
  cases fromPool <;> exact ⟨trivial, fun _ _ => rfl⟩

theorem dmaAlloc_follows (size : ℕ) :
    (dmaAlloc size).Follows (tableFirst n) (fun q _ => q = none) none := by
  unfold dmaAlloc
  split
  · rfl
  · exact ⟨trivial, fun _ _ => rfl⟩

theorem storeTail_follows {key : Bytes} (hk : KeyOk key) (value : Bytes) (overwrite : Bool)
    (b : Option Addr) :
    (storeTail key (kvEngineShardForKey key n) value overwrite b).Follows (tableFirst n)
      (fun q _ => q = none) none := by
  refine ⟨hk, fun _ _ => ⟨⟨hk, value, overwrite, rfl⟩, fun r hr => ?_⟩⟩
  refine (deviceRecordResult_follows _ hr).bind fun q _ hq => ?_
  subst hq
  cases b with
  | none => exact ⟨trivial, fun _ _ => rfl⟩
  | some b => exact ⟨trivial, fun _ _ => ⟨trivial, fun _ _ => rfl⟩⟩

theorem kvEngineStore_follows (key : Option Bytes) (value : Option Buf) (overwrite : Bool) :
    (kvEngineStore key value overwrite).Follows (tableFirst n) (fun q _ => q = none) none := by
  refine guarded_follows (fun _ => rfl) fun key hk => ?_
  cases value with
  | none => rfl
  | some value =>
      show Prog.Follows _ _ (if _ then _ else _) _
      split
      · exact storeTail_follows hk _ _ _
      · refine (dmaAlloc_follows _).bind fun q b hq => ?_
        subst hq
        cases b with
        | none => rfl
        | some b => exact storeTail_follows hk _ _ _

theorem retrieveTail_follows {key : Bytes} (hk : KeyOk key) (i : ℕ) (del fromPool : Bool) (b : Addr)
    {reply : KvsResult × KvsValue} (hr : isDeviceError reply.1 = false) :
    (retrieveTail key i del fromPool b reply).Follows (tableFirst n) (fun q _ => q = none) none := by
  refine (deviceRecordResult_follows _ hr).bind fun q _ hq => ?_
  subst hq
  have hforget : (forgetRetrieved key (del && decide (reply.1 = .success))).Follows (tableFirst n)
      (fun q _ => q = none) none := by
    unfold forgetRetrieved
    split
    · exact ⟨hk, fun _ _ => rfl⟩
    · rfl
  refine hforget.bind fun q _ hq => ?_
  subst hq
  split
  · refine (releaseBuffer_follows _ _).bind fun q _ hq => ?_
    subst hq
    exact ⟨trivial, fun _ _ => rfl⟩
  · exact ⟨trivial, fun _ _ => rfl⟩

theorem retrieveInto_follows {key : Bytes} (hk : KeyOk key) (del fromPool : Bool) (b : Addr) :
    (retrieveInto key (kvEngineShardForKey key n) del fromPool b).Follows (tableFirst n)
      (fun q _ => q = none) none := by
  refine ⟨⟨rfl, key, hk, rfl, rfl⟩, fun reply hr => ?_⟩
  -- the first attempt is never too small, so there is no second one
  show (retrieveRetry key _ del fromPool b reply).Follows _ _ _
  rw [retrieveRetry, if_neg hr.2]
  exact retrieveTail_follows hk _ _ _ _ hr.1

theorem kvEngineRetrieve_follows (key : Option Bytes) (outs del : Bool) :
    (kvEngineRetrieve key outs del).Follows (tableFirst n) (fun q _ => q = none) none := by
  refine guarded_follows (fun _ => rfl) fun key hk => ⟨trivial, fun pooled _ => ?_⟩
  cases pooled with
  | some b => exact retrieveInto_follows hk _ _ _
  | none =>
      refine (dmaAlloc_follows _).bind fun q b hq => ?_
      subst hq
      cases b with
      | none => rfl
      | some b => exact retrieveInto_follows hk _ _ _

theorem kvEngineDelete_follows (key : Option Bytes) :
    (kvEngineDelete key).Follows (tableFirst n) (fun q _ => q = none) none := by
  refine guarded_follows (fun _ => rfl) fun key hk =>
    ⟨⟨rfl, key, hk, rfl, rfl⟩, fun r hr => ?_⟩
  refine (deviceRecordResult_follows _ hr).bind fun q _ hq => ?_
  subst hq
  exact ⟨hk, fun _ _ => ⟨trivial, fun _ _ => rfl⟩⟩

theorem kvEngineExists_follows (key : Option Bytes) (outs : Bool) :
    (kvEngineExists key outs).Follows (tableFirst n) (fun q _ => q = none) none := by
  refine guarded_follows (fun _ => rfl) fun key hk =>
    ⟨trivial, fun found _ => ⟨⟨key, hk, rfl, rfl⟩, fun reply hr => ?_⟩⟩
  refine (deviceRecordResult_follows _ hr).bind fun q _ hq => ?_
  subst hq
  split <;> rfl

/-- Every call keeps to the protocol. -/
theorem call_follows (c : Call) :
    c.prog.Follows (tableFirst n) (fun q _ => q = none) none := by
  cases c with
  | store key value overwrite =>
      exact (kvEngineStore_follows key value overwrite).bind fun q _ hq => hq
  | retrieve key outs del => exact (kvEngineRetrieve_follows key outs del).bind fun q _ hq => hq
  | delete key => exact (kvEngineDelete_follows key).bind fun q _ hq => hq
  | «exists» key outs => exact (kvEngineExists_follows key outs).bind fun q _ hq => hq

end follows

/-! ### What one action does to a serving engine -/

namespace State

theorem Served.refl {s : State δ} (hs : s.AllocsSucceed) :
    Served contents s s (s.lookup contents) s.keyTable :=
  ⟨.refl s, fun _ => rfl, hs, rfl, rfl⟩

theorem served_setDevice {s : State δ} (hs : s.AllocsSucceed) (i : ℕ) {f : DeviceCtx → DeviceCtx}
    (hkeyspace : (f (s.devices i)).keyspace = (s.devices i).keyspace)
    (hhealthy : (f (s.devices i)).healthy = (s.devices i).healthy) :
    Served contents s (s.setDevice i f) (s.lookup contents) s.keyTable where
  slots := s.sameSlots_setDevice i hkeyspace
  healthy j := by
    by_cases hj : j = i
    · subst hj
      simpa using hhealthy
    · simp [Function.update_of_ne hj]
  allocs := hs
  lookup := (s.sameSlots_setDevice i hkeyspace).lookup rfl
  keyTable := rfl

theorem served_setSsd {s : State δ} (hs : s.AllocsSucceed) (p : Place) (d : δ) :
    Served contents s (s.setSsd p d) ((s.setSsd p d).lookup contents) s.keyTable :=
  ⟨⟨rfl, rfl, fun _ => rfl⟩, fun _ => rfl, hs, rfl, rfl⟩

end State

/-- The action adds no pair, and takes no key out of the table but the one it names. -/
structure Keeps (contents : δ → Bytes → Option Bytes) (a : Act) (s t : State δ) : Prop where
  served : ∃ m table, State.Served contents s t m table
  lookup : ∀ key, (t.lookup contents key).isSome → (s.lookup contents key).isSome
  table : ∀ key ∈ s.keyTable, a ≠ .keyTableDelete key → key ∈ t.keyTable

theorem Keeps.of_served {a : Act} {s t : State δ}
    (h : State.Served contents s t (s.lookup contents) s.keyTable) : Keeps contents a s t where
  served := ⟨_, _, h⟩
  lookup key hkey := by rwa [h.lookup] at hkey
  table key hkey _ := by rwa [h.keyTable]

/-- A device command that removes at most one pair. -/
theorem Keeps.of_command {a : Act} {s : State δ} (hs : s.Serving) {key : Bytes} {p : Place} {d : δ}
    (hp : (s.devices (s.shard key)).keyspace = some p)
    (hd : contents d = contents (s.ssd p) ∨
      contents d = Function.update (contents (s.ssd p)) key none) :
    Keeps contents a s (s.setSsd p d) where
  served := ⟨_, _, State.served_setSsd hs.allocs p d⟩
  lookup key' hkey' := by
    rcases hd with hd | hd
    · rwa [State.lookup_setSsd_same s hd] at hkey'
    · rw [State.lookup_setSsd_update hs.toMounted hp hd] at hkey'
      by_cases heq : key' = key
      · subst heq
        simp at hkey'
      · rwa [Function.update_of_ne heq] at hkey'
  table _ hkey _ := hkey

/-- The device store of `key` changes at most the pair of `key`. -/
theorem storeOutcome_pair (hD : Documented D contents) (d : δ) {key : Bytes} (hk : KeyOk key)
    (value : Bytes) (overwrite : Bool) :
    contents (storeOutcome D d key value overwrite).2 = contents d ∨
      contents (storeOutcome D d key value overwrite).2 =
        Function.update (contents d) key (some (kvsValueOf value).bytes) := by
  by_cases hr : (storeOutcome D d key value overwrite).1 = .success
  · have hdone := (hD.store_done _ _ _ _ (by cases overwrite <;> simp [storeTypeOf]) hr).2
    rw [hk.kvsKeyOf_bytes] at hdone
    exact .inr hdone
  · exact .inl (hD.store_failed _ _ _ _ hr)

/-- The first attempt of a retrieve removes at most the pair of `key`. -/
theorem retrieve_first_pair (hD : Documented D contents) (d : δ) {key : Bytes} (hk : KeyOk key)
    (del : Bool) :
    contents (D.retrieveKvp d (kvsKeyOf key) retrieveRequest del).2 = contents d ∨
      contents (D.retrieveKvp d (kvsKeyOf key) retrieveRequest del).2 =
        Function.update (contents d) key none := by
  by_cases hr : (D.retrieveKvp d (kvsKeyOf key) retrieveRequest del).1.1 = .success
  · have hdone := (hD.retrieve_done _ _ _ _ rfl hr).2
    rw [hk.kvsKeyOf_bytes] at hdone
    cases del with
    | false => exact .inl hdone
    | true => exact .inr hdone
  · exact .inl (hD.retrieve_failed _ _ _ _ hr)

section steps

variable (hD : Faultless D contents created)
include hD

/-- Every action of a call but the device store is answered as the protocol says, adds no pair
and keeps the table, apart from the deletion of a key. -/
theorem exec_serves {s : State δ} (hs : s.Serving) {a : Act} (ha : a.Serves s.numDevices) :
    a.Answered s.numDevices (exec D a s).1 ∧ Keeps contents a s (exec D a s).2 := by
  have hsame : Keeps contents a s s := .of_served (.refl hs.allocs)
  cases a with
  | loadInitialized => exact ⟨trivial, hsame⟩
  | loadNumDevices => exact ⟨rfl, hsame⟩
  | loadHealthy i => exact ⟨trivial, hsame⟩
  | keyTableFind key => exact ⟨trivial, hsame⟩
  | free b => exact ⟨trivial, hsame⟩
  | fetchAddTotalOps i =>
      exact ⟨trivial, .of_served
        (State.served_setDevice (f := fun c => { c with totalOps := c.totalOps + 1 }) hs.allocs i
          rfl rfl)⟩
  | storeConsecutiveErrors i v =>
      exact ⟨trivial, .of_served
        (State.served_setDevice (f := fun c => { c with consecutiveErrors := v }) hs.allocs i
          rfl rfl)⟩
  | updateStats u =>
      exact ⟨trivial, .of_served ⟨⟨rfl, rfl, fun _ => rfl⟩, fun _ => rfl, hs.allocs, rfl, rfl⟩⟩
  | alloc size =>
      refine ⟨trivial, .of_served ⟨⟨rfl, rfl, fun _ => rfl⟩, fun _ => rfl, ?_, rfl, rfl⟩⟩
      exact fun n => hs.allocs (n + 1)
  | dmaPoolAcquire =>
      refine ⟨trivial, .of_served ?_⟩
      simp only [exec]
      split
      · exact .refl hs.allocs
      · exact ⟨⟨rfl, rfl, fun _ => rfl⟩, fun _ => rfl, hs.allocs, rfl, rfl⟩
  | dmaPoolRelease b =>
      exact ⟨trivial, .of_served ⟨⟨rfl, rfl, fun _ => rfl⟩, fun _ => rfl, hs.allocs, rfl, rfl⟩⟩
  | keyTableAdd key =>
      have hslots : State.SameSlots s (s.addTableKey key) := ⟨by simp, by simp, by simp⟩
      have hlookup : (s.addTableKey key).lookup contents = s.lookup contents :=
        hslots.lookup (by simp)
      have hallocs := State.addTableKey_allocs hs.allocs key
      refine ⟨trivial, ⟨_, _, ⟨hslots, ?_, hallocs, rfl, rfl⟩⟩, ?_, ?_⟩
      · intro i
        simp [exec]
      · intro key' hkey'
        rwa [exec, hlookup] at hkey'
      · intro key' hkey' _
        have hnext : s.nextAlloc.isSome = true := hs.allocs 0
        simp [exec, State.addTableKey_keyTable s key ha.accepts, hnext, hkey']
  | keyTableDelete key =>
      refine ⟨trivial, ⟨_, _, ⟨⟨rfl, rfl, fun _ => rfl⟩, fun _ => rfl, hs.allocs, rfl, rfl⟩⟩,
        fun _ h => h, ?_⟩
      intro key' hkey' hne
      have hkey : key' ≠ key := fun h => hne (by rw [h])
      simp [exec, deleteKey, ha.accepts, hkey, hkey']
  | kvsRetrieveKvp i k buffer v del =>
      obtain ⟨rfl, key, hk, rfl, rfl⟩ := ha
      obtain ⟨path, hp⟩ := hs.place key
      simp only [exec]
      rw [keyspaceCommand_eq (i := kvEngineShardForKey key s.numDevices) hp]
      have hanswered := retrieve_first_no_device_error hD (s.ssd ⟨path, s.shard key⟩) hk del
      exact ⟨⟨hanswered, retrieve_first_ne_small hD _ hk del⟩,
        .of_command hs hp (retrieve_first_pair hD.toDocumented _ hk del)⟩
  | kvsDeleteKvp i k e =>
      obtain ⟨rfl, key, hk, rfl, rfl⟩ := ha
      obtain ⟨path, hp⟩ := hs.place key
      have hok := hD.delete_ok (s.ssd ⟨path, s.shard key⟩) (kvsKeyOf key) hk.lengthOk
      have hdone := hD.delete_done _ _ _ hok
      rw [hk.kvsKeyOf_bytes] at hdone
      simp only [exec]
      rw [keyspaceCommand_eq (i := kvEngineShardForKey key s.numDevices) hp]
      exact ⟨delete_no_device_error hD _ hk, .of_command hs hp (.inr hdone)⟩
  | kvsExistKvPairs i k =>
      obtain ⟨key, hk, rfl, rfl⟩ := ha
      obtain ⟨path, hp⟩ := hs.place key
      simp only [exec]
      rw [keyspaceCommand_eq (i := kvEngineShardForKey key s.numDevices) hp]
      exact ⟨exist_no_device_error hD _ hk, .of_command hs hp (.inl (hD.existKvPairs _ _))⟩
  | _ => exact ha.elim

/-- The device store of `key` adds at most the pair of `key`. -/
theorem exec_stores {s : State δ} (hs : s.Serving) {key : Bytes} {a : Act}
    (ha : a.Stores s.numDevices key) :
    a.Answered s.numDevices (exec D a s).1 ∧
      (∃ m, State.Served contents s (exec D a s).2 m s.keyTable) ∧
      ∀ key', ((exec D a s).2.lookup contents key').isSome →
        key' = key ∨ (s.lookup contents key').isSome := by
  obtain ⟨hk, value, overwrite, rfl⟩ := ha
  obtain ⟨path, hp⟩ := hs.place key
  have hexec : exec D (.kvsStoreKvp (kvEngineShardForKey key s.numDevices) (kvsKeyOf key)
      (kvsValueOf value) (storeTypeOf overwrite)) s =
      ((storeOutcome D (s.ssd ⟨path, s.shard key⟩) key value overwrite).1,
        s.setSsd ⟨path, s.shard key⟩ (storeOutcome D (s.ssd ⟨path, s.shard key⟩) key value
          overwrite).2) := keyspaceCommand_eq hp _ _
  have herr := storeOutcome_no_device_error hD (s.ssd ⟨path, s.shard key⟩) hk value overwrite
  have hpair := storeOutcome_pair hD.toDocumented (s.ssd ⟨path, s.shard key⟩) hk value overwrite
  rw [hexec]
  generalize storeOutcome D (s.ssd ⟨path, s.shard key⟩) key value overwrite = o at herr hpair ⊢
  refine ⟨herr, ⟨_, State.served_setSsd hs.allocs _ _⟩, fun key' hkey' => ?_⟩
  dsimp only at hkey'
  rcases hpair with hsame | hput
  · rw [State.lookup_setSsd_same s hsame] at hkey'
    exact .inr hkey'
  · rw [State.lookup_setSsd_update hs.toMounted hp hput] at hkey'
    by_cases heq : key' = key
    · exact .inl heq
    · rw [Function.update_of_ne heq] at hkey'
      exact .inr hkey'

end steps

/-! ### The invariant -/

/-- The engine serves, every key on its device is in the table, and so is every key that some
call has added and not yet stored. -/
structure Agreed {ι : Type} (contents : δ → Bytes → Option Bytes) (n : ℕ) (s : State δ)
    (pending : ι → Option Bytes) : Prop where
  serving : s.Serving
  numDevices : s.numDevices = n
  listed : ∀ key, (s.lookup contents key).isSome → key ∈ s.keyTable
  pending : ∀ i key, pending i = some key → key ∈ s.keyTable

/-- The clients of one engine. -/
abbrev Clients (ι δ : Type) := Threads ι Act Act.Resp Reply (State δ)

/-- One move of the clients. -/
abbrev Clients.next {ι : Type} [DecidableEq ι] (D : Driver δ) (σ : Clients ι δ)
    (m : Move ι Call) : Option Reply × Clients ι δ := Threads.next (exec D) Call.prog σ m

/-- The key an action takes out of the table. -/
def Act.unlists : Act → Option Bytes
  | .keyTableDelete key => some key
  | _ => none

/-- The key an action stores on a device. -/
def Act.puts : Act → Option KvsKey
  | .kvsStoreKvp _ k _ _ => some k
  | _ => none

/-- A client takes a key out of the table only while the key is not on its device and no
client is about to store it there. -/
def Orderly {ι : Type} (contents : δ → Bytes → Option Bytes) (σ : Clients ι δ) :
    Move ι Call → Prop
  | .invoke _ _ => True
  | .step i => ∀ key ∈ (σ.nextAct i).bind Act.unlists,
      σ.shared.lookup contents key = none ∧
      ∀ j, (σ.nextAct j).bind Act.puts ≠ some (kvsKeyOf key)

instance {ι : Type} [Fintype ι] (contents : δ → Bytes → Option Bytes) (σ : Clients ι δ) :
    ∀ m, Decidable (Orderly contents σ m)
  | .invoke _ _ => inferInstanceAs (Decidable True)
  | .step i => inferInstanceAs (Decidable (∀ key ∈ (σ.nextAct i).bind Act.unlists,
      σ.shared.lookup contents key = none ∧
      ∀ j, (σ.nextAct j).bind Act.puts ≠ some (kvsKeyOf key)))

section run

variable {ι : Type}

/-- A client whose call has added `key` to the table stores it on the device next. -/
theorem nextAct_of_pending {n : ℕ} {σ : Clients ι δ} {pending : ι → Option Bytes}
    (h : Threads.Tracked (tableFirst n) none σ pending) {j : ι} {key : Bytes}
    (hj : pending j = some key) :
    (σ.nextAct j).bind Act.puts = some (kvsKeyOf key) := by
  have hphase := h j
  rw [hj] at hphase
  cases hrun : σ.running j with
  | none =>
      rw [hrun] at hphase
      cases hphase
  | some p =>
      rw [hrun] at hphase
      cases p with
      | ret a => cases hphase
      | act a k =>
          obtain ⟨⟨_, value, overwrite, rfl⟩, _⟩ := hphase
          rw [Threads.nextAct, hrun]
          rfl

variable [DecidableEq ι]

theorem announces_eq_some {a : Act} {key : Bytes} (h : a.announces none = some key) :
    a = .keyTableAdd key := by
  cases a <;> simp_all [Act.announces]

/-- The phases after an action: of the other clients as before, of the client that acted as the
protocol says. -/
theorem pending_update {pending : ι → Option Bytes} {i : ι} {q : Option Bytes} {T : KeyTable}
    (hself : ∀ key, q = some key → key ∈ T) (hothers : ∀ j key, pending j = some key → key ∈ T) :
    ∀ j key, Function.update pending i q j = some key → key ∈ T := by
  intro j key hj
  by_cases hji : j = i
  · subst hji
    rw [Function.update_self] at hj
    exact hself key hj
  · rw [Function.update_of_ne hji] at hj
    exact hothers j key hj

/-- One action of a client keeps the invariant. -/
theorem agreed_act (hD : Faultless D contents created) {n : ℕ} {s : State δ}
    {pending : ι → Option Bytes} (h : Agreed contents n s pending) (i : ι) {a : Act}
    (ha : (tableFirst n).ok (pending i) a)
    (hdelete : ∀ key, a = .keyTableDelete key →
      s.lookup contents key = none ∧ ∀ j, pending j ≠ some key) :
    a.Answered n (exec D a s).1 ∧
      Agreed contents n (exec D a s).2 (Function.update pending i (a.announces (pending i))) := by
  obtain rfl := h.numDevices
  cases hq : pending i with
  | none =>
      rw [hq] at ha
      obtain ⟨hans, ⟨m, table, hserved⟩, hlookup, htable⟩ := exec_serves hD h.serving ha
      refine ⟨hans, hserved.serving h.serving, hserved.slots.numDevices, ?_, pending_update ?_ ?_⟩
      · intro key hkey
        have hbefore := hlookup key hkey
        refine htable key (h.listed key hbefore) fun hdel => ?_
        rw [(hdelete key hdel).1] at hbefore
        cases hbefore
      · intro key hkey
        obtain rfl := announces_eq_some hkey
        have hnext : s.nextAlloc.isSome = true := h.serving.allocs 0
        simp [exec, State.addTableKey_keyTable s key ha.accepts, hnext]
      · intro j key hj
        exact htable key (h.pending j key hj) fun hdel => (hdelete key hdel).2 j hj
  | some key =>
      rw [hq] at ha
      obtain ⟨hans, ⟨m, hserved⟩, hlookup⟩ := exec_stores hD h.serving ha
      obtain ⟨_, value, overwrite, rfl⟩ := ha
      refine ⟨hans, hserved.serving h.serving, hserved.slots.numDevices, ?_, pending_update ?_ ?_⟩
      · intro key' hkey'
        rw [hserved.keyTable]
        rcases hlookup key' hkey' with rfl | hbefore
        · exact h.pending i key' hq
        · exact h.listed key' hbefore
      · intro key' hkey'
        cases hkey'
      · intro j key' hj
        rw [hserved.keyTable]
        exact h.pending j key' hj

/-- One orderly move of the clients keeps the invariant. -/
theorem agreed_next (hD : Faultless D contents created) {n : ℕ} {σ : Clients ι δ} {m : Move ι Call}
    (h : ∃ pending, Threads.Tracked (tableFirst n) none σ pending ∧
      Agreed contents n σ.shared pending) (hm : Orderly contents σ m) :
    ∃ pending, Threads.Tracked (tableFirst n) none (σ.next D m).2 pending ∧
      Agreed contents n (σ.next D m).2.shared pending := by
  obtain ⟨pending, htracked, hagreed⟩ := h
  refine htracked.next hagreed call_follows m fun i a k hmi hrun hok => ?_
  subst hmi
  refine agreed_act hD hagreed i hok fun key hdel => ?_
  have hact : (σ.nextAct i).bind Act.unlists = some key := by
    subst hdel
    rw [Threads.nextAct, hrun]
    rfl
  obtain ⟨hnone, hfree⟩ := hm key hact
  exact ⟨hnone, fun j hj => hfree j (nextAct_of_pending htracked hj)⟩

/-- **The table and the devices agree** in every state that orderly clients reach from empty
devices and an empty table, and so do the answers of `kv_engine_exists` and
`kv_engine_retrieve`. -/
theorem exists_iff_retrievable (hD : Faultless D contents created) {s : State δ}
    (hs : s.Serving) (hempty : s.Empty contents) {moves : List (Move ι Call)}
    (hmoves : Machine.Always (Orderly contents) (Clients.next D) ⟨s, fun _ => none⟩ moves)
    {key : Bytes} (hk : KeyOk key) :
    let t := (Machine.after (Clients.next D) ⟨s, fun _ => none⟩ moves).shared
    ((t.lookup contents key).isSome → key ∈ t.keyTable) ∧
      ((run D (kvEngineExists (some key) true) t).1 = (.success, some true) ↔
        (run D (kvEngineRetrieve (some key) true false) t).1.1 = .success) := by
  intro t
  have hstart : Agreed (ι := ι) contents s.numDevices s fun _ => none :=
    ⟨hs, rfl, fun key hkey => by simp [hempty.lookup key] at hkey, fun _ _ h => by cases h⟩
  obtain ⟨pending, _, hagreed⟩ := Machine.Always.invariant
    (fun σ : Clients ι δ => ∃ pending, Threads.Tracked (tableFirst s.numDevices) none σ pending ∧
      Agreed contents s.numDevices σ.shared pending)
    (fun σ m h hm => agreed_next hD h hm) hmoves ⟨fun _ => none, fun _ => rfl, hstart⟩
  have hlisted := hagreed.listed key
  refine ⟨hlisted, ?_⟩
  obtain ⟨t₁, hexists, _⟩ := serving_exists hD hagreed.serving hk
  obtain ⟨b, t₂, hretrieve, _⟩ := serving_retrieve hD hagreed.serving hk false
  rw [hexists, hretrieve]
  cases hl : t.lookup contents key with
  | none => simp
  | some v => simp [t, hl, hlisted]

end run

/-- A store and a delete of different keys, step by step in turn. -/
def twoClients : List (Move (Fin 2) Call) :=
  ([.invoke 0 (.store (some [107, 101, 121, 49]) (some ⟨0, [118]⟩) true),
    .invoke 1 (.delete (some [107, 101, 121, 50]))] : List (Move (Fin 2) Call)) ++
  (List.replicate 10 ([.step 0, .step 1] : List (Move (Fin 2) Call))).flatten

theorem exists_iff_retrievable_two_clients :
    let t := (Machine.after (Clients.next keySpaceDriver) ⟨freshEngine, fun _ => none⟩
      twoClients).shared
    ((t.lookup KeySpace.pairs [107, 101, 121, 49]).isSome → [107, 101, 121, 49] ∈ t.keyTable) ∧
      ((run keySpaceDriver (kvEngineExists (some [107, 101, 121, 49]) true) t).1 =
          (.success, some true) ↔
        (run keySpaceDriver (kvEngineRetrieve (some [107, 101, 121, 49]) true false) t).1.1 =
          .success) :=
  exists_iff_retrievable keySpaceDriver_faultless freshEngine_serving freshEngine_empty
    (by decide +kernel) (by decide)

/-- A store and a delete of one key.  The delete runs as a whole between the table entry of the
store and its device command. -/
def racingClients : List (Move (Fin 2) Call) :=
  .invoke 0 (.store (some [107, 101, 121, 49]) (some ⟨0, [118]⟩) true) ::
  List.replicate 4 (.step 0 : Move (Fin 2) Call) ++
  (.invoke 1 (.delete (some [107, 101, 121, 49])) : Move (Fin 2) Call) ::
  List.replicate 9 (.step 1 : Move (Fin 2) Call) ++
  List.replicate 5 (.step 0 : Move (Fin 2) Call)

/-- After the race no call is in progress, the pair is on its device and can be retrieved, but
`kv_engine_exists` denies it. -/
theorem delete_overtakes_store :
    let σ := Machine.after (Clients.next keySpaceDriver) ⟨freshEngine, fun _ => none⟩ racingClients
    σ.Quiescent ∧
      σ.shared.lookup KeySpace.pairs [107, 101, 121, 49] = some [118] ∧
      [107, 101, 121, 49] ∉ σ.shared.keyTable ∧
      (run keySpaceDriver (kvEngineExists (some [107, 101, 121, 49]) true) σ.shared).1 =
        (.success, some false) ∧
      (run keySpaceDriver (kvEngineRetrieve (some [107, 101, 121, 49]) true false) σ.shared).1.1 =
        .success := by
  decide +kernel

end KvEngine
