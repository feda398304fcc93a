import KvEngine.Cells
import KvEngine.Race

/-! # What the actions do to the observable state

The observable state of an engine is cut into cells: a pair of one keyspace, the table entry of
one key, a device slot with its health fields, the statistics, and what the callback of one
request was told.  The addresses of buffers and the order of callbacks of different requests are
not observable.

Over devices that report no fault, every action that a request takes on its key changes the
cells by the effects `Act.effects`, and is answered according to the value that the key has on
its device (`exec_onKey`); the other actions of a request change no cell (`exec_silent`). -/

namespace KvEngine

open Atomic Cells

variable {δ : Type} {D : Driver δ} {contents : δ → Bytes → Option Bytes} {created : δ → Bool}

/-! ### Cells -/

/-- What a callback is told: the result, and the bytes and the length of a value. -/
structure Delivery where
  result : KvResult
  value : Option (Bytes × ℕ)
deriving DecidableEq, Repr

def Callback.delivery (c : Callback) : Delivery :=
  ⟨c.result, c.value.map fun v => (v.bytes, v.len)⟩

/-- The parts of the observable state. -/
inductive Cell where
  | pair (p : Place) (key : Bytes)
  | listed (key : Bytes)
  | device (i : ℕ)
  | stats
  | inbox (request : ℕ)
deriving DecidableEq

/-- What a cell holds. -/
@[reducible] def Cell.Content : Cell → Type
  | .pair _ _ => Option Bytes
  | .listed _ => Bool
  | .device _ => DeviceCtx
  | .stats => Stats
  | .inbox _ => List Delivery

/-- The observable states. -/
abbrev Observation := (c : Cell) → c.Content

namespace State

/-- What the callback of a request has been told so far. -/
def deliveries (s : State δ) (request : ℕ) : List Delivery :=
  (s.callbacks.filter (·.request = request)).map Callback.delivery

/-- The observable state of an engine and its devices. -/
def observe (contents : δ → Bytes → Option Bytes) (s : State δ) : Observation
  | .pair p key => contents (s.ssd p) key
  | .listed key => key ∈ s.keyTable
  | .device i => s.devices i
  | .stats => s.stats
  | .inbox request => s.deliveries request

/-- The keyspace that is open in a slot. -/
def slot (s : State δ) (i : ℕ) : Place := (s.devices i).keyspace.getD ⟨"", i⟩

theorem SameSlots.slot {s t : State δ} (h : SameSlots s t) : t.slot = s.slot := by
  funext i
  rw [State.slot, State.slot, h.keyspace]

end State

/-! ### Effects -/

/-- The effects on the observable state. -/
abbrev Change := Effect Cell.Content

def writePair (p : Place) (key : Bytes) (value : Option Bytes) : Change :=
  ⟨.pair p key, fun _ => value⟩

def setListed (key : Bytes) (listed : Bool) : Change := ⟨.listed key, fun _ => listed⟩

def countOp (i : ℕ) : Change := ⟨.device i, fun c => { c with totalOps := c.totalOps + 1 }⟩

def clearErrors (i : ℕ) : Change := ⟨.device i, fun c => { c with consecutiveErrors := 0 }⟩

def countStats (u : StatsUpdate) : Change := ⟨.stats, fun st => st.update u⟩

def deliver (request : ℕ) (d : Delivery) : Change := ⟨.inbox request, fun ds => ds ++ [d]⟩

@[simp] theorem writePair_cell (p : Place) (key : Bytes) (value : Option Bytes) :
    (writePair p key value).cell = .pair p key := rfl
@[simp] theorem setListed_cell (key : Bytes) (b : Bool) : (setListed key b).cell = .listed key := rfl
@[simp] theorem countOp_cell (i : ℕ) : (countOp i).cell = .device i := rfl
@[simp] theorem clearErrors_cell (i : ℕ) : (clearErrors i).cell = .device i := rfl
@[simp] theorem countStats_cell (u : StatsUpdate) : (countStats u).cell = .stats := rfl
@[simp] theorem deliver_cell (i : ℕ) (d : Delivery) : (deliver i d).cell = .inbox i := rfl

/-- The effects of an action that was answered, where `slot i` is the keyspace of slot `i`. -/
def Act.effects (slot : ℕ → Place) : (a : Act) → a.Resp → List Change
  | .keyTableAdd key, _ => [setListed key true]
  | .keyTableDelete key, _ => [setListed key false]
  | .kvsStoreKvp i k v _, r =>
      if r = .success then [writePair (slot i) k.bytes (some v.bytes)] else []
  | .kvsDeleteKvp i k _, r => if r = .success then [writePair (slot i) k.bytes none] else []
  | .fetchAddTotalOps i, _ => [countOp i]
  | .storeConsecutiveErrors i _, _ => [clearErrors i]
  | .updateStats u, _ => [countStats u]
  | .callback c, _ => [deliver c.request c.delivery]
  | _, _ => []

namespace State

theorem observe_setDevice (s : State δ) (i : ℕ) (f : DeviceCtx → DeviceCtx) :
    (s.setDevice i f).observe contents = Effect.apply ⟨.device i, f⟩ (s.observe contents) := by
  refine Effect.eq_apply (by simp [observe]) fun c hc => ?_
  cases c with
  | device j =>
      have hj : j ≠ i := fun h => hc (by rw [h])
      simp [observe, Function.update_of_ne hj]
  | _ => rfl

theorem observe_setSsd (s : State δ) {p : Place} {d : δ} {key : Bytes} {value : Option Bytes}
    (hd : contents d = Function.update (contents (s.ssd p)) key value) :
    (s.setSsd p d).observe contents = (writePair p key value).apply (s.observe contents) := by
  refine Effect.eq_apply (by simp [observe, writePair, hd]) fun c hc => ?_
  cases c with
  | pair q key' =>
      by_cases hq : q = p
      · subst hq
        have hkey : key' ≠ key := fun h => hc (by rw [h]; rfl)
        simp [observe, hd, Function.update_of_ne hkey]
      · simp [observe, Function.update_of_ne hq]
  | _ => rfl

theorem observe_setSsd_same (s : State δ) {p : Place} {d : δ}
    (hd : contents d = contents (s.ssd p)) :
    (s.setSsd p d).observe contents = s.observe contents := by
  funext c
  cases c with
  | pair q key =>
      by_cases hq : q = p
      · subst hq
        simp [observe, hd]
      · simp [observe, Function.update_of_ne hq]
  | _ => rfl

theorem observe_callback (s : State δ) (c : Callback) :
    { s with callbacks := s.callbacks ++ [c] }.observe contents =
      (deliver c.request c.delivery).apply (s.observe contents) := by
  refine Effect.eq_apply ?_ fun cell hcell => ?_
  · simp [observe, deliver, deliveries]
  · cases cell with
    | inbox request =>
        have hne : ¬ c.request = request := fun h => hcell (by rw [← h]; rfl)
        simp [observe, deliveries, hne]
    | _ => rfl

theorem observe_table {s t : State δ} {key : Bytes} {b : Bool}
    (hself : decide (key ∈ t.keyTable) = b)
    (htable : ∀ key', key' ≠ key → (key' ∈ t.keyTable ↔ key' ∈ s.keyTable))
    (hrest : ∀ c, (∀ key, c ≠ .listed key) → t.observe contents c = s.observe contents c) :
    t.observe contents = (setListed key b).apply (s.observe contents) := by
  refine Effect.eq_apply hself fun c hc => ?_
  cases c with
  | listed key' =>
      have hkey : key' ≠ key := fun h => hc (by rw [h]; rfl)
      simp [observe, htable key' hkey]
  | _ => exact hrest _ (by simp)

end State

/-! ### The actions of a request -/

/-- The actions that change nothing observable. -/
def Act.Silent (n : ℕ) : Act → Prop
  | .loadInitialized => True
  | .loadNumDevices => True
  | .loadHealthy i => i < n
  | .loadWorkers => True
  | .dmaPoolAcquire => True
  | .dmaPoolRelease _ => True
  | .alloc _ => True
  | .free _ => True
  | .freeContext _ => True
  | _ => False

/-- The actions of a request for `key`, on an engine with `n` devices. -/
def Act.OnKey (n : ℕ) (key : Bytes) : Act → Prop
  | .keyTableAdd k => k = key
  | .keyTableDelete k => k = key
  | .kvsStoreKvp i k v t => i = kvEngineShardForKey key n ∧ k = kvsKeyOf key ∧
      ∃ value overwrite, value.length ≤ kvsMaxValueLength ∧ v = kvsValueOf value ∧
        t = storeTypeOf overwrite
  | .kvsRetrieveKvp i k _ v del =>
      i = kvEngineShardForKey key n ∧ k = kvsKeyOf key ∧ v = retrieveRequest ∧ del = false
  | .kvsDeleteKvp i k e => i = kvEngineShardForKey key n ∧ k = kvsKeyOf key ∧ e = false
  | .fetchAddTotalOps _ => True
  | .storeConsecutiveErrors _ v => v = 0
  | .updateStats _ => True
  | .callback _ => True
  | _ => False

/-- The answer to a store on a key that has the value `value`. -/
def storeReply (overwrite : Bool) (value : Option Bytes) : KvsResult :=
  if !overwrite && value.isSome then .valueUpdateNotAllowed else .success

/-- The answer to a retrieve of a key that has the value `value`. -/
def RetrieveReply (value : Option Bytes) (r : KvsResult × KvsValue) : Prop :=
  match value with
  | none => r.1 = .keyNotExist
  | some v => r.1 = .success ∧ r.2.bytes = v ∧ r.2.length.toNat = v.length ∧
      r.2.actualValueSize.toNat = v.length

/-- What a request is told whose key has the value `value` on its device. -/
def Act.Told (n : ℕ) (value : Option Bytes) : (a : Act) → a.Resp → Prop
  | .loadInitialized, r => r = true
  | .loadNumDevices, r => r = n
  | .loadHealthy _, r => r = true
  | .alloc _, r => r.isSome
  | .kvsStoreKvp _ _ _ t, r => r = storeReply (t = .post) value
  | .kvsRetrieveKvp .., r => RetrieveReply value r
  | .kvsDeleteKvp .., r => r = .success
  | _, _ => True

/-- The value that the key of a request has on its device after an action of the request. -/
def Act.leaves (value : Option Bytes) : (a : Act) → a.Resp → Option Bytes
  | .kvsStoreKvp _ _ v _, r => if r = .success then some v.bytes else value
  | .kvsDeleteKvp .., r => if r = .success then none else value
  | _, _ => value

/-- The engine goes on serving with the same slots, and the observable state is `o`. -/
structure Becomes (contents : δ → Bytes → Option Bytes) (s t : State δ) (o : Observation) :
    Prop where
  serving : t.Serving
  slots : State.SameSlots s t
  observe : t.observe contents = o

theorem Becomes.of_served {s t : State δ} (hs : s.Serving) {m : Bytes → Option Bytes}
    {table : KeyTable} (h : State.Served contents s t m table) {o : Observation}
    (ho : t.observe contents = o) : Becomes contents s t o := ⟨h.serving hs, h.slots, ho⟩

theorem Becomes.same {s : State δ} (hs : s.Serving) :
    Becomes contents s s (s.observe contents) := ⟨hs, .refl s, rfl⟩

/-- A silent action is answered as on every serving engine. -/
theorem exec_silent {s : State δ} (hs : s.Serving) {a : Act} (ha : a.Silent s.numDevices)
    (value : Option Bytes) :
    a.Told s.numDevices value (exec D a s).1 ∧
      Becomes contents s (exec D a s).2 (s.observe contents) := by
  cases a with
  | loadInitialized => exact ⟨hs.initialized, .same hs⟩
  | loadNumDevices => exact ⟨rfl, .same hs⟩
  | loadHealthy i => exact ⟨hs.healthy i ha, .same hs⟩
  | loadWorkers => exact ⟨trivial, .same hs⟩
  | free b => exact ⟨trivial, .same hs⟩
  | freeContext request => exact ⟨trivial, { hs with }, ⟨rfl, rfl, fun _ => rfl⟩, rfl⟩
  | dmaPoolRelease b => exact ⟨trivial, { hs with }, ⟨rfl, rfl, fun _ => rfl⟩, rfl⟩
  | alloc size =>
      exact ⟨hs.allocs 0, { hs with allocs := fun n => hs.allocs (n + 1) },
        ⟨rfl, rfl, fun _ => rfl⟩, rfl⟩
  | dmaPoolAcquire =>
      refine ⟨trivial, ?_⟩
      simp only [exec]
      split
      · exact .same hs
      · exact ⟨{ hs with }, ⟨rfl, rfl, fun _ => rfl⟩, rfl⟩
  | _ => exact ha.elim

section device

variable (hD : Faultless D contents created) {s : State δ} (hs : s.Serving) {key : Bytes}
  (hk : KeyOk key)
include hD hs hk

theorem exec_kvsStoreKvp {value : Bytes} (hlen : value.length ≤ kvsMaxValueLength)
    (overwrite : Bool) :
    let a : Act := .kvsStoreKvp (s.shard key) (kvsKeyOf key) (kvsValueOf value)
      (storeTypeOf overwrite)
    a.Told s.numDevices (s.observe contents (.pair (s.slot (s.shard key)) key)) (exec D a s).1 ∧
      Becomes contents s (exec D a s).2
        (Effect.perform (a.effects s.slot (exec D a s).1) (s.observe contents)) := by
  intro a
  obtain ⟨path, hp⟩ := hs.place key
  have hslot : s.slot (s.shard key) = ⟨path, s.shard key⟩ := by rw [State.slot, hp]; rfl
  have hsmall : value.length < 2 ^ 32 := by
    have : kvsMaxValueLength < 2 ^ 32 := by decide
    omega
  have hstores : a.Stores s.numDevices key := ⟨hk, value, overwrite, rfl⟩
  obtain ⟨_, ⟨m, hserved⟩, _⟩ := exec_stores hD hs hstores
  obtain ⟨hres, hcont⟩ := storeOutcome_faultless hD (s.ssd ⟨path, s.shard key⟩) hk
    (by rwa [kvsValueOf_length hsmall]) overwrite
  have hexec : exec D a s = ((storeOutcome D (s.ssd ⟨path, s.shard key⟩) key value overwrite).1,
      s.setSsd ⟨path, s.shard key⟩
        (storeOutcome D (s.ssd ⟨path, s.shard key⟩) key value overwrite).2) :=
    keyspaceCommand_eq hp _ _
  rw [hexec] at hserved ⊢
  have hpost : decide (storeTypeOf overwrite = .post) = overwrite := by
    cases overwrite <;> rfl
  refine ⟨?_, .of_served hs hserved ?_⟩
  · simp only [a, Act.Told, hpost, storeReply, State.observe, hslot]
    exact hres
  · simp only [a, Act.effects, hslot, hk.kvsKeyOf_bytes]
    cases hc : (!overwrite && (contents (s.ssd ⟨path, s.shard key⟩) key).isSome) with
    | true =>
        rw [hc, if_pos rfl] at hres hcont
        rw [hres, if_neg (by simp)]
        exact s.observe_setSsd_same hcont
    | false =>
        rw [hc, if_neg (by decide)] at hres hcont
        rw [hres, if_pos rfl]
        exact s.observe_setSsd hcont

theorem exec_kvsRetrieveKvp (buffer : Addr) :
    let a : Act := .kvsRetrieveKvp (s.shard key) (kvsKeyOf key) buffer retrieveRequest false
    a.Told s.numDevices (s.observe contents (.pair (s.slot (s.shard key)) key)) (exec D a s).1 ∧
      Becomes contents s (exec D a s).2
        (Effect.perform (a.effects s.slot (exec D a s).1) (s.observe contents)) := by
  intro a
  obtain ⟨path, hp⟩ := hs.place key
  have hslot : s.slot (s.shard key) = ⟨path, s.shard key⟩ := by rw [State.slot, hp]; rfl
  obtain ⟨m, table, hserved⟩ := (exec_serves hD hs (a := a) ⟨rfl, key, hk, rfl, rfl⟩).2.served
  have hexec : exec D a s =
      ((D.retrieveKvp (s.ssd ⟨path, s.shard key⟩) (kvsKeyOf key) retrieveRequest false).1,
        s.setSsd ⟨path, s.shard key⟩ (D.retrieveKvp (s.ssd ⟨path, s.shard key⟩) (kvsKeyOf key)
          retrieveRequest false).2) := keyspaceCommand_eq hp _ _
  obtain ⟨r, d, hout, hcase⟩ := retrieveOutcome_faultless hD (s.ssd ⟨path, s.shard key⟩) hk false
  simp only [retrieveOutcome, retrieve_first_ne_small hD _ hk false, if_false] at hout
  obtain ⟨hr, hd⟩ := Prod.mk.inj hout
  rw [hexec, Option.some.inj hr, hd] at hserved ⊢
  simp only [a, Act.Told, RetrieveReply, State.observe, hslot, Act.effects]
  rcases hcase with ⟨hr, hnone, hkeep⟩ | ⟨hr, hsome, hlen, hact, hkeep⟩
  · rw [hnone]
    exact ⟨hr, .of_served hs hserved (s.observe_setSsd_same hkeep)⟩
  · rw [hsome]
    exact ⟨⟨hr, rfl, hlen, hact⟩, .of_served hs hserved (s.observe_setSsd_same hkeep)⟩

theorem exec_kvsDeleteKvp :
    let a : Act := .kvsDeleteKvp (s.shard key) (kvsKeyOf key) false
    a.Told s.numDevices (s.observe contents (.pair (s.slot (s.shard key)) key)) (exec D a s).1 ∧
      Becomes contents s (exec D a s).2
        (Effect.perform (a.effects s.slot (exec D a s).1) (s.observe contents)) := by
  intro a
  obtain ⟨path, hp⟩ := hs.place key
  have hslot : s.slot (s.shard key) = ⟨path, s.shard key⟩ := by rw [State.slot, hp]; rfl
  obtain ⟨m, table, hserved⟩ := (exec_serves hD hs (a := a) ⟨rfl, key, hk, rfl, rfl⟩).2.served
  have hexec : exec D a s =
      ((D.deleteKvp (s.ssd ⟨path, s.shard key⟩) (kvsKeyOf key) false).1,
        s.setSsd ⟨path, s.shard key⟩ (D.deleteKvp (s.ssd ⟨path, s.shard key⟩) (kvsKeyOf key)
          false).2) := keyspaceCommand_eq hp _ _
  have hok := hD.delete_ok (s.ssd ⟨path, s.shard key⟩) (kvsKeyOf key) hk.lengthOk
  have hdone := hD.delete_done _ _ _ hok
  rw [hk.kvsKeyOf_bytes] at hdone
  rw [hexec] at hserved ⊢
  refine ⟨hok, .of_served hs hserved ?_⟩
  simp only [a, Act.effects, hok, if_true, hslot, hk.kvsKeyOf_bytes]
  exact s.observe_setSsd hdone

/-- An action of a request for `key` is answered according to the value of `key` on its device,
and changes the observable state by its effects. -/
theorem exec_onKey {a : Act} (ha : a.OnKey s.numDevices key) :
    a.Told s.numDevices (s.observe contents (.pair (s.slot (s.shard key)) key)) (exec D a s).1 ∧
      Becomes contents s (exec D a s).2
        (Effect.perform (a.effects s.slot (exec D a s).1) (s.observe contents)) := by
  have hserved (ha : a.Serves s.numDevices) : ∃ m table, State.Served contents s (exec D a s).2 m
      table := (exec_serves hD hs ha).2.served
  cases a with
  | fetchAddTotalOps i =>
      obtain ⟨m, table, h⟩ := hserved trivial
      exact ⟨trivial, .of_served hs h (s.observe_setDevice i _)⟩
  | storeConsecutiveErrors i v =>
      obtain rfl : v = 0 := ha
      obtain ⟨m, table, h⟩ := hserved trivial
      exact ⟨trivial, .of_served hs h (s.observe_setDevice i _)⟩
  | updateStats u =>
      obtain ⟨m, table, h⟩ := hserved trivial
      refine ⟨trivial, .of_served hs h (Effect.eq_apply (e := countStats u) rfl fun c hc => ?_)⟩
      cases c with
      | stats => exact absurd rfl hc
      | _ => rfl
  | callback c => exact ⟨trivial, { hs with }, ⟨rfl, rfl, fun _ => rfl⟩, s.observe_callback c⟩
  | keyTableAdd k =>
      obtain rfl : k = key := ha
      obtain ⟨m, table, h⟩ := hserved hk
      have hnext : s.nextAlloc.isSome = true := hs.allocs 0
      have htable : (s.addTableKey k).keyTable = insert k s.keyTable := by
        simp [State.addTableKey_keyTable s k hk.accepts, hnext]
      refine ⟨trivial, .of_served hs h (State.observe_table ?_ (fun key' hne => ?_) ?_)⟩
      · simp [exec, htable]
      · simp [exec, htable, hne]
      · intro c hc
        cases c with
        | listed key' => exact absurd rfl (hc key')
        | inbox request =>
            have hcalls := (exec_operates (D := D) (a := .keyTableAdd k) trivial s).1
            simp only [State.observe, State.deliveries, hcalls]
        | _ => simp [exec, State.observe]
  | keyTableDelete k =>
      obtain rfl : k = key := ha
      obtain ⟨m, table, h⟩ := hserved hk
      refine ⟨trivial, .of_served hs h (State.observe_table ?_ (fun key' hne => ?_) ?_)⟩
      · simp [exec, deleteKey, hk.accepts]
      · simp [exec, deleteKey, hk.accepts, hne]
      · intro c hc
        cases c with
        | listed key' => exact absurd rfl (hc key')
        | _ => rfl
  | kvsStoreKvp i k v t =>
      obtain ⟨rfl, rfl, value, overwrite, hlen, rfl, rfl⟩ := ha
      exact exec_kvsStoreKvp hD hs hk hlen overwrite
  | kvsRetrieveKvp i k buffer v del =>
      obtain ⟨rfl, rfl, rfl, rfl⟩ := ha
      exact exec_kvsRetrieveKvp hD hs hk buffer
  | kvsDeleteKvp i k e =>
      obtain ⟨rfl, rfl, rfl⟩ := ha
      exact exec_kvsDeleteKvp hD hs hk
  | _ => exact ha.elim

end device

/-- An action changes the pair of its key as `Act.leaves` says. -/
theorem perform_effects_pair {slot : ℕ → Place} {n : ℕ} {key : Bytes} (hk : KeyOk key) {a : Act}
    (ha : a.OnKey n key) (r : a.Resp) (o : Observation) :
    Effect.perform (a.effects slot r) o (.pair (slot (kvEngineShardForKey key n)) key) =
      a.leaves (o (.pair (slot (kvEngineShardForKey key n)) key)) r := by
  cases a with
  | kvsStoreKvp i k v t =>
      obtain ⟨rfl, rfl, _⟩ := ha
      simp only [Act.effects, Act.leaves, hk.kvsKeyOf_bytes]
      split
      · simp [Effect.apply, writePair]
      · rfl
  | kvsDeleteKvp i k e =>
      obtain ⟨rfl, rfl, _⟩ := ha
      simp only [Act.effects, Act.leaves, hk.kvsKeyOf_bytes]
      split
      · simp [Effect.apply, writePair]
      · rfl
  | kvsRetrieveKvp i k buffer v del => rfl
  | _ =>
      first
      | exact ha.elim
      | exact Effect.perform_of_ne (by simp [Act.effects]) o

end KvEngine
