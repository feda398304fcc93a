import KvEngine.AtomicObject
import KvEngine.Crew
import KvEngine.Refinement

/-! # The data path is linearizable

Any number of threads call `kv_engine_store`, `kv_engine_retrieve` and `kv_engine_delete`, or
execute such calls as workers, while other threads run everything else that `Tasks.lean` knows: the
probe, health snapshots, existence checks, statistics, buffers, submissions.  Devices may fail any
command and become unhealthy, allocations may fail.

The calls are operations on one map from keys to values (`MapSpec`).  A call takes effect at the
moment of its last device command; this is where the answer of a successful call, of a store that
finds the key and of a retrieve or delete that misses it is fixed (`fixedAnswer`).  Every other
answer is a failure, which leaves the map alone and may happen at any time.  So the threads together
behave as if each call were one step (`crew_linearizable`), although none of them holds a lock
across its steps.  The key table is not part of this: `kv_engine_exists` asks it at another moment
than the device. -/

namespace KvEngine

open Atomic

variable {δ : Type} {D : Driver δ} {contents : δ → Bytes → Option Bytes}

/-- A documented device that does not lie about keys: it says that a key is there, or that it is
not there, only if this is so.  It may still fail any command. -/
structure Truthful (D : Driver δ) (contents : δ → Bytes → Option Bytes) : Prop
    extends Documented D contents where
  getDeviceCapacity : ∀ d, contents (D.getDeviceCapacity d).2 = contents d
  store_new : ∀ d k v, (D.storeKvp d k v .noOverwrite).1 = .success → contents d k.bytes = none
  store_refused : ∀ d k v t, (D.storeKvp d k v t).1 = .valueUpdateNotAllowed →
    t = .noOverwrite ∧ ∃ old, contents d k.bytes = some old
  retrieve_missing : ∀ d k v del, (D.retrieveKvp d k v del).1.1 = .keyNotExist →
    contents d k.bytes = none
  delete_missing : ∀ d k e, (D.deleteKvp d k e).1 = .keyNotExist → contents d k.bytes = none

/-! ### The map -/

/-- The pairs of all devices together. -/
abbrev Pairs := Bytes → Option Bytes

/-- What a store of `value` leaves: the length field of a `kvs_value` has 32 bits. -/
def storedBytes (value : Bytes) : Bytes := value.take (value.length % 4294967296)

theorem kvsValueOf_storedBytes (value : Bytes) : (kvsValueOf value).bytes = storedBytes value := by
  simp [kvsValueOf, KvsValue.bytes, storedBytes]

/-- The results with which a call has failed, as opposed to a store that finds the key, and a
retrieve or delete that does not. -/
def Call.Fails (c : Call) (r : KvResult) : Prop :=
  r ≠ .success ∧
    match c with
    | .store _ _ _ => r ≠ .keyAlreadyExists
    | _ => r ≠ .keyNotFound

/-- The operations on the map. -/
inductive MapSpec (m : Pairs) : Call → Output → Pairs → Prop where
  | stored {key : Bytes} {value : Buf} {overwrite : Bool} (h : overwrite = true ∨ m key = none) :
      MapSpec m (.store (some key) (some value) overwrite) ⟨.success, none, none⟩
        (Function.update m key (some (storedBytes value.bytes)))
  | found {key old : Bytes} {value : Buf} (h : m key = some old) :
      MapSpec m (.store (some key) (some value) false) ⟨.keyAlreadyExists, none, none⟩ m
  | retrieved {key value : Bytes} {del : Bool} (h : m key = some value) :
      MapSpec m (.retrieve (some key) true del) ⟨.success, some (value, value.length), none⟩
        (if del then Function.update m key none else m)
  | missed {key : Bytes} {del : Bool} (h : m key = none) :
      MapSpec m (.retrieve (some key) true del) ⟨.keyNotFound, none, none⟩ m
  | deleted {key : Bytes} :
      MapSpec m (.delete (some key)) ⟨.success, none, none⟩ (Function.update m key none)
  | notThere {key : Bytes} (h : m key = none) :
      MapSpec m (.delete (some key)) ⟨.keyNotFound, none, none⟩ m
  | failed {c : Call} {r : KvResult} (h : c.Fails r) : MapSpec m c ⟨r, none, none⟩ m

/-! ### The moment of effect -/

/-- The actions that change neither the pairs nor the way to them. -/
def Act.Unseen : Act → Prop
  | .storeHealthy _ _ => True
  | .fetchAddTotalOps _ => True
  | .fetchAddTotalErrors _ => True
  | .fetchAddConsecutiveErrors _ => True
  | .storeConsecutiveErrors _ _ => True
  | .loadTotalErrors _ => True
  | .loadTotalOps _ => True
  | .kvsExistKvPairs _ _ => True
  | .kvsGetDeviceUtilization _ => True
  | .updateStats _ => True
  | .resetStats => True
  | a => a.Neutral

/-- The device commands of the call `c` on an engine with `n` devices. -/
inductive Act.Commands (n : ℕ) : Call → Act → Prop where
  | store {key : Bytes} (hk : KeyOk key) (value : Buf) (overwrite : Bool) :
      Commands n (.store (some key) (some value) overwrite)
        (.kvsStoreKvp (kvEngineShardForKey key n) (kvsKeyOf key) (kvsValueOf value.bytes)
          (storeTypeOf overwrite))
  | retrieve {key : Bytes} (hk : KeyOk key) (b : Addr) {v : KvsValue} (hv : v.offset = 0)
      (del : Bool) :
      Commands n (.retrieve (some key) true del)
        (.kvsRetrieveKvp (kvEngineShardForKey key n) (kvsKeyOf key) b v del)
  | delete {key : Bytes} (hk : KeyOk key) :
      Commands n (.delete (some key))
        (.kvsDeleteKvp (kvEngineShardForKey key n) (kvsKeyOf key) false)

/-- The answer that a device command fixes.  A buffer that is too small fixes nothing. -/
def fixedAnswer : (a : Act) → a.Resp → Option Output
  | .kvsStoreKvp .., r => some ⟨mapKvsResult r, none, none⟩
  | .kvsRetrieveKvp .., r =>
      if r.1 = .bufferSmall then none
      else some ⟨mapKvsResult r.1,
        if r.1 = .success then some (r.2.bytes, r.2.length.toNat) else none, none⟩
  | .kvsDeleteKvp .., r => some ⟨mapKvsResult r, none, none⟩
  | _, _ => none

/-- The protocol of an operation: device commands until the answer is fixed, and none after. -/
def untilFixed (n : ℕ) (op : Option Call) : Protocol Act Act.Resp (Option Output) where
  ok q a := a.Unseen ∨ q = none ∧ ∃ c, op = some c ∧ a.Commands n c
  answers _ := Answered n
  next q a r := q.or (fixedAnswer a r)

theorem Act.Unseen.fixes_nothing {a : Act} (h : a.Unseen) (r : a.Resp) : fixedAnswer a r = none := by
  cases a <;> first | rfl | exact h.elim

theorem Act.Neutral.unseen {a : Act} (h : a.Neutral) : a.Unseen := by
  cases a <;> first | exact trivial | exact h.elim

section actions

variable {s : State δ}

theorem lookup_deviceCommand {α : Type} (i : ℕ) (refused : α) {f : δ → α × δ}
    (hf : ∀ d, contents (f d).2 = contents d) :
    (s.deviceCommand i refused f).2.lookup contents = s.lookup contents := by
  unfold State.deviceCommand
  split
  · rfl
  · exact State.lookup_setSsd_same s (hf _)

theorem lookup_keyspaceCommand {α : Type} (i : ℕ) (refused : α) {f : δ → α × δ}
    (hf : ∀ d, contents (f d).2 = contents d) :
    (s.keyspaceCommand i refused f).2.lookup contents = s.lookup contents := by
  unfold State.keyspaceCommand
  split
  · rfl
  · exact State.lookup_setSsd_same s (hf _)

/-- An unseen action keeps the slots and the pairs. -/
theorem Act.Unseen.exec (hD : Truthful D contents) {a : Act} (h : a.Unseen) :
    State.SameSlots s (KvEngine.exec D a s).2 ∧
      (KvEngine.exec D a s).2.lookup contents = s.lookup contents := by
  have hslot (i : ℕ) (f : DeviceCtx → DeviceCtx) (hf : ∀ c, (f c).keyspace = c.keyspace) :
      State.SameSlots s (s.setDevice i f) ∧
        (s.setDevice i f).lookup contents = s.lookup contents :=
    ⟨s.sameSlots_setDevice i (hf _), (s.sameSlots_setDevice i (hf _)).lookup rfl⟩
  have hcommand (hc : a.isCommand = true) : State.SameSlots s (KvEngine.exec D a s).2 := by
    obtain ⟨ssd, heq⟩ := exec_command (D := D) hc s
    rw [heq]
    exact ⟨rfl, rfl, fun _ => rfl⟩
  cases a with
  | storeHealthy | fetchAddTotalOps | fetchAddTotalErrors | fetchAddConsecutiveErrors
  | storeConsecutiveErrors =>
      simp only [KvEngine.exec]
      exact hslot _ _ fun _ => rfl
  | kvsExistKvPairs i k =>
      exact ⟨hcommand rfl, lookup_keyspaceCommand i _ fun d => hD.existKvPairs d k⟩
  | kvsGetDeviceUtilization i =>
      exact ⟨hcommand rfl, lookup_deviceCommand i _ hD.getDeviceUtilization⟩
  | kvsReadUtilization i =>
      exact ⟨hcommand rfl, lookup_deviceCommand i _ fun d => hD.getDeviceUtilization d⟩
  | kvsGetDeviceCapacity i =>
      exact ⟨hcommand rfl, lookup_deviceCommand i _ hD.getDeviceCapacity⟩
  | keyTableAdd key =>
      have hslots : State.SameSlots s (s.addTableKey key) := ⟨by simp, by simp, by simp⟩
      exact ⟨hslots, hslots.lookup (by simp)⟩
  | dmaPoolAcquire =>
      simp only [KvEngine.exec]
      split <;> exact ⟨⟨rfl, rfl, fun _ => rfl⟩, rfl⟩
  | _ => first | exact ⟨⟨rfl, rfl, fun _ => rfl⟩, rfl⟩ | exact h.elim

theorem mapKvsResult_eq_keyAlreadyExists {r : KvsResult} :
    mapKvsResult r = .keyAlreadyExists ↔ r = .valueUpdateNotAllowed := by
  cases r <;> simp [mapKvsResult]

theorem mapKvsResult_eq_keyNotFound {r : KvsResult} :
    mapKvsResult r = .keyNotFound ↔ r = .keyNotExist := by
  cases r <;> simp [mapKvsResult]

section commands

variable {key : Bytes} {p : Place} (hD : Truthful D contents) (hs : s.Mounted) (hk : KeyOk key)
  (hp : (s.devices (s.shard key)).keyspace = some p)
include hD hs hk hp

theorem MapSpec.of_store (value : Buf) (overwrite : Bool) {o : KvsResult × δ}
    (ho : D.storeKvp (s.ssd p) (kvsKeyOf key) (kvsValueOf value.bytes) (storeTypeOf overwrite) = o) :
    MapSpec (s.lookup contents) (.store (some key) (some value) overwrite)
      ⟨mapKvsResult o.1, none, none⟩ ((s.setSsd p o.2).lookup contents) := by
  subst ho
  have hkey : s.lookup contents key = contents (s.ssd p) (kvsKeyOf key).bytes := by
    rw [hk.kvsKeyOf_bytes, State.lookup_eq contents hp]
  by_cases hr : (D.storeKvp (s.ssd p) (kvsKeyOf key) (kvsValueOf value.bytes)
      (storeTypeOf overwrite)).1 = .success
  · have hdone := (hD.store_done _ _ _ _ (by cases overwrite <;> simp [storeTypeOf]) hr).2
    rw [hk.kvsKeyOf_bytes, kvsValueOf_storedBytes] at hdone
    rw [State.lookup_setSsd_update hs hp hdone, hr]
    refine .stored ?_
    cases overwrite with
    | true => exact .inl rfl
    | false => exact .inr (hkey.trans (hD.store_new _ _ _ hr))
  · rw [State.lookup_setSsd_same s (hD.store_failed _ _ _ _ hr)]
    by_cases hrefused : (D.storeKvp (s.ssd p) (kvsKeyOf key) (kvsValueOf value.bytes)
        (storeTypeOf overwrite)).1 = .valueUpdateNotAllowed
    · obtain ⟨htype, old, hold⟩ := hD.store_refused _ _ _ _ hrefused
      obtain rfl : overwrite = false := by
        cases overwrite with
        | false => rfl
        | true => cases htype
      rw [hrefused]
      exact .found (hkey.trans hold)
    · exact .failed ⟨fun h => hr (mapKvsResult_eq_success.mp h),
        fun h => hrefused (mapKvsResult_eq_keyAlreadyExists.mp h)⟩

theorem MapSpec.of_retrieve {v : KvsValue} (hv : v.offset = 0) (del : Bool)
    {o : (KvsResult × KvsValue) × δ} (ho : D.retrieveKvp (s.ssd p) (kvsKeyOf key) v del = o) :
    MapSpec (s.lookup contents) (.retrieve (some key) true del)
      ⟨mapKvsResult o.1.1,
        if o.1.1 = .success then some (o.1.2.bytes, o.1.2.length.toNat) else none, none⟩
      ((s.setSsd p o.2).lookup contents) := by
  subst ho
  have hkey : s.lookup contents key = contents (s.ssd p) (kvsKeyOf key).bytes := by
    rw [hk.kvsKeyOf_bytes, State.lookup_eq contents hp]
  by_cases hr : (D.retrieveKvp (s.ssd p) (kvsKeyOf key) v del).1.1 = .success
  · obtain ⟨⟨stored, hstored, hbytes, hlength, _⟩, hafter⟩ := hD.retrieve_done _ _ _ _ hv hr
    rw [if_pos hr, hr, hbytes, hlength]
    have hafter' : (s.setSsd p (D.retrieveKvp (s.ssd p) (kvsKeyOf key) v del).2).lookup contents =
        if del then Function.update (s.lookup contents) key none else s.lookup contents := by
      cases del with
      | false => exact State.lookup_setSsd_same s hafter
      | true =>
          rw [hk.kvsKeyOf_bytes] at hafter
          exact State.lookup_setSsd_update hs hp hafter
    rw [hafter']
    exact .retrieved (hkey.trans hstored)
  · rw [State.lookup_setSsd_same s (hD.retrieve_failed _ _ _ _ hr), if_neg hr]
    by_cases hmissing : (D.retrieveKvp (s.ssd p) (kvsKeyOf key) v del).1.1 = .keyNotExist
    · rw [hmissing]
      exact .missed (hkey.trans (hD.retrieve_missing _ _ _ _ hmissing))
    · exact .failed ⟨fun h => hr (mapKvsResult_eq_success.mp h),
        fun h => hmissing (mapKvsResult_eq_keyNotFound.mp h)⟩

theorem MapSpec.of_delete {o : KvsResult × δ} (ho : D.deleteKvp (s.ssd p) (kvsKeyOf key) false = o) :
    MapSpec (s.lookup contents) (.delete (some key)) ⟨mapKvsResult o.1, none, none⟩
      ((s.setSsd p o.2).lookup contents) := by
  subst ho
  have hkey : s.lookup contents key = contents (s.ssd p) (kvsKeyOf key).bytes := by
    rw [hk.kvsKeyOf_bytes, State.lookup_eq contents hp]
  by_cases hr : (D.deleteKvp (s.ssd p) (kvsKeyOf key) false).1 = .success
  · have hdone := hD.delete_done _ _ _ hr
    rw [hk.kvsKeyOf_bytes] at hdone
    rw [State.lookup_setSsd_update hs hp hdone, hr]
    exact .deleted
  · rw [State.lookup_setSsd_same s (hD.delete_failed _ _ _ hr)]
    by_cases hmissing : (D.deleteKvp (s.ssd p) (kvsKeyOf key) false).1 = .keyNotExist
    · rw [hmissing]
      exact .notThere (hkey.trans (hD.delete_missing _ _ _ hmissing))
    · exact .failed ⟨fun h => hr (mapKvsResult_eq_success.mp h),
        fun h => hmissing (mapKvsResult_eq_keyNotFound.mp h)⟩

end commands

/-- What a device command of a call does: it fixes the answer and the map follows it, or it fixes
nothing and leaves the map alone. -/
theorem Act.Commands.exec (hD : Truthful D contents) (hs : s.Mounted) {c : Call} {a : Act}
    (h : a.Commands s.numDevices c) :
    State.SameSlots s (KvEngine.exec D a s).2 ∧
      ((fixedAnswer a (KvEngine.exec D a s).1 = none ∧
          (KvEngine.exec D a s).2.lookup contents = s.lookup contents) ∨
        ∃ out, fixedAnswer a (KvEngine.exec D a s).1 = some out ∧
          MapSpec (s.lookup contents) c out ((KvEngine.exec D a s).2.lookup contents)) := by
  cases h with
  | @store key hk value overwrite =>
      obtain ⟨path, hp⟩ := hs.place key
      simp only [KvEngine.exec]
      rw [keyspaceCommand_eq (i := kvEngineShardForKey key s.numDevices) hp]
      exact ⟨⟨rfl, rfl, fun _ => rfl⟩, .inr ⟨_, rfl, .of_store hD hs hk hp value overwrite rfl⟩⟩
  | @retrieve key hk b v hv del =>
      obtain ⟨path, hp⟩ := hs.place key
      simp only [KvEngine.exec]
      rw [keyspaceCommand_eq (i := kvEngineShardForKey key s.numDevices) hp]
      refine ⟨⟨rfl, rfl, fun _ => rfl⟩, ?_⟩
      simp only [fixedAnswer]
      split
      · rename_i hsmall
        refine .inl ⟨rfl, State.lookup_setSsd_same s (hD.retrieve_failed _ _ _ _ ?_)⟩
        rw [hsmall]
        decide
      · exact .inr ⟨_, rfl, .of_retrieve hD hs hk hp hv del rfl⟩
  | @delete key hk =>
      obtain ⟨path, hp⟩ := hs.place key
      simp only [KvEngine.exec]
      rw [keyspaceCommand_eq (i := kvEngineShardForKey key s.numDevices) hp]
      exact ⟨⟨rfl, rfl, fun _ => rfl⟩, .inr ⟨_, rfl, .of_delete hD hs hk hp rfl⟩⟩

end actions

/-! ### The programs -/

section programs

variable {n : ℕ} {op : Option Call} {q : Option Output} {α : Type}

/-- What is unseen keeps the phase. -/
theorem unseen_follows {p : M α} (hp : p.Performs Act.Unseen) :
    p.Follows (untilFixed n op) (fun q' _ => q' = q) q := by
  refine hp.follows fun a ha => ⟨.inl ha, fun r => ?_⟩
  show q.or (fixedAnswer a r) = q
  rw [ha.fixes_nothing r, Option.or_none]

/-- The answer of the call is fixed, or it is a failure. -/
def Call.Decided (c : Call) (q : Option Output) (out : Output) : Prop :=
  match q with
  | some v => out = v
  | none => ∃ r, out = ⟨r, none, none⟩ ∧ c.Fails r

theorem deviceRecordResult_unseen (i : ℕ) (r : KvsResult) :
    (deviceRecordResult i r).Performs Act.Unseen :=
  (deviceRecordResult_records i r).mono fun a h => by
    cases a <;> first | exact trivial | exact h.elim

theorem guarded_untilFixed {post : Option Output → α → Prop} {pointers : Bool} {key : Option Bytes}
    {refuse : KvResult → α} {body : Bytes → ℕ → M α}
    (hrefuse : ∀ r, r = .invalidParam ∨ r = .deviceDegraded → post q (refuse r))
    (hbody : ∀ k, key = some k → pointers = true → KeyOk k →
      (body k (kvEngineShardForKey k n)).Follows (untilFixed n op) post q) :
    (guarded pointers key refuse body).Follows (untilFixed n op) post q := by
  have hor : q.or none = q := Option.or_none
  refine ⟨.inl trivial, fun initialized _ => ?_⟩
  show Prog.Follows _ _ _ (q.or none)
  rw [hor]
  cases key with
  | none => exact hrefuse _ (.inl rfl)
  | some key =>
      show Prog.Follows _ _ (if _ then _ else _) _
      split
      · exact hrefuse _ (.inl rfl)
      · rename_i hpointers
        split
        · exact hrefuse _ (.inl rfl)
        · rename_i hlen
          have hk : KeyOk key := by
            rw [KeyOk]
            omega
          refine ⟨.inl trivial, fun m hm => ?_⟩
          obtain rfl : m = n := hm
          refine ⟨.inl trivial, fun healthy _ => ?_⟩
          show Prog.Follows _ _ _ ((q.or none).or none)
          rw [hor, hor]
          cases healthy with
          | false => exact hrefuse _ (.inr rfl)
          | true =>
              refine hbody key rfl ?_ hk
              cases pointers
              · simp at hpointers
              · rfl

theorem kvEngineStore_untilFixed (key : Option Bytes) (value : Option Buf) (overwrite : Bool) :
    (kvEngineStore key value overwrite).Follows
      (untilFixed n (some (.store key value overwrite)))
      (fun q r => (Call.store key value overwrite).Decided q ⟨r, none, none⟩) none := by
  refine guarded_untilFixed (fun r hr => ⟨r, rfl, ?_⟩) fun k hkey _ hk => ?_
  · rcases hr with rfl | rfl <;> simp [Call.Fails]
  · subst hkey
    cases value with
    | none => exact ⟨_, rfl, by simp [Call.Fails]⟩
    | some value =>
        have htail (b : Option Addr) :
            (storeTail k (kvEngineShardForKey k n) value.bytes overwrite b).Follows
              (untilFixed n (some (.store (some k) (some value) overwrite)))
              (fun q r => (Call.store (some k) (some value) overwrite).Decided q ⟨r, none, none⟩)
              none := by
          refine ⟨.inl trivial, fun _ _ => ⟨.inr ⟨rfl, _, rfl, .store hk value overwrite⟩, ?_⟩⟩
          intro r _
          refine (unseen_follows (deviceRecordResult_unseen _ r)).bind fun q₁ _ hq₁ => ?_
          subst hq₁
          refine (unseen_follows ((freeAligned_neutral b).mono fun _ h => h.unseen)).bind
            fun q₂ _ hq₂ => ?_
          subst hq₂
          exact ⟨.inl trivial, fun _ _ => rfl⟩
        show Prog.Follows _ _ (if _ then _ else _) _
        split
        · exact htail none
        · refine (unseen_follows ((dmaAlloc_neutral _).mono fun _ h => h.unseen)).bind
            fun q b hq => ?_
          subst hq
          cases b with
          | none => exact ⟨_, rfl, by simp [Call.Fails]⟩
          | some b => exact htail (some b)

theorem retrieveTail_untilFixed {key : Bytes} {del : Bool} (i : ℕ) (fromPool : Bool) (b : Addr)
    {reply : KvsResult × KvsValue}
    (hq : q = if reply.1 = .bufferSmall then none
      else some ⟨mapKvsResult reply.1,
        if reply.1 = .success then some (reply.2.bytes, reply.2.length.toNat) else none, none⟩) :
    (retrieveTail key i del fromPool b reply).Follows (untilFixed n op)
      (fun q r => (Call.retrieve (some key) true del).Decided q
        (Reply.output ⟨r.1, r.2, none⟩)) q := by
  refine (unseen_follows (deviceRecordResult_unseen i reply.1)).bind fun q₁ _ hq₁ => ?_
  subst hq₁
  refine (unseen_follows ((forgetRetrieved_neutral _ _).mono fun _ h => h.unseen)).bind
    fun q₂ _ hq₂ => ?_
  subst hq₂
  split
  · rename_i hfailed
    refine (unseen_follows ((releaseBuffer_neutral _ _).mono fun _ h => h.unseen)).bind
      fun q₃ _ hq₃ => ?_
    subst hq₃
    refine ⟨.inl trivial, fun _ _ => ?_⟩
    show Call.Decided _ (q₃.or none) _
    rw [Option.or_none, hq]
    split
    · rename_i hsmall
      rw [hsmall]
      exact ⟨_, rfl, by simp [Call.Fails, mapKvsResult]⟩
    · rfl
  · rename_i hdone
    have hr : reply.1 = .success := not_not.mp hdone
    refine ⟨.inl trivial, fun _ _ => ?_⟩
    show Call.Decided _ (q₂.or none) _
    rw [Option.or_none, hq, if_neg (by rw [hr]; decide), if_pos hr, hr]
    rfl

theorem retrieveInto_untilFixed {key : Bytes} (hk : KeyOk key) (del fromPool : Bool) (b : Addr) :
    (retrieveInto key (kvEngineShardForKey key n) del fromPool b).Follows
      (untilFixed n (some (.retrieve (some key) true del)))
      (fun q r => (Call.retrieve (some key) true del).Decided q
        (Reply.output ⟨r.1, r.2, none⟩)) none := by
  refine ⟨.inr ⟨rfl, _, rfl, .retrieve hk b rfl del⟩, fun reply _ => ?_⟩
  show Prog.Follows _ _ (if _ then _ else _) _
  split
  · rename_i hsmall
    -- the first attempt has fixed nothing; the second one decides
    have hnone : (untilFixed n (some (.retrieve (some key) true del))).next none
        (.kvsRetrieveKvp (kvEngineShardForKey key n) (kvsKeyOf key) b retrieveRequest del) reply =
        none := by
      simp [untilFixed, fixedAnswer, hsmall]
    rw [hnone]
    refine (unseen_follows ((releaseBuffer_neutral _ _).mono fun _ h => h.unseen)).bind
      fun q₁ _ hq₁ => ?_
    subst hq₁
    refine (unseen_follows ((dmaAlloc_neutral _).mono fun _ h => h.unseen)).bind
      fun q₂ second hq₂ => ?_
    subst hq₂
    cases second with
    | none => exact ⟨_, rfl, by simp [Call.Fails]⟩
    | some b' =>
        refine ⟨.inr ⟨rfl, _, rfl, .retrieve hk b' rfl del⟩, fun reply' _ => ?_⟩
        exact retrieveTail_untilFixed _ _ _ rfl
  · exact retrieveTail_untilFixed _ _ _ rfl

theorem kvEngineRetrieve_untilFixed (key : Option Bytes) (outs del : Bool) :
    (kvEngineRetrieve key outs del).Follows (untilFixed n (some (.retrieve key outs del)))
      (fun q r => (Call.retrieve key outs del).Decided q (Reply.output ⟨r.1, r.2, none⟩)) none := by
  refine guarded_untilFixed (fun r hr => ⟨r, rfl, ?_⟩) fun k hkey houts hk => ?_
  · rcases hr with rfl | rfl <;> simp [Call.Fails]
  · subst hkey houts
    refine ⟨.inl trivial, fun pooled _ => ?_⟩
    cases pooled with
    | some b => exact retrieveInto_untilFixed hk _ _ _
    | none =>
        refine (unseen_follows ((dmaAlloc_neutral _).mono fun _ h => h.unseen)).bind
          fun q b hq => ?_
        subst hq
        cases b with
        | none => exact ⟨_, rfl, by simp [Call.Fails]⟩
        | some b => exact retrieveInto_untilFixed hk _ _ _

theorem kvEngineDelete_untilFixed (key : Option Bytes) :
    (kvEngineDelete key).Follows (untilFixed n (some (.delete key)))
      (fun q r => (Call.delete key).Decided q ⟨r, none, none⟩) none := by
  refine guarded_untilFixed (fun r hr => ⟨r, rfl, ?_⟩) fun k hkey _ hk => ?_
  · rcases hr with rfl | rfl <;> simp [Call.Fails]
  · subst hkey
    refine ⟨.inr ⟨rfl, _, rfl, .delete hk⟩, fun r _ => ?_⟩
    refine (unseen_follows (deviceRecordResult_unseen _ r)).bind fun q₁ _ hq₁ => ?_
    subst hq₁
    exact ⟨.inl trivial, fun _ _ => ⟨.inl trivial, fun _ _ => rfl⟩⟩

theorem kvEngineExists_unseen (key : Option Bytes) (outs : Bool) :
    (kvEngineExists key outs).Follows (untilFixed n op) (fun q' _ => q' = q) q := by
  refine guarded_untilFixed (fun _ _ => rfl) fun k _ _ hk => ?_
  have hbody : Prog.Performs Act.Unseen (do
      let hashValueCheck ← atomically (.keyTableFind k)
      let reply ← atomically (.kvsExistKvPairs (kvEngineShardForKey k n) (kvsKeyOf k))
      deviceRecordResult (kvEngineShardForKey k n) reply.1
      if reply.1 ≠ .success then return (mapKvsResult reply.1, none)
      else return (.success, some (reply.2 ≠ 0 && hashValueCheck)) : M (KvResult × Option Bool)) := by
    refine ⟨trivial, fun found => ⟨trivial, fun reply => ?_⟩⟩
    refine (deviceRecordResult_unseen _ _).bind fun _ => ?_
    split <;> trivial
  exact unseen_follows hbody

/-- The call as an operation on the map; an existence check is none. -/
def Call.dataCall : Call → Option Call
  | .exists _ _ => none
  | c => some c

/-- Every operation fixes its answer with its last device command, or fails. -/
theorem call_untilFixed (c : Call) {o : Call} (ho : c.dataCall = some o) :
    c.prog.Follows (untilFixed n c.dataCall) (fun q r => o.Decided q r.output) none := by
  cases c with
  | store key value overwrite =>
      cases ho
      exact (kvEngineStore_untilFixed key value overwrite).bind fun _ _ h => h
  | retrieve key outs del =>
      cases ho
      exact (kvEngineRetrieve_untilFixed key outs del).bind fun _ _ h => h
  | delete key =>
      cases ho
      exact (kvEngineDelete_untilFixed key).bind fun _ _ h => h
  | «exists» key outs => cases ho

/-- The operation of a task: that of a synchronous call, or of the item a worker executes. -/
def Task.dataCall : Task → Option Call
  | .call c => c.dataCall
  | .execute item => item.arg.call.dataCall
  | _ => none

/-- What the client of an operation is answered. -/
def Outcome.output : Outcome → Option Output
  | .reply r => some r.output
  | _ => none

theorem Call.Decided.concludes {c : Call} {q : Option Output} {r : Reply}
    (h : c.Decided q r.output) : Concludes MapSpec Outcome.output (some c) q (.reply r) := by
  cases q with
  | some v => exact congrArg some h
  | none =>
      obtain ⟨e, heq, hfails⟩ := h
      refine ⟨r.output, rfl, fun m => ?_⟩
      rw [heq]
      exact .failed hfails

/-- A worker executes an item. -/
theorem work_untilFixed (ctx : AsyncContext) {o : Call} (ho : ctx.call.dataCall = some o) :
    ctx.work.Follows (untilFixed n ctx.call.dataCall) (fun q r => o.Decided q r.output) none := by
  refine (call_untilFixed ctx.call ho).bind fun q reply hdecided => ?_
  have hcomplete : (complete ctx.completion ⟨ctx.request, ctx.userData, reply.result,
      reply.value⟩).Performs Act.Unseen := by
    unfold complete
    split
    · exact ⟨trivial, fun _ => trivial⟩
    · exact trivial
  refine (unseen_follows hcomplete).bind fun q' _ hq => ?_
  subst hq
  refine ⟨.inl trivial, fun _ _ => ?_⟩
  show o.Decided (q'.or none) reply.output
  rw [Option.or_none]
  exact hdecided

theorem AsyncContext.call_dataCall (ctx : AsyncContext) :
    ctx.call.dataCall = some ctx.call := by
  unfold AsyncContext.call
  cases ctx.opType <;> rfl

theorem unseen_concludes {α : Type} {p : M α} (hp : p.Performs Act.Unseen) (f : α → Outcome) :
    Prog.Follows (untilFixed n none) (Concludes MapSpec Outcome.output none)
      (do return f (← p)) none :=
  (unseen_follows hp).bind fun _ _ _ => trivial

/-- Every task is one operation, or none. -/
theorem task_untilFixed (t : Task) :
    t.prog.Follows (untilFixed n t.dataCall) (Concludes MapSpec Outcome.output t.dataCall) none := by
  cases t with
  | call c =>
      cases ho : c.dataCall with
      | some o =>
          have hprog := call_untilFixed (n := n) c ho
          rw [ho] at hprog
          simp only [Task.dataCall, ho]
          exact hprog.bind fun _ _ h => h.concludes
      | none =>
          cases c with
          | «exists» key outs =>
              have hprog : (Call.exists key outs).prog.Follows (untilFixed n none)
                  (fun _ _ => True) none :=
                (kvEngineExists_unseen key outs).bind fun _ _ _ => trivial
              exact hprog.bind fun _ _ _ => trivial
          | _ => cases ho
  | submit request c =>
      exact unseen_concludes ((asyncCall_submits request c).mono fun _ h => h.neutral.unseen) .prepared
  | reject item =>
      exact unseen_concludes ((asyncRejected_submits item).mono fun _ h => h.neutral.unseen)
        fun r => .reply ⟨r, none, none⟩
  | execute item =>
      have hop := item.arg.call_dataCall
      have hwork := work_untilFixed (n := n) item.arg hop
      rw [hop] at hwork
      simp only [Task.dataCall, hop]
      refine hwork.bind fun q r hdecided => ⟨.inl trivial, fun _ _ => ?_⟩
      show Concludes _ _ _ (q.or none) _
      rw [Option.or_none]
      exact hdecided.concludes
  | record i kvsRes => exact unseen_concludes (deviceRecordResult_unseen i kvsRes) fun _ => .done
  | getDeviceHealth i out =>
      refine unseen_concludes ((kvEngineGetDeviceHealth_examines i out).mono fun a h => ?_)
        fun r => .health r.1 r.2
      cases a <;> first | exact trivial | exact h.elim
  | healthyDeviceCount =>
      exact unseen_concludes (kvEngineHealthyDeviceCount_looks.mono fun _ h => h.neutral.unseen) .count
  | getStats =>
      have hp : kvEngineGetStats.Performs Act.Unseen := ⟨trivial, fun _ => trivial⟩
      exact unseen_concludes hp fun r => .stats r.1 r.2
  | resetStats =>
      have hp : kvEngineResetStats.Performs Act.Unseen := ⟨trivial, fun _ => trivial⟩
      exact unseen_concludes hp fun _ => .done
  | allocBuffer size =>
      exact unseen_concludes ((kvEngineAllocBuffer_neutral size).mono fun _ h => h.unseen) .buffer
  | freeBuffer buffer =>
      exact unseen_concludes ((kvEngineFreeBuffer_neutral buffer).mono fun _ h => h.unseen)
        fun _ => .done

theorem probeSweep_unseen (counts : ℕ → UInt32) : (probeSweep counts).Performs Act.Unseen :=
  (probeSweepFrom_probes 0 kvMaxDevices counts).mono fun a h => by
    cases a <;> first | exact trivial | exact h.elim

end programs

/-! ### All threads -/

section crew

variable {κ : Type}

/-- The operation of a thread: the probe has none. -/
def crewOperation : Option κ → Task → Option Call
  | none, _ => none
  | some _, t => t.dataCall

/-- What the clients of the data path see of a run. -/
def History.dataPath (log : History κ δ) : List (Occurrence (Option κ) Call Output) :=
  log.occurrences crewOperation Outcome.output

theorem crew_untilFixed (n : ℕ) (who : Option κ) (t : Task) (last : Option Outcome) :
    (crewProg who t last).Follows (untilFixed n (crewOperation who t))
      (Concludes MapSpec Outcome.output (crewOperation who t)) none := by
  cases who with
  | none => exact unseen_concludes (probeSweep_unseen _) .swept
  | some j => exact task_untilFixed t

/-- One action of a thread. -/
theorem untilFixed_exec (hD : Truthful D contents) {n : ℕ} {op : Option Call} {q : Option Output}
    {a : Act} {s : State δ} (hs : s.Mounted ∧ s.numDevices = n) (hok : (untilFixed n op).ok q a) :
    (untilFixed n op).answers q a (exec D a s).1 ∧
      ((exec D a s).2.Mounted ∧ (exec D a s).2.numDevices = n) ∧
      ((untilFixed n op).next q a (exec D a s).1 = q ∧
          (exec D a s).2.lookup contents = s.lookup contents ∨
        ∃ c out, op = some c ∧ q = none ∧ (untilFixed n op).next q a (exec D a s).1 = some out ∧
          MapSpec (s.lookup contents) c out ((exec D a s).2.lookup contents)) := by
  obtain ⟨hmounted, rfl⟩ := hs
  refine ⟨Crew.answered rfl, ?_⟩
  rcases hok with hunseen | ⟨rfl, c, hop, hcommands⟩
  · obtain ⟨hslots, hlookup⟩ := hunseen.exec hD (s := s)
    refine ⟨⟨hslots.mounted hmounted, hslots.numDevices⟩, .inl ⟨?_, hlookup⟩⟩
    show q.or (fixedAnswer a _) = q
    rw [hunseen.fixes_nothing, Option.or_none]
  · obtain ⟨hslots, heffect⟩ := hcommands.exec hD hmounted
    refine ⟨⟨hslots.mounted hmounted, hslots.numDevices⟩, ?_⟩
    rcases heffect with ⟨hnone, hlookup⟩ | ⟨out, hout, hspec⟩
    · exact .inl ⟨hnone, hlookup⟩
    · exact .inr ⟨c, out, hop, rfl, hout, hspec⟩

theorem crew_simulates [DecidableEq κ] (hD : Truthful D contents) {s : State δ} (hs : s.Mounted)
    (moves : List (Move (Option κ) Task)) :
    ∃ status, Sessions.Simulates MapSpec crewOperation Outcome.output
      (fun who t => untilFixed s.numDevices (crewOperation who t))
      (fun t => t.Mounted ∧ t.numDevices = s.numDevices) (State.lookup contents) (s.lookup contents)
      (Crew.after D (Sessions.start s) moves) status :=
  Sessions.simulates _ _ _ ⟨hs, rfl⟩ (fun who t last => crew_untilFixed s.numDevices who t last)
    (fun _ _ _ _ _ hs' hok => untilFixed_exec hD hs' hok) moves

/-- **The data path is linearizable.**  In every run of any number of threads, the calls of
`kv_engine_store`, `kv_engine_retrieve` and `kv_engine_delete`, and those that workers execute,
are answered as if each took effect at one moment between its start and its end, on the one map
that the devices hold.  Whatever fails leaves the map alone. -/
theorem crew_linearizable [DecidableEq κ] (hD : Truthful D contents) {s : State δ} (hs : s.Mounted)
    (moves : List (Move (Option κ) Task)) :
    let σ := Crew.after D (Sessions.start s : Crew κ δ) moves
    Linearizable MapSpec (s.lookup contents) (History.dataPath σ.log) (σ.shared.lookup contents) := by
  obtain ⟨status, hsim⟩ := crew_simulates hD hs moves
  exact hsim.linearizable

/-! ### Keys with one user -/

/-- The pairs with keys in `mine`. -/
def Pairs.restrict (mine : Bytes → Bool) (m : Pairs) : Pairs :=
  fun key => if mine key then m key else none

section restrict

variable {mine : Bytes → Bool} {m m' : Pairs} {key : Bytes}

theorem Pairs.restrict_of_mine (hkey : mine key = true) : Pairs.restrict mine m key = m key :=
  if_pos hkey

theorem Pairs.restrict_update_mine (hkey : mine key = true) (v : Option Bytes) :
    Pairs.restrict mine (Function.update m key v) =
      Function.update (Pairs.restrict mine m) key v := by
  funext k
  by_cases hk : k = key
  · subst hk
    simp [restrict, hkey]
  · simp [restrict, Function.update_of_ne hk]

theorem Pairs.restrict_update_other (hkey : mine key = false) (v : Option Bytes) :
    Pairs.restrict mine (Function.update m key v) = Pairs.restrict mine m := by
  funext k
  by_cases hk : k = key
  · subst hk
    simp [restrict, hkey]
  · simp [restrict, Function.update_of_ne hk]

/-- An operation on another key does not concern the keys in `mine`. -/
theorem MapSpec.restrict_other {c : Call} {out : Output} (h : MapSpec m c out m')
    (hc : c.key.any mine = false) : Pairs.restrict mine m' = Pairs.restrict mine m := by
  cases h with
  | stored _ => exact Pairs.restrict_update_other hc _
  | @retrieved key value del _ =>
      cases del with
      | false => rfl
      | true => exact Pairs.restrict_update_other hc _
  | deleted => exact Pairs.restrict_update_other hc _
  | _ => rfl

/-- An operation on a key in `mine` needs no other keys. -/
theorem MapSpec.restrict_mine {c : Call} {out : Output} (h : MapSpec m c out m')
    (hc : c.key.any mine = true) :
    MapSpec (Pairs.restrict mine m) c out (Pairs.restrict mine m') := by
  cases h with
  | stored hfree =>
      rw [Pairs.restrict_update_mine hc]
      exact .stored (hfree.imp_right (Pairs.restrict_of_mine hc).trans)
  | found hkey => exact .found ((Pairs.restrict_of_mine hc).trans hkey)
  | @retrieved key value del hkey =>
      have hafter : Pairs.restrict mine (if del then Function.update m key none else m) =
          if del then Function.update (Pairs.restrict mine m) key none
          else Pairs.restrict mine m := by
        cases del with
        | false => rfl
        | true => exact Pairs.restrict_update_mine hc none
      rw [hafter]
      exact .retrieved ((Pairs.restrict_of_mine hc).trans hkey)
  | missed hkey => exact .missed ((Pairs.restrict_of_mine hc).trans hkey)
  | deleted =>
      rw [Pairs.restrict_update_mine hc]
      exact .deleted
  | notThere hkey => exact .notThere ((Pairs.restrict_of_mine hc).trans hkey)
  | failed hfails => exact .failed hfails

end restrict

/-- **Keys with one user.**  If in a run only one client calls the data path with keys in `mine`,
its calls with these keys are answered one after the other by a map that holds nothing else: what
the other threads do in between, to other keys, does not show. -/
theorem exclusive_keys_sequential [DecidableEq κ] (hD : Truthful D contents) {s : State δ}
    (hs : s.Mounted) (moves : List (Move (Option κ) Task)) (mine : Bytes → Bool)
    (who : Option κ)
    (honly : ∀ i c, .call i c ∈ History.dataPath (Crew.after D (Sessions.start s) moves).log →
      c.key.any mine = true → i = who) :
    ∃ m, Sequential MapSpec (Pairs.restrict mine (s.lookup contents))
      (returnedTo who (fun c => c.key.any mine)
        (History.dataPath (Crew.after D (Sessions.start s) moves).log)) m := by
  obtain ⟨status, hsim⟩ := crew_simulates hD hs moves
  have howned := hsim.run.owned (fun _ _ _ _ h hc => MapSpec.restrict_other h hc)
    (fun _ _ _ _ h hc => MapSpec.restrict_mine h hc) honly
  exact howned.sequential

end crew

theorem validateRequest_ne {k : KvsKey} {v : KvsValue} : validateRequest k v ≠ .keyNotExist := by
  unfold validateRequest
  split_ifs <;> simp

theorem validateKey_ne {k : KvsKey} : validateKey k ≠ .keyNotExist := by
  unfold validateKey
  split_ifs <;> simp

/-- The documented device does not lie. -/
theorem keySpaceDriver_truthful : Truthful keySpaceDriver KeySpace.pairs where
  toDocumented := keySpaceDriver_documented
  getDeviceCapacity _ := rfl
  store_new d k v h := by
    simp only [keySpaceDriver, storeKvp] at h
    split at h
    · cases hp : d.pairs k.bytes with
      | none => rfl
      | some old => simp [hp] at h
    · rename_i hv
      exact absurd h hv
  store_refused d k v t h := by
    simp only [keySpaceDriver, storeKvp] at h
    split at h
    · cases t <;> cases hp : d.pairs k.bytes <;> simp [hp] at h
      · exact ⟨rfl, _, rfl⟩
      · split at h <;> simp at h
    · simp only [validateRequest] at h
      split_ifs at h
  retrieve_missing d k v del h := by
    simp only [keySpaceDriver, retrieveKvp] at h
    split at h
    · exact absurd h validateRequest_ne
    split at h
    · cases h
    cases hp : d.pairs k.bytes with
    | none => rfl
    | some stored =>
        simp only [hp] at h
        split_ifs at h
  delete_missing d k e h := by
    simp only [keySpaceDriver, deleteKvp] at h
    split at h
    · exact absurd h validateKey_ne
    split at h
    · rename_i hmissing
      exact hmissing.2
    · cases h

/-- A store, with a retrieve of the same key and a store of another one by a second client before
its device command, and a retrieve of each after it. -/
def overtakenStore : List (Move (Option (Fin 2)) Task) :=
  [.invoke (some 0) (.call (.store (some [107, 101, 121, 49]) (some ⟨4096, [118]⟩) true))] ++
    stepping (some 0) 4 ++
    [.invoke (some 1) (.call (.retrieve (some [107, 101, 121, 49]) true false))] ++
    stepping (some 1) 14 ++
    [.invoke (some 1) (.call (.store (some [107, 101, 121, 50]) (some ⟨4096, [119]⟩) true))] ++
    stepping (some 1) 12 ++ stepping (some 0) 12 ++
    [.invoke (some 0) (.call (.retrieve (some [107, 101, 121, 49]) true false))] ++
    stepping (some 0) 14 ++
    [.invoke (some 1) (.call (.retrieve (some [107, 101, 121, 50]) true false))] ++
    stepping (some 1) 14

/-- The engine after it. -/
def overtaken : Crew (Fin 2) KeySpace :=
  Crew.after keySpaceDriver (Sessions.start freshEngine) overtakenStore

/-- What the clients see of it, the latest first. -/
def overtakenHistory : List (Occurrence (Option (Fin 2)) Call Output) :=
  [.ret (some 1) (.retrieve (some [107, 101, 121, 50]) true false)
      ⟨.success, some ([119], 1), none⟩,
    .call (some 1) (.retrieve (some [107, 101, 121, 50]) true false),
    .ret (some 0) (.retrieve (some [107, 101, 121, 49]) true false)
      ⟨.success, some ([118], 1), none⟩,
    .call (some 0) (.retrieve (some [107, 101, 121, 49]) true false),
    .ret (some 0) (.store (some [107, 101, 121, 49]) (some ⟨4096, [118]⟩) true)
      ⟨.success, none, none⟩,
    .ret (some 1) (.store (some [107, 101, 121, 50]) (some ⟨4096, [119]⟩) true)
      ⟨.success, none, none⟩,
    .call (some 1) (.store (some [107, 101, 121, 50]) (some ⟨4096, [119]⟩) true),
    .ret (some 1) (.retrieve (some [107, 101, 121, 49]) true false) ⟨.keyNotFound, none, none⟩,
    .call (some 1) (.retrieve (some [107, 101, 121, 49]) true false),
    .call (some 0) (.store (some [107, 101, 121, 49]) (some ⟨4096, [118]⟩) true)]

theorem overtaken_dataPath : History.dataPath overtaken.log = overtakenHistory := by decide +kernel

theorem crew_linearizable_overtaken_store :
    Linearizable MapSpec (freshEngine.lookup KeySpace.pairs) overtakenHistory
      (overtaken.shared.lookup KeySpace.pairs) := by
  rw [← overtaken_dataPath]
  exact crew_linearizable keySpaceDriver_truthful freshEngine_serving.toMounted overtakenStore

theorem exclusive_keys_sequential_second_client :
    ∃ m, Sequential MapSpec (Pairs.restrict (· == [107, 101, 121, 50])
        (freshEngine.lookup KeySpace.pairs))
      [(.retrieve (some [107, 101, 121, 50]) true false, ⟨.success, some ([119], 1), none⟩),
        (.store (some [107, 101, 121, 50]) (some ⟨4096, [119]⟩) true, ⟨.success, none, none⟩)]
      m := by
  have hrun := exclusive_keys_sequential keySpaceDriver_truthful freshEngine_serving.toMounted
    overtakenStore (· == [107, 101, 121, 50]) (some 1)
  rw [show Crew.after keySpaceDriver (Sessions.start freshEngine) overtakenStore = overtaken from rfl,
    overtaken_dataPath] at hrun
  refine hrun fun i c hmem hc => ?_
  simp only [overtakenHistory, List.mem_cons, Occurrence.call.injEq, reduceCtorEq, false_or,
    List.not_mem_nil, or_false] at hmem
  rcases hmem with ⟨rfl, rfl⟩ | ⟨rfl, rfl⟩ | ⟨rfl, rfl⟩ | ⟨rfl, rfl⟩ | ⟨rfl, rfl⟩
  · rfl
  · exact absurd hc (by decide)
  · rfl
  · rfl
  · exact absurd hc (by decide)

end KvEngine
