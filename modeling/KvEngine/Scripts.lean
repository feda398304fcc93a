import KvEngine.Effects
import KvEngine.Async

/-! # The script of a request

On devices that report no fault, what a request does is determined by its arguments and by the
value that its key has on its device: the list of its effects on the observable state, in the
order of the source, is `AsyncCall.script`.

* The effects of requests on different keys commute (`ChangeOf.commutes`).  What two requests
  share are the counters of a device and the statistics, and these are only added to, or set to
  zero.
* A worker that executes a request keeps to its script (`executeItem_scripted`): every action
  with an effect is the next one of the script, as long as the device answers according to the
  value of the key. -/

namespace KvEngine

open Atomic Cells

/-! ### Commutation -/

/-- The changes a request `i` makes for `key`, whose pair is at `p`. -/
inductive ChangeOf (p : Place) (key : Bytes) (i : ℕ) : Change → Prop where
  | pair (value : Option Bytes) : ChangeOf p key i (writePair p key value)
  | listed (listed : Bool) : ChangeOf p key i (setListed key listed)
  | inbox (d : Delivery) : ChangeOf p key i (deliver i d)
  | op (dev : ℕ) : ChangeOf p key i (countOp dev)
  | errors (dev : ℕ) : ChangeOf p key i (clearErrors dev)
  | stats (u : StatsUpdate) : ChangeOf p key i (countStats u)

theorem device_commutes {f g : DeviceCtx → DeviceCtx} (h : Function.Commute f g) (i j : ℕ) :
    Effect.Commutes (⟨.device i, f⟩ : Change) ⟨.device j, g⟩ := by
  by_cases hij : i = j
  · subst hij
    exact Effect.commutes_of_fn h
  · exact Effect.commutes_of_ne (by simpa using hij)

theorem stats_update_commute (u v : StatsUpdate) :
    Function.Commute (fun st : Stats => st.update u) fun st => st.update v := by
  intro st
  simp only [Stats.update, Stats.mk.injEq]
  refine ⟨trivial, ?_, ?_, ?_, ?_, ?_, ?_⟩
  all_goals split_ifs <;> first | rfl | ac_rfl

/-- The changes that two requests for different keys make commute. -/
theorem ChangeOf.commutes {p p' : Place} {key key' : Bytes} {i i' : ℕ} (hkey : key ≠ key')
    (hi : i ≠ i') {e f : Change} (he : ChangeOf p key i e) (hf : ChangeOf p' key' i' f) :
    e.Commutes f := by
  cases he with
  | pair value =>
      cases hf with
      | pair value' => exact Effect.commutes_of_ne (by simp [hkey])
      | _ => exact Effect.commutes_of_ne (by simp)
  | listed b =>
      cases hf with
      | listed b' => exact Effect.commutes_of_ne (by simp [hkey])
      | _ => exact Effect.commutes_of_ne (by simp)
  | inbox d =>
      cases hf with
      | inbox d' => exact Effect.commutes_of_ne (by simp [hi])
      | _ => exact Effect.commutes_of_ne (by simp)
  | op dev =>
      cases hf with
      | op dev' =>
          refine device_commutes ?_ dev dev'
          exact fun _ => rfl
      | errors dev' =>
          refine device_commutes ?_ dev dev'
          exact fun _ => rfl
      | _ => exact Effect.commutes_of_ne (by simp)
  | errors dev =>
      cases hf with
      | op dev' =>
          refine device_commutes ?_ dev dev'
          exact fun _ => rfl
      | errors dev' =>
          refine device_commutes ?_ dev dev'
          exact fun _ => rfl
      | _ => exact Effect.commutes_of_ne (by simp)
  | stats u =>
      cases hf with
      | stats u' => exact Effect.commutes_of_fn (stats_update_commute u u')
      | _ => exact Effect.commutes_of_ne (by simp)

/-! ### Scripts -/

/-- The key of a request; no bytes for a null pointer. -/
def AsyncCall.key : AsyncCall → Bytes
  | .store key _ _ _ _ => key.getD []
  | .retrieve key _ _ => key.getD []
  | .delete key _ _ => key.getD []

/-- A value of 1 to 2097152 bytes, if the request has one. -/
def AsyncCall.ValueOk : AsyncCall → Prop
  | .store _ value _ _ _ => ∀ v ∈ value, 1 ≤ v.bytes.length ∧ v.bytes.length ≤ kvsMaxValueLength
  | _ => True

/-- The delivery to a callback, if one was given. -/
def told (given : Bool) (i : ℕ) (d : Delivery) : List Change := if given then [deliver i d] else []

/-- The changes of a store that finds the value `v`. -/
def storeScript (p : Place) (dev : ℕ) (key value : Bytes) (overwrite : Bool) (v : Option Bytes)
    (rest : List Change) : List Change :=
  setListed key true ::
    ((if storeReply overwrite v = .success then [writePair p key (some value)] else []) ++
      countOp dev :: clearErrors dev ::
      countStats ⟨false, true, false, storeReply overwrite v = .success, value.length.toUInt64⟩ ::
      rest)

/-- What a retrieve answers that finds the value `v`. -/
def retrieveDelivery : Option Bytes → Delivery
  | none => ⟨.keyNotFound, none⟩
  | some v => ⟨.success, some (v, v.length)⟩

/-- What the callback of a request is told that finds the value `v`. -/
def AsyncCall.answer (v : Option Bytes) : AsyncCall → Delivery
  | .store _ _ _ _ overwrite => ⟨mapKvsResult (storeReply overwrite v), none⟩
  | .retrieve _ _ _ => retrieveDelivery v
  | .delete _ _ _ => ⟨.success, none⟩

/-- The changes of a retrieve that finds the value `v`. -/
def retrieveScript (dev : ℕ) (v : Option Bytes) (rest : List Change) : List Change :=
  countOp dev :: clearErrors dev ::
    countStats ⟨true, false, false, v.isSome, (v.getD []).length.toUInt64⟩ :: rest

/-- The changes of a delete. -/
def deleteScript (p : Place) (dev : ℕ) (key : Bytes) (rest : List Change) : List Change :=
  writePair p key none :: countOp dev :: clearErrors dev :: setListed key false ::
    countStats ⟨false, false, true, true, 0⟩ :: rest

/-- The changes of the request `i` on the device `dev` with the keyspace `p`, when its key has
the value `v` there. -/
def AsyncCall.script (p : Place) (dev i : ℕ) (v : Option Bytes) (c : AsyncCall) : List Change :=
  let last := told c.callback i (c.answer v)
  match c with
  | .store key value _ _ overwrite =>
      storeScript p dev (key.getD []) ((value.map (·.bytes)).getD []) overwrite v last
  | .retrieve _ _ _ => retrieveScript dev v last
  | .delete key _ _ => deleteScript p dev (key.getD []) last

theorem script_changes (p : Place) (dev i : ℕ) (v : Option Bytes) (c : AsyncCall) :
    ∀ e ∈ c.script p dev i v, ChangeOf p c.key i e := by
  have htold (given : Bool) (d : Delivery) : ∀ e ∈ told given i d, ChangeOf p c.key i e := by
    intro e he
    cases given with
    | false => cases he
    | true =>
        obtain rfl := List.mem_singleton.mp he
        exact .inbox d
  cases c with
  | store key value callback userData overwrite =>
      intro e he
      simp only [AsyncCall.script, storeScript, List.mem_cons, List.mem_append] at he
      rcases he with rfl | he | rfl | rfl | rfl | he
      · exact .listed true
      · split at he
        · obtain rfl := List.mem_singleton.mp he
          exact .pair _
        · cases he
      · exact .op dev
      · exact .errors dev
      · exact .stats _
      · exact htold _ _ e he
  | retrieve key callback userData =>
      intro e he
      simp only [AsyncCall.script, retrieveScript, List.mem_cons] at he
      rcases he with rfl | rfl | rfl | he
      · exact .op dev
      · exact .errors dev
      · exact .stats _
      · exact htold _ _ e he
  | delete key callback userData =>
      intro e he
      simp only [AsyncCall.script, deleteScript, List.mem_cons] at he
      rcases he with rfl | rfl | rfl | rfl | rfl | he
      · exact .pair none
      · exact .op dev
      · exact .errors dev
      · exact .listed false
      · exact .stats _
      · exact htold _ _ e he

/-- The script tells the callback of the request once. -/
theorem perform_script_inbox (p : Place) (dev i : ℕ) (v : Option Bytes) (c : AsyncCall)
    (o : Observation) :
    Effect.perform (c.script p dev i v) o (.inbox i) =
      o (.inbox i) ++ if c.callback then [c.answer v] else [] := by
  have htold (d : Delivery) (o : Observation) : Effect.perform (told c.callback i d) o (.inbox i) =
      o (.inbox i) ++ if c.callback then [d] else [] := by
    cases c.callback <;> simp [told, Effect.apply, deliver]
  have hbody (es : List Change) (hes : ∀ e ∈ es, e.cell ≠ .inbox i) :
      Effect.perform (es ++ told c.callback i (c.answer v)) o (.inbox i) =
        o (.inbox i) ++ if c.callback then [c.answer v] else [] := by
    rw [Effect.perform_append, htold, Effect.perform_of_ne hes]
  cases c with
  | store key value callback userData overwrite =>
      have hes : ∀ e ∈ storeScript p dev (key.getD []) ((value.map (·.bytes)).getD []) overwrite v
          [], e.cell ≠ .inbox i := by
        intro e he
        simp only [storeScript, List.mem_cons, List.mem_append] at he
        rcases he with rfl | he | rfl | rfl | rfl | he
        · simp
        · split at he
          · obtain rfl := List.mem_singleton.mp he
            simp
          · cases he
        · simp
        · simp
        · simp
        · cases he
      have hscript := hbody _ hes
      simpa [AsyncCall.script, storeScript] using hscript
  | retrieve key callback userData =>
      have hscript := hbody (retrieveScript dev v []) (by simp [retrieveScript])
      simpa [AsyncCall.script, retrieveScript] using hscript
  | delete key callback userData =>
      have hscript := hbody (deleteScript p dev (key.getD []) []) (by simp [deleteScript])
      simpa [AsyncCall.script, deleteScript] using hscript

/-! ### The protocol -/

/-- How far a request is: the value of its key on its device, and the changes to come. -/
structure Progress where
  value : Option Bytes
  todo : List Change

/-- The protocol of the request `i` for `key`, on an engine with `n` devices: a request in `A`
makes the changes of its script in order, any other makes none. -/
def scripted (A : Finset ℕ) (n : ℕ) (slot : ℕ → Place) (key : Bytes) (i : ℕ) :
    Protocol Act Act.Resp Progress where
  ok q a := a.Silent n ∨ (i ∈ A ∧ KeyOk key) ∧ a.OnKey n key ∧
    ∀ r, a.Told n q.value r → a.effects slot r <+: q.todo
  answers q a r := a.Told n q.value r
  next q a r := ⟨a.leaves q.value r, q.todo.drop (a.effects slot r).length⟩

section rules

variable {A : Finset ℕ} {n : ℕ} {slot : ℕ → Place} {key : Bytes} {i : ℕ} {α : Type}
  {post : Progress → α → Prop} {q : Progress}

theorem scripted_silent {a : Act} (ha : a.Silent n) (r : a.Resp) :
    (scripted A n slot key i).next q a r = q := by
  cases a <;> first | rfl | exact ha.elim

/-- An action without effects keeps the request where it is. -/
theorem follows_silent {a : Act} {k : a.Resp → M α} (ha : a.Silent n)
    (hk : ∀ r, a.Told n q.value r → (k r).Follows (scripted A n slot key i) post q) :
    (Prog.act a k).Follows (scripted A n slot key i) post q := by
  refine ⟨.inl ha, fun r hr => ?_⟩
  rw [scripted_silent ha r]
  exact hk r hr

/-- An action on the key makes the next changes of the script. -/
theorem follows_onKey {a : Act} {k : a.Resp → M α} (hi : i ∈ A ∧ KeyOk key) (ha : a.OnKey n key)
    (rest : List Change) (htodo : ∀ r, a.Told n q.value r → q.todo = a.effects slot r ++ rest)
    (hk : ∀ r, a.Told n q.value r → (k r).Follows (scripted A n slot key i) post
      ⟨a.leaves q.value r, rest⟩) :
    (Prog.act a k).Follows (scripted A n slot key i) post q := by
  refine ⟨.inr ⟨hi, ha, fun r hr => ⟨rest, (htodo r hr).symm⟩⟩, fun r hr => ?_⟩
  have hnext : (scripted A n slot key i).next q a r = ⟨a.leaves q.value r, rest⟩ := by
    simp only [scripted, htodo r hr, List.drop_left]
  rw [hnext]
  exact hk r hr

end rules

/-! ### The operations keep to their scripts -/

section operations

variable {A : Finset ℕ} {n : ℕ} {slot : ℕ → Place} {key : Bytes} {i : ℕ} {rest : List Change}

theorem guarded_scripted {α : Type} {post : Progress → α → Prop} {q : Progress} (hn : 0 < n)
    (hk : KeyOk key) {refuse : KvResult → α} {body : Bytes → ℕ → M α}
    (hbody : (body key (kvEngineShardForKey key n)).Follows (scripted A n slot key i) post q) :
    (guarded true (some key) refuse body).Follows (scripted A n slot key i) post q := by
  refine follows_silent trivial fun initialized hinit => ?_
  obtain rfl : initialized = true := hinit
  have hlen : ¬ (key.length < 4 ∨ 255 < key.length) := by
    rw [KeyOk] at hk
    omega
  simp only [Bool.not_true, if_neg hlen]
  refine follows_silent trivial fun m hm => ?_
  obtain rfl : m = n := hm
  refine follows_silent (kvEngineShardForKey_lt key hn) fun healthy hhealthy => ?_
  obtain rfl : healthy = true := hhealthy
  exact hbody

theorem deviceRecordResult_scripted (hi : i ∈ A ∧ KeyOk key) (dev : ℕ) {r : KvsResult}
    (hr : isDeviceError r = false) {q : Progress}
    (hq : q.todo = countOp dev :: clearErrors dev :: rest) :
    (deviceRecordResult dev r).Follows (scripted A n slot key i) (fun q _ => q.todo = rest) q := by
  refine follows_onKey hi trivial _ (fun _ _ => hq) fun _ _ => ?_
  simp only [hr, Bool.false_eq_true, if_false]
  exact follows_onKey hi rfl _ (fun _ _ => rfl) fun _ _ => rfl

theorem dmaAlloc_scripted {size : ℕ} (hsize : size ≠ 0) {q : Progress} :
    (dmaAlloc size).Follows (scripted A n slot key i) (fun q' b => q' = q ∧ b.isSome) q := by
  rw [dmaAlloc, if_neg hsize]
  exact follows_silent trivial fun b hb => ⟨rfl, hb⟩

theorem storeReply_no_device_error (overwrite : Bool) (v : Option Bytes) :
    isDeviceError (storeReply overwrite v) = false := by
  unfold storeReply
  split <;> rfl

theorem storeTail_scripted (hi : i ∈ A ∧ KeyOk key) {value : Bytes}
    (hvalue : value.length ≤ kvsMaxValueLength) (overwrite : Bool) (b : Option Addr) {q : Progress}
    (hq : q.todo = storeScript (slot (kvEngineShardForKey key n)) (kvEngineShardForKey key n) key
      value overwrite q.value rest) :
    (storeTail key (kvEngineShardForKey key n) value overwrite b).Follows (scripted A n slot key i)
      (fun q' r => q'.todo = rest ∧ r = mapKvsResult (storeReply overwrite q.value)) q := by
  have hsmall : value.length < 2 ^ 32 := by
    have : kvsMaxValueLength < 2 ^ 32 := by decide
    omega
  refine follows_onKey hi rfl _ (fun _ _ => hq) fun _ _ => ?_
  refine follows_onKey hi ⟨rfl, rfl, value, overwrite, hvalue, rfl, by cases overwrite <;> rfl⟩
    (countOp (kvEngineShardForKey key n) :: clearErrors (kvEngineShardForKey key n) ::
      countStats ⟨false, true, false, storeReply overwrite q.value = .success,
        value.length.toUInt64⟩ :: rest) (fun r hr => ?_) fun r hr => ?_
  · obtain rfl : r = storeReply overwrite q.value := by
      cases overwrite <;> exact hr
    simp only [Act.effects, hi.2.kvsKeyOf_bytes, kvsValueOf_bytes hsmall]
    rfl
  · obtain rfl : r = storeReply overwrite q.value := by
      cases overwrite <;> exact hr
    refine (deviceRecordResult_scripted hi _ (storeReply_no_device_error _ _) rfl).bind
      fun q' _ hq' => ?_
    cases b with
    | none => exact follows_onKey hi trivial _ (fun _ _ => hq') fun _ _ => ⟨rfl, rfl⟩
    | some b =>
        exact follows_silent trivial fun _ _ =>
          follows_onKey hi trivial _ (fun _ _ => hq') fun _ _ => ⟨rfl, rfl⟩

theorem kvEngineStore_scripted (hi : i ∈ A ∧ KeyOk key) (hn : 0 < n) {value : Buf}
    (hpos : value.bytes ≠ []) (hvalue : value.bytes.length ≤ kvsMaxValueLength) (overwrite : Bool)
    {q : Progress} (rest : List Change)
    (hq : q.todo = storeScript (slot (kvEngineShardForKey key n)) (kvEngineShardForKey key n) key
      value.bytes overwrite q.value rest) :
    (kvEngineStore (some key) (some value) overwrite).Follows (scripted A n slot key i)
      (fun q' r => q'.todo = rest ∧ r = mapKvsResult (storeReply overwrite q.value)) q := by
  refine guarded_scripted hn hi.2 ?_
  show Prog.Follows _ _ (if _ then _ else _) _
  split
  · exact storeTail_scripted hi hvalue overwrite none hq
  · refine (dmaAlloc_scripted (by simpa using hpos)).bind fun q' b hb => ?_
    obtain ⟨rfl, hb⟩ := hb
    obtain ⟨b, rfl⟩ := Option.isSome_iff_exists.mp hb
    exact storeTail_scripted hi hvalue overwrite (some b) hq

theorem releaseBuffer_scripted (fromPool : Bool) (b : Addr) {q : Progress} :
    (releaseBuffer fromPool b).Follows (scripted A n slot key i) (fun q' _ => q' = q) q := by
  cases fromPool <;> exact follows_silent trivial fun _ _ => rfl

theorem retrieveInto_scripted (hi : i ∈ A ∧ KeyOk key) (fromPool : Bool) (b : Addr) {q : Progress}
    (hq : q.todo = retrieveScript (kvEngineShardForKey key n) q.value rest) :
    (retrieveInto key (kvEngineShardForKey key n) false fromPool b).Follows
      (scripted A n slot key i)
      (fun q' r => q'.todo = rest ∧
        (⟨r.1, r.2.map fun v => (v.bytes, v.len)⟩ : Delivery) = retrieveDelivery q.value) q := by
  refine follows_onKey hi ⟨rfl, rfl, rfl, rfl⟩ _ (fun _ _ => hq) fun reply hreply => ?_
  show (retrieveRetry key _ false fromPool b reply).Follows _ _ _
  simp only [Act.Told, RetrieveReply] at hreply
  cases hv : q.value with
  | none =>
      rw [hv] at hreply
      rw [retrieveRetry, if_neg (by rw [hreply]; simp)]
      refine (deviceRecordResult_scripted hi _ (by rw [hreply]; rfl) rfl).bind fun q' _ hq' => ?_
      show Prog.Follows _ _ (if _ then _ else _) _
      rw [if_pos (by rw [hreply]; simp)]
      refine (releaseBuffer_scripted fromPool b).bind fun q'' _ hq'' => ?_
      subst hq''
      refine follows_onKey hi trivial _ (fun _ _ => ?_) fun _ _ => ⟨rfl, ?_⟩
      · rw [hq']
        rfl
      · rw [hreply]
        rfl
  | some v =>
      rw [hv] at hreply
      obtain ⟨hres, hbytes, hlen, hact⟩ := hreply
      rw [retrieveRetry, if_neg (by rw [hres]; simp)]
      refine (deviceRecordResult_scripted hi _ (by rw [hres]; rfl) rfl).bind fun q' _ hq' => ?_
      show Prog.Follows _ _ (if _ then _ else _) _
      rw [if_neg (by rw [hres]; simp)]
      have hsize : reply.2.actualValueSize.toUInt64 = v.length.toUInt64 := by
        rw [← hact]
        simp
      refine follows_onKey hi trivial _ (fun _ _ => ?_) fun _ _ => ⟨rfl, ?_⟩
      · rw [hq']
        simp only [Act.effects, hsize]
        rfl
      · simp [retrieveDelivery, hbytes, hlen]

theorem kvEngineRetrieve_scripted (hi : i ∈ A ∧ KeyOk key) (hn : 0 < n) {q : Progress}
    (rest : List Change) (hq : q.todo = retrieveScript (kvEngineShardForKey key n) q.value rest) :
    (kvEngineRetrieve (some key) true false).Follows (scripted A n slot key i)
      (fun q' r => q'.todo = rest ∧
        (⟨r.1, r.2.map fun v => (v.bytes, v.len)⟩ : Delivery) = retrieveDelivery q.value) q := by
  refine guarded_scripted hn hi.2 (follows_silent trivial fun pooled _ => ?_)
  cases pooled with
  | some b => exact retrieveInto_scripted hi true b hq
  | none =>
      refine (dmaAlloc_scripted (by decide)).bind fun q' b hb => ?_
      obtain ⟨rfl, hb⟩ := hb
      obtain ⟨b, rfl⟩ := Option.isSome_iff_exists.mp hb
      exact retrieveInto_scripted hi false b hq

theorem kvEngineDelete_scripted (hi : i ∈ A ∧ KeyOk key) (hn : 0 < n) {q : Progress}
    (rest : List Change)
    (hq : q.todo = deleteScript (slot (kvEngineShardForKey key n)) (kvEngineShardForKey key n) key
      rest) :
    (kvEngineDelete (some key)).Follows (scripted A n slot key i)
      (fun q' r => q'.todo = rest ∧ r = .success) q := by
  refine guarded_scripted hn hi.2 ?_
  refine follows_onKey hi ⟨rfl, rfl, rfl⟩ (countOp (kvEngineShardForKey key n) ::
    clearErrors (kvEngineShardForKey key n) :: setListed key false ::
    countStats ⟨false, false, true, true, 0⟩ :: rest) (fun r hr => ?_) fun r hr => ?_
  · obtain rfl : r = .success := hr
    simp only [Act.effects, hi.2.kvsKeyOf_bytes, if_true]
    exact hq
  · obtain rfl : r = .success := hr
    refine (deviceRecordResult_scripted hi _ rfl rfl).bind fun q' _ hq' => ?_
    exact follows_onKey hi rfl _ (fun _ _ => hq') fun _ _ =>
      follows_onKey hi trivial _ (fun _ _ => rfl) fun _ _ => ⟨rfl, rfl⟩

/-- The end of `async_worker_func` and of the execution of an item: the callback, then the
context and the item are freed. -/
theorem completion_scripted (hi : i ∈ A ∧ KeyOk key) (given : Bool) {c : Callback}
    (hc : c.request = i) (b : Addr) {q : Progress} (hq : q.todo = told given i c.delivery) :
    (do
      complete given c
      atomically (.freeContext i)
      atomically (.free b) : M Unit).Follows (scripted A n slot key i) (fun q _ => q.todo = []) q := by
  have hfree (q : Progress) (hq : q.todo = []) :
      (do
        atomically (.freeContext i)
        atomically (.free b) : M Unit).Follows (scripted A n slot key i) (fun q _ => q.todo = [])
        q := follows_silent trivial fun _ _ => follows_silent trivial fun _ _ => hq
  cases given with
  | false => exact hfree q hq
  | true =>
      subst hc
      exact follows_onKey hi trivial _ (fun _ _ => hq) fun _ _ => hfree _ rfl

/-- A worker keeps to the script of the request it executes. -/
theorem executeItem_scripted {c : AsyncCall} {b : Addr} {ctx : AsyncContext} (hi : i ∈ A)
    (hn : 0 < n) (hcopied : c.Copied i ctx) (hvalue : c.ValueOk) (v : Option Bytes) :
    (executeItem ⟨b, ctx⟩).Follows (scripted A n slot c.key i) (fun q _ => q.todo = [])
      ⟨v, c.script (slot (kvEngineShardForKey c.key n)) (kvEngineShardForKey c.key n) i v⟩ := by
  cases c with
  | store key value callback userData overwrite =>
      obtain ⟨k, w, copy, rfl, rfl, hk, rfl, hcopy⟩ := hcopied
      obtain ⟨hpos, hlen⟩ := hvalue w rfl
      have hnil : w.bytes ≠ [] := by
        intro h
        rw [h] at hpos
        simp at hpos
      rw [if_neg hnil] at hcopy
      obtain ⟨addr, rfl⟩ := hcopy
      have hbytes : (⟨addr, w.bytes⟩ : Buf).bytes ≠ [] := hnil
      simp only [executeItem, asyncWorkerFunc, bind_assoc]
      refine (kvEngineStore_scripted ⟨hi, hk⟩ hn hbytes hlen overwrite (q := ⟨v, _⟩)
        (told callback i ⟨mapKvsResult (storeReply overwrite v), none⟩) rfl).bind fun q r hqr => ?_
      obtain ⟨hq, rfl⟩ := hqr
      refine completion_scripted ⟨hi, hk⟩ callback ?_ b ?_
      · rfl
      · exact hq
  | retrieve key callback userData =>
      obtain ⟨k, rfl, hk, rfl⟩ := hcopied
      simp only [executeItem, asyncWorkerFunc, bind_assoc]
      refine (kvEngineRetrieve_scripted ⟨hi, hk⟩ hn (q := ⟨v, _⟩)
        (told callback i (retrieveDelivery v)) rfl).bind fun q r hqr => ?_
      obtain ⟨hq, hr⟩ := hqr
      refine completion_scripted ⟨hi, hk⟩ callback ?_ b ?_
      · rfl
      · rw [hq, ← hr]
        rfl
  | delete key callback userData =>
      obtain ⟨k, rfl, hk, rfl⟩ := hcopied
      simp only [executeItem, asyncWorkerFunc, bind_assoc]
      refine (kvEngineDelete_scripted ⟨hi, hk⟩ hn (q := ⟨v, _⟩)
        (told callback i ⟨.success, none⟩) rfl).bind fun q r hqr => ?_
      obtain ⟨hq, rfl⟩ := hqr
      refine completion_scripted ⟨hi, hk⟩ callback ?_ b ?_
      · rfl
      · exact hq

end operations

end KvEngine
