import KvEngine.Conduct
import Mathlib.Data.List.Perm.Subperm

/-! # Who holds which buffer

A DMA buffer comes from the pool or from the heap, and it is passed on: from the pool to a call,
from the call to the device, from the call to its caller or to a completion callback, and from
the caller back to `kv_engine_free_buffer`, which finds out where it belongs.  `Custody.lean`
says what a single task does with buffers, whatever the engine answers.

`held t ev` are the blocks that the task `t` holds after the actions `ev`, `capacity` is the size
of a block it obtained.  `custody` is the protocol: a task returns only blocks it holds, a pool
buffer to the pool and a heap block to the heap; it gives the device only a buffer it holds, with
a length that fits; and when it returns, it holds exactly what it hands out.  The exception is
the execution of a work item, which hands its value to a completion callback: a retrieve without
one still holds it (`Leaks`). -/

namespace KvEngine

open Atomic

/-! ### What a task holds -/

/-- The address of a retrieved value. -/
def valueAddr (value : Option Retrieved) : List Addr := (value.map (·.addr)).toList

/-- The blocks a task is given: the buffer to free, the work item to execute. -/
def Task.brings : Task → List Addr
  | .freeBuffer (some b) => [b]
  | .execute item => [item.addr]
  | _ => []

/-- The task executes a work item: no other task calls a completion callback. -/
def Task.executes : Task → Bool
  | .execute _ => true
  | _ => false

/-- The block an action obtains. -/
def gained : Event Act Act.Resp → List Addr
  | ⟨.dmaPoolAcquire, b⟩ => Option.toList b
  | ⟨.alloc _, b⟩ => Option.toList b
  | _ => []

/-- The block an action returns to the pool or to the heap. -/
def returned : Event Act Act.Resp → List Addr
  | ⟨.dmaPoolRelease b, _⟩ => [b]
  | ⟨.free b, _⟩ => [b]
  | _ => []

/-- The block an action hands to a completion callback. -/
def calledBack : Event Act Act.Resp → List Addr
  | ⟨.callback c, _⟩ => valueAddr c.value
  | _ => []

/-- The blocks the task holds after its actions, the latest first. -/
def held (t : Task) : Events → List Addr
  | [] => t.brings
  | e :: ev => gained e ++ ((held t ev).diff (returned e)).diff (calledBack e)

/-- The size of a block the task has obtained, from a pool of buffers of `bufferSize` bytes or
from the heap. -/
def capacity (bufferSize : ℕ) : Events → Addr → Option ℕ
  | [], _ => none
  | ⟨.dmaPoolAcquire, b'⟩ :: ev, b =>
      if b' = some b then some bufferSize else capacity bufferSize ev b
  | ⟨.alloc size, b'⟩ :: ev, b => if b' = some b then some size else capacity bufferSize ev b
  | _ :: ev, b => capacity bufferSize ev b

/-- The block `b` of the task has room for `length` bytes. -/
def Room (bufferSize : ℕ) (ev : Events) (b : Addr) (length : ℕ) : Prop :=
  ∃ size, capacity bufferSize ev b = some size ∧ length ≤ size

/-- The blocks a task hands to its caller. -/
def handedOut : Task → Outcome → List Addr
  | .call _, .reply r => valueAddr r.value
  | .allocBuffer _, .buffer b => b.toList
  | _, _ => []

/-- The result of the last device command. -/
def lastCommand (ev : Events) : Option KvsResult := ev.findSome? commandResult

/-- The request is a retrieve without a callback whose last device command succeeded. -/
def Leaks (ctx : AsyncContext) (ev : Events) : Prop :=
  ctx.opType = .retrieve ∧ ctx.retrieveCallback = false ∧ lastCommand ev = some .success

/-! ### The protocol -/

/-- The actions that neither concern a buffer nor are a command of an operation. -/
def Act.Plain : Act → Prop
  | .loadInitialized => True
  | .loadNumDevices => True
  | .loadHealthy _ => True
  | .storeHealthy _ _ => True
  | .fetchAddTotalOps _ => True
  | .fetchAddTotalErrors _ => True
  | .fetchAddConsecutiveErrors _ => True
  | .storeConsecutiveErrors _ _ => True
  | .loadMaxConsecutiveErrors _ => True
  | .loadConsecutiveErrors _ => True
  | .loadTotalErrors _ => True
  | .loadTotalOps _ => True
  | .loadDevicePath _ => True
  | .keyTableAdd _ => True
  | .keyTableDelete _ => True
  | .keyTableFind _ => True
  | .kvsGetDeviceUtilization _ => True
  | .kvsReadUtilization _ => True
  | .kvsGetDeviceCapacity _ => True
  | .updateStats _ => True
  | .getStats => True
  | .resetStats => True
  | .loadBufferPool => True
  | .loadWorkers => True
  | .freeContext _ => True
  | _ => False

variable {P : List Addr} {bufferSize : ℕ} {t : Task} {ev ev' : Events}

/-- What the task `t` may do next, when the buffers of the pool are those of `P`. -/
def Handles (P : List Addr) (bufferSize : ℕ) (t : Task) (ev : Events) : Act → Prop
  | .dmaPoolAcquire => True
  | .alloc _ => True
  | .dmaPoolRelease b => b ∈ P ∧ b ∈ held t ev
  | .free b => b ∉ P ∧ b ∈ held t ev
  | .callback c => t.executes = true ∧ ∀ b ∈ valueAddr c.value, b ∈ held t ev
  | .kvsStoreKvp _ _ _ _ => True
  | .kvsRetrieveKvp _ _ b v _ => b ∈ held t ev ∧ Room bufferSize ev b v.length.toNat
  | .kvsDeleteKvp _ _ _ => True
  | .kvsExistKvPairs _ _ => True
  | a => a.Plain

/-- The answers a task relies on: the pool has the buffers `P`, and the heap none of them. -/
def Served (P : List Addr) (bufferSize : ℕ) : (a : Act) → a.Resp → Prop
  | .loadBufferPool, pool =>
      (∀ b, Option.any (·.owns b) pool = true ↔ b ∈ P) ∧
        Option.all (·.bufferSize = bufferSize) pool = true
  | .dmaPoolAcquire, b' => ∀ b, b' = some b → b ∈ P
  | .alloc _, b' => ∀ b, b' = some b → b ∉ P
  | _, _ => True

/-- The protocol of the task `t`. -/
def custodyOf (P : List Addr) (bufferSize : ℕ) (t : Task) : Protocol Act Act.Resp Events where
  ok := Handles P bufferSize t
  answers _ := Served P bufferSize
  next ev a answer := ⟨a, answer⟩ :: ev

theorem Act.Plain.handles {a : Act} (h : a.Plain) : Handles P bufferSize t ev a := by
  cases a <;> first | exact h | exact h.elim

/-- What the rest of a task may depend on. -/
def stock (t : Task) (ev : Events) : List Addr × Option KvsResult := (held t ev, lastCommand ev)

theorem held_cons_of_idle {e : Event Act Act.Resp} (hgained : gained e = [])
    (hreturned : returned e = []) (hcalled : calledBack e = []) : held t (e :: ev) = held t ev := by
  simp only [held, hgained, hreturned, hcalled, List.diff_nil, List.nil_append]

theorem stock_plain {a : Act} (h : a.Plain) (answer : a.Resp) :
    stock t (⟨a, answer⟩ :: ev) = stock t ev := by
  cases a <;> first | exact h.elim | exact Prod.ext (held_cons_of_idle rfl rfl rfl) rfl

theorem plain_custody {α : Type} {p : M α} (hp : p.Performs Act.Plain) :
    p.Follows (custodyOf P bufferSize t) (fun ev' _ => stock t ev' = stock t ev) ev := by
  induction p generalizing ev with
  | ret value => exact rfl
  | act a k ih =>
      obtain ⟨ha, hk⟩ := hp
      refine ⟨ha.handles, fun answer _ => ?_⟩
      have hrest : (k answer).Follows (custodyOf P bufferSize t)
          (fun ev' _ => stock t ev' = stock t (⟨a, answer⟩ :: ev)) (⟨a, answer⟩ :: ev) :=
        ih answer (hk answer)
      rw [stock_plain ha] at hrest
      exact hrest

/-! ### The functions of the source -/

section functions

theorem deviceRecordResult_plain (i : ℕ) (r : KvsResult) :
    (deviceRecordResult i r).Performs Act.Plain :=
  (deviceRecordResult_records i r).mono fun a h => by
    cases a <;> first | exact trivial | exact h.elim

theorem forgetRetrieved_plain (key : Bytes) (deleted : Bool) :
    (forgetRetrieved key deleted).Performs Act.Plain := by
  cases deleted
  · exact trivial
  · exact ⟨trivial, fun _ => trivial⟩

/-- The checks at the start of an operation. -/
theorem guarded_custody {α : Type} {pointers : Bool} {key : Option Bytes} {refuse : KvResult → α}
    {body : Bytes → ℕ → M α} {post : Events → α → Prop}
    (hrefuse : ∀ e ev', stock t ev' = stock t ev → post ev' (refuse e))
    (hbody : ∀ key i ev', stock t ev' = stock t ev →
      (body key i).Follows (custodyOf P bufferSize t) post ev') :
    (guarded pointers key refuse body).Follows (custodyOf P bufferSize t) post ev := by
  have hloaded (initialized : Bool) :
      stock t (⟨.loadInitialized, initialized⟩ :: ev) = stock t ev :=
    stock_plain (a := .loadInitialized) trivial initialized
  refine ⟨trivial, fun initialized _ => ?_⟩
  cases key with
  | none => exact hrefuse _ _ (hloaded initialized)
  | some key =>
      show Prog.Follows _ _ (if _ then _ else _) _
      split
      · exact hrefuse _ _ (hloaded initialized)
      · split
        · exact hrefuse _ _ (hloaded initialized)
        · refine ⟨trivial, fun m _ => ⟨trivial, fun healthy _ => ?_⟩⟩
          have hcounted : stock t (⟨.loadNumDevices, m⟩ :: ⟨.loadInitialized, initialized⟩ :: ev) =
              stock t ev := (stock_plain (a := .loadNumDevices) trivial m).trans (hloaded initialized)
          have hchecked := (stock_plain (a := .loadHealthy (kvEngineShardForKey key m)) trivial
            healthy).trans hcounted
          cases healthy with
          | false => exact hrefuse _ _ hchecked
          | true => exact hbody key _ _ hchecked

/-- An allocation gives a block of the heap of the size asked for, or nothing. -/
theorem dmaAlloc_custody (size : ℕ) :
    (dmaAlloc size).Follows (custodyOf P bufferSize t)
      (fun ev' b' => held t ev' = b'.toList ++ held t ev ∧ lastCommand ev' = lastCommand ev ∧
        ∀ b, b' = some b → b ∉ P ∧ capacity bufferSize ev' b = some size) ev := by
  unfold dmaAlloc
  split
  · exact ⟨rfl, rfl, fun b hb => by cases hb⟩
  · refine ⟨trivial, fun b' hb' => ⟨?_, rfl, fun b hb => ⟨hb' b hb, if_pos hb⟩⟩⟩
    simp only [custodyOf, held, gained, returned, calledBack, List.diff_nil]

/-- The two ways to return a buffer: the call knows where it came from. -/
theorem releaseBuffer_custody {fromPool : Bool} {b : Addr} {base : List Addr}
    (hheld : held t ev = b :: base) (hb : fromPool = true ↔ b ∈ P) :
    (releaseBuffer fromPool b).Follows (custodyOf P bufferSize t)
      (fun ev' _ => held t ev' = base ∧ lastCommand ev' = lastCommand ev) ev := by
  have hmem : b ∈ held t ev := by rw [hheld]; exact List.mem_cons_self
  cases fromPool with
  | true =>
      refine ⟨⟨hb.mp rfl, hmem⟩, fun _ _ => ⟨?_, rfl⟩⟩
      simp [custodyOf, held, gained, returned, calledBack, hheld]
  | false =>
      have hheap : b ∉ P := fun h => Bool.noConfusion (hb.mpr h)
      refine ⟨⟨hheap, hmem⟩, fun _ _ => ⟨?_, rfl⟩⟩
      simp [custodyOf, held, gained, returned, calledBack, hheld]

/-- The bounce buffer of a store is freed before the store returns. -/
theorem storeTail_custody {base : List Addr} {b : Option Addr} (hheld : held t ev = b.toList ++ base)
    (hb : ∀ a, b = some a → a ∉ P) (key : Bytes) (i : ℕ) (value : Bytes) (overwrite : Bool) :
    (storeTail key i value overwrite b).Follows (custodyOf P bufferSize t)
      (fun ev' _ => held t ev' = base) ev := by
  refine ⟨trivial, fun _ _ => ⟨trivial, fun r _ => ?_⟩⟩
  refine (plain_custody (deviceRecordResult_plain i r)).bind fun ev₁ _ hrecord => ?_
  have hheld₁ : held t ev₁ = b.toList ++ base := (congrArg Prod.fst hrecord).trans hheld
  cases b with
  | none => exact ⟨trivial, fun _ _ => hheld₁⟩
  | some b =>
      have hfree : (releaseBuffer false b).Follows (custodyOf P bufferSize t) _ ev₁ :=
        releaseBuffer_custody hheld₁ (by simp [hb b rfl])
      exact hfree.bind fun ev₂ _ hheld₂ => ⟨trivial, fun _ _ => hheld₂.1⟩

theorem kvEngineStore_custody (key : Option Bytes) (value : Option Buf) (overwrite : Bool) :
    (kvEngineStore key value overwrite).Follows (custodyOf P bufferSize t)
      (fun ev' _ => held t ev' = held t ev) ev := by
  refine guarded_custody (fun e ev' heq => congrArg Prod.fst heq) fun key i ev' heq => ?_
  have hheld : held t ev' = held t ev := congrArg Prod.fst heq
  cases value with
  | none => exact hheld
  | some value =>
      show Prog.Follows _ _ (if _ then _ else _) _
      split
      · exact storeTail_custody hheld (fun a ha => by cases ha) key i value.bytes overwrite
      · refine (dmaAlloc_custody value.bytes.length).bind fun ev'' b hb => ?_
        obtain ⟨hheld'', -, hheap⟩ := hb
        rw [hheld] at hheld''
        cases b with
        | none => exact hheld''
        | some b =>
            exact storeTail_custody hheld'' (fun a ha => (hheap a ha).1) key i value.bytes overwrite

/-- A retrieve returns a value exactly if its last device command succeeded. -/
def Yields (ev : Events) (value : Option Retrieved) : Prop :=
  value.isSome = true ↔ lastCommand ev = some .success

theorem yields_none (h : lastCommand ev ≠ some .success) : Yields ev none :=
  ⟨fun hvalue => Bool.noConfusion hvalue, fun hlast => absurd hlast h⟩

/-- After the last device command: the buffer is handed out if it succeeded, and returned if
not. -/
theorem retrieveTail_custody {fromPool : Bool} {b : Addr} {base : List Addr}
    {reply : KvsResult × KvsValue} (hheld : held t ev = b :: base) (hb : fromPool = true ↔ b ∈ P)
    (hlast : lastCommand ev = some reply.1) (key : Bytes) (i : ℕ) (del : Bool) :
    (retrieveTail key i del fromPool b reply).Follows (custodyOf P bufferSize t)
      (fun ev' r => held t ev' = valueAddr r.2 ++ base ∧ Yields ev' r.2) ev := by
  refine (plain_custody (deviceRecordResult_plain i reply.1)).bind fun ev₁ _ hrecord => ?_
  refine (plain_custody (forgetRetrieved_plain _ _)).bind fun ev₂ _ hforget => ?_
  have hheld₂ : held t ev₂ = b :: base := (congrArg Prod.fst (hforget.trans hrecord)).trans hheld
  have hlast₂ : lastCommand ev₂ = some reply.1 :=
    (congrArg Prod.snd (hforget.trans hrecord)).trans hlast
  split
  · rename_i hfailed
    refine (releaseBuffer_custody hheld₂ hb).bind fun ev₃ _ hrelease => ⟨trivial, fun _ _ => ?_⟩
    have hlast₃ : lastCommand ev₃ = some reply.1 := hrelease.2.trans hlast₂
    exact ⟨hrelease.1, yields_none fun h => hfailed (Option.some.inj (hlast₃.symm.trans h))⟩
  · rename_i hsuccess
    refine ⟨trivial, fun _ _ => ⟨hheld₂, fun _ => ?_, fun _ => rfl⟩⟩
    exact hlast₂.trans (congrArg some (not_not.mp hsuccess))

theorem retrieveInto_custody {fromPool : Bool} {b : Addr} {base : List Addr}
    (hheld : held t ev = b :: base) (hb : fromPool = true ↔ b ∈ P)
    (hroom : Room bufferSize ev b kvEngineRetrieveSize) (key : Bytes) (i : ℕ) (del : Bool) :
    (retrieveInto key i del fromPool b).Follows (custodyOf P bufferSize t)
      (fun ev' r => held t ev' = valueAddr r.2 ++ base ∧ Yields ev' r.2) ev := by
  have hmem : b ∈ held t ev := by rw [hheld]; exact List.mem_cons_self
  refine ⟨⟨hmem, hroom⟩, fun reply _ => ?_⟩
  have hheld₀ : held t (⟨.kvsRetrieveKvp i (kvsKeyOf key) b retrieveRequest del, reply⟩ :: ev) =
      b :: base := hheld
  show Prog.Follows _ _ (if _ then _ else _) _
  split
  · -- the buffer was too small: it goes back before the second one is obtained
    rename_i hsmall
    refine (releaseBuffer_custody hheld₀ hb).bind fun ev₁ _ hrelease => ?_
    refine (dmaAlloc_custody reply.2.actualValueSize.toNat).bind fun ev₂ second hsecond => ?_
    obtain ⟨hheld₂, hlast₂, hheap⟩ := hsecond
    rw [hrelease.1] at hheld₂
    cases second with
    | none =>
        have hlast : lastCommand ev₂ = some reply.1 := hlast₂.trans hrelease.2
        exact ⟨hheld₂, yields_none (by rw [hlast, hsmall]; decide)⟩
    | some b' =>
        have hmem₂ : b' ∈ held t ev₂ := by rw [hheld₂]; exact List.mem_cons_self
        obtain ⟨hb', hcapacity⟩ := hheap b' rfl
        refine ⟨⟨hmem₂, _, hcapacity, le_rfl⟩, fun reply' _ => ?_⟩
        have hheld₃ : held t (⟨.kvsRetrieveKvp i (kvsKeyOf key) b' (secondRequest reply.2) del,
            reply'⟩ :: ev₂) = b' :: base := hheld₂
        exact retrieveTail_custody hheld₃ (by simp [hb']) rfl key i del
  · exact retrieveTail_custody hheld₀ hb rfl key i del

theorem kvEngineRetrieve_custody (hsize : kvEngineRetrieveSize ≤ bufferSize)
    (hlast : lastCommand ev = none) (key : Option Bytes) (outs del : Bool) :
    (kvEngineRetrieve key outs del).Follows (custodyOf P bufferSize t)
      (fun ev' r => held t ev' = valueAddr r.2 ++ held t ev ∧ Yields ev' r.2) ev := by
  refine guarded_custody (fun e ev' heq => ?_) fun key i ev' heq => ?_
  · have hnone : lastCommand ev' = none := (congrArg Prod.snd heq).trans hlast
    exact ⟨congrArg Prod.fst heq, yields_none (by rw [hnone]; decide)⟩
  · have hheld : held t ev' = held t ev := congrArg Prod.fst heq
    refine ⟨trivial, fun pooled hpooled => ?_⟩
    have hheld₁ : held t (⟨.dmaPoolAcquire, pooled⟩ :: ev') = pooled.toList ++ held t ev := by
      simp only [held, gained, returned, calledBack, List.diff_nil, hheld]
    cases pooled with
    | some b =>
        exact retrieveInto_custody hheld₁ (by simp [hpooled b rfl]) ⟨_, if_pos rfl, hsize⟩ key i del
    | none =>
        refine (dmaAlloc_custody kvEngineRetrieveSize).bind fun ev'' b hb => ?_
        obtain ⟨hheld₂, hlast'', hheap⟩ := hb
        have hheld'' : held t ev'' = b.toList ++ held t ev := hheld₂.trans (congrArg _ hheld₁)
        cases b with
        | none =>
            have hnone : lastCommand ev'' = none :=
              hlast''.trans ((congrArg Prod.snd heq).trans hlast)
            exact ⟨hheld'', yields_none (by rw [hnone]; decide)⟩
        | some b =>
            obtain ⟨hb, hcapacity⟩ := hheap b rfl
            exact retrieveInto_custody hheld'' (by simp [hb]) ⟨_, hcapacity, le_rfl⟩ key i del

theorem kvEngineDelete_custody (key : Option Bytes) :
    (kvEngineDelete key).Follows (custodyOf P bufferSize t)
      (fun ev' _ => held t ev' = held t ev) ev := by
  refine guarded_custody (fun e ev' heq => congrArg Prod.fst heq) fun key i ev' heq => ?_
  have hheld : held t ev' = held t ev := congrArg Prod.fst heq
  refine ⟨trivial, fun r _ => ?_⟩
  refine (plain_custody (deviceRecordResult_plain i r)).bind fun ev₁ _ hrecord => ?_
  have hheld₁ : held t ev₁ = held t ev := (congrArg Prod.fst hrecord).trans hheld
  exact ⟨trivial, fun _ _ => ⟨trivial, fun _ _ => hheld₁⟩⟩

theorem kvEngineExists_custody (key : Option Bytes) (outs : Bool) :
    (kvEngineExists key outs).Follows (custodyOf P bufferSize t)
      (fun ev' _ => held t ev' = held t ev) ev := by
  refine guarded_custody (fun e ev' heq => congrArg Prod.fst heq) fun key i ev' heq => ?_
  have hheld : held t ev' = held t ev := congrArg Prod.fst heq
  refine ⟨trivial, fun found _ => ⟨trivial, fun reply _ => ?_⟩⟩
  refine (plain_custody (deviceRecordResult_plain i reply.1)).bind fun ev₁ _ hrecord => ?_
  have hheld₁ : held t ev₁ = held t ev := (congrArg Prod.fst hrecord).trans hheld
  split <;> exact hheld₁

/-- What a call has when it returns: a retrieve the value it returns, the others nothing. -/
def Call.Obtains : Call → Events → Option Retrieved → Prop
  | .retrieve _ _ _, ev, value => Yields ev value
  | _, _, value => value = none

/-- The four operations. -/
theorem call_custody (hsize : kvEngineRetrieveSize ≤ bufferSize) (hlast : lastCommand ev = none)
    (c : Call) :
    c.prog.Follows (custodyOf P bufferSize t)
      (fun ev' r => held t ev' = valueAddr r.value ++ held t ev ∧ c.Obtains ev' r.value) ev := by
  cases c with
  | store key value overwrite =>
      exact (kvEngineStore_custody key value overwrite).bind fun _ _ h => ⟨h, rfl⟩
  | retrieve key outs del =>
      exact (kvEngineRetrieve_custody hsize hlast key outs del).bind fun _ _ h => h
  | delete key => exact (kvEngineDelete_custody key).bind fun _ _ h => ⟨h, rfl⟩
  | «exists» key outs => exact (kvEngineExists_custody key outs).bind fun _ _ h => ⟨h, rfl⟩

/-- A completion callback takes the value; without one it stays with the worker. -/
theorem complete_custody {c : Callback} {base : List Addr} (ht : t.executes = true) (given : Bool)
    (hheld : held t ev = valueAddr c.value ++ base) :
    (complete given c).Follows (custodyOf P bufferSize t)
      (fun ev' _ => held t ev' = (if given then [] else valueAddr c.value) ++ base ∧
        lastCommand ev' = lastCommand ev) ev := by
  cases given with
  | false => exact ⟨hheld, rfl⟩
  | true =>
      refine ⟨⟨ht, fun b hb => ?_⟩, fun _ _ => ⟨?_, rfl⟩⟩
      · rw [hheld]
        exact List.mem_append_left _ hb
      · cases hvalue : c.value <;>
          simp [custodyOf, held, gained, returned, calledBack, hheld, hvalue, valueAddr]

theorem Call.Obtains.of_last {c : Call} {value : Option Retrieved} (h : c.Obtains ev value)
    (hlast : lastCommand ev' = lastCommand ev) : c.Obtains ev' value := by
  cases c with
  | retrieve key outs del =>
      show _ ↔ _
      rw [hlast]
      exact h
  | _ => exact h

theorem work_custody (hsize : kvEngineRetrieveSize ≤ bufferSize) (hlast : lastCommand ev = none)
    (ht : t.executes = true) (ctx : AsyncContext) :
    ctx.work.Follows (custodyOf P bufferSize t)
      (fun ev' r => held t ev' = (if ctx.completion then [] else valueAddr r.value) ++ held t ev ∧
        ctx.call.Obtains ev' r.value) ev := by
  refine (call_custody hsize hlast ctx.call).bind fun ev₁ reply hcall => ?_
  refine Prog.Follows.bind (complete_custody ht ctx.completion hcall.1) fun ev₂ _ hdone => ?_
  exact ⟨trivial, fun _ _ => ⟨hdone.1, hcall.2.of_last hdone.2⟩⟩

theorem valueAddr_eq_nil_iff {value : Option Retrieved} :
    valueAddr value = [] ↔ ¬ value.isSome = true := by
  cases value <;> simp [valueAddr]

/-- Nobody takes the value of a retrieve without a callback. -/
theorem leaks_iff {ctx : AsyncContext} {value : Option Retrieved} (h : ctx.call.Obtains ev value) :
    (if ctx.completion then [] else valueAddr value) = [] ↔ ¬ Leaks ctx ev := by
  cases hop : ctx.opType with
  | retrieve =>
      simp only [AsyncContext.call, hop] at h
      cases hgiven : ctx.retrieveCallback with
      | true => simp [AsyncContext.completion, Leaks, hop, hgiven]
      | false =>
          simp only [AsyncContext.completion, Leaks, hop, hgiven, true_and]
          exact valueAddr_eq_nil_iff.trans (not_congr h)
  | _ =>
      simp only [AsyncContext.call, hop] at h
      obtain rfl : value = none := h
      simp [Leaks, hop, valueAddr]

/-- A worker that has executed an item and freed it holds a value only if the request leaks it. -/
theorem execute_custody (hsize : kvEngineRetrieveSize ≤ bufferSize) (item : WorkItem)
    (hitem : item.addr ∉ P) :
    (Task.execute item).prog.Follows (custodyOf P bufferSize (.execute item))
      (fun ev _ => held (.execute item) ev = [] ↔ ¬ Leaks item.arg ev) [] := by
  refine (work_custody hsize rfl rfl item.arg).bind fun ev r hwork => ?_
  obtain ⟨hheld, hobtains⟩ := hwork
  have hmem : item.addr ∈ held (.execute item) ev := by
    rw [hheld]
    exact List.mem_append_right _ List.mem_cons_self
  refine ⟨⟨hitem, hmem⟩, fun answer _ => ?_⟩
  have hlength : (held (.execute item) (⟨.free item.addr, answer⟩ :: ev)).length =
      (if item.arg.completion then [] else valueAddr r.value).length := by
    simp [held, gained, returned, calledBack, hheld, Task.brings]
  exact List.length_eq_zero_iff.symm.trans
    ((iff_of_eq (congrArg (· = 0) hlength)).trans (List.length_eq_zero_iff.trans
      (leaks_iff (hobtains.of_last rfl))))

/-! ### The buffer functions -/

/-- A buffer of the pool is handed out only if it has the size asked for. -/
theorem kvEngineAllocBuffer_custody (size : ℕ) :
    (kvEngineAllocBuffer size).Follows (custodyOf P bufferSize t)
      (fun ev' b' => held t ev' = b'.toList ++ held t ev ∧
        ∀ b, b' = some b → Room bufferSize ev' b size) ev := by
  have hheap (ev' : Events) (hheld : held t ev' = held t ev) :
      (dmaAlloc size).Follows (custodyOf P bufferSize t)
        (fun ev' b' => held t ev' = b'.toList ++ held t ev ∧
          ∀ b, b' = some b → Room bufferSize ev' b size) ev' := by
    refine (dmaAlloc_custody size).mono fun ev'' b' h => ⟨h.1.trans (by rw [hheld]), ?_⟩
    exact fun b hb => ⟨size, (h.2.2 b hb).2, le_rfl⟩
  refine ⟨trivial, fun pool hpool => ?_⟩
  have hheld : held t (⟨.loadBufferPool, pool⟩ :: ev) = held t ev := held_cons_of_idle rfl rfl rfl
  show Prog.Follows _ _ (if _ then _ else _) _
  split
  · rename_i hfits
    have hsize : size ≤ bufferSize := by
      cases pool with
      | none => cases hfits
      | some p =>
          obtain rfl : p.bufferSize = bufferSize := by simpa using hpool.2
          simpa using hfits
    refine ⟨trivial, fun pooled _ => ?_⟩
    have hheld₁ : held t (⟨.dmaPoolAcquire, pooled⟩ :: ⟨.loadBufferPool, pool⟩ :: ev) =
        pooled.toList ++ held t ev := by
      simp only [held, gained, returned, calledBack, List.diff_nil, List.nil_append]
    cases pooled with
    | none => exact hheap _ hheld₁
    | some b =>
        refine ⟨hheld₁, fun b' hb' => ⟨bufferSize, ?_, hsize⟩⟩
        exact if_pos hb'
  · exact hheap _ hheld

/-- The scan of the pool sends a buffer back to where it came from. -/
theorem kvEngineFreeBuffer_custody (buffer : Option Addr) (hheld : held t ev = buffer.toList) :
    (kvEngineFreeBuffer buffer).Follows (custodyOf P bufferSize t)
      (fun ev' _ => held t ev' = []) ev := by
  cases buffer with
  | none => exact hheld
  | some b =>
      refine ⟨trivial, fun pool hpool => ?_⟩
      have hheld' : held t (⟨.loadBufferPool, pool⟩ :: ev) = [b] :=
        (held_cons_of_idle rfl rfl rfl).trans hheld
      exact (releaseBuffer_custody hheld' (hpool.1 b)).mono fun _ _ h => h.1

end functions

/-! ### Every task -/

/-- The tasks of a running engine that get their blocks as the protocol says: a submission builds
a context out of blocks of its own, and the block of a work item is not one of the pool's. -/
def Task.Fits (P : List Addr) : Task → Prop
  | .submit _ _ => False
  | .reject _ => False
  | .execute item => item.addr ∉ P
  | _ => True

/-- What the task has when it returns. -/
def Settles (bufferSize : ℕ) (t : Task) (ev : Events) (o : Outcome) : Prop :=
  match t with
  | .execute item => handedOut t o = [] ∧ (held t ev = [] ↔ ¬ Leaks item.arg ev)
  | .allocBuffer size =>
      held t ev = handedOut t o ∧ ∀ b ∈ handedOut t o, Room bufferSize ev b size
  | _ => held t ev = handedOut t o

theorem kvEngineGetDeviceHealth_plain (i : ℕ) (out : Bool) :
    (kvEngineGetDeviceHealth i out).Performs Act.Plain :=
  (kvEngineGetDeviceHealth_examines i out).mono fun a h => by
    cases a <;> first | exact trivial | exact h.elim

theorem plain_settles {α : Type} {p : M α} (hp : p.Performs Act.Plain) (f : α → Outcome)
    (hbrings : t.brings = []) (hout : ∀ r, handedOut t (f r) = []) :
    Prog.Follows (custodyOf P bufferSize t) (fun ev o => held t ev = handedOut t o)
      (do return f (← p)) [] := by
  refine (plain_custody hp).bind fun ev r h => ?_
  have hheld : held t ev = t.brings := congrArg Prod.fst h
  exact hheld.trans (hbrings.trans (hout r).symm)

/-- Every task follows its protocol from its start and has settled when it returns. -/
theorem task_custody (hsize : kvEngineRetrieveSize ≤ bufferSize) (ht : t.Fits P) :
    t.prog.Follows (custodyOf P bufferSize t) (Settles bufferSize t) [] := by
  cases t with
  | call c =>
      refine (call_custody hsize rfl c).bind fun ev r h => ?_
      exact h.1.trans (List.append_nil _)
  | submit request c => exact ht.elim
  | reject item => exact ht.elim
  | execute item =>
      exact (execute_custody hsize item ht).mono fun ev o h => ⟨rfl, h⟩
  | record i kvsRes =>
      exact plain_settles (deviceRecordResult_plain i kvsRes) (fun _ => .done) rfl fun _ => rfl
  | getDeviceHealth i out =>
      exact plain_settles (kvEngineGetDeviceHealth_plain i out) (fun r => .health r.1 r.2) rfl
        fun _ => rfl
  | healthyDeviceCount =>
      have hp : kvEngineHealthyDeviceCount.Performs Act.Plain :=
        kvEngineHealthyDeviceCount_looks.mono fun a h => by
          cases a <;> first | exact trivial | exact h.elim
      exact plain_settles hp .count rfl fun _ => rfl
  | getStats =>
      have hp : kvEngineGetStats.Performs Act.Plain := ⟨trivial, fun _ => trivial⟩
      exact plain_settles hp (fun r => .stats r.1 r.2) rfl fun _ => rfl
  | resetStats =>
      have hp : kvEngineResetStats.Performs Act.Plain := ⟨trivial, fun _ => trivial⟩
      exact plain_settles hp (fun _ => .done) rfl fun _ => rfl
  | allocBuffer size =>
      refine (kvEngineAllocBuffer_custody size).bind fun ev b h => ?_
      refine ⟨h.1.trans (List.append_nil _), fun b' hb' => h.2 b' ?_⟩
      simpa [handedOut] using hb'
  | freeBuffer buffer =>
      refine (kvEngineFreeBuffer_custody buffer ?_).bind fun ev _ h => h
      cases buffer <;> rfl

/-! ### The balance of a task -/

theorem count_singleton_le {l : List Addr} {x : Addr} (h : x ∈ l) (b : Addr) :
    [x].count b ≤ l.count b := (List.singleton_sublist.mpr h).count_le b

/-- A task gives away only what it holds. -/
theorem Handles.count_le {a : Act} (h : Handles P bufferSize t ev a) (answer : a.Resp) (b : Addr) :
    (returned ⟨a, answer⟩).count b + (calledBack ⟨a, answer⟩).count b ≤ (held t ev).count b := by
  cases a with
  | dmaPoolRelease b' => simpa [returned, calledBack] using count_singleton_le h.2 b
  | free b' => simpa [returned, calledBack] using count_singleton_le h.2 b
  | callback c =>
      cases hvalue : c.value with
      | none => simp [returned, calledBack, hvalue, valueAddr]
      | some v =>
          have hmem : v.addr ∈ held t ev := h.2 v.addr (by simp [hvalue, valueAddr])
          simpa [returned, calledBack, hvalue, valueAddr] using count_singleton_le hmem b
  | _ => simp [returned, calledBack]

theorem count_held_cons (e : Event Act Act.Resp) (b : Addr) :
    (held t (e :: ev)).count b = (gained e).count b +
      ((held t ev).count b - (returned e).count b - (calledBack e).count b) := by
  simp only [held, List.count_append, List.count_diff]

/-- What a task was given and obtained is what it holds, returned and handed to a callback, and
only the execution of a work item has a callback. -/
def Balanced (t : Task) (ev : Events) : Prop :=
  (∀ b, (held t ev).count b + (ev.flatMap returned).count b + (ev.flatMap calledBack).count b =
    t.brings.count b + (ev.flatMap gained).count b) ∧
  (t.executes = false → ev.flatMap calledBack = [])

theorem balanced_nil (t : Task) : Balanced t [] := ⟨fun _ => rfl, fun _ => rfl⟩

theorem Handles.balanced {a : Act} (h : Handles P bufferSize t ev a) (answer : a.Resp)
    (hbalanced : Balanced t ev) : Balanced t (⟨a, answer⟩ :: ev) := by
  refine ⟨fun b => ?_, fun ht => ?_⟩
  · have hle := h.count_le answer b
    have hold := hbalanced.1 b
    rw [count_held_cons]
    simp only [List.flatMap_cons, List.count_append]
    omega
  · rw [List.flatMap_cons, hbalanced.2 ht, List.append_nil]
    cases a with
    | callback c =>
        rw [h.1] at ht
        cases ht
    | _ => rfl

end KvEngine
