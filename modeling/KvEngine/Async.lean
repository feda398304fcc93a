import KvEngine.Runs

/-! # Asynchronous requests

`src/async/async_ops.c`.  A call of `kv_engine_store_async`, `kv_engine_retrieve_async` or
`kv_engine_delete_async` checks its arguments, copies them into an `async_context_t` and hands
the context to `thread_pool_submit`; a worker thread later runs `async_worker_func` on it.

`thread_pool_submit` can block, so a call is modelled in two parts.  `kvEngineStoreAsync` and
its two siblings are the programs up to the lock of the queue: they answer the result of a call
that fails before, or the work item that is to be queued.  `asyncRejected` is what follows when
the queue rejects it.  What happens in between is `ThreadPool.lean`.

Every call has a number, its request, which also names the context it creates.  Whatever the
engine answers, a call fails before the queue or has copied its arguments into a context
(`asyncCall_ensures`). -/

namespace KvEngine

open Atomic

/-- `async_op_type_t`. -/
inductive AsyncOp where
  | store
  | retrieve
  | delete
deriving DecidableEq, Repr

/-- `async_context_t`.  A buffer stands for its pointer and its length; a callback for whether
it is given. -/
structure AsyncContext where
  request : ℕ
  opType : AsyncOp
  keyBuffer : Bytes
  valueBuffer : Option Buf
  callback : Bool
  retrieveCallback : Bool
  userData : ℕ
  overwrite : Bool
deriving DecidableEq, Repr

/-- `work_item_t`: its address and its `arg`.  `func` is always `async_worker_func`, `cleanup`
always `async_context_free`; `next` is the place of the item in the queue. -/
structure WorkItem where
  addr : Addr
  arg : AsyncContext
deriving DecidableEq, Repr

/-- `sizeof(async_context_t)`. -/
def asyncContextSize : ℕ := 80

/-- `sizeof(work_item_t)`. -/
def workItemSize : ℕ := 32

/-! ### The context -/

/-- `async_context_create` from the copy of the value on: a null or empty value is not
copied. -/
def asyncContextValue (ctxAddr keyAddr : Addr) (ctx : AsyncContext) (value : Option Buf) :
    M (Option AsyncContext) :=
  match value with
  | none => return some ctx
  | some value =>
      if value.bytes.length = 0 then return some ctx
      else do
        let valueAddr ← atomically (.alloc value.bytes.length)
        match valueAddr with
        | none => do
            atomically (.free keyAddr)
            atomically (.free ctxAddr)
            return none
        | some valueAddr => return some { ctx with valueBuffer := some ⟨valueAddr, value.bytes⟩ }

/-- `async_context_create`. -/
def asyncContextCreate (request : ℕ) (opType : AsyncOp) (key : Bytes) (value : Option Buf)
    (callback : Bool) (userData : ℕ) (overwrite : Bool) : M (Option AsyncContext) := do
  let ctxAddr ← atomically (.alloc asyncContextSize)
  match ctxAddr with
  | none => return none
  | some ctxAddr => do
      let keyAddr ← atomically (.alloc key.length)
      match keyAddr with
      | none => do
          atomically (.free ctxAddr)
          return none
      | some keyAddr =>
          asyncContextValue ctxAddr keyAddr
            ⟨request, opType, key, none, callback, false, userData, overwrite⟩ value

/-- The completion callback, if one was given. -/
def complete (given : Bool) (c : Callback) : M Unit :=
  if given then atomically (.callback c) else pure ()

/-- `async_worker_func`. -/
def asyncWorkerFunc (ctx : AsyncContext) : M Unit :=
  match ctx.opType with
  | .store => do
      let result ← kvEngineStore (some ctx.keyBuffer) ctx.valueBuffer ctx.overwrite
      complete ctx.callback ⟨ctx.request, ctx.userData, result, none⟩
      atomically (.freeContext ctx.request)
  | .retrieve => do
      let (result, value) ← kvEngineRetrieve (some ctx.keyBuffer) true false
      complete ctx.retrieveCallback ⟨ctx.request, ctx.userData, result, value⟩
      atomically (.freeContext ctx.request)
  | .delete => do
      let result ← kvEngineDelete (some ctx.keyBuffer)
      complete ctx.callback ⟨ctx.request, ctx.userData, result, none⟩
      atomically (.freeContext ctx.request)

/-! ### The calls -/

/-- The checks of the three calls, the context made by `create`, and the work item that
`thread_pool_submit` allocates before it takes the lock. -/
def asyncFrontEnd (request : ℕ) (pointers : Bool) (key : Option Bytes)
    (create : Bytes → M (Option AsyncContext)) : M (Except KvResult WorkItem) := do
  let initialized ← atomically .loadInitialized
  match key with
  | none => return .error .invalidParam
  | some key =>
      if !initialized || !pointers then return .error .invalidParam
      else if key.length < 4 ∨ 255 < key.length then return .error .invalidParam
      else do
        let workers ← atomically .loadWorkers
        if !workers then return .error .notInitialized
        else do
          let ctx ← create key
          match ctx with
          | none => return .error .noMemory
          | some ctx => do
              let item ← atomically (.alloc workItemSize)
              match item with
              | none => do
                  atomically (.freeContext request)
                  return .error .io
              | some item => return .ok ⟨item, ctx⟩

/-- `kv_engine_store_async` up to the lock of the queue. -/
def kvEngineStoreAsync (request : ℕ) (key : Option Bytes) (value : Option Buf) (callback : Bool)
    (userData : ℕ) (overwrite : Bool) : M (Except KvResult WorkItem) :=
  asyncFrontEnd request value.isSome key fun key =>
    asyncContextCreate request .store key value callback userData overwrite

/-- `kv_engine_retrieve_async` up to the lock of the queue; the callback is set after the
context was created. -/
def kvEngineRetrieveAsync (request : ℕ) (key : Option Bytes) (callback : Bool) (userData : ℕ) :
    M (Except KvResult WorkItem) :=
  asyncFrontEnd request true key fun key => do
    let ctx ← asyncContextCreate request .retrieve key none false userData false
    return ctx.map ({ · with retrieveCallback := callback })

/-- `kv_engine_delete_async` up to the lock of the queue. -/
def kvEngineDeleteAsync (request : ℕ) (key : Option Bytes) (callback : Bool) (userData : ℕ) :
    M (Except KvResult WorkItem) :=
  asyncFrontEnd request true key fun key =>
    asyncContextCreate request .delete key none callback userData false

/-- The end of a call whose work item `thread_pool_submit` rejected: free the item, then the
context. -/
def asyncRejected (item : WorkItem) : M KvResult := do
  atomically (.free item.addr)
  atomically (.freeContext item.arg.request)
  return .io

/-- A worker executes an item: `item->func(item->arg)`, then `free(item)`. -/
def executeItem (item : WorkItem) : M Unit := do
  asyncWorkerFunc item.arg
  atomically (.free item.addr)

/-- A call of one of the three functions. -/
inductive AsyncCall where
  | store (key : Option Bytes) (value : Option Buf) (callback : Bool) (userData : ℕ)
      (overwrite : Bool)
  | retrieve (key : Option Bytes) (callback : Bool) (userData : ℕ)
  | delete (key : Option Bytes) (callback : Bool) (userData : ℕ)
deriving DecidableEq, Repr

/-- Whether the call names a callback. -/
def AsyncCall.callback : AsyncCall → Bool
  | .store _ _ callback _ _ => callback
  | .retrieve _ callback _ => callback
  | .delete _ callback _ => callback

/-- The call up to the lock of the queue. -/
def AsyncCall.prog (request : ℕ) : AsyncCall → M (Except KvResult WorkItem)
  | .store key value callback userData overwrite =>
      kvEngineStoreAsync request key value callback userData overwrite
  | .retrieve key callback userData => kvEngineRetrieveAsync request key callback userData
  | .delete key callback userData => kvEngineDeleteAsync request key callback userData

/-! ### What a context holds -/

/-- The context holds copies of the arguments of the call.  An empty value is not copied. -/
def AsyncCall.Copied (request : ℕ) : AsyncCall → AsyncContext → Prop
  | .store key value callback userData overwrite, ctx =>
      ∃ k v copy, key = some k ∧ value = some v ∧ KeyOk k ∧
        ctx = ⟨request, .store, k, copy, callback, false, userData, overwrite⟩ ∧
        (if v.bytes = [] then copy = none else ∃ addr, copy = some ⟨addr, v.bytes⟩)
  | .retrieve key callback userData, ctx =>
      ∃ k, key = some k ∧ KeyOk k ∧
        ctx = ⟨request, .retrieve, k, none, false, callback, userData, false⟩
  | .delete key callback userData, ctx =>
      ∃ k, key = some k ∧ KeyOk k ∧
        ctx = ⟨request, .delete, k, none, callback, false, userData, false⟩

theorem asyncContextCreate_ensures (request : ℕ) (opType : AsyncOp) (key : Bytes)
    (value : Option Buf) (callback : Bool) (userData : ℕ) (overwrite : Bool) :
    (asyncContextCreate request opType key value callback userData overwrite).Ensures fun ctx =>
      ∀ c ∈ ctx, ∃ copy,
        c = ⟨request, opType, key, copy, callback, false, userData, overwrite⟩ ∧
        match value with
        | none => copy = none
        | some v => if v.bytes = [] then copy = none else ∃ addr, copy = some ⟨addr, v.bytes⟩ := by
  intro ctxAddr
  cases ctxAddr with
  | none => exact fun c hc => by cases hc
  | some ctxAddr =>
      intro keyAddr
      cases keyAddr with
      | none => exact fun _ c hc => by cases hc
      | some keyAddr =>
          cases value with
          | none => exact fun c hc => ⟨none, by cases hc; rfl, rfl⟩
          | some v =>
              simp only [asyncContextValue, List.length_eq_zero_iff]
              split
              · exact fun c hc => ⟨none, by cases hc; rfl, rfl⟩
              · intro valueAddr
                cases valueAddr with
                | none => exact fun _ _ c hc => by cases hc
                | some valueAddr => exact fun c hc => ⟨_, by cases hc; rfl, valueAddr, rfl⟩

/-- A call that fails before the queue, or comes to it with a work item as described. -/
def Prepared (post : WorkItem → Prop) : Except KvResult WorkItem → Prop
  | .error e => e ≠ .success
  | .ok item => post item

/-- A call that gets as far as the queue has a key of an accepted length and the context that
`create` made of it. -/
theorem asyncFrontEnd_ensures {request : ℕ} {pointers : Bool} {key : Option Bytes}
    {create : Bytes → M (Option AsyncContext)} {post : Bytes → AsyncContext → Prop}
    (hcreate : ∀ k, (create k).Ensures fun ctx => ∀ c ∈ ctx, post k c) :
    (asyncFrontEnd request pointers key create).Ensures
      (Prepared fun item => ∃ k, key = some k ∧ KeyOk k ∧ pointers = true ∧ post k item.arg) := by
  have hfail {post : WorkItem → Prop} (e : KvResult) (he : e ≠ .success) :
      (Prog.ret (.error e) : M (Except KvResult WorkItem)).Ensures (Prepared post) := he
  intro initialized
  cases key with
  | none => exact hfail .invalidParam (by decide)
  | some key =>
      show Prog.Ensures _ (if _ then _ else _)
      split
      · exact hfail .invalidParam (by decide)
      · rename_i hptr
        simp only [Bool.or_eq_true, Bool.not_eq_true', not_or, Bool.not_eq_false] at hptr
        split
        · exact hfail .invalidParam (by decide)
        · rename_i hlen
          have hk : KeyOk key := by
            rw [KeyOk]
            omega
          intro workers
          show Prog.Ensures _ (if _ then _ else _)
          split
          · exact hfail .notInitialized (by decide)
          · refine (hcreate key).bind fun ctx hctx => ?_
            cases ctx with
            | none => exact hfail .noMemory (by decide)
            | some ctx =>
                intro item
                cases item with
                | none => exact fun _ => hfail .io (by decide)
                | some item => exact ⟨key, rfl, hk, hptr.2, hctx ctx rfl⟩

theorem Prepared.mono {post post' : WorkItem → Prop} (h : ∀ item, post item → post' item) :
    ∀ r, Prepared post r → Prepared post' r
  | .error _, he => he
  | .ok item, hi => h item hi

/-- Before the queue a call fails, or it has made a context with its arguments. -/
theorem asyncCall_ensures (request : ℕ) (c : AsyncCall) :
    (c.prog request).Ensures (Prepared fun item => c.Copied request item.arg) := by
  cases c with
  | store key value callback userData overwrite =>
      refine (asyncFrontEnd_ensures fun k =>
        asyncContextCreate_ensures request .store k value callback userData overwrite).mono
        (Prepared.mono fun item => ?_)
      rintro ⟨k, hkey, hk, hptr, copy, hctx, hcopy⟩
      obtain ⟨v, rfl⟩ := Option.isSome_iff_exists.mp hptr
      exact ⟨k, v, copy, hkey, rfl, hk, hctx, hcopy⟩
  | retrieve key callback userData =>
      have hcreate (k : Bytes) : (do
          let ctx ← asyncContextCreate request .retrieve k none false userData false
          return ctx.map ({ · with retrieveCallback := callback }) : M (Option AsyncContext)).Ensures
          fun ctx => ∀ c ∈ ctx,
            c = ⟨request, .retrieve, k, none, false, callback, userData, false⟩ := by
        refine (asyncContextCreate_ensures request .retrieve k none false userData false).bind ?_
        intro ctx hctx c hc
        obtain ⟨c', hc', rfl⟩ := Option.mem_map.mp hc
        obtain ⟨copy, rfl, rfl⟩ := hctx c' hc'
        rfl
      refine (asyncFrontEnd_ensures hcreate).mono (Prepared.mono fun item => ?_)
      rintro ⟨k, hkey, hk, _, hctx⟩
      exact ⟨k, hkey, hk, hctx⟩
  | delete key callback userData =>
      refine (asyncFrontEnd_ensures fun k =>
        asyncContextCreate_ensures request .delete k none callback userData false).mono
        (Prepared.mono fun item => ?_)
      rintro ⟨k, hkey, hk, _, copy, hctx, rfl⟩
      exact ⟨k, hkey, hk, hctx⟩

/-! ### The actions before the queue -/

/-- The actions of a call before the queue, apart from the free of a context. -/
def Act.Prepares : Act → Prop
  | .loadInitialized => True
  | .loadWorkers => True
  | .alloc _ => True
  | .free _ => True
  | _ => False

theorem asyncContextCreate_prepares (request : ℕ) (opType : AsyncOp) (key : Bytes)
    (value : Option Buf) (callback : Bool) (userData : ℕ) (overwrite : Bool) :
    (asyncContextCreate request opType key value callback userData overwrite).Performs
      Act.Prepares := by
  refine ⟨trivial, fun ctxAddr => ?_⟩
  cases ctxAddr with
  | none => trivial
  | some ctxAddr =>
      refine ⟨trivial, fun keyAddr => ?_⟩
      cases keyAddr with
      | none => exact ⟨trivial, fun _ => trivial⟩
      | some keyAddr =>
          cases value with
          | none => trivial
          | some v =>
              simp only [asyncContextValue]
              split
              · trivial
              · refine ⟨trivial, fun valueAddr => ?_⟩
                cases valueAddr with
                | none => exact ⟨trivial, fun _ => ⟨trivial, fun _ => trivial⟩⟩
                | some valueAddr => trivial

/-- The actions of a call outside the lock of the queue. -/
def Act.Submits : Act → Prop
  | .freeContext _ => True
  | a => a.Prepares

theorem Act.Prepares.submits {a : Act} (h : a.Prepares) : a.Submits := by
  cases a <;> first | exact trivial | exact h.elim

theorem asyncFrontEnd_submits {request : ℕ} {pointers : Bool} {key : Option Bytes}
    {create : Bytes → M (Option AsyncContext)} (hcreate : ∀ k, (create k).Performs Act.Submits) :
    (asyncFrontEnd request pointers key create).Performs Act.Submits := by
  refine ⟨trivial, fun initialized => ?_⟩
  cases key with
  | none => exact trivial
  | some key =>
      show Prog.Performs _ (if _ then _ else _)
      split
      · exact trivial
      · split
        · exact trivial
        · refine ⟨trivial, fun workers => ?_⟩
          show Prog.Performs _ (if _ then _ else _)
          split
          · exact trivial
          · refine (hcreate key).bind fun ctx => ?_
            cases ctx with
            | none => exact trivial
            | some ctx =>
                refine ⟨trivial, fun item => ?_⟩
                cases item with
                | none => exact ⟨trivial, fun _ => trivial⟩
                | some item => exact trivial

theorem asyncCall_submits (request : ℕ) (c : AsyncCall) : (c.prog request).Performs Act.Submits := by
  have hcreate (opType : AsyncOp) (key : Bytes) (value : Option Buf) (callback : Bool)
      (userData : ℕ) (overwrite : Bool) :
      (asyncContextCreate request opType key value callback userData overwrite).Performs
        Act.Submits :=
    (asyncContextCreate_prepares _ _ _ _ _ _ _).mono fun _ => Act.Prepares.submits
  cases c with
  | store key value callback userData overwrite =>
      exact asyncFrontEnd_submits fun k => hcreate _ _ _ _ _ _
  | retrieve key callback userData =>
      exact asyncFrontEnd_submits fun k => (hcreate _ _ _ _ _ _).bind fun _ => trivial
  | delete key callback userData => exact asyncFrontEnd_submits fun k => hcreate _ _ _ _ _ _

theorem asyncRejected_submits (item : WorkItem) : (asyncRejected item).Performs Act.Submits :=
  ⟨trivial, fun _ => ⟨trivial, fun _ => trivial⟩⟩

end KvEngine
