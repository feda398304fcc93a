import KvEngine.State

/-! # The synchronous operations

`kv_engine_store`, `kv_engine_retrieve`, `kv_engine_delete` and `kv_engine_exists`
(`src/core/kv_engine.c`) with their helpers, as programs over the atomic actions of
`State.lean`, in the order in which the source performs them.

A `(pointer, length)` argument pair is a byte string, or `none` for a null pointer; the value
argument of a store also carries its address, which decides whether it is bounced through a
DMA-aligned copy.  The checks that the four operations share (null arguments, key length,
shard, health) are `guarded`. -/

namespace KvEngine

open Atomic

/-! ### Helpers -/

/-- `map_kvs_result`. -/
def mapKvsResult : KvsResult → KvResult
  | .success => .success
  | .paramInvalid => .invalidParam
  | .optionInvalid => .invalidParam
  | .keyLengthInvalid => .keyLength
  | .valueLengthInvalid => .valueLength
  | .valueOffsetInvalid => .valueLength
  | .valueOffsetMisaligned => .valueLength
  | .keyNotExist => .keyNotFound
  | .valueUpdateNotAllowed => .keyAlreadyExists
  | .devCapacity => .deviceFull
  | .ksCapacity => .deviceFull
  | .devNotExist => .deviceNotFound
  | .devNotOpened => .deviceNotFound
  | _ => .io

theorem mapKvsResult_eq_success {r : KvsResult} : mapKvsResult r = .success ↔ r = .success := by
  cases r <;> simp [mapKvsResult]

/-- `is_device_error`. -/
def isDeviceError : KvsResult → Bool
  | .sysIo => true
  | .devNotExist => true
  | .devNotOpened => true
  | .devCapacity => true
  | .ksCapacity => true
  | _ => false

/-- `kv_engine_shard_for_key`: 32-bit FNV-1a of the key, modulo the number of devices. -/
def kvEngineShardForKey (key : Bytes) (numDevices : ℕ) : ℕ :=
  (key.foldl (fun hash b => (hash ^^^ b.toUInt32) * 16777619) (2166136261 : UInt32)).toNat
    % numDevices

theorem kvEngineShardForKey_lt (key : Bytes) {n : ℕ} (hn : 0 < n) :
    kvEngineShardForKey key n < n := Nat.mod_lt _ hn

/-- `check_device_health`. -/
def checkDeviceHealth (i : ℕ) : M KvResult := do
  let healthy ← atomically (.loadHealthy i)
  if healthy then return .success else return .deviceDegraded

/-- `device_record_result`. -/
def deviceRecordResult (i : ℕ) (kvsRes : KvsResult) : M Unit := do
  atomically (.fetchAddTotalOps i)
  if isDeviceError kvsRes then do
    atomically (.fetchAddTotalErrors i)
    let prev ← atomically (.fetchAddConsecutiveErrors i)
    if kvsRes = .devNotExist ∨ kvsRes = .devNotOpened then
      atomically (.storeHealthy i false)
    else do
      let max ← atomically (.loadMaxConsecutiveErrors i)
      if max.toUInt64 ≤ prev + 1 then atomically (.storeHealthy i false) else return ()
  else atomically (.storeConsecutiveErrors i 0)

/-- `dma_alloc`: a request of size zero fails without reaching the allocator. -/
def dmaAlloc (size : ℕ) : M (Option Addr) :=
  if size = 0 then return none else atomically (.alloc size)

/-- `DMA_ALIGNMENT`. -/
def dmaAlignment : ℕ := 4096

/-- `IS_DMA_ALIGNED`. -/
def isDmaAligned (a : Addr) : Bool := a % dmaAlignment = 0

/-- The `kvs_key` the engine builds: the length field has 16 bits. -/
def kvsKeyOf (key : Bytes) : KvsKey := ⟨key, key.length.toUInt16⟩

/-- A value argument: its address and its bytes. -/
structure Buf where
  addr : Addr
  bytes : Bytes
deriving DecidableEq, Repr

/-- The `kvs_value` a store builds: the length fields have 32 bits, `value_len` has 64. -/
def kvsValueOf (value : Bytes) : KvsValue :=
  ⟨value, value.length.toUInt32, value.length.toUInt32, 0⟩

/-- The checks every operation starts with: the pointers, the key length, then the health of
the device the key is sharded to.  The operation goes on with that device. -/
def guarded {α : Type} (pointers : Bool) (key : Option Bytes) (refuse : KvResult → α)
    (body : Bytes → ℕ → M α) : M α := do
  let initialized ← atomically .loadInitialized
  match key with
  | none => return refuse .invalidParam
  | some key =>
      if !initialized || !pointers then return refuse .invalidParam
      else if key.length < 4 ∨ 255 < key.length then return refuse .invalidParam
      else do
        let numDevices ← atomically .loadNumDevices
        let devIdx := kvEngineShardForKey key numDevices
        let health ← checkDeviceHealth devIdx
        if health ≠ .success then return refuse health else body key devIdx

/-! ### Store -/

/-- Free the bounce buffer, if there is one. -/
def freeAligned : Option Addr → M Unit
  | some b => atomically (.free b)
  | none => pure ()

/-- `kv_engine_store` from the key-table section on: `value` is what the value pointer refers
to, `alignedBuf` the bounce buffer if there is one. -/
def storeTail (key : Bytes) (devIdx : ℕ) (value : Bytes) (overwrite : Bool)
    (alignedBuf : Option Addr) : M KvResult := do
  atomically (.keyTableAdd key)
  let st := if overwrite then StoreType.post else StoreType.noOverwrite
  let kvsRes ← atomically (.kvsStoreKvp devIdx (kvsKeyOf key) (kvsValueOf value) st)
  deviceRecordResult devIdx kvsRes
  freeAligned alignedBuf
  atomically (.updateStats ⟨false, true, false, kvsRes = .success, value.length.toUInt64⟩)
  return mapKvsResult kvsRes

/-- `kv_engine_store`. -/
def kvEngineStore (key : Option Bytes) (value : Option Buf) (overwrite : Bool) : M KvResult :=
  guarded value.isSome key id fun key devIdx =>
    match value with
    | none => return .invalidParam
    | some value =>
        if isDmaAligned value.addr then storeTail key devIdx value.bytes overwrite none
        else do
          let alignedBuf ← dmaAlloc value.bytes.length
          match alignedBuf with
          | none => return .noMemory
          | some b => storeTail key devIdx value.bytes overwrite (some b)

/-! ### Retrieve -/

/-- Give a retrieve buffer back to where it came from. -/
def releaseBuffer (fromPool : Bool) (buffer : Addr) : M Unit :=
  if fromPool then atomically (.dmaPoolRelease buffer) else atomically (.free buffer)

/-- Delete the key from the table if the retrieve deleted the pair. -/
def forgetRetrieved (key : Bytes) (deleted : Bool) : M Unit :=
  if deleted then atomically (.keyTableDelete key) else pure ()

/-- `kv_engine_retrieve` after its last device command, whose answer is `reply`. -/
def retrieveTail (key : Bytes) (devIdx : ℕ) (deleteValue fromPool : Bool) (buffer : Addr)
    (reply : KvsResult × KvsValue) : M (KvResult × Option Retrieved) := do
  deviceRecordResult devIdx reply.1
  forgetRetrieved key (deleteValue && reply.1 = .success)
  if reply.1 ≠ .success then do
    releaseBuffer fromPool buffer
    atomically (.updateStats ⟨true, false, false, false, 0⟩)
    return (mapKvsResult reply.1, none)
  else do
    atomically (.updateStats ⟨true, false, false, true, reply.2.actualValueSize.toUInt64⟩)
    return (.success, some ⟨buffer, reply.2.bytes, reply.2.length.toNat⟩)

/-- The `kvs_value` of the first attempt. -/
def retrieveRequest : KvsValue := ⟨[], kvEngineRetrieveSize.toUInt32, 0, 0⟩

/-- The `kvs_value` of the second attempt, after the device reported the value's size. -/
def secondRequest (v : KvsValue) : KvsValue := { v with length := v.actualValueSize, offset := 0 }

/-- `kv_engine_retrieve` after its first device command: when the buffer was too small, a
second attempt into a heap buffer of the size the device reported. -/
def retrieveRetry (key : Bytes) (devIdx : ℕ) (deleteValue fromPool : Bool) (buffer : Addr)
    (reply : KvsResult × KvsValue) : M (KvResult × Option Retrieved) := do
  if reply.1 = .bufferSmall then do
    releaseBuffer fromPool buffer
    let second ← dmaAlloc reply.2.actualValueSize.toNat
    match second with
    | none => return (.noMemory, none)
    | some buffer => do
        let reply ← atomically
          (.kvsRetrieveKvp devIdx (kvsKeyOf key) buffer (secondRequest reply.2) deleteValue)
        retrieveTail key devIdx deleteValue false buffer reply
  else retrieveTail key devIdx deleteValue fromPool buffer reply

/-- `kv_engine_retrieve` once it has a buffer. -/
def retrieveInto (key : Bytes) (devIdx : ℕ) (deleteValue fromPool : Bool) (buffer : Addr) :
    M (KvResult × Option Retrieved) := do
  let reply ← atomically (.kvsRetrieveKvp devIdx (kvsKeyOf key) buffer retrieveRequest deleteValue)
  retrieveRetry key devIdx deleteValue fromPool buffer reply

/-- `kv_engine_retrieve`; `outs` tells whether both out-pointers are given. -/
def kvEngineRetrieve (key : Option Bytes) (outs : Bool) (deleteValue : Bool) :
    M (KvResult × Option Retrieved) :=
  guarded outs key (·, none) fun key devIdx => do
    let pooled ← atomically .dmaPoolAcquire
    match pooled with
    | some buffer => retrieveInto key devIdx deleteValue true buffer
    | none => do
        let heapBuf ← dmaAlloc kvEngineRetrieveSize
        match heapBuf with
        | none => return (.noMemory, none)
        | some buffer => retrieveInto key devIdx deleteValue false buffer

/-! ### Delete and exists -/

/-- `kv_engine_delete`. -/
def kvEngineDelete (key : Option Bytes) : M KvResult :=
  guarded true key id fun key devIdx => do
    let kvsRes ← atomically (.kvsDeleteKvp devIdx (kvsKeyOf key) false)
    deviceRecordResult devIdx kvsRes
    atomically (.keyTableDelete key)
    atomically (.updateStats ⟨false, false, true, kvsRes = .success, 0⟩)
    return mapKvsResult kvsRes

/-- `kv_engine_exists`; the flag is written only on success. -/
def kvEngineExists (key : Option Bytes) (outs : Bool) : M (KvResult × Option Bool) :=
  guarded outs key (·, none) fun key devIdx => do
    let hashValueCheck ← atomically (.keyTableFind key)
    let reply ← atomically (.kvsExistKvPairs devIdx (kvsKeyOf key))
    deviceRecordResult devIdx reply.1
    if reply.1 ≠ .success then return (mapKvsResult reply.1, none)
    else return (.success, some (reply.2 ≠ 0 && hashValueCheck))

/-! ### Buffers of the caller -/

/-- `kv_engine_alloc_buffer`. -/
def kvEngineAllocBuffer (size : ℕ) : M (Option Addr) := do
  let pool ← atomically .loadBufferPool
  if pool.any (size ≤ ·.bufferSize) then do
    let pooled ← atomically .dmaPoolAcquire
    match pooled with
    | some buffer => return some buffer
    | none => dmaAlloc size
  else dmaAlloc size

/-- `kv_engine_free_buffer`; `dma_pool_owns` refuses the null pointer and `free` ignores it. -/
def kvEngineFreeBuffer (buffer : Option Addr) : M Unit :=
  match buffer with
  | none => return ()
  | some buffer => do
      let pool ← atomically .loadBufferPool
      releaseBuffer (pool.any (·.owns buffer)) buffer

/-! ### Calls -/

/-- A call of one of the four operations. -/
inductive Call where
  | store (key : Option Bytes) (value : Option Buf) (overwrite : Bool)
  | retrieve (key : Option Bytes) (outs : Bool) (deleteValue : Bool)
  | delete (key : Option Bytes)
  | exists (key : Option Bytes) (outs : Bool)
deriving DecidableEq, Repr

/-- What a call returns: the result code, the retrieved value and the existence flag. -/
structure Reply where
  result : KvResult
  value : Option Retrieved
  flag : Option Bool
deriving DecidableEq, Repr

/-- The program of a call. -/
def Call.prog : Call → M Reply
  | .store key value overwrite => do return ⟨← kvEngineStore key value overwrite, none, none⟩
  | .retrieve key outs deleteValue => do
      let (r, v) ← kvEngineRetrieve key outs deleteValue
      return ⟨r, v, none⟩
  | .delete key => do return ⟨← kvEngineDelete key, none, none⟩
  | .exists key outs => do
      let (r, f) ← kvEngineExists key outs
      return ⟨r, none, f⟩

end KvEngine
