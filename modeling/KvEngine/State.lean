import KvEngine.Prog
import KvEngine.Kvs

/-! # The engine's state and its atomic actions

`State δ` is the memory of one engine (`struct kv_engine`) together with the devices it
talks to.  Its code is modelled as programs over the actions `Act`: one action is one
critical section (`hash_lock`, `stats_lock`, the lock of the DMA pool), one C11 atomic
operation, one device command or one call of the allocator.  `exec D` says what each of them
does when the devices are driven by `D`.

* `ssd` is the state of every keyspace.  A keyspace is named by the path of its device and
  by the slot index in its name `nvme_kv_engine_<index>`; it outlives the engine.
* `heap` lists the outcomes of the allocations still to come (`malloc`, `calloc`,
  `posix_memalign`, `strdup`, the creation of a thread or a mutex), so that an allocation can
  fail at any point.
* `keyTable` is the table of `hashTable.h`: uthash is a finite set of byte strings here.
* `callbacks` and `freedContexts` record what the asynchronous layer did, in order.  Its requests
  are numbered, so that a callback or a free can be traced back to the call that caused it. -/

namespace KvEngine

open Atomic

/-- `KV_MAX_DEVICES`. -/
def kvMaxDevices : ℕ := 8

/-- `KV_ENGINE_RETRIEVE_SIZE`. -/
def kvEngineRetrieveSize : ℕ := 2 * 1024 * 1024

/-- `kv_result_t`. -/
inductive KvResult where
  | success
  | invalidParam
  | noMemory
  | deviceOpen
  | keyNotFound
  | keyExists
  | valueTooLarge
  | timeout
  | io
  | notInitialized
  | keyAlreadyExists
  | deviceFull
  | deviceNotFound
  | keyLength
  | valueLength
  | deviceDegraded
  | allDevicesFailed
deriving DecidableEq, Repr

/-- An address in memory. -/
abbrev Addr := ℕ

/-- A keyspace: the device path and the index in the keyspace name. -/
structure Place where
  path : String
  index : ℕ
deriving DecidableEq, Repr

/-- `kv_device_ctx_t`.  A device handle is the path it was opened on, a keyspace handle the
keyspace; `none` is the null handle. -/
structure DeviceCtx where
  device : Option String
  keyspace : Option Place
  devicePath : Option String
  healthy : Bool
  consecutiveErrors : UInt64
  totalErrors : UInt64
  totalOps : UInt64
  maxConsecutiveErrors : UInt32
deriving DecidableEq, Repr

/-- A slot of the zeroed engine block. -/
def DeviceCtx.zero : DeviceCtx := ⟨none, none, none, false, 0, 0, 0, 0⟩

/-- `kv_engine_stats_t` without the latency, which nothing writes. -/
structure Stats where
  totalOps : UInt64
  readOps : UInt64
  writeOps : UInt64
  deleteOps : UInt64
  failedOps : UInt64
  bytesWritten : UInt64
  bytesRead : UInt64
deriving DecidableEq, Repr

def Stats.zero : Stats := ⟨0, 0, 0, 0, 0, 0, 0⟩

/-- The arguments of `update_stats`. -/
structure StatsUpdate where
  isRead : Bool
  isWrite : Bool
  isDelete : Bool
  success : Bool
  bytes : UInt64
deriving DecidableEq, Repr

/-- The critical section of `update_stats`. -/
def Stats.update (st : Stats) (u : StatsUpdate) : Stats where
  totalOps := st.totalOps + 1
  readOps := if u.isRead then st.readOps + 1 else st.readOps
  writeOps := if u.isWrite then st.writeOps + 1 else st.writeOps
  deleteOps := if u.isDelete then st.deleteOps + 1 else st.deleteOps
  failedOps := if u.success then st.failedOps else st.failedOps + 1
  bytesRead := if u.isRead && u.success then st.bytesRead + u.bytes else st.bytesRead
  bytesWritten :=
    if u.isRead && u.success then st.bytesWritten
    else if u.isWrite && u.success then st.bytesWritten + u.bytes
    else st.bytesWritten

/-- `dma_pool_t`: the two arrays (a slot is `none` until it is written), the index `top` of
the next free buffer, the size and the number of the buffers. -/
structure DmaPool where
  freeList : ℕ → Option Addr
  allBuffers : ℕ → Option Addr
  top : ℤ
  bufferSize : ℕ
  count : ℕ

namespace DmaPool

/-- The critical section of `dma_pool_acquire`. -/
def acquire (p : DmaPool) : Option Addr × DmaPool :=
  if p.top < 0 then (none, p) else (p.freeList p.top.toNat, { p with top := p.top - 1 })

/-- The critical section of `dma_pool_release`; `top + 1` and `count` are compared as
`size_t`. -/
def release (p : DmaPool) (b : Addr) : DmaPool :=
  if p.count ≤ (p.top + 1).toNat then p
  else { p with top := p.top + 1,
                freeList := Function.update p.freeList (p.top + 1).toNat (some b) }

/-- `dma_pool_owns`. -/
def owns (p : DmaPool) (b : Addr) : Bool := (List.range p.count).any (p.allBuffers · == some b)

end DmaPool

/-! ### The key table -/

/-- The keys of `hash_table_t`. -/
abbrev KeyTable := Finset Bytes

/-- The lengths the table functions accept. -/
def KeyTable.accepts (key : Bytes) : Bool := key.length ≠ 0 && key.length ≤ 255

/-- `key_in_table`. -/
def keyInTable (t : KeyTable) (key : Bytes) : Bool := KeyTable.accepts key && key ∈ t

/-- `add_key`, given the outcome of the allocation of the new entry. -/
def addKey (t : KeyTable) (key : Bytes) (entry : Option Addr) : KeyTable :=
  if KeyTable.accepts key && entry.isSome then insert key t else t

/-- `delete_key`. -/
def deleteKey (t : KeyTable) (key : Bytes) : KeyTable :=
  if KeyTable.accepts key then t.erase key else t

/-! ### The state -/

/-- What `kv_engine_retrieve` hands out: the buffer, its bytes and `*value_len`. -/
structure Retrieved where
  addr : Addr
  bytes : Bytes
  len : ℕ
deriving DecidableEq, Repr

/-- One invocation of a completion callback, for the request `request`; `value` is `none` for a
null value pointer and for the callbacks that take no value. -/
structure Callback where
  request : ℕ
  userData : ℕ
  result : KvResult
  value : Option Retrieved
deriving DecidableEq, Repr

/-- An engine and its devices. -/
structure State (δ : Type) where
  ssd : Place → δ
  heap : ℕ → Option Addr
  devices : ℕ → DeviceCtx
  numDevices : ℕ
  memPool : Bool
  bufferPool : Option DmaPool
  workers : Bool
  stats : Stats
  keyTable : KeyTable
  initialized : Bool
  healthProbe : Bool
  callbacks : List Callback
  freedContexts : List ℕ

/-! ### The actions -/

/-- The locks an engine creates. -/
inductive Lock where
  | memPool
  | queue
  | stats
  | dmaPool
  | keyTable
  | hash
  | probe
deriving DecidableEq, Repr

/-- What the life cycle acquires and releases besides devices and DMA buffers. -/
inductive Resource where
  | engine
  | configDevicePath
  | configEmulFile
  | devicePath (i : ℕ)
  | memPool
  | memPoolBase
  | threadPool
  | threadArray
  | worker (i : ℕ)
  | dmaPool
  | dmaFreeList
  | dmaAllBuffers
  | healthProbe
  | probeThread
  | lock (l : Lock)
deriving DecidableEq, Repr

/-- The atomic actions of the engine's code. -/
inductive Act where
  | loadInitialized
  | loadNumDevices
  | storeNumDevices (n : ℕ)
  | loadHealthy (i : ℕ)
  | storeHealthy (i : ℕ) (b : Bool)
  | fetchAddTotalOps (i : ℕ)
  | fetchAddTotalErrors (i : ℕ)
  | fetchAddConsecutiveErrors (i : ℕ)
  | storeConsecutiveErrors (i : ℕ) (v : UInt64)
  | loadMaxConsecutiveErrors (i : ℕ)
  | loadConsecutiveErrors (i : ℕ)
  | loadTotalErrors (i : ℕ)
  | loadTotalOps (i : ℕ)
  | loadDevicePath (i : ℕ)
  /-- `if (!key_in_table) add_key` under `hash_lock`. -/
  | keyTableAdd (key : Bytes)
  /-- `delete_key` under `hash_lock`. -/
  | keyTableDelete (key : Bytes)
  /-- `key_in_table` under `hash_lock`. -/
  | keyTableFind (key : Bytes)
  | kvsStoreKvp (i : ℕ) (key : KvsKey) (value : KvsValue) (opt : StoreType)
  /-- The value goes to `buffer`. -/
  | kvsRetrieveKvp (i : ℕ) (key : KvsKey) (buffer : Addr) (value : KvsValue)
      (retrieveDelete : Bool)
  | kvsDeleteKvp (i : ℕ) (key : KvsKey) (deleteError : Bool)
  | kvsExistKvPairs (i : ℕ) (key : KvsKey)
  | kvsGetDeviceUtilization (i : ℕ)
  /-- `kvs_get_device_utilization` where its output is read. -/
  | kvsReadUtilization (i : ℕ)
  | kvsGetDeviceCapacity (i : ℕ)
  | updateStats (u : StatsUpdate)
  | getStats
  | resetStats
  /-- `dma_pool_acquire`, or null without a pool. -/
  | dmaPoolAcquire
  | dmaPoolRelease (b : Addr)
  | alloc (size : ℕ)
  | free (b : Addr)
  /-- `dma_free` of an array slot that was never written. -/
  | freeUnwritten
  | acquire (r : Resource)
  | release (r : Resource)
  | memsetEngine
  | kvsOpenDevice (i : ℕ) (path : String)
  | kvsOpenKeySpace (i : ℕ)
  | kvsCreateKeySpace (i : ℕ)
  | kvsCloseKeySpace (i : ℕ)
  | kvsCloseDevice (i : ℕ)
  /-- The end of `kv_engine_open_device`: the path copy and the health fields. -/
  | initDeviceCtx (i : ℕ) (path : Option String)
  | freeDevicePath (i : ℕ)
  | loadMemPool
  | setMemPool (present : Bool)
  | loadBufferPool
  | setBufferPool (p : Option DmaPool)
  | loadWorkers
  | setWorkers (present : Bool)
  | clearTable
  | loadHealthProbe
  | setHealthProbe (present : Bool)
  | setInitialized (b : Bool)
  | callback (c : Callback)
  /-- `async_context_free` of the context of a request. -/
  | freeContext (request : ℕ)

/-- The answers of the actions. -/
@[reducible] def Act.Resp : Act → Type
  | .loadInitialized => Bool
  | .loadNumDevices => ℕ
  | .loadHealthy _ => Bool
  | .fetchAddConsecutiveErrors _ => UInt64
  | .loadMaxConsecutiveErrors _ => UInt32
  | .loadConsecutiveErrors _ => UInt64
  | .loadTotalErrors _ => UInt64
  | .loadTotalOps _ => UInt64
  | .loadDevicePath _ => Option String
  | .keyTableFind _ => Bool
  | .kvsStoreKvp .. => KvsResult
  | .kvsRetrieveKvp .. => KvsResult × KvsValue
  | .kvsDeleteKvp .. => KvsResult
  | .kvsExistKvPairs .. => KvsResult × UInt8
  | .kvsGetDeviceUtilization _ => KvsResult
  | .kvsReadUtilization _ => KvsResult × UInt32
  | .kvsGetDeviceCapacity _ => KvsResult × UInt64
  | .getStats => Stats
  | .dmaPoolAcquire => Option Addr
  | .alloc _ => Option Addr
  | .acquire _ => Bool
  | .loadMemPool => Bool
  | .loadBufferPool => Option DmaPool
  | .loadWorkers => Bool
  | .loadHealthProbe => Bool
  | .kvsOpenDevice .. => KvsResult
  | .kvsOpenKeySpace _ => KvsResult
  | .kvsCreateKeySpace _ => KvsResult
  | _ => Unit

/-- The programs of the engine. -/
abbrev M (α : Type) := Prog Act Act.Resp α

/-- The program of a single action. -/
abbrev atomically (a : Act) : M a.Resp := Prog.perform a

namespace State

variable {δ : Type}

/-- No engine yet: the devices alone, and an allocator that never fails. -/
def blank (ssd : Place → δ) : State δ where
  ssd := ssd
  heap := fun n => some n
  devices := fun _ => DeviceCtx.zero
  numDevices := 0
  memPool := false
  bufferPool := none
  workers := false
  stats := Stats.zero
  keyTable := ∅
  initialized := false
  healthProbe := false
  callbacks := []
  freedContexts := []

/-- Write one device slot. -/
@[simps -fullyApplied] def setDevice (s : State δ) (i : ℕ) (f : DeviceCtx → DeviceCtx) : State δ :=
  { s with devices := Function.update s.devices i (f (s.devices i)) }

/-- The outcome of the next allocation. -/
def nextAlloc (s : State δ) : Option Addr := s.heap 0

/-- No allocation still to come fails. -/
abbrev AllocsSucceed (s : State δ) : Prop := ∀ n, (s.heap n).isSome

/-- The allocator after its next call. -/
@[simps -fullyApplied] def dropAlloc (s : State δ) : State δ :=
  { s with heap := fun n => s.heap (n + 1) }

/-- `if (!key_in_table) add_key`; only a new entry is allocated. -/
def addTableKey (s : State δ) (key : Bytes) : State δ :=
  if keyInTable s.keyTable key || !KeyTable.accepts key then s
  else { s.dropAlloc with keyTable := addKey s.keyTable key s.nextAlloc }

/-- The zeroed engine block; the devices, the allocator and the records stay. -/
@[simps -fullyApplied] def memset (s : State δ) : State δ where
  ssd := s.ssd
  heap := s.heap
  devices := fun _ => DeviceCtx.zero
  numDevices := 0
  memPool := false
  bufferPool := none
  workers := false
  stats := Stats.zero
  keyTable := ∅
  initialized := false
  healthProbe := false
  callbacks := s.callbacks
  freedContexts := s.freedContexts

/-- Send a command to the keyspace at `p`. -/
def command {α : Type} (s : State δ) (p : Place) (c : δ → α × δ) : α × State δ :=
  ((c (s.ssd p)).1, { s with ssd := Function.update s.ssd p (c (s.ssd p)).2 })

/-- Send a command through the keyspace handle of slot `i`; `_check_key_space_handle`
refuses the null handle. -/
def keyspaceCommand {α : Type} (s : State δ) (i : ℕ) (refused : α) (c : δ → α × δ) : α × State δ :=
  match (s.devices i).keyspace with
  | none => (refused, s)
  | some p => s.command p c

/-- Send a command through the device handle of slot `i`. -/
def deviceCommand {α : Type} (s : State δ) (i : ℕ) (refused : α) (c : δ → α × δ) : α × State δ :=
  match (s.devices i).device with
  | none => (refused, s)
  | some path => s.command ⟨path, i⟩ c

end State

/-- What the actions do, over devices driven by `D`. -/
def exec {δ : Type} (D : Driver δ) : Handler Act Act.Resp (State δ)
  | .loadInitialized, s => (s.initialized, s)
  | .loadNumDevices, s => (s.numDevices, s)
  | .storeNumDevices n, s => ((), { s with numDevices := n })
  | .loadHealthy i, s => ((s.devices i).healthy, s)
  | .storeHealthy i b, s => ((), s.setDevice i fun c => { c with healthy := b })
  | .fetchAddTotalOps i, s => ((), s.setDevice i fun c => { c with totalOps := c.totalOps + 1 })
  | .fetchAddTotalErrors i, s =>
      ((), s.setDevice i fun c => { c with totalErrors := c.totalErrors + 1 })
  | .fetchAddConsecutiveErrors i, s =>
      ((s.devices i).consecutiveErrors,
        s.setDevice i fun c => { c with consecutiveErrors := c.consecutiveErrors + 1 })
  | .storeConsecutiveErrors i v, s => ((), s.setDevice i fun c => { c with consecutiveErrors := v })
  | .loadMaxConsecutiveErrors i, s => ((s.devices i).maxConsecutiveErrors, s)
  | .loadConsecutiveErrors i, s => ((s.devices i).consecutiveErrors, s)
  | .loadTotalErrors i, s => ((s.devices i).totalErrors, s)
  | .loadTotalOps i, s => ((s.devices i).totalOps, s)
  | .loadDevicePath i, s => ((s.devices i).devicePath, s)
  | .keyTableAdd key, s => ((), s.addTableKey key)
  | .keyTableDelete key, s => ((), { s with keyTable := deleteKey s.keyTable key })
  | .keyTableFind key, s => (keyInTable s.keyTable key, s)
  | .kvsStoreKvp i k v t, s => s.keyspaceCommand i .paramInvalid fun d => D.storeKvp d k v t
  | .kvsRetrieveKvp i k _ v del, s =>
      s.keyspaceCommand i (.paramInvalid, v) fun d => D.retrieveKvp d k v del
  | .kvsDeleteKvp i k e, s => s.keyspaceCommand i .paramInvalid fun d => D.deleteKvp d k e
  | .kvsExistKvPairs i k, s => s.keyspaceCommand i (.paramInvalid, 0) fun d => D.existKvPairs d k
  | .kvsGetDeviceUtilization i, s => s.deviceCommand i .paramInvalid D.getDeviceUtilization
  | .kvsReadUtilization i, s =>
      s.deviceCommand i (.paramInvalid, 0) fun d =>
        (((D.getDeviceUtilization d).1, D.utilization d), (D.getDeviceUtilization d).2)
  | .kvsGetDeviceCapacity i, s => s.deviceCommand i (.paramInvalid, 0) D.getDeviceCapacity
  | .updateStats u, s => ((), { s with stats := s.stats.update u })
  | .getStats, s => (s.stats, s)
  | .resetStats, s => ((), { s with stats := Stats.zero })
  | .dmaPoolAcquire, s =>
      match s.bufferPool with
      | none => (none, s)
      | some p => (p.acquire.1, { s with bufferPool := some p.acquire.2 })
  | .dmaPoolRelease b, s => ((), { s with bufferPool := s.bufferPool.map (·.release b) })
  | .alloc _, s => (s.nextAlloc, s.dropAlloc)
  | .free _, s => ((), s)
  | .freeUnwritten, s => ((), s)
  | .acquire _, s => (s.nextAlloc.isSome, s.dropAlloc)
  | .release _, s => ((), s)
  | .memsetEngine, s => ((), s.memset)
  | .kvsOpenDevice i path, s =>
      let (r, s') := s.command ⟨path, i⟩ D.openDevice
      (r, if r = .success then s'.setDevice i fun c => { c with device := some path } else s')
  | .kvsOpenKeySpace i, s =>
      let (r, s') := s.deviceCommand i .paramInvalid D.openKeySpace
      (r, if r = .success then
          s'.setDevice i fun c => { c with keyspace := c.device.map fun path => ⟨path, i⟩ }
        else s')
  | .kvsCreateKeySpace i, s => s.deviceCommand i .paramInvalid D.createKeySpace
  | .kvsCloseKeySpace i, s =>
      ((), ((s.keyspaceCommand i .paramInvalid D.closeKeySpace).2).setDevice i
        fun c => { c with keyspace := none })
  | .kvsCloseDevice i, s =>
      ((), ((s.deviceCommand i .paramInvalid D.closeDevice).2).setDevice i
        fun c => { c with device := none })
  | .initDeviceCtx i path, s =>
      ((), s.setDevice i fun c =>
        { c with devicePath := path, healthy := true, consecutiveErrors := 0, totalErrors := 0,
                 totalOps := 0, maxConsecutiveErrors := 10 })
  | .freeDevicePath i, s => ((), s.setDevice i fun c => { c with devicePath := none })
  | .loadMemPool, s => (s.memPool, s)
  | .setMemPool present, s => ((), { s with memPool := present })
  | .loadBufferPool, s => (s.bufferPool, s)
  | .setBufferPool p, s => ((), { s with bufferPool := p })
  | .loadWorkers, s => (s.workers, s)
  | .setWorkers present, s => ((), { s with workers := present })
  | .clearTable, s => ((), { s with keyTable := ∅ })
  | .loadHealthProbe, s => (s.healthProbe, s)
  | .setHealthProbe present, s => ((), { s with healthProbe := present })
  | .setInitialized b, s => ((), { s with initialized := b })
  | .callback c, s => ((), { s with callbacks := s.callbacks ++ [c] })
  | .freeContext request, s => ((), { s with freedContexts := s.freedContexts ++ [request] })

/-! ### What a command changes -/

/-- The actions that send a command to a device and write to no slot. -/
def Act.isCommand : Act → Bool
  | .kvsStoreKvp .. => true
  | .kvsRetrieveKvp .. => true
  | .kvsDeleteKvp .. => true
  | .kvsExistKvPairs .. => true
  | .kvsGetDeviceUtilization _ => true
  | .kvsReadUtilization _ => true
  | .kvsGetDeviceCapacity _ => true
  | .kvsCreateKeySpace _ => true
  | _ => false

section frames

variable {δ : Type} {D : Driver δ}

theorem State.keyspaceCommand_frame {α : Type} (s : State δ) (i : ℕ) (refused : α)
    (c : δ → α × δ) : ∃ ssd, (s.keyspaceCommand i refused c).2 = { s with ssd := ssd } := by
  unfold State.keyspaceCommand
  split
  · exact ⟨s.ssd, rfl⟩
  · exact ⟨_, rfl⟩

theorem State.deviceCommand_frame {α : Type} (s : State δ) (i : ℕ) (refused : α)
    (c : δ → α × δ) : ∃ ssd, (s.deviceCommand i refused c).2 = { s with ssd := ssd } := by
  unfold State.deviceCommand
  split
  · exact ⟨s.ssd, rfl⟩
  · exact ⟨_, rfl⟩

/-- A command changes the devices and nothing of the engine. -/
theorem exec_command {a : Act} (ha : a.isCommand = true) (s : State δ) :
    ∃ ssd, (exec D a s).2 = { s with ssd := ssd } := by
  cases a with
  | kvsStoreKvp | kvsRetrieveKvp | kvsDeleteKvp | kvsExistKvPairs =>
      exact s.keyspaceCommand_frame _ _ _
  | kvsGetDeviceUtilization | kvsReadUtilization | kvsGetDeviceCapacity | kvsCreateKeySpace =>
      exact s.deviceCommand_frame _ _ _
  | _ => cases ha

end frames

end KvEngine
