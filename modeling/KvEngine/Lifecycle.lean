import KvEngine.Engine

/-! # Life cycle, statistics and health

`kv_engine_init`, `kv_engine_cleanup`, `kv_engine_add_device`, the statistics calls and one
sweep of the health probe (`kv_engine.c`, `kv_engine_multi_device.c`, `kv_engine_health.c`,
`dma_pool.c` and the constructors of `memory_pool.c` and `thread_pool.c`), as programs over
the atomic actions.  `kv_engine_init` is given with all of its failure exits. -/

namespace KvEngine

open Atomic

/-- `kv_engine_config_t` without the fields nothing reads (`enable_stats`). -/
structure Config where
  devicePath : Option String
  emulConfigFile : Option String
  memoryPoolSize : ℕ
  queueDepth : ℕ
  numWorkerThreads : ℕ
  devicePaths : ℕ → Option String
  numDevices : ℕ
  dmaPoolCount : ℕ

/-- `kv_engine_resolve_device_paths`. -/
def kvEngineResolveDevicePaths (config : Config) : Except KvResult (List String) :=
  if 0 < config.numDevices then
    if kvMaxDevices < config.numDevices then .error .invalidParam
    else match (List.range config.numDevices).mapM config.devicePaths with
      | none => .error .invalidParam
      | some paths => .ok paths
  else match config.devicePath with
    | none => .error .invalidParam
    | some path => .ok [path]

/-! ### Devices -/

/-- The last lines of `kv_engine_open_device`: the path copy and the health fields. -/
def finishOpenDevice (i : ℕ) (path : String) : M KvResult := do
  let copied ← atomically (.acquire (.devicePath i))
  atomically (.initDeviceCtx i (if copied then some path else none))
  return .success

/-- `kv_engine_open_device`: open the device, then open its keyspace, creating it first when
it cannot be opened. -/
def kvEngineOpenDevice (i : ℕ) (path : String) : M KvResult := do
  let kvsRes ← atomically (.kvsOpenDevice i path)
  if kvsRes ≠ .success then return .deviceOpen
  else do
    let kvsRes ← atomically (.kvsOpenKeySpace i)
    if kvsRes = .success then finishOpenDevice i path
    else do
      let kvsRes ← atomically (.kvsCreateKeySpace i)
      if kvsRes ≠ .success then do
        atomically (.kvsCloseDevice i)
        return .deviceOpen
      else do
        let kvsRes ← atomically (.kvsOpenKeySpace i)
        if kvsRes ≠ .success then do
          atomically (.kvsCloseDevice i)
          return .deviceOpen
        else finishOpenDevice i path

/-- `kv_engine_close_device`. -/
def kvEngineCloseDevice (i : ℕ) : M Unit := do
  atomically (.kvsCloseKeySpace i)
  atomically (.kvsCloseDevice i)
  atomically (.release (.devicePath i))
  atomically (.freeDevicePath i)

/-- Close the listed slots in order. -/
def closeDevices : List ℕ → M Unit
  | [] => pure ()
  | i :: is => do
      kvEngineCloseDevice i
      closeDevices is

/-- The device loop of `kv_engine_init`, from slot `i` on. -/
def openDevices (i : ℕ) : List String → M KvResult
  | [] => return .success
  | path :: paths => do
      let res ← kvEngineOpenDevice i path
      if res ≠ .success then do
        closeDevices (List.range i)
        return res
      else do
        atomically (.storeNumDevices (i + 1))
        openDevices (i + 1) paths

/-! ### Pools -/

/-- `memory_pool_create`. -/
def memoryPoolCreate : M Bool := do
  let pool ← atomically (.acquire .memPool)
  if !pool then return false
  else do
    let base ← atomically (.acquire .memPoolBase)
    if !base then do
      atomically (.release .memPool)
      return false
    else do
      let _ ← atomically (.acquire (.lock .memPool))
      return true

/-- `memory_pool_destroy`. -/
def memoryPoolDestroy : M Unit := do
  atomically (.release .memPoolBase)
  atomically (.release (.lock .memPool))
  atomically (.release .memPool)

/-- Join the listed workers. -/
def joinWorkers : List ℕ → M Unit
  | [] => pure ()
  | i :: is => do
      atomically (.release (.worker i))
      joinWorkers is

/-- Free what `thread_pool_create` allocated before its threads. -/
def freeThreadPool : M Unit := do
  atomically (.release (.lock .queue))
  atomically (.release .threadArray)
  atomically (.release .threadPool)

/-- The loop of `thread_pool_create` that starts the workers from `i` on. -/
def startWorkers (i : ℕ) : ℕ → M Bool
  | 0 => return true
  | n + 1 => do
      let started ← atomically (.acquire (.worker i))
      if !started then do
        joinWorkers (List.range i)
        freeThreadPool
        return false
      else startWorkers (i + 1) n

/-- `thread_pool_create`. -/
def threadPoolCreate (numThreads : ℕ) : M Bool := do
  if numThreads = 0 then return false
  else do
    let pool ← atomically (.acquire .threadPool)
    if !pool then return false
    else do
      let threads ← atomically (.acquire .threadArray)
      if !threads then do
        atomically (.release .threadPool)
        return false
      else do
        let _ ← atomically (.acquire (.lock .queue))
        startWorkers 0 numThreads

/-- `thread_pool_destroy` once the queue is drained (its protocol is in `ThreadPool.lean`). -/
def threadPoolDestroy (numThreads : ℕ) : M Unit := do
  joinWorkers (List.range numThreads)
  freeThreadPool

/-- `dma_free` of a slot of `all_buffers`. -/
def freeSlot : Option Addr → M Unit
  | some b => atomically (.free b)
  | none => atomically .freeUnwritten

/-- The buffer loop of `dma_pool_destroy` over the listed slots of `all_buffers`. -/
def freeSlots (p : DmaPool) : List ℕ → M Unit
  | [] => pure ()
  | i :: is => do
      freeSlot (p.allBuffers i)
      freeSlots p is

/-- `dma_pool_destroy`. -/
def dmaPoolDestroy (p : DmaPool) : M Unit := do
  freeSlots p (List.range p.count)
  atomically (.release .dmaAllBuffers)
  atomically (.release .dmaFreeList)
  atomically (.release (.lock .dmaPool))
  atomically (.release .dmaPool)

/-- The allocation loop of `dma_pool_create`: `n` buffers from slot `i` on. -/
def fillDmaPool (p : DmaPool) (i : ℕ) : ℕ → M (Option DmaPool)
  | 0 => do
      let _ ← atomically (.acquire (.lock .dmaPool))
      return some p
  | n + 1 => do
      let buf ← dmaAlloc p.bufferSize
      match buf with
      | none => do
          dmaPoolDestroy p
          return none
      | some b =>
          fillDmaPool
            { p with top := p.top + 1,
                     freeList := Function.update p.freeList (p.top + 1).toNat (some b),
                     allBuffers := Function.update p.allBuffers i (some b) } (i + 1) n

/-- `dma_pool_create`. -/
def dmaPoolCreate (bufferSize count : ℕ) : M (Option DmaPool) := do
  let pool ← atomically (.acquire .dmaPool)
  if !pool then return none
  else do
    let freeList ← atomically (.acquire .dmaFreeList)
    if !freeList then do
      atomically (.release .dmaPool)
      return none
    else do
      let allBuffers ← atomically (.acquire .dmaAllBuffers)
      if !allBuffers then do
        atomically (.release .dmaFreeList)
        atomically (.release .dmaPool)
        return none
      else fillDmaPool ⟨fun _ => none, fun _ => none, -1, bufferSize, count⟩ 0 count

/-- `health_probe_create`. -/
def healthProbeCreate : M Bool := do
  let probe ← atomically (.acquire .healthProbe)
  if !probe then return false
  else do
    let _ ← atomically (.acquire (.lock .probe))
    let started ← atomically (.acquire .probeThread)
    if !started then do
      atomically (.release (.lock .probe))
      atomically (.release .healthProbe)
      return false
    else return true

/-- `health_probe_destroy`. -/
def healthProbeDestroy : M Unit := do
  atomically (.release .probeThread)
  atomically (.release (.lock .probe))
  atomically (.release .healthProbe)

/-! ### Initialisation and cleanup -/

/-- Run the program only if the pointer it needs is not null. -/
def ifPresent (present : Bool) (p : M Unit) : M Unit := if present then p else pure ()

/-- `strdup` of an optional configuration string. -/
def copyString (r : Resource) : Option String → M Bool
  | none => return false
  | some _ => atomically (.acquire r)

/-- Close every device the engine has. -/
def closeAllDevices : M Unit := do
  let n ← atomically .loadNumDevices
  closeDevices (List.range n)

/-- `dma_pool_destroy` if there is a pool. -/
def destroyBufferPool : M Unit := do
  let pool ← atomically .loadBufferPool
  match pool with
  | none => pure ()
  | some p => dmaPoolDestroy p

/-- `thread_pool_destroy` if there is one. -/
def destroyWorkers (config : Config) : M Unit := do
  let workers ← atomically .loadWorkers
  ifPresent workers (threadPoolDestroy config.numWorkerThreads)

/-- `kv_engine_init` from the key table on. -/
def initTable (config : Config) (copiedPath copiedEmul : Bool) : M KvResult := do
  atomically .clearTable
  let table ← atomically (.acquire (.lock .keyTable))
  if !table then do
    destroyBufferPool
    destroyWorkers config
    memoryPoolDestroy
    closeAllDevices
    ifPresent copiedPath (atomically (.release .configDevicePath))
    ifPresent copiedEmul (atomically (.release .configEmulFile))
    atomically (.release (.lock .stats))
    atomically (.release .engine)
    return .noMemory
  else do
    let probe ← healthProbeCreate
    atomically (.setHealthProbe probe)
    atomically (.setInitialized true)
    return .success

/-- The optional DMA pool of `kv_engine_init`; a failed creation is not fatal. -/
def initBufferPool (config : Config) : M Unit := do
  if 0 < config.dmaPoolCount then do
    let pool ← dmaPoolCreate kvEngineRetrieveSize config.dmaPoolCount
    atomically (.setBufferPool pool)
  else pure ()

/-- `kv_engine_init` from the statistics on. -/
def initStats (config : Config) (copiedPath copiedEmul : Bool) : M KvResult := do
  let _ ← atomically (.acquire (.lock .stats))
  atomically .resetStats
  initBufferPool config
  initTable config copiedPath copiedEmul

/-- `kv_engine_init` from the memory pool on. -/
def initPools (config : Config) (copiedPath copiedEmul : Bool) : M KvResult := do
  let memPool ← memoryPoolCreate
  if !memPool then do
    closeAllDevices
    atomically (.release .engine)
    return .noMemory
  else do
    atomically (.setMemPool true)
    if 0 < config.numWorkerThreads then do
      let workers ← threadPoolCreate config.numWorkerThreads
      if !workers then do
        memoryPoolDestroy
        closeAllDevices
        atomically (.release .engine)
        return .noMemory
      else do
        atomically (.setWorkers true)
        initStats config copiedPath copiedEmul
    else initStats config copiedPath copiedEmul

/-- `kv_engine_init`. -/
def kvEngineInit (config : Config) : M KvResult := do
  let eng ← atomically (.acquire .engine)
  if !eng then return .noMemory
  else do
    atomically .memsetEngine
    let copiedPath ← copyString .configDevicePath config.devicePath
    let copiedEmul ← copyString .configEmulFile config.emulConfigFile
    match kvEngineResolveDevicePaths config with
    | .error res => do
        atomically (.release .engine)
        return res
    | .ok paths => do
        let res ← openDevices 0 paths
        if res ≠ .success then do
          atomically (.release .engine)
          return res
        else initPools config copiedPath copiedEmul

/-- `health_probe_destroy` if there is a probe. -/
def stopProbe : M Unit := do
  let probe ← atomically .loadHealthProbe
  ifPresent probe healthProbeDestroy

/-- `kv_engine_cleanup` once the workers are gone. -/
def releaseEngine (config : Config) : M Unit := do
  destroyBufferPool
  let memPool ← atomically .loadMemPool
  ifPresent memPool memoryPoolDestroy
  closeAllDevices
  atomically .clearTable
  atomically (.release (.lock .keyTable))
  ifPresent config.devicePath.isSome (atomically (.release .configDevicePath))
  ifPresent config.emulConfigFile.isSome (atomically (.release .configEmulFile))
  atomically (.release (.lock .stats))
  atomically (.release (.lock .hash))
  atomically (.release .engine)
  atomically .memsetEngine

/-- `kv_engine_cleanup` of an engine made with `config`; the engine block is gone after it. -/
def kvEngineCleanup (config : Config) : M Unit := do
  stopProbe
  destroyWorkers config
  releaseEngine config

/-! ### Statistics, growth and the probe -/

/-- `kv_engine_get_stats`. -/
def kvEngineGetStats : M (KvResult × Stats) := do
  let st ← atomically .getStats
  return (.success, st)

/-- `kv_engine_reset_stats`. -/
def kvEngineResetStats : M Unit := atomically .resetStats

/-- `kv_engine_add_device`. -/
def kvEngineAddDevice (devicePath : Option String) : M KvResult := do
  let initialized ← atomically .loadInitialized
  match devicePath with
  | none => return .invalidParam
  | some path =>
      if !initialized then return .invalidParam
      else do
        let current ← atomically .loadNumDevices
        if kvMaxDevices ≤ current then return .invalidParam
        else do
          let stats ← atomically .getStats
          if 0 < stats.writeOps then return .invalidParam
          else do
            let res ← kvEngineOpenDevice current path
            if res ≠ .success then return res
            else do
              atomically (.storeNumDevices (current + 1))
              return .success

/-! ### Health -/

/-- `kv_device_health_t`. -/
structure DeviceHealth where
  deviceIndex : ℕ
  healthy : Bool
  capacityBytes : UInt64
  utilizationPct : UInt32
  consecutiveErrors : UInt64
  totalErrors : UInt64
  totalOps : UInt64
  devicePath : String
deriving DecidableEq, Repr

/-- The number of characters that fit into `device_path` before its terminator. -/
def healthPathLength : ℕ := 255

/-- `kv_engine_get_device_health`; `out` tells whether the out-pointer is given.  A failed query
leaves its field at zero. -/
def kvEngineGetDeviceHealth (deviceIndex : ℕ) (out : Bool) : M (KvResult × Option DeviceHealth) := do
  let initialized ← atomically .loadInitialized
  if !initialized || !out then return (.invalidParam, none)
  else do
    let numDevices ← atomically .loadNumDevices
    if numDevices ≤ deviceIndex then return (.invalidParam, none)
    else do
      let healthy ← atomically (.loadHealthy deviceIndex)
      let consecutiveErrors ← atomically (.loadConsecutiveErrors deviceIndex)
      let totalErrors ← atomically (.loadTotalErrors deviceIndex)
      let totalOps ← atomically (.loadTotalOps deviceIndex)
      let path ← atomically (.loadDevicePath deviceIndex)
      let capacity ← atomically (.kvsGetDeviceCapacity deviceIndex)
      let utilization ← atomically (.kvsReadUtilization deviceIndex)
      return (.success, some {
        deviceIndex := deviceIndex
        healthy := healthy
        capacityBytes := if capacity.1 = .success then capacity.2 else 0
        utilizationPct := if utilization.1 = .success then utilization.2 else 0
        consecutiveErrors := consecutiveErrors
        totalErrors := totalErrors
        totalOps := totalOps
        devicePath := (path.elim "" fun p => String.ofList (p.toList.take healthPathLength)) })

/-- The loop of `kv_engine_healthy_device_count` from slot `i` on, with as many turns as there
can be devices. -/
def countHealthyFrom (i : ℕ) : ℕ → ℕ → M ℕ
  | 0, count => return count
  | turns + 1, count => do
      let n ← atomically .loadNumDevices
      if i < n then do
        let healthy ← atomically (.loadHealthy i)
        countHealthyFrom (i + 1) turns (if healthy then count + 1 else count)
      else return count

/-- `kv_engine_healthy_device_count`. -/
def kvEngineHealthyDeviceCount : M ℕ := do
  let initialized ← atomically .loadInitialized
  if !initialized then return 0 else countHealthyFrom 0 kvMaxDevices 0

/-- `recovery_threshold`. -/
def recoveryThreshold : UInt32 := 3

/-- The body of the device recovery loop of `health_probe_thread` for slot `i`;
`recoveryCounts` is local to the probe thread. -/
def probeDevice (recoveryCounts : ℕ → UInt32) (i : ℕ) : M (ℕ → UInt32) := do
  let healthy ← atomically (.loadHealthy i)
  if healthy then return recoveryCounts
  else do
    let res ← atomically (.kvsGetDeviceUtilization i)
    if res = .success then
      if recoveryThreshold ≤ recoveryCounts i + 1 then do
        atomically (.storeHealthy i true)
        atomically (.storeConsecutiveErrors i 0)
        return Function.update recoveryCounts i 0
      else return Function.update recoveryCounts i (recoveryCounts i + 1)
    else return Function.update recoveryCounts i 0

/-- The device recovery loop from slot `i` on.  The bound is read again at every turn; it
never exceeds `KV_MAX_DEVICES`, so as many turns are enough. -/
def probeSweepFrom (i : ℕ) : ℕ → (ℕ → UInt32) → M (ℕ → UInt32)
  | 0, recoveryCounts => return recoveryCounts
  | turns + 1, recoveryCounts => do
      let n ← atomically .loadNumDevices
      if i < n then do
        let recoveryCounts ← probeDevice recoveryCounts i
        probeSweepFrom (i + 1) turns recoveryCounts
      else return recoveryCounts

/-- One sweep of `health_probe_thread` over the devices. -/
def probeSweep (recoveryCounts : ℕ → UInt32) : M (ℕ → UInt32) :=
  probeSweepFrom 0 kvMaxDevices recoveryCounts

end KvEngine
