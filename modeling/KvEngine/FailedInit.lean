import KvEngine.Unwinding

/-! # Initialisations that fail

The six failure exits of `kv_engine_init` (`src/core/kv_engine.c`): whatever the configuration, the
devices and the allocator are, a call that does not return success turns nothing into what it leaks.
The devices and the pools are always given back.  The copies of the two configuration strings are
freed by the last exit only, the one of the key table. -/

namespace KvEngine

open Atomic

variable {δ : Type} {D : Driver δ}

/-! ### How far a failed call came -/

/-- The actions before the DMA pool and the key table, apart from the copies of the strings. -/
def Act.Preparing : Act → Prop
  | .clearTable => False
  | .setInitialized _ => False
  | .freeUnwritten => False
  | .alloc _ => False
  | .acquire .configDevicePath => False
  | .acquire .configEmulFile => False
  | _ => True

theorem Act.preparing_acquire {r : Resource} (hr : r.isString = false) :
    (Act.acquire r).Preparing := by
  cases r <;> first | exact trivial | cases hr

theorem memoryPoolCreate_preparing : memoryPoolCreate.Performs Act.Preparing :=
  memoryPoolCreate_performs (fun _ => Act.preparing_acquire) fun _ => trivial

theorem memoryPoolDestroy_preparing : memoryPoolDestroy.Performs Act.Preparing :=
  ⟨trivial, fun _ => ⟨trivial, fun _ => ⟨trivial, fun _ => trivial⟩⟩⟩

theorem threadPoolCreate_preparing (n : ℕ) : (threadPoolCreate n).Performs Act.Preparing :=
  threadPoolCreate_performs (fun _ => Act.preparing_acquire) (fun _ => trivial) n

theorem closeDevices_preparing (is : List ℕ) : (closeDevices is).Performs Act.Preparing :=
  closeDevices_performs (fun _ => trivial) (fun _ => trivial) (fun _ => trivial)
    (fun _ => trivial) is

theorem closeAllDevices_preparing : closeAllDevices.Performs Act.Preparing :=
  ⟨trivial, fun n => closeDevices_preparing (List.range n)⟩

theorem kvEngineOpenDevice_preparing (i : ℕ) (path : String) :
    (kvEngineOpenDevice i path).Performs Act.Preparing := by
  have hfinish : (finishOpenDevice i path).Performs Act.Preparing :=
    ⟨trivial, fun _ => ⟨trivial, fun _ => trivial⟩⟩
  have hclose : (do atomically (.kvsCloseDevice i); return .deviceOpen : M KvResult).Performs
      Act.Preparing := ⟨trivial, fun _ => trivial⟩
  simp only [kvEngineOpenDevice, Prog.perform_bind] at hclose ⊢
  refine ⟨trivial, fun r₁ => ?_⟩
  dsimp only
  split
  · trivial
  · refine ⟨trivial, fun r₂ => ?_⟩
    dsimp only
    split
    · exact hfinish
    · refine ⟨trivial, fun r₃ => ?_⟩
      dsimp only
      split
      · exact hclose
      · refine ⟨trivial, fun r₄ => ?_⟩
        dsimp only
        split
        · exact hclose
        · exact hfinish

theorem openDevices_preparing (i : ℕ) (paths : List String) :
    (openDevices i paths).Performs Act.Preparing := by
  induction paths generalizing i with
  | nil => trivial
  | cons path paths ih =>
      refine (kvEngineOpenDevice_preparing i path).bind fun res => ?_
      split
      · exact (closeDevices_preparing _).bind fun _ => trivial
      · exact ⟨trivial, fun _ => ih (i + 1)⟩

/-- A string of the configuration is copied. -/
def copiesString : EngineDeed δ → Bool
  | ⟨_, .acquire .configDevicePath, ok⟩ => ok
  | ⟨_, .acquire .configEmulFile, ok⟩ => ok
  | _ => false

/-- `dma_alloc` asks the allocator for a buffer and gets none. -/
def refusesBuffer : EngineDeed δ → Bool
  | ⟨_, .alloc _, none⟩ => true
  | _ => false

section reach

variable {ds es : List (EngineDeed δ)}

/-- The call came to the key table. -/
def ReachesTable (ds : List (EngineDeed δ)) : Prop := ∃ d ∈ ds, d.act = .clearTable

/-- The engine pointer has been written. -/
def Publishes (ds : List (EngineDeed δ)) : Prop := ∃ d ∈ ds, d.act = .setInitialized true

/-- The engine is not published, and slots of the DMA pool that were never written are freed only
if a buffer was refused. -/
structure Withheld (ds : List (EngineDeed δ)) : Prop where
  unpublished : ¬ Publishes ds
  unwritten_iff : FreesUnwritten ds ↔ ∃ d ∈ ds, refusesBuffer d

theorem Withheld.append (h : Withheld ds) (h' : Withheld es) : Withheld (ds ++ es) where
  unpublished := Deed.not_exists_act_append h.unpublished h'.unpublished
  unwritten_iff := by
    rw [freesUnwritten_append, h.unwritten_iff, h'.unwritten_iff]
    simp only [List.mem_append, or_and_right, exists_or]

/-- Actions that have nothing to do with the DMA pool. -/
def Act.Aloof : Act → Prop
  | .setInitialized _ => False
  | .freeUnwritten => False
  | .alloc _ => False
  | _ => True

theorem Act.Preparing.aloof {a : Act} (h : a.Preparing) : a.Aloof := by
  cases a <;> first | exact h | exact trivial

theorem Withheld.of_aloof (h : ∀ d ∈ ds, d.act.Aloof) : Withheld ds where
  unpublished := Deed.not_exists_act h id
  unwritten_iff := by
    constructor
    · exact fun hfree => absurd hfree (Deed.not_exists_act h id)
    · rintro ⟨⟨s, a, r⟩, hd, hrefused⟩
      have := h _ hd
      cases a <;> first | exact this.elim | cases hrefused

theorem Withheld.cons {d : EngineDeed δ} (hd : d.act.Aloof) (h : Withheld ds) :
    Withheld (d :: ds) := by
  have hone : Withheld [d] := .of_aloof (by simpa using hd)
  exact hone.append h

theorem Withheld.of_performs {α : Type} {p : M α} (hp : p.Performs Act.Aloof) (s : State δ) :
    Withheld (p.trail (exec D) s) :=
  .of_aloof (hp.trail (exec D) s)

/-- A failed call that came to the key table. -/
structure LateExit (ds : List (EngineDeed δ)) : Prop where
  withheld : Withheld ds
  reaches : ReachesTable ds

theorem LateExit.append (h : Withheld ds) (h' : LateExit es) : LateExit (ds ++ es) where
  withheld := h.append h'.withheld
  reaches := h'.reaches.imp fun _ hd => ⟨List.mem_append_right ds hd.1, hd.2⟩

theorem LateExit.cons {d : EngineDeed δ} (hd : d.act.Aloof) (h : LateExit ds) :
    LateExit (d :: ds) := by
  have hone : Withheld [d] := .of_aloof (by simpa using hd)
  exact .append hone h

end reach

/-- The destructor of a DMA pool allocates nothing. -/
theorem trail_dmaPoolDestroy (p : DmaPool) (s : State δ) :
    ¬ Publishes ((dmaPoolDestroy p).trail (exec D) s) ∧
      ¬ ∃ d ∈ (dmaPoolDestroy p).trail (exec D) s, refusesBuffer d := by
  have hperforms : (dmaPoolDestroy p).Performs fun a => a = .freeUnwritten ∨ a.Aloof :=
    dmaPoolDestroy_performs (fun _ => .inr trivial) (.inl rfl) (fun _ => .inr trivial) p
  have hdeeds := hperforms.trail (exec D) s
  constructor
  · have hnot : ¬ (Act.setInitialized true = .freeUnwritten ∨ (Act.setInitialized true).Aloof) := by
      simp [Act.Aloof]
    exact Deed.not_exists_act (Q := fun a => a = .freeUnwritten ∨ a.Aloof) hdeeds hnot
  · rintro ⟨⟨t, a, r⟩, hd, hrefused⟩
    have := hdeeds _ hd
    cases a <;> first | cases hrefused | simp [Act.Aloof] at this

/-- The destructor of a complete pool frees no unwritten slot. -/
theorem dmaPoolDestroy_withheld {p : DmaPool} (hp : p.Sound) (s : State δ) :
    Withheld ((dmaPoolDestroy p).trail (exec D) s) := by
  obtain ⟨hunpublished, hrefuses⟩ := trail_dmaPoolDestroy (D := D) p s
  refine ⟨hunpublished, ⟨fun hfree => ?_, fun h => absurd h hrefuses⟩⟩
  obtain ⟨i, hi, hnone⟩ := (freesUnwritten_dmaPoolDestroy_iff p s).mp hfree
  exact absurd (hp.filled i hi) (by simp [hnone])

theorem fillDmaPool_withheld {p : DmaPool} {i n : ℕ} (hp : p.Partial i n) (hsize : p.bufferSize ≠ 0)
    (s : State δ) : Withheld ((fillDmaPool p i n).trail (exec D) s) := by
  induction n generalizing p i s with
  | zero =>
      refine Withheld.of_performs ?_ s
      exact ⟨trivial, fun _ => trivial⟩
  | succ n ih =>
      simp only [fillDmaPool, dmaAlloc, hsize, if_false, Prog.perform_bind, Prog.trail_act, exec,
        State.nextAlloc]
      cases hblock : s.heap 0 with
      | none =>
          simp only [Prog.trail_bind, Prog.pure_eq, Prog.trail_ret, List.append_nil]
          have htorn := TornDown.of_destroy (D := D) hp s.dropAlloc
          refine ⟨?_, ⟨fun _ => ⟨_, List.mem_cons_self, rfl⟩, fun _ => ?_⟩⟩
          · have hone : ¬ Publishes [(⟨s, .alloc p.bufferSize, none⟩ : EngineDeed δ)] := by
              simp [Publishes]
            exact Deed.not_exists_act_append hone (trail_dmaPoolDestroy p s.dropAlloc).1
          · exact (freesUnwritten_append [_] _).mpr (.inr htorn.unwritten)
      | some b =>
          have hone : Withheld [(⟨s, .alloc p.bufferSize, some b⟩ : EngineDeed δ)] := by
            constructor <;> simp [Publishes, FreesUnwritten, refusesBuffer]
          exact hone.append (ih (hp.put b) hsize s.dropAlloc)

theorem dmaPoolCreate_withheld {bufferSize : ℕ} (hsize : bufferSize ≠ 0) (count : ℕ) (s : State δ) :
    Withheld ((dmaPoolCreate bufferSize count).trail (exec D) s) := by
  simp only [dmaPoolCreate, Prog.perform_bind, Prog.trail_act, exec, State.nextAlloc]
  refine .cons trivial ?_
  by_cases hpool : (s.heap 0).isSome = true
  · simp only [hpool, Bool.not_true, Bool.false_eq_true, if_false, Prog.trail_act, exec,
      State.nextAlloc, State.dropAlloc]
    refine .cons trivial ?_
    by_cases hlist : (s.heap (0 + 1)).isSome = true
    · simp only [hlist, Bool.not_true, Bool.false_eq_true, if_false, Prog.trail_act, exec,
        State.nextAlloc, State.dropAlloc]
      refine .cons trivial ?_
      by_cases hall : (s.heap (0 + 1 + 1)).isSome = true
      · simp only [hall, Bool.not_true, Bool.false_eq_true, if_false]
        exact fillDmaPool_withheld ⟨(Nat.zero_add count).symm, fun _ _ => rfl⟩ hsize _
      · simp only [hall]
        refine Withheld.of_performs ?_ _
        exact ⟨trivial, fun _ => ⟨trivial, fun _ => trivial⟩⟩
    · simp only [hlist]
      refine Withheld.of_performs ?_ _
      exact ⟨trivial, fun _ => trivial⟩
  · simp only [hpool]
    refine Withheld.of_performs ?_ _
    trivial

theorem initBufferPool_withheld (config : Config) (s : State δ) :
    Withheld ((initBufferPool config).trail (exec D) s) := by
  unfold initBufferPool
  split
  · rw [Prog.trail_bind]
    refine (dmaPoolCreate_withheld (by decide) _ s).append (Withheld.of_performs ?_ _)
    exact ⟨trivial, fun _ => trivial⟩
  · refine Withheld.of_performs ?_ _
    trivial

theorem run_initBufferPool_sound {config : Config} {s : State δ} (hpool : s.bufferPool = none)
    {p : DmaPool} (hp : (run D (initBufferPool config) s).2.bufferPool = some p) : p.Sound := by
  unfold initBufferPool at hp
  split at hp
  · simp only [Prog.run_bind, Prog.run_perform, exec] at hp
    exact ((dmaPoolCreate_ensures kvEngineRetrieveSize config.dmaPoolCount).run (exec D) s p hp).1
  · simp [hpool] at hp

/-- What the exit of the key table does besides destroying the DMA pool. -/
theorem unwindTable_aloof (config : Config) (copiedPath copiedEmul : Bool) :
    (do
      destroyWorkers config
      memoryPoolDestroy
      closeAllDevices
      ifPresent copiedPath (atomically (.release .configDevicePath))
      ifPresent copiedEmul (atomically (.release .configEmulFile))
      atomically (.release (.lock .stats))
      atomically (.release .engine)
      return .noMemory : M KvResult).Performs Act.Aloof := by
  have hpresent (present : Bool) {p : M Unit} (hp : p.Performs Act.Aloof) :
      (ifPresent present p).Performs Act.Aloof := by
    cases present with
    | false => trivial
    | true => exact hp
  have hrelease (r : Resource) : (atomically (.release r)).Performs Act.Aloof :=
    ⟨trivial, fun _ => trivial⟩
  have hworkers : (destroyWorkers config).Performs Act.Aloof :=
    ⟨trivial, fun _ => hpresent _ (threadPoolDestroy_performs (fun _ => trivial) _)⟩
  have hmem := memoryPoolDestroy_preparing.mono fun _ => Act.Preparing.aloof
  have hclose := closeAllDevices_preparing.mono fun _ => Act.Preparing.aloof
  refine hworkers.bind fun _ => hmem.bind fun _ => hclose.bind fun _ => ?_
  refine (hpresent _ (hrelease _)).bind fun _ => (hpresent _ (hrelease _)).bind fun _ => ?_
  exact ⟨trivial, fun _ => ⟨trivial, fun _ => trivial⟩⟩

theorem destroyBufferPool_withheld {s : State δ} (hpool : ∀ p, s.bufferPool = some p → p.Sound) :
    Withheld (destroyBufferPool.trail (exec D) s) := by
  simp only [destroyBufferPool, Prog.perform_bind, Prog.trail_act, exec]
  refine .cons trivial ?_
  cases hp : s.bufferPool with
  | none => exact Withheld.of_aloof (by simp)
  | some p => exact dmaPoolDestroy_withheld (hpool p hp) s

theorem initTable_late {config : Config} {copiedPath copiedEmul : Bool} {s : State δ}
    (hpool : ∀ p, s.bufferPool = some p → p.Sound)
    (h : (run D (initTable config copiedPath copiedEmul) s).1 ≠ .success) :
    LateExit ((initTable config copiedPath copiedEmul).trail (exec D) s) := by
  simp only [initTable, Prog.perform_bind, Prog.run_act, Prog.trail_act, exec, State.nextAlloc] at h ⊢
  by_cases htable : (s.heap 0).isSome = true
  · simp [htable, Prog.run_bind] at h
  · simp only [htable, Bool.not_false, if_true]
    refine ⟨?_, _, List.mem_cons_self, rfl⟩
    refine .cons trivial (.cons trivial ?_)
    rw [Prog.trail_bind]
    refine Withheld.append (destroyBufferPool_withheld ?_)
      (.of_performs (unwindTable_aloof config copiedPath copiedEmul) _)
    exact hpool

theorem initStats_late {config : Config} {copiedPath copiedEmul : Bool} {s : State δ}
    (hpool : s.bufferPool = none)
    (h : (run D (initStats config copiedPath copiedEmul) s).1 ≠ .success) :
    LateExit ((initStats config copiedPath copiedEmul).trail (exec D) s) := by
  simp only [initStats, Prog.perform_bind, Prog.run_act, Prog.trail_act, exec, Prog.run_bind,
    Prog.trail_bind] at h ⊢
  refine .cons trivial (.cons trivial (.append (initBufferPool_withheld config _) ?_))
  refine initTable_late (fun p hp => ?_) h
  exact run_initBufferPool_sound (s := { s.dropAlloc with stats := .zero }) hpool hp

/-- A failed call that did not come to the key table. -/
def EarlyExit (ds : List (EngineDeed δ)) : Prop := ∀ d ∈ ds, d.act.Preparing

theorem EarlyExit.append {ds es : List (EngineDeed δ)} (h : EarlyExit ds) (h' : EarlyExit es) :
    EarlyExit (ds ++ es) := fun d hd => (List.mem_append.mp hd).elim (h d) (h' d)

/-- A failed run fails before the key table and leaves `left`, or at the key table and leaves
nothing. -/
def ExitsWith {α : Type} (D : Driver δ) (base : Multiset Asset) (p : M α) (s : State δ)
    (left : Multiset Asset) : Prop :=
  (EarlyExit (p.trail (exec D) s) ∧ Turns D base p s left) ∨
    (LateExit (p.trail (exec D) s) ∧ Turns D base p s 0)

theorem ExitsWith.bind {α β : Type} {base mid left : Multiset Asset} {p : M α} {f : α → M β}
    {s : State δ} (hp : p.Performs Act.Preparing) (hturns : Turns D base p s mid)
    (h : ExitsWith D mid (f (run D p s).1) (run D p s).2 left) :
    ExitsWith D base (p >>= f) s left := by
  have hdeeds := hp.trail (exec D) s
  unfold ExitsWith
  rw [Prog.trail_bind]
  rcases h with ⟨hearly, hrest⟩ | ⟨hlate, hrest⟩
  · exact .inl ⟨EarlyExit.append hdeeds hearly, hturns.bind hrest⟩
  · refine .inr ⟨.append (.of_aloof fun d hd => (hdeeds d hd).aloof) hlate, hturns.bind hrest⟩

theorem ExitsWith.act {α : Type} {base left : Multiset Asset} {a : Act} {k : a.Resp → M α}
    {s : State δ} (ha : a.Preparing) (hunbooked : a.Unbooked)
    (h : ExitsWith D base (k (exec D a s).1) (exec D a s).2 left) :
    ExitsWith D base (.act a k) s left :=
  ExitsWith.bind (p := atomically a) ⟨ha, fun _ => trivial⟩ (turns_unbooked hunbooked (.ret _)) h

/-- The exit of the memory pool and of the thread pool frees the engine and keeps the strings. -/
theorem closeEngine_exits (copiedPath copiedEmul : Bool) (res : KvResult) (s : State δ) :
    ExitsWith D (s.engineAssets copiedPath copiedEmul)
      (do
        closeAllDevices
        atomically (.release .engine)
        return res) s (stringAssets copiedPath copiedEmul) := by
  refine ExitsWith.bind closeAllDevices_preparing ((closeAllDevices_turns s).spend _) (.inl ⟨?_, ?_⟩)
  · refine Prog.Performs.trail (exec D) ?_ _
    exact ⟨trivial, fun _ => trivial⟩
  · exact turns_release rfl (.ret _)

/-- `kv_engine_init` from the memory pool on: the exits of the two pools keep the strings. -/
theorem initPools_exits {config : Config} {copiedPath copiedEmul : Bool} {s : State δ}
    (hworkers : s.workers = false) (hpool : s.bufferPool = none)
    (h : (run D (initPools config copiedPath copiedEmul) s).1 ≠ .success) :
    ExitsWith D (s.engineAssets copiedPath copiedEmul) (initPools config copiedPath copiedEmul) s
      (stringAssets copiedPath copiedEmul) := by
  obtain ⟨n, hn⟩ := run_allocates (D := D) memoryPoolCreate_allocates s
  have hmemory := (memoryPoolCreate_turns (D := D) s).earn (s.engineAssets copiedPath copiedEmul)
  simp only [initPools, Prog.run_bind, hn] at h
  refine ExitsWith.bind memoryPoolCreate_preparing hmemory ?_
  by_cases hmem : (run D memoryPoolCreate s).1 = true
  · simp only [hmem, Bool.not_true, Bool.false_eq_true, if_false, if_true, Prog.perform_bind,
      Prog.run_act, exec, hn] at h ⊢
    refine .act trivial trivial ?_
    simp only [exec]
    by_cases hw : 0 < config.numWorkerThreads
    · obtain ⟨m, hm⟩ := run_allocates (D := D) (threadPoolCreate_allocates config.numWorkerThreads)
        { s.skip n with memPool := true }
      simp only [hw, if_true, Prog.run_bind, hm] at h ⊢
      refine ExitsWith.bind (threadPoolCreate_preparing _)
        ((threadPoolCreate_turns config.numWorkerThreads _).earn _) ?_
      by_cases hthreads : (run D (threadPoolCreate config.numWorkerThreads)
          { s.skip n with memPool := true }).1 = true
      · simp only [hthreads, Bool.not_true, Bool.false_eq_true, if_false, if_true, Prog.run_act,
          exec, hm] at h ⊢
        exact .act trivial trivial (.inr ⟨initStats_late hpool h, initStats_turns hpool h⟩)
      · simp only [hthreads, Bool.not_false, Bool.false_eq_true, if_false, if_true, add_zero, hm]
        refine ExitsWith.bind memoryPoolDestroy_preparing ((memoryPoolDestroy_turns _).spend _) ?_
        exact closeEngine_exits copiedPath copiedEmul _ _
    · simp only [hw, if_false] at h ⊢
      have hnone : State.workerAssets { s.skip n with memPool := true } config = 0 := by
        simp [State.workerAssets, State.skip, hworkers]
      have hturns := initStats_turns (s := { s.skip n with memPool := true }) hpool h
      rw [hnone, add_zero] at hturns
      exact .inr ⟨initStats_late hpool h, hturns⟩
  · simp only [hmem, Bool.not_false, Bool.false_eq_true, if_false, if_true, add_zero, hn]
    exact closeEngine_exits copiedPath copiedEmul _ _

/-- A successful device loop leaves the pools alone. -/
theorem run_openDevices_pools {i : ℕ} {paths : List String} {s : State δ}
    (h : (run D (openDevices i paths) s).1 = .success) :
    (run D (openDevices i paths) s).2.workers = s.workers ∧
      (run D (openDevices i paths) s).2.bufferPool = s.bufferPool := by
  induction paths generalizing i s with
  | nil => exact ⟨rfl, rfl⟩
  | cons path paths ih =>
      obtain ⟨r, d, c, n, hopen, -, -⟩ := run_kvEngineOpenDevice_cases (D := D) s i path
      simp only [openDevices, Prog.run_bind, hopen] at h ⊢
      by_cases hr : r = .success
      · simp only [hr, ne_eq, not_true_eq_false, if_false, Prog.perform_bind, Prog.run_act,
          exec] at h ⊢
        exact ih h
      · simp [hr, Prog.run_bind] at h

/-- `kv_engine_init` once the strings are copied. -/
def initDevices (config : Config) (copiedPath copiedEmul : Bool) : M KvResult :=
  match kvEngineResolveDevicePaths config with
  | .error res => do
      atomically (.release .engine)
      return res
  | .ok paths => do
      let res ← openDevices 0 paths
      if res ≠ .success then do
        atomically (.release .engine)
        return res
      else initPools config copiedPath copiedEmul

theorem initDevices_exits {config : Config} {copiedPath copiedEmul : Bool} {s : State δ}
    (hzero : ∀ i, s.devices i = .zero) (hworkers : s.workers = false) (hpool : s.bufferPool = none)
    (h : (run D (initDevices config copiedPath copiedEmul) s).1 ≠ .success) :
    ExitsWith D (stringAssets copiedPath copiedEmul + {.resource .engine})
      (initDevices config copiedPath copiedEmul) s (stringAssets copiedPath copiedEmul) := by
  have hrelease (res : KvResult) (t : State δ) :
      ExitsWith D (stringAssets copiedPath copiedEmul + {.resource .engine})
        (do
          atomically (.release .engine)
          return res) t (stringAssets copiedPath copiedEmul) := by
    refine .inl ⟨?_, turns_release rfl (.ret _)⟩
    refine Prog.Performs.trail (exec D) ?_ _
    exact ⟨trivial, fun _ => trivial⟩
  cases hpaths : kvEngineResolveDevicePaths config with
  | error res =>
      simp only [initDevices, hpaths]
      exact hrelease res s
  | ok paths =>
      simp only [initDevices, hpaths, Prog.run_bind] at h ⊢
      have hopen : Turns D 0 (openDevices 0 paths) s _ := openDevices_turns fun j _ => hzero j
      refine ExitsWith.bind (openDevices_preparing 0 paths) (hopen.earn _) ?_
      by_cases hres : (run D (openDevices 0 paths) s).1 = .success
      · have hopened := run_openDevices_success hres
        obtain ⟨hworkers', hpool'⟩ := run_openDevices_pools hres
        have hne : paths ≠ [] := by
          rintro rfl
          exact absurd (kvEngineResolveDevicePaths_length hpaths).1 (by simp)
        simp only [hres, ne_eq, not_true_eq_false, if_false, if_true] at h ⊢
        rw [← hopened.numDevices hne]
        exact initPools_exits (hworkers'.trans hworkers) (hpool'.trans hpool) h
      · simp only [hres, ne_eq, not_false_eq_true, if_true, if_false, add_zero]
        exact hrelease _ _

/-! ### Copies of the strings -/

theorem copyString_turns {r : Resource} (hr : r.isLock = false) (text : Option String) (s : State δ) :
    Turns D 0 (copyString r text) s (owned (run D (copyString r text) s).1 (.resource r)) := by
  cases text with
  | none => exact .ret _
  | some t =>
      refine turns_acquire hr ?_
      rw [zero_add]
      exact .ret _

theorem copyString_performs (r : Resource) (text : Option String) :
    (copyString r text).Performs (· = .acquire r) := by
  cases text with
  | none => trivial
  | some _ => exact ⟨rfl, fun _ => trivial⟩

theorem copiesString_copyString {r : Resource} (hr : r = .configDevicePath ∨ r = .configEmulFile)
    (text : Option String) (s : State δ) :
    (∃ d ∈ (copyString r text).trail (exec D) s, copiesString d) ↔
      (run D (copyString r text) s).1 = true := by
  cases text with
  | none => simp [copyString]
  | some _ => rcases hr with rfl | rfl <;> simp [copyString, copiesString, Prog.perform]

/-- The string is copied in an early exit only by the copies. -/
theorem EarlyExit.not_copiesString {ds : List (EngineDeed δ)} (h : EarlyExit ds) :
    ¬ ∃ d ∈ ds, copiesString d := by
  rintro ⟨⟨s, a, r⟩, hd, hcopy⟩
  have := h _ hd
  cases a
  case acquire res => cases res <;> first | exact this.elim | cases hcopy
  all_goals cases hcopy

theorem EarlyExit.not_reachesTable {ds : List (EngineDeed δ)} (h : EarlyExit ds) :
    ¬ ReachesTable ds := Deed.not_exists_act h id

theorem stringAssets_eq_zero_iff (copiedPath copiedEmul : Bool) :
    stringAssets copiedPath copiedEmul = 0 ↔ ¬ (copiedPath = true ∨ copiedEmul = true) := by
  cases copiedPath <;> cases copiedEmul <;> simp [stringAssets]

/-- The two copies of `kv_engine_init`. -/
def copyStrings (config : Config) : M (Bool × Bool) := do
  let copiedPath ← copyString .configDevicePath config.devicePath
  let copiedEmul ← copyString .configEmulFile config.emulConfigFile
  return (copiedPath, copiedEmul)

theorem kvEngineInit_eq (config : Config) :
    kvEngineInit config = .act (.acquire .engine) fun eng =>
      if !eng then .ret .noMemory
      else .act .memsetEngine fun _ => copyStrings config >>= fun copied =>
        initDevices config copied.1 copied.2 := by
  simp only [kvEngineInit, copyStrings, Prog.perform_bind, bind_assoc, pure_bind]
  rfl

theorem copyStrings_performs (config : Config) :
    (copyStrings config).Performs fun a =>
      a = .acquire .configDevicePath ∨ a = .acquire .configEmulFile :=
  ((copyString_performs _ _).mono fun _ => .inl).bind fun _ =>
    ((copyString_performs _ _).mono fun _ => .inr).bind fun _ => trivial

theorem copyStrings_turns (config : Config) (s : State δ) :
    Turns D 0 (copyStrings config) s
      (stringAssets (run D (copyStrings config) s).1.1 (run D (copyStrings config) s).1.2) := by
  simp only [copyStrings, Prog.run_bind, Prog.pure_eq, Prog.run_ret, stringAssets]
  rw [add_comm]
  exact (copyString_turns rfl _ s).bind (((copyString_turns rfl _ _).earn _).bind (.ret _))

theorem copiesString_copyStrings (config : Config) (s : State δ) :
    (∃ d ∈ (copyStrings config).trail (exec D) s, copiesString d) ↔
      (run D (copyStrings config) s).1.1 = true ∨ (run D (copyStrings config) s).1.2 = true := by
  simp only [copyStrings, Prog.run_bind, Prog.trail_bind, Prog.pure_eq, Prog.run_ret,
    Prog.trail_ret, List.append_nil, List.mem_append, or_and_right, exists_or]
  rw [copiesString_copyString (.inl rfl), copiesString_copyString (.inr rfl)]

/-! ### The exits -/

/-- A failed call has released everything it acquired, each once, has freed nothing that it did not
acquire, and has not written the engine pointer. -/
structure ReleasesAll (ds : List (EngineDeed δ)) : Prop where
  settled : ledger.gained ds = ledger.given ds
  defined : ¬ FreesUnwritten ds
  unpublished : ¬ Publishes ds

/-- Which failed calls release everything. -/
abbrev Releasing (ds : List (EngineDeed δ)) : Prop :=
  (ReachesTable ds ∧ ¬ ∃ d ∈ ds, refusesBuffer d) ∨ (¬ ReachesTable ds ∧ ¬ ∃ d ∈ ds, copiesString d)

section exits

variable {α : Type} {p : M α} {s : State δ} {copiedPath copiedEmul : Bool}

theorem releasesAll_iff_of_early (haloof : ∀ d ∈ p.trail (exec D) s, d.act.Aloof)
    (hearly : ¬ ReachesTable (p.trail (exec D) s))
    (hcopies : (∃ d ∈ p.trail (exec D) s, copiesString d) ↔ copiedPath = true ∨ copiedEmul = true)
    (hturns : Turns D 0 p s (stringAssets copiedPath copiedEmul)) :
    ReleasesAll (p.trail (exec D) s) ↔ Releasing (p.trail (exec D) s) := by
  have hwithheld := Withheld.of_aloof haloof
  have hdefined : ¬ FreesUnwritten (p.trail (exec D) s) := Deed.not_exists_act haloof id
  have hsettled := hturns.settled_iff.trans (stringAssets_eq_zero_iff copiedPath copiedEmul)
  rw [← hcopies] at hsettled
  constructor
  · exact fun h => .inr ⟨hearly, hsettled.mp h.settled⟩
  · rintro (⟨hreach, -⟩ | ⟨-, hcopy⟩)
    · exact absurd hreach hearly
    · exact ⟨hsettled.mpr hcopy, hdefined, hwithheld.unpublished⟩

theorem releasesAll_iff_of_late (hlate : LateExit (p.trail (exec D) s)) (hturns : Turns D 0 p s 0) :
    ReleasesAll (p.trail (exec D) s) ↔ Releasing (p.trail (exec D) s) := by
  constructor
  · exact fun h => .inl ⟨hlate.reaches, fun hr => h.defined (hlate.withheld.unwritten_iff.mpr hr)⟩
  · rintro (⟨-, hrefuses⟩ | ⟨hreach, -⟩)
    · exact ⟨hturns.settled_iff.mpr rfl, fun hf => hrefuses (hlate.withheld.unwritten_iff.mp hf),
        hlate.withheld.unpublished⟩
    · exact absurd hlate.reaches hreach

end exits

/-- What comes before the first exit but one: the engine block and the strings. -/
structure Prologue (D : Driver δ) (config : Config) (s : State δ) (copied : Bool × Bool)
    (first : List (EngineDeed δ)) (t : State δ) : Prop where
  result : (run D (kvEngineInit config) s).1 = (run D (initDevices config copied.1 copied.2) t).1
  trail : (kvEngineInit config).trail (exec D) s =
    first ++ (initDevices config copied.1 copied.2).trail (exec D) t
  turns : ∀ left, Turns D (stringAssets copied.1 copied.2 + {.resource .engine})
    (initDevices config copied.1 copied.2) t left → Turns D 0 (kvEngineInit config) s left
  aloof : ∀ d ∈ first, d.act.Aloof
  noTable : ¬ ReachesTable first
  copies : (∃ d ∈ first, copiesString d) ↔ copied.1 = true ∨ copied.2 = true
  zeroed : ∃ u : State δ, t = u.memset

theorem kvEngineInit_prologue {config : Config} {s : State δ} (heng : s.nextAlloc.isSome = true) :
    ∃ copied first t, Prologue D config s copied first t := by
  have hacts := (copyStrings_performs config).trail (exec D) s.dropAlloc.memset
  obtain ⟨n, hn⟩ := run_allocates (D := D) ((copyStrings_performs config).mono fun a ha => by
    rcases ha with rfl | rfl <;> trivial) s.dropAlloc.memset
  refine ⟨(run D (copyStrings config) s.dropAlloc.memset).1,
    ⟨s, .acquire .engine, true⟩ :: ⟨s.dropAlloc, .memsetEngine, ()⟩ ::
      (copyStrings config).trail (exec D) s.dropAlloc.memset,
    s.dropAlloc.memset.skip n, ?_, ?_, fun left hleft => ?_, ?_, ?_, ?_, s.dropAlloc.skip n, rfl⟩
  · simp only [kvEngineInit_eq, Prog.run_act, exec, heng, Bool.not_true, Bool.false_eq_true, if_false,
      Prog.run_bind, hn]
  · simp only [kvEngineInit_eq, Prog.trail_act, exec, heng, Bool.not_true, Bool.false_eq_true,
      if_false, Prog.trail_bind, hn, List.cons_append]
  · rw [kvEngineInit_eq]
    refine turns_acquire rfl ?_
    simp only [heng, Bool.not_true, Bool.false_eq_true, if_false, owned_true, zero_add]
    refine turns_unbooked trivial (((copyStrings_turns config _).earn _).bind ?_)
    rw [add_comm]
    simp only [exec, hn]
    exact hleft
  · intro d hd
    simp only [List.mem_cons] at hd
    rcases hd with rfl | rfl | hd
    · trivial
    · trivial
    · rcases hacts d hd with hact | hact <;> simp [hact, Act.Aloof]
  · rintro ⟨d, hd, hact⟩
    simp only [List.mem_cons] at hd
    rcases hd with rfl | rfl | hd
    · cases hact
    · cases hact
    · rcases hacts d hd with h | h <;> simp [hact] at h
  · rw [← copiesString_copyStrings]
    simp [copiesString]

/-- A failed `kv_engine_init` leaks the copied strings before the key table, and nothing at the key
table. -/
theorem failed_init_releases_iff (D : Driver δ) (config : Config) (s : State δ)
    (hfail : (run D (kvEngineInit config) s).1 ≠ .success) :
    ReleasesAll ((kvEngineInit config).trail (exec D) s) ↔
      Releasing ((kvEngineInit config).trail (exec D) s) := by
  by_cases heng : s.nextAlloc.isSome = true
  · obtain ⟨copied, first, t, hfirst⟩ := @kvEngineInit_prologue δ D config s heng
    obtain ⟨u, rfl⟩ := hfirst.zeroed
    rw [hfirst.result] at hfail
    rcases initDevices_exits (fun _ => rfl) rfl rfl hfail with ⟨hearly, hturns⟩ | ⟨hlate, hturns⟩
    · refine releasesAll_iff_of_early ?_ ?_ ?_ (hfirst.turns _ hturns)
      · rw [hfirst.trail]
        intro d hd
        exact (List.mem_append.mp hd).elim (hfirst.aloof d) fun hd => (hearly d hd).aloof
      · rw [hfirst.trail]
        exact Deed.not_exists_act_append hfirst.noTable hearly.not_reachesTable
      · rw [hfirst.trail, ← hfirst.copies]
        simp only [List.mem_append, or_and_right, exists_or, hearly.not_copiesString, or_false]
    · refine releasesAll_iff_of_late ?_ (hfirst.turns _ hturns)
      rw [hfirst.trail]
      exact .append (.of_aloof hfirst.aloof) hlate
  · -- Without the engine block the call does nothing.
    have htrail : (kvEngineInit config).trail (exec D) s = [⟨s, .acquire .engine, false⟩] := by
      simp only [kvEngineInit_eq, Prog.trail_act, exec, heng]
      rfl
    have hturns : Turns D 0 (kvEngineInit config) s (stringAssets false false) := by
      unfold Turns Account.Turns
      rw [htrail]
      rfl
    refine releasesAll_iff_of_early ?_ ?_ ?_ hturns <;> rw [htrail]
    · simp [Act.Aloof]
    · simp [ReachesTable]
    · simp [copiesString]

/-- An allocator that fails when the key table of `twoDevices` is created. -/
def keyTableRefused : State KeySpace :=
  { State.blank fun _ => .empty with heap := fun n => if n = 17 then none else some n }

/-- The exit of the key table, with two devices, two workers and a DMA buffer to give back. -/
theorem failed_init_releases_iff_keyTableRefused :
    (run keySpaceDriver (kvEngineInit twoDevices) keyTableRefused).1 = .noMemory ∧
      ReleasesAll ((kvEngineInit twoDevices).trail (exec keySpaceDriver) keyTableRefused) := by
  have hresult : (run keySpaceDriver (kvEngineInit twoDevices) keyTableRefused).1 = .noMemory := rfl
  have hreach : ReachesTable
      ((kvEngineInit twoDevices).trail (exec keySpaceDriver) keyTableRefused) :=
    ⟨_, List.mem_of_getElem? (i := 34) rfl, rfl⟩
  have hrefuses : ((kvEngineInit twoDevices).trail (exec keySpaceDriver) keyTableRefused).any
      refusesBuffer = false := rfl
  have hfail : (run keySpaceDriver (kvEngineInit twoDevices) keyTableRefused).1 ≠ .success := by
    rw [hresult]
    nofun
  refine ⟨hresult, (failed_init_releases_iff keySpaceDriver twoDevices keyTableRefused hfail).mpr
    (.inl ⟨hreach, ?_⟩)⟩
  rw [← List.any_eq_true, hrefuses]
  nofun

/-- A single device given by `device_path`. -/
def oneDevice : Config where
  devicePath := some "/dev/nvme0n1"
  emulConfigFile := none
  memoryPoolSize := 0
  queueDepth := 0
  numWorkerThreads := 0
  devicePaths := fun _ => none
  numDevices := 0
  dmaPoolCount := 0

/-- A driver that finds no device. -/
def noDeviceDriver : Driver KeySpace :=
  { keySpaceDriver with openDevice := fun d => (.devNotExist, d) }

/-- The device does not exist: the engine is freed, and the copy of its path is not. -/
theorem failed_init_leaks_devicePath :
    (run noDeviceDriver (kvEngineInit oneDevice) (.blank fun _ => .empty)).1 = .deviceOpen ∧
    ((kvEngineInit oneDevice).trail (exec noDeviceDriver) (.blank fun _ => .empty)).map Deed.act =
      [.acquire .engine, .memsetEngine, .acquire .configDevicePath, .kvsOpenDevice 0 "/dev/nvme0n1",
        .release .engine] ∧
    ¬ ReleasesAll ((kvEngineInit oneDevice).trail (exec noDeviceDriver) (.blank fun _ => .empty)) := by
  refine ⟨rfl, rfl, fun h => ?_⟩
  have hgained : Asset.resource .configDevicePath ∈ ledger.gained
      ((kvEngineInit oneDevice).trail (exec noDeviceDriver) (.blank fun _ => .empty)) := by decide
  rw [h.settled] at hgained
  revert hgained
  decide

end KvEngine
