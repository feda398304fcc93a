import KvEngine.Async
import KvEngine.Api

/-! # An asynchronous call and its synchronous counterpart

A worker replays a request through the synchronous operation, with the arguments that
`async_context_create` copied.  For a retrieve and a delete the copy is exact.  For a store the
value sits in another buffer, so it may be bounced where the caller's would not be, and the
other way round; with allocations that succeed this leaves no trace (`run_kvEngineStore_copy`).

The same comparison, with an aligned and an unaligned pointer to the caller's bytes, is
`bounced_store_alike_iff`.

An empty value is not copied at all: the worker passes a null pointer, which `kv_engine_store`
refuses before it looks at anything else but `initialized`.  `async_agrees_iff` says that this
is the only difference. -/

namespace KvEngine

open Atomic

variable {δ : Type} {D : Driver δ}

/-! ### The replay -/

/-- The synchronous call with the arguments of an asynchronous one. -/
def AsyncCall.sync : AsyncCall → Call
  | .store key value _ _ overwrite => .store key value overwrite
  | .retrieve key _ _ => .retrieve key true false
  | .delete key _ _ => .delete key

/-- The argument for the callback. -/
def AsyncCall.userData : AsyncCall → ℕ
  | .store _ _ _ userData _ => userData
  | .retrieve _ _ userData => userData
  | .delete _ _ userData => userData

/-- The synchronous call a worker makes for a context. -/
def AsyncContext.call (ctx : AsyncContext) : Call :=
  match ctx.opType with
  | .store => .store (some ctx.keyBuffer) ctx.valueBuffer ctx.overwrite
  | .retrieve => .retrieve (some ctx.keyBuffer) true false
  | .delete => .delete (some ctx.keyBuffer)

/-- The callback of a context, if there is one. -/
def AsyncContext.completion (ctx : AsyncContext) : Bool :=
  match ctx.opType with
  | .retrieve => ctx.retrieveCallback
  | _ => ctx.callback

/-- The records of the asynchronous layer after a request. -/
def State.completed (s : State δ) (ctx : AsyncContext) (reply : Reply) : State δ :=
  { s with
    callbacks := if ctx.completion then
        s.callbacks ++ [⟨ctx.request, ctx.userData, reply.result, reply.value⟩]
      else s.callbacks
    freedContexts := s.freedContexts ++ [ctx.request] }

theorem run_complete (given : Bool) (c : Callback) (s : State δ) :
    run D (complete given c) s =
      ((), { s with callbacks := if given then s.callbacks ++ [c] else s.callbacks }) := by
  cases given <;> rfl

/-- A worker makes the synchronous call, calls back and frees the context. -/
theorem run_asyncWorkerFunc (ctx : AsyncContext) (s : State δ) :
    (run D (asyncWorkerFunc ctx) s).2 =
      (run D ctx.call.prog s).2.completed ctx (run D ctx.call.prog s).1 := by
  cases hop : ctx.opType <;>
    simp only [asyncWorkerFunc, AsyncContext.call, hop, Call.prog, Prog.run_bind, run_complete,
      Prog.run_perform, exec, State.completed, AsyncContext.completion, Prog.pure_eq, Prog.run_ret]

/-! ### The copied value -/

/-- The states agree on everything but the allocator, which has not run dry in either. -/
structure SameButHeap (s t : State δ) : Prop where
  eq : t = { s with heap := t.heap }
  left : s.AllocsSucceed
  right : t.AllocsSucceed

/-- The actions of a store after its bounce buffer. -/
def Act.StoreTail : Act → Prop
  | .keyTableAdd _ => True
  | .kvsStoreKvp .. => True
  | .fetchAddTotalOps _ => True
  | .fetchAddTotalErrors _ => True
  | .fetchAddConsecutiveErrors _ => True
  | .storeConsecutiveErrors _ _ => True
  | .storeHealthy _ _ => True
  | .loadMaxConsecutiveErrors _ => True
  | .free _ => True
  | .updateStats _ => True
  | _ => False

theorem deviceRecordResult_storeTail (i : ℕ) (r : KvsResult) :
    (deviceRecordResult i r).Performs Act.StoreTail :=
  (deviceRecordResult_records i r).mono fun a h => by
    cases a <;> first | exact trivial | exact h.elim

theorem storeTail_performs (key : Bytes) (i : ℕ) (value : Bytes) (overwrite : Bool)
    (b : Option Addr) : (storeTail key i value overwrite b).Performs Act.StoreTail := by
  refine ⟨trivial, fun _ => ⟨trivial, fun r => ?_⟩⟩
  refine (deviceRecordResult_storeTail i r).bind fun _ => ?_
  cases b with
  | none => exact ⟨trivial, fun _ => trivial⟩
  | some b => exact ⟨trivial, fun _ => ⟨trivial, fun _ => trivial⟩⟩

theorem exec_sameButHeap {a : Act} (ha : a.StoreTail) {s t : State δ} (h : SameButHeap s t) :
    (exec D a s).1 = (exec D a t).1 ∧ SameButHeap (exec D a s).2 (exec D a t).2 := by
  obtain ⟨heq, hs, ht⟩ := h
  generalize t.heap = heap at heq
  subst heq
  cases a with
  | keyTableAdd key =>
      refine ⟨rfl, ?_, State.addTableKey_allocs hs key, State.addTableKey_allocs ht key⟩
      simp only [exec, State.addTableKey]
      split
      · rfl
      · have hs₀ : s.nextAlloc.isSome = true := hs 0
        have ht₀ : (heap 0).isSome = true := ht 0
        simp [State.dropAlloc, State.nextAlloc, addKey] at hs₀ ⊢
        simp [hs₀, ht₀]
  | kvsStoreKvp i k v o =>
      simp only [exec, State.keyspaceCommand]
      split
      · exact ⟨rfl, rfl, hs, ht⟩
      · exact ⟨rfl, rfl, hs, ht⟩
  | fetchAddTotalOps i => exact ⟨rfl, rfl, hs, ht⟩
  | fetchAddTotalErrors i => exact ⟨rfl, rfl, hs, ht⟩
  | fetchAddConsecutiveErrors i => exact ⟨rfl, rfl, hs, ht⟩
  | storeConsecutiveErrors i v => exact ⟨rfl, rfl, hs, ht⟩
  | storeHealthy i b => exact ⟨rfl, rfl, hs, ht⟩
  | loadMaxConsecutiveErrors i => exact ⟨rfl, rfl, hs, ht⟩
  | free b => exact ⟨rfl, rfl, hs, ht⟩
  | updateStats u => exact ⟨rfl, rfl, hs, ht⟩
  | _ => exact ha.elim

/-- Where the value lies makes no difference to a store that is not empty. -/
theorem run_kvEngineStore_copy {s : State δ} (hs : s.AllocsSucceed) (key : Option Bytes)
    {value copy : Buf} (hcopy : copy.bytes = value.bytes) (hpos : value.bytes ≠ [])
    (overwrite : Bool) :
    (run D (kvEngineStore key (some value) overwrite) s).1 =
        (run D (kvEngineStore key (some copy) overwrite) s).1 ∧
      SameButHeap (run D (kvEngineStore key (some value) overwrite) s).2
        (run D (kvEngineStore key (some copy) overwrite) s).2 := by
  cases hk : s.admission true key with
  | error e =>
      simp only [kvEngineStore, run_guarded, Option.isSome_some, hk]
      exact ⟨trivial, rfl, hs, hs⟩
  | ok ki =>
      obtain ⟨k, i⟩ := ki
      obtain ⟨hready, n, hn⟩ := State.bounce_of_allocs hs hpos
      have hpos' : copy.bytes ≠ [] := by rwa [hcopy]
      obtain ⟨hready', n', hn'⟩ := State.bounce_of_allocs hs hpos'
      rw [run_kvEngineStore value overwrite hk, run_kvEngineStore copy overwrite hk, hready,
        hready', hn, hn', hcopy]
      exact Prog.run_related (exec D) (fun a s t ha h => exec_sameButHeap ha h)
        (storeTail_performs k i value.bytes overwrite none) ⟨rfl, hs.skip n, hs.skip n'⟩

/-! ### The bounce buffer -/

/-- A store of the same bytes through either buffer returns the same result and leaves the same
devices, key table, statistics and health counters. -/
structure StoresAlike (D : Driver δ) (key : Option Bytes) (value copy : Buf) (overwrite : Bool)
    (s : State δ) : Prop where
  result : (run D (kvEngineStore key (some value) overwrite) s).1 =
    (run D (kvEngineStore key (some copy) overwrite) s).1
  ssd : (run D (kvEngineStore key (some value) overwrite) s).2.ssd =
    (run D (kvEngineStore key (some copy) overwrite) s).2.ssd
  keyTable : (run D (kvEngineStore key (some value) overwrite) s).2.keyTable =
    (run D (kvEngineStore key (some copy) overwrite) s).2.keyTable
  stats : (run D (kvEngineStore key (some value) overwrite) s).2.stats =
    (run D (kvEngineStore key (some copy) overwrite) s).2.stats
  devices : (run D (kvEngineStore key (some value) overwrite) s).2.devices =
    (run D (kvEngineStore key (some copy) overwrite) s).2.devices

theorem StoresAlike.of_sameButHeap {key : Option Bytes} {value copy : Buf} {overwrite : Bool}
    {s : State δ}
    (hresult : (run D (kvEngineStore key (some value) overwrite) s).1 =
      (run D (kvEngineStore key (some copy) overwrite) s).1)
    (hstate : SameButHeap (run D (kvEngineStore key (some value) overwrite) s).2
      (run D (kvEngineStore key (some copy) overwrite) s).2) :
    StoresAlike D key value copy overwrite s := by
  refine ⟨hresult, ?_, ?_, ?_, ?_⟩ <;> rw [hstate.eq]

/-- A store that reaches the device does not report a lack of memory. -/
theorem storeTail_ne_noMemory (key : Bytes) (i : ℕ) (value : Bytes) (overwrite : Bool)
    (b : Option Addr) (s : State δ) :
    (run D (storeTail key i value overwrite b) s).1 ≠ .noMemory := by
  have hmap (r : KvsResult) : mapKvsResult r ≠ .noMemory := by cases r <;> simp [mapKvsResult]
  have hensures : (storeTail key i value overwrite b).Ensures (· ≠ .noMemory) := by
    intro _ r
    refine (Prog.ensures_true (deviceRecordResult i r)).bind fun _ _ => ?_
    exact (Prog.ensures_true (freeAligned b)).bind fun _ _ _ => hmap r
  exact hensures.run (exec D) s

/-- **The bounce-buffer path equals the zero-copy path** exactly if the value is not empty or the
store is refused by its checks: there is no bounce buffer of size zero. -/
theorem bounced_store_alike_iff {s : State δ} (hs : s.AllocsSucceed) (key : Option Bytes)
    {value copy : Buf} (haligned : isDmaAligned value.addr = true)
    (hbounced : isDmaAligned copy.addr = false) (hcopy : copy.bytes = value.bytes)
    (overwrite : Bool) :
    StoresAlike D key value copy overwrite s ↔
      value.bytes ≠ [] ∨ ∃ e, s.admission true key = .error e := by
  by_cases hnil : value.bytes = []
  · cases hk : s.admission true key with
    | error e =>
        refine iff_of_true (.of_sameButHeap ?_ ?_) (.inr ⟨e, rfl⟩)
        all_goals simp only [kvEngineStore, run_guarded, Option.isSome_some, hk]
        exact ⟨rfl, hs, hs⟩
    | ok ki =>
        obtain ⟨k, i⟩ := ki
        have hzeroCopy : s.bounce value = (true, s) := by simp [State.bounce, haligned]
        have hnoBuffer : s.bounce copy = (false, s) := by
          simp [State.bounce, hbounced, hcopy.trans hnil]
        refine iff_of_false (fun halike => ?_) (by simp [hnil])
        have hresult := halike.result
        rw [run_kvEngineStore value overwrite hk, run_kvEngineStore copy overwrite hk, hzeroCopy,
          hnoBuffer] at hresult
        exact storeTail_ne_noMemory _ _ _ _ _ _ hresult
  · obtain ⟨hresult, hstate⟩ := run_kvEngineStore_copy (D := D) hs key hcopy hnil overwrite
    exact iff_of_true (.of_sameButHeap hresult hstate) (.inl hnil)

/-- One byte, through an aligned and through an unaligned pointer. -/
theorem bounced_store_alike_iff_one_byte :
    StoresAlike keySpaceDriver (some [107, 101, 121, 49]) ⟨4096, [118]⟩ ⟨4097, [118]⟩ true
      freshEngine := by
  have haligned : isDmaAligned (Buf.addr ⟨4096, [118]⟩) = true := by decide
  have hbounced : isDmaAligned (Buf.addr ⟨4097, [118]⟩) = false := by decide
  refine (bounced_store_alike_iff freshEngine_serving.allocs _ haligned hbounced rfl true).mpr ?_
  exact .inl (by decide)

/-- A value of length zero is stored through the aligned pointer and refused through the other. -/
theorem bounced_empty_store_refused :
    (run keySpaceDriver (kvEngineStore (some [107, 101, 121, 49]) (some ⟨4096, []⟩) true)
      freshEngine).1 = .success ∧
    (run keySpaceDriver (kvEngineStore (some [107, 101, 121, 49]) (some ⟨4097, []⟩) true)
      freshEngine).1 = .noMemory ∧
    ¬ StoresAlike keySpaceDriver (some [107, 101, 121, 49]) ⟨4096, []⟩ ⟨4097, []⟩ true
      freshEngine := by
  have hruns : (run keySpaceDriver (kvEngineStore (some [107, 101, 121, 49]) (some ⟨4096, []⟩) true)
      freshEngine).1 = .success ∧
      (run keySpaceDriver (kvEngineStore (some [107, 101, 121, 49]) (some ⟨4097, []⟩) true)
      freshEngine).1 = .noMemory := by decide +kernel
  refine ⟨hruns.1, hruns.2, fun halike => ?_⟩
  have hresult := halike.result
  rw [hruns.1, hruns.2] at hresult
  cases hresult

/-! ### Agreement -/

/-- Executed in the state `s`, the request calls back with what the synchronous call answers
there, and leaves the same devices, key table, statistics and health counters. -/
structure AsyncCall.AgreesAt (D : Driver δ) (c : AsyncCall) (ctx : AsyncContext) (s : State δ) :
    Prop where
  callbacks : (run D (asyncWorkerFunc ctx) s).2.callbacks = s.callbacks ++
    [⟨ctx.request, c.userData, (run D c.sync.prog s).1.result, (run D c.sync.prog s).1.value⟩]
  ssd : (run D (asyncWorkerFunc ctx) s).2.ssd = (run D c.sync.prog s).2.ssd
  keyTable : (run D (asyncWorkerFunc ctx) s).2.keyTable = (run D c.sync.prog s).2.keyTable
  stats : (run D (asyncWorkerFunc ctx) s).2.stats = (run D c.sync.prog s).2.stats
  devices : (run D (asyncWorkerFunc ctx) s).2.devices = (run D c.sync.prog s).2.devices

/-- The call stores a value of length zero. -/
def AsyncCall.StoresNothing : AsyncCall → Prop
  | .store _ value _ _ _ => ∃ v, value = some v ∧ v.bytes = []
  | _ => False

/-- It is enough to compare the two synchronous calls. -/
theorem agreesAt_of_sameButHeap {c : AsyncCall} {ctx : AsyncContext} {s : State δ}
    (hcompletion : ctx.completion = true) (hdata : ctx.userData = c.userData)
    (hreply : (run D c.sync.prog s).1 = (run D ctx.call.prog s).1)
    (hstate : ∃ heap, (run D ctx.call.prog s).2 = { (run D c.sync.prog s).2 with heap := heap }) :
    c.AgreesAt D ctx s := by
  obtain ⟨heap, hstate⟩ := hstate
  have hrun := run_asyncWorkerFunc (D := D) ctx s
  refine ⟨?_, ?_, ?_, ?_, ?_⟩ <;> rw [hrun]
  · simp only [State.completed, hcompletion, if_true, hdata, hreply]
    rw [run_call_callbacks]
  all_goals rw [State.completed, hstate]

theorem run_store_prog (key : Option Bytes) (value : Option Buf) (overwrite : Bool) (s : State δ) :
    run D (Call.prog (.store key value overwrite)) s =
      (⟨(run D (kvEngineStore key value overwrite) s).1, none, none⟩,
        (run D (kvEngineStore key value overwrite) s).2) := by
  simp only [Call.prog, Prog.run_bind, Prog.pure_eq, Prog.run_ret]

theorem storeTail_totalOps (key : Bytes) (i : ℕ) (value : Bytes) (overwrite : Bool)
    (b : Option Addr) (s : State δ) :
    (run D (storeTail key i value overwrite b) s).2.stats.totalOps = s.stats.totalOps + 1 := by
  have hcommand (t : State δ) (c : δ → KvsResult × δ) :
      (t.keyspaceCommand i .paramInvalid c).2.stats = t.stats := by
    unfold State.keyspaceCommand
    split <;> rfl
  simp only [storeTail, Prog.perform_bind, Prog.run_act, exec, Prog.run_bind,
    run_deviceRecordResult, run_freeAligned, Prog.pure_eq, Prog.run_ret, Stats.update,
    State.setDevice_stats, hcommand, State.addTableKey_stats]

/-- An empty value reaches `kv_engine_store` as a null pointer, and is refused. -/
theorem empty_store_differs {k : Bytes} (hk : KeyOk k) {v : Buf} (hnil : v.bytes = [])
    {request userData : ℕ} {callback overwrite : Bool} {s : State δ} (hinit : s.initialized = true) :
    ¬ (AsyncCall.store (some k) (some v) callback userData overwrite).AgreesAt D
      ⟨request, .store, k, none, callback, false, userData, overwrite⟩ s := by
  intro h
  have hrefused : run D (Call.prog (.store (some k) none overwrite)) s =
      (⟨.invalidParam, none, none⟩, s) :=
    run_call_refused (by simp [Call.pointers, Call.key, State.admission])
  have hasync := run_asyncWorkerFunc (D := D)
    ⟨request, .store, k, none, callback, false, userData, overwrite⟩ s
  simp only [AsyncContext.call, hrefused] at hasync
  obtain ⟨hcallbacks, _, _, hstats, _⟩ := h
  simp only [AsyncCall.sync, run_store_prog] at hcallbacks hstats
  rw [hasync] at hcallbacks hstats
  have hresult : (run D (kvEngineStore (some k) (some v) overwrite) s).1 = .invalidParam := by
    cases callback with
    | false => simp [State.completed, AsyncContext.completion] at hcallbacks
    | true =>
        simpa [State.completed, AsyncContext.completion, AsyncCall.userData, eq_comm] using hcallbacks
  cases hadm : s.admission true (some k) with
  | error e =>
      have he : e = .deviceDegraded := by
        by_cases hh : (s.devices (s.shard k)).healthy = true
        · simp [State.admission, hinit, hk, hh] at hadm
        · simpa [State.admission, hinit, hk, hh, eq_comm] using hadm
      simp only [kvEngineStore, run_guarded, Option.isSome_some, hadm, he] at hresult
      cases hresult
  | ok ki =>
      obtain ⟨k', i⟩ := ki
      have hrun := run_kvEngineStore (D := D) v overwrite hadm
      by_cases hal : isDmaAligned v.addr = true
      · -- the device command is counted
        rw [State.bounce, if_pos hal, if_pos rfl] at hrun
        have hcount := storeTail_totalOps (D := D) k' i v.bytes overwrite none s
        rw [← hrun, ← hstats] at hcount
        simp [State.completed] at hcount
      · -- no bounce buffer of size zero
        rw [State.bounce, if_neg hal, if_pos hnil] at hrun
        rw [hrun] at hresult
        cases hresult

/-- **An asynchronous call means the same as the synchronous one**, except that an empty value
is refused once the engine is initialised. -/
theorem async_agrees_iff {c : AsyncCall} (hcallback : c.callback = true) {request : ℕ}
    {item : WorkItem} {s₀ : State δ} (haccepted : (run D (c.prog request) s₀).1 = .ok item)
    {s : State δ} (hs : s.AllocsSucceed) :
    c.AgreesAt D item.arg s ↔ ¬ (c.StoresNothing ∧ s.initialized = true) := by
  have hcopied : c.Copied request item.arg := by
    have h := (asyncCall_ensures request c).run (exec D) s₀
    rw [haccepted] at h
    exact h
  cases c with
  | store key value callback userData overwrite =>
      obtain ⟨k, v, copy, rfl, rfl, hk, hctx, hcopy⟩ := hcopied
      rw [hctx]
      have hcallback : callback = true := hcallback
      subst hcallback
      by_cases hnil : v.bytes = []
      · rw [if_pos hnil] at hcopy
        subst hcopy
        by_cases hinit : s.initialized = true
        · exact iff_of_false (empty_store_differs hk hnil hinit)
            fun h => h ⟨⟨v, rfl, hnil⟩, hinit⟩
        · refine iff_of_true (agreesAt_of_sameButHeap rfl rfl ?_ ⟨s.heap, ?_⟩) fun h => hinit h.2
          all_goals
            have hsync : run D (Call.prog (.store (some k) (some v) overwrite)) s =
                (⟨.invalidParam, none, none⟩, s) :=
              run_call_refused (by simp [Call.pointers, Call.key, State.admission, hinit])
            have hasync : run D (Call.prog (.store (some k) none overwrite)) s =
                (⟨.invalidParam, none, none⟩, s) :=
              run_call_refused (by simp [Call.pointers, Call.key, State.admission])
            simp only [AsyncCall.sync, AsyncContext.call, hsync, hasync]
      · rw [if_neg hnil] at hcopy
        obtain ⟨addr, rfl⟩ := hcopy
        have hcopy : (⟨addr, v.bytes⟩ : Buf).bytes = v.bytes := rfl
        obtain ⟨hreply, hstate, _⟩ := run_kvEngineStore_copy (D := D) hs (some k) hcopy hnil overwrite
        refine iff_of_true (agreesAt_of_sameButHeap rfl rfl ?_
          ⟨(run D (kvEngineStore (some k) (some ⟨addr, v.bytes⟩) overwrite) s).2.heap, ?_⟩) ?_
        · simp only [AsyncCall.sync, AsyncContext.call, run_store_prog, hreply]
        · simp only [AsyncCall.sync, AsyncContext.call, run_store_prog]
          exact hstate
        · rintro ⟨⟨w, hw, hnil'⟩, _⟩
          cases hw
          exact hnil hnil'
  | retrieve key callback userData =>
      obtain ⟨k, rfl, hk, hctx⟩ := hcopied
      rw [hctx]
      exact iff_of_true (agreesAt_of_sameButHeap hcallback rfl rfl ⟨_, rfl⟩) fun h => h.1
  | delete key callback userData =>
      obtain ⟨k, rfl, hk, hctx⟩ := hcopied
      rw [hctx]
      exact iff_of_true (agreesAt_of_sameButHeap hcallback rfl rfl ⟨_, rfl⟩) fun h => h.1

/-- The value of one byte is copied to an unaligned address. -/
theorem async_agrees_iff_one_byte :
    (AsyncCall.store (some [107, 101, 121, 49]) (some ⟨4096, [118]⟩) true 7 true).AgreesAt
      keySpaceDriver
      ⟨0, .store, [107, 101, 121, 49], some ⟨23, [118]⟩, true, false, 7, true⟩ freshEngine := by
  have haccepted : (run keySpaceDriver (AsyncCall.prog 0 (.store (some [107, 101, 121, 49])
      (some ⟨4096, [118]⟩) true 7 true)) freshEngine).1 =
      .ok ⟨24, 0, .store, [107, 101, 121, 49], some ⟨23, [118]⟩, true, false, 7, true⟩ := by
    decide +kernel
  refine (async_agrees_iff rfl haccepted freshEngine_serving.allocs).mpr ?_
  rintro ⟨⟨v, hv, hnil⟩, _⟩
  cases hv
  cases hnil

/-- A store of length zero from an aligned pointer: the synchronous call succeeds, the callback
of the asynchronous one is told `KV_ERR_INVALID_PARAM`. -/
theorem async_empty_store_refused :
    let call := AsyncCall.store (some [107, 101, 121, 49]) (some ⟨4096, []⟩) true 7 true
    let ctx : AsyncContext := ⟨0, .store, [107, 101, 121, 49], none, true, false, 7, true⟩
    (run keySpaceDriver (call.prog 0) freshEngine).1 = .ok ⟨23, ctx⟩ ∧
      (run keySpaceDriver call.sync.prog freshEngine).1.result = .success ∧
      (run keySpaceDriver (asyncWorkerFunc ctx) freshEngine).2.callbacks =
        [⟨0, 7, .invalidParam, none⟩] := by
  decide +kernel

end KvEngine
