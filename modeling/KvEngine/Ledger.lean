import KvEngine.Accounts
import KvEngine.Buffers
import Mathlib.Tactic.Abel

/-! # What the life cycle holds

The account of the engine's resources: blocks and threads, open devices and keyspaces, and DMA
buffers.  A pointer that may be null is given up only if it is not, which the state before the
action tells (`kv_engine_close_device` tests every field of its slot).

The constructors of the pools (`dma_pool.c`, `memory_pool.c`, `thread_pool.c`) turn nothing into
the resources of the pool, or into nothing when they fail, and the destructors turn these resources
into nothing.  `dmaPoolCreate_clean_iff` is about the failure exits of `dma_pool_create`: the one in
the allocation loop calls `dma_pool_destroy` on a pool that is not complete. -/

namespace KvEngine

open Atomic

/-! ### Assets -/

/-- What a call can acquire and has to release. -/
inductive Asset where
  | resource (r : Resource)
  | device (i : ℕ)
  | keyspace (i : ℕ)
  | buffer (b : Addr)
deriving DecidableEq, Repr

/-- Locks are not blocks: they are initialised and destroyed in place. -/
def Resource.isLock : Resource → Bool
  | .lock _ => true
  | _ => false

/-- The blocks that are freed without a test of their pointer, or only when they were acquired. -/
def Resource.isPlain : Resource → Bool
  | .lock _ => false
  | .devicePath _ => false
  | _ => true

/-- The asset behind a pointer, if it is not null. -/
def owned (present : Bool) (a : Asset) : Multiset Asset := if present then {a} else 0

@[simp] theorem owned_true (a : Asset) : owned true a = {a} := rfl

@[simp] theorem owned_false (a : Asset) : owned false a = 0 := rfl

/-- The deeds of the engine's code. -/
abbrev EngineDeed (δ : Type) := Deed Act Act.Resp (State δ)

variable {δ : Type}

/-- What an action acquires. -/
def assetsGained : EngineDeed δ → Multiset Asset
  | ⟨_, .acquire r, ok⟩ => owned (ok && !r.isLock) (.resource r)
  | ⟨_, .kvsOpenDevice i _, res⟩ => owned (res = .success) (.device i)
  | ⟨_, .kvsOpenKeySpace i, res⟩ => owned (res = .success) (.keyspace i)
  | ⟨_, .alloc _, block⟩ => block.elim 0 fun b => {.buffer b}
  | _ => 0

/-- What an action releases. -/
def assetsGiven : EngineDeed δ → Multiset Asset
  | ⟨s, .release (.devicePath i), _⟩ =>
      owned (s.devices i).devicePath.isSome (.resource (.devicePath i))
  | ⟨_, .release r, _⟩ => owned (!r.isLock) (.resource r)
  | ⟨s, .kvsCloseKeySpace i, _⟩ => owned (s.devices i).keyspace.isSome (.keyspace i)
  | ⟨s, .kvsCloseDevice i, _⟩ => owned (s.devices i).device.isSome (.device i)
  | ⟨_, .free b, _⟩ => {.buffer b}
  | _ => 0

/-- The account of the resources. -/
def ledger : Account Act Act.Resp (State δ) Asset := ⟨assetsGained, assetsGiven⟩

/-- Who holds `base` before the run of `p` from `s` holds `final` after it. -/
abbrev Turns {α : Type} (D : Driver δ) (base : Multiset Asset) (p : M α) (s : State δ)
    (final : Multiset Asset) : Prop := ledger.Turns (exec D) base p s final

section steps

variable {D : Driver δ} {α : Type} {base final : Multiset Asset} {s : State δ}

/-- The actions that neither acquire nor release. -/
def Act.Unbooked : Act → Prop
  | .acquire r => r.isLock
  | .release r => r.isLock
  | .kvsOpenDevice .. => False
  | .kvsOpenKeySpace _ => False
  | .kvsCloseKeySpace _ => False
  | .kvsCloseDevice _ => False
  | .alloc _ => False
  | .free _ => False
  | _ => True

theorem turns_unbooked {a : Act} {k : a.Resp → M α} (ha : a.Unbooked)
    (hk : Turns D base (k (exec D a s).1) (exec D a s).2 final) : Turns D base (.act a k) s final := by
  refine .act ?_ hk
  have hgains : assetsGained ⟨s, a, (exec D a s).1⟩ = 0 := by
    cases a <;> simp only [Act.Unbooked] at ha <;> simp [assetsGained, *]
  have hgives : assetsGiven ⟨s, a, (exec D a s).1⟩ = 0 := by
    cases a <;> simp only [Act.Unbooked] at ha
    case release r => cases r <;> simp_all [assetsGiven, Resource.isLock]
    all_goals rfl
  simp [ledger, hgains, hgives]

theorem turns_acquire {r : Resource} (hr : r.isLock = false) {k : Bool → M α}
    (hk : Turns D (base + owned s.nextAlloc.isSome (.resource r)) (k s.nextAlloc.isSome) s.dropAlloc
      final) : Turns D base (.act (.acquire r) k) s final := by
  refine .act ?_ hk
  simp [ledger, assetsGained, assetsGiven, hr, exec]

theorem turns_release {r : Resource} (hr : r.isPlain = true) {k : Unit → M α}
    (hk : Turns D base (k ()) s final) :
    Turns D (base + {.resource r}) (.act (.release r) k) s final := by
  have hgives : assetsGiven (⟨s, .release r, ()⟩ : EngineDeed δ) = {.resource r} := by
    cases r <;> first | rfl | cases hr
  refine .act ?_ hk
  change base + {.resource r} + 0 = assetsGiven ⟨s, .release r, ()⟩ + base
  rw [hgives, add_zero, add_comm]

theorem turns_alloc {size : ℕ} {k : Option Addr → M α}
    (hk : Turns D (base + s.nextAlloc.elim 0 fun b => {.buffer b}) (k s.nextAlloc) s.dropAlloc final) :
    Turns D base (.act (.alloc size) k) s final := by
  refine .act ?_ hk
  simp [ledger, assetsGained, assetsGiven, exec]

theorem turns_free {b : Addr} {k : Unit → M α} (hk : Turns D base (k ()) s final) :
    Turns D (base + {.buffer b}) (.act (.free b) k) s final := by
  refine .act ?_ hk
  simp [ledger, assetsGained, assetsGiven, add_comm]

end steps

variable {D : Driver δ}

/-! ### The memory pool and the workers -/

/-- The blocks of a memory pool. -/
def memPoolAssets : Multiset Asset := {.resource .memPool} + {.resource .memPoolBase}

theorem memoryPoolCreate_turns (s : State δ) :
    Turns D 0 memoryPoolCreate s (if (run D memoryPoolCreate s).1 then memPoolAssets else 0) := by
  simp only [memoryPoolCreate, Prog.perform_bind, Prog.run_act, exec]
  refine turns_acquire rfl ?_
  by_cases hpool : s.nextAlloc.isSome = true
  · simp only [hpool, Bool.not_true, Bool.false_eq_true, if_false, Prog.run_act, exec]
    refine turns_acquire rfl ?_
    by_cases hbase : s.dropAlloc.nextAlloc.isSome = true
    · simp only [hbase]
      exact turns_unbooked rfl (.ret _)
    · simp only [hbase, owned_true, owned_false, add_zero]
      exact turns_release rfl (.ret _)
  · simp only [hpool]
    exact .ret _

theorem memoryPoolDestroy_turns (s : State δ) : Turns D memPoolAssets memoryPoolDestroy s 0 := by
  refine turns_release rfl (turns_unbooked rfl ?_)
  rw [← zero_add {Asset.resource .memPool}]
  exact turns_release rfl (.ret _)

/-- The blocks of a thread pool with `n` workers, and the workers. -/
def threadPoolAssets (n : ℕ) : Multiset Asset :=
  {.resource .threadPool} + {.resource .threadArray} +
    ((List.range n).map fun i => ({.resource (.worker i)} : Multiset Asset)).sum

theorem threadPoolAssets_succ (n : ℕ) :
    threadPoolAssets (n + 1) = threadPoolAssets n + {.resource (.worker n)} := by
  simp [threadPoolAssets, List.range_succ]

theorem joinWorkers_turns (is : List ℕ) (s : State δ) :
    Turns D (is.map fun i => ({.resource (.worker i)} : Multiset Asset)).sum (joinWorkers is) s 0 := by
  induction is with
  | nil => exact .ret _
  | cons i is ih =>
      rw [List.map_cons, List.sum_cons, add_comm]
      exact turns_release rfl ih

theorem freeThreadPool_turns (s : State δ) :
    Turns D ({.resource .threadPool} + {.resource .threadArray}) freeThreadPool s 0 := by
  refine turns_unbooked rfl (turns_release rfl ?_)
  rw [← zero_add {Asset.resource .threadPool}]
  exact turns_release rfl (.ret _)

theorem threadPoolDestroy_turns (n : ℕ) (s : State δ) :
    Turns D (threadPoolAssets n) (threadPoolDestroy n) s 0 :=
  ((joinWorkers_turns (List.range n) s).spend _).bind (freeThreadPool_turns _)

/-- A thread that cannot be started takes the whole pool down. -/
theorem startWorkers_turns (i n : ℕ) (s : State δ) :
    Turns D (threadPoolAssets i) (startWorkers i n) s
      (if (run D (startWorkers i n) s).1 then threadPoolAssets (i + n) else 0) := by
  induction n generalizing i s with
  | zero => exact .ret _
  | succ n ih =>
      simp only [startWorkers, Prog.perform_bind, Prog.run_act, exec]
      refine turns_acquire rfl ?_
      by_cases hstart : s.nextAlloc.isSome = true
      · simp only [hstart, Bool.not_true, Bool.false_eq_true, if_false, owned_true]
        rw [← threadPoolAssets_succ, ← Nat.add_assoc, Nat.add_right_comm]
        exact ih (i + 1) _
      · simp only [hstart, Bool.not_false, if_true, owned_false, add_zero, Prog.run_bind,
          Prog.pure_eq, Prog.run_ret, Bool.false_eq_true, if_false]
        rw [← bind_assoc]
        exact (threadPoolDestroy_turns i _).bind (.ret _)

theorem threadPoolCreate_turns (n : ℕ) (s : State δ) :
    Turns D 0 (threadPoolCreate n) s
      (if (run D (threadPoolCreate n) s).1 then threadPoolAssets n else 0) := by
  unfold threadPoolCreate
  split
  · exact .ret _
  · simp only [Prog.perform_bind, Prog.run_act, exec]
    refine turns_acquire rfl ?_
    by_cases hpool : s.nextAlloc.isSome = true
    · simp only [hpool, Bool.not_true, Bool.false_eq_true, if_false, Prog.run_act, exec]
      refine turns_acquire rfl ?_
      by_cases harray : s.dropAlloc.nextAlloc.isSome = true
      · simp only [harray, Bool.not_true, Bool.false_eq_true, if_false, Prog.run_act, exec]
        refine turns_unbooked rfl ?_
        have hstart := startWorkers_turns (D := D) 0 n s.dropAlloc.dropAlloc.dropAlloc
        rw [Nat.zero_add] at hstart
        have hnone : 0 + {.resource .threadPool} + {.resource .threadArray} = threadPoolAssets 0 := by
          simp [threadPoolAssets]
        rw [owned_true, owned_true, hnone]
        exact hstart
      · simp only [harray, owned_true, owned_false, add_zero]
        exact turns_release rfl (.ret _)
    · simp only [hpool]
      exact .ret _

/-! ### The DMA pool -/

/-- The blocks of a DMA pool and its buffers. -/
def DmaPool.assets (p : DmaPool) : Multiset Asset :=
  {.resource .dmaPool} + {.resource .dmaFreeList} + {.resource .dmaAllBuffers} +
    (p.buffers.map fun b => ({.buffer b} : Multiset Asset)).sum

/-- Only the slots that were written give up a buffer. -/
theorem freeSlots_turns (p : DmaPool) (is : List ℕ) (s : State δ) :
    Turns D ((is.filterMap p.allBuffers).map fun b => ({.buffer b} : Multiset Asset)).sum
      (freeSlots p is) s 0 := by
  induction is with
  | nil => exact .ret _
  | cons i is ih =>
      rw [List.filterMap_cons, freeSlots]
      cases p.allBuffers i with
      | none => exact turns_unbooked trivial ih
      | some b =>
          dsimp only
          rw [List.map_cons, List.sum_cons, add_comm]
          exact turns_free ih

theorem dmaPoolDestroy_turns (p : DmaPool) (s : State δ) :
    Turns D p.assets (dmaPoolDestroy p) s 0 := by
  refine ((freeSlots_turns p (List.range p.count) s).spend _).bind
    (turns_release rfl (turns_release rfl (turns_unbooked rfl ?_)))
  rw [← zero_add {Asset.resource .dmaPool}]
  exact turns_release rfl (.ret _)

/-- The pool of the allocation loop before slot `i`: the slots from `i` on are not written. -/
structure DmaPool.Partial (p : DmaPool) (i n : ℕ) : Prop where
  count : p.count = i + n
  unwritten : ∀ k, i ≤ k → p.allBuffers k = none

/-- The pool after `dma_alloc` gave the buffer for slot `i`. -/
def DmaPool.put (p : DmaPool) (i : ℕ) (b : Addr) : DmaPool :=
  { p with top := p.top + 1,
           freeList := Function.update p.freeList (p.top + 1).toNat (some b),
           allBuffers := Function.update p.allBuffers i (some b) }

theorem DmaPool.Partial.put {p : DmaPool} {i n : ℕ} (h : p.Partial i (n + 1)) (b : Addr) :
    (p.put i b).Partial (i + 1) n where
  count := by
    have := h.count
    change p.count = _
    omega
  unwritten k hk := by
    have hne : k ≠ i := by omega
    exact (Function.update_of_ne hne _ _).trans (h.unwritten k (by omega))

/-- The buffers so far. -/
theorem DmaPool.Partial.buffers {p : DmaPool} {i n : ℕ} (h : p.Partial i n) :
    p.buffers = (List.range i).filterMap p.allBuffers := by
  have hnone : ((List.range n).map (i + ·)).filterMap p.allBuffers = [] := by
    rw [List.filterMap_eq_nil_iff]
    intro k hk
    obtain ⟨m, -, rfl⟩ := List.mem_map.mp hk
    exact h.unwritten _ (Nat.le_add_right _ _)
  rw [DmaPool.buffers, h.count, List.range_add, List.filterMap_append, hnone, List.append_nil]

theorem DmaPool.Partial.assets_put {p : DmaPool} {i n : ℕ} (h : p.Partial i (n + 1)) (b : Addr) :
    (p.put i b).assets = p.assets + {.buffer b} := by
  have hbelow : (List.range i).filterMap (Function.update p.allBuffers i (some b)) =
      (List.range i).filterMap p.allBuffers :=
    List.filterMap_congr fun k hk => Function.update_of_ne (Nat.ne_of_lt (List.mem_range.mp hk)) _ _
  have hbuffers : (p.put i b).buffers = p.buffers ++ [b] := by
    rw [(h.put b).buffers, h.buffers, List.range_succ, List.filterMap_append, DmaPool.put, hbelow]
    simp
  rw [DmaPool.assets, hbuffers, DmaPool.assets]
  simp

/-- A buffer that cannot be allocated takes the whole pool down. -/
theorem fillDmaPool_turns {p : DmaPool} {i n : ℕ} (hp : p.Partial i n) (s : State δ) :
    Turns D p.assets (fillDmaPool p i n) s
      ((run D (fillDmaPool p i n) s).1.elim 0 DmaPool.assets) := by
  induction n generalizing p i s with
  | zero => exact turns_unbooked rfl (.ret _)
  | succ n ih =>
      by_cases hsize : p.bufferSize = 0
      · simp only [fillDmaPool, dmaAlloc, hsize, if_true, Prog.pure_eq, Prog.ret_bind,
          Prog.run_bind, Prog.run_ret, Option.elim_none]
        exact (dmaPoolDestroy_turns p s).bind (.ret _)
      · simp only [fillDmaPool, dmaAlloc, hsize, if_false, Prog.perform_bind, Prog.run_act, exec]
        refine turns_alloc ?_
        cases hblock : s.nextAlloc with
        | none =>
            simp only [Option.elim_none, add_zero, Prog.run_bind, Prog.pure_eq, Prog.run_ret]
            exact (dmaPoolDestroy_turns p _).bind (.ret _)
        | some b =>
            have hput := ih (hp.put b) s.dropAlloc
            rw [hp.assets_put b] at hput
            exact hput

/-- The failures of the three blocks are unwound by hand, the ones of the buffers by
`dma_pool_destroy`. -/
theorem dmaPoolCreate_turns (bufferSize count : ℕ) (s : State δ) :
    Turns D 0 (dmaPoolCreate bufferSize count) s
      ((run D (dmaPoolCreate bufferSize count) s).1.elim 0 DmaPool.assets) := by
  simp only [dmaPoolCreate, Prog.perform_bind, Prog.run_act, exec]
  refine turns_acquire rfl ?_
  by_cases hpool : s.nextAlloc.isSome = true
  · simp only [hpool, Bool.not_true, Bool.false_eq_true, if_false, Prog.run_act, exec]
    refine turns_acquire rfl ?_
    by_cases hlist : s.dropAlloc.nextAlloc.isSome = true
    · simp only [hlist, Bool.not_true, Bool.false_eq_true, if_false, Prog.run_act, exec]
      refine turns_acquire rfl ?_
      by_cases hall : s.dropAlloc.dropAlloc.nextAlloc.isSome = true
      · simp only [hall, Bool.not_true, Bool.false_eq_true, if_false]
        have hempty : DmaPool.Partial ⟨fun _ => none, fun _ => none, -1, bufferSize, count⟩ 0 count :=
          ⟨(Nat.zero_add count).symm, fun _ _ => rfl⟩
        have hfill := fillDmaPool_turns (D := D) hempty s.dropAlloc.dropAlloc.dropAlloc
        have hnone : 0 + {.resource .dmaPool} + {.resource .dmaFreeList} + {.resource .dmaAllBuffers} =
            DmaPool.assets ⟨fun _ => none, fun _ => none, -1, bufferSize, count⟩ := by
          simp [DmaPool.assets, hempty.buffers]
        rw [owned_true, owned_true, owned_true, hnone]
        exact hfill
      · simp only [hall, owned_true, owned_false, add_zero]
        exact turns_release rfl (turns_release rfl (.ret _))
    · simp only [hlist, owned_true, owned_false, add_zero]
      exact turns_release rfl (.ret _)
  · simp only [hpool]
    exact .ret _

/-! ### The failure exits of `dma_pool_create` -/

/-- The run passes the content of an array slot that was never written to `dma_free`. -/
def FreesUnwritten (ds : List (EngineDeed δ)) : Prop := ∃ d ∈ ds, d.act = .freeUnwritten

theorem freesUnwritten_append (ds es : List (EngineDeed δ)) :
    FreesUnwritten (ds ++ es) ↔ FreesUnwritten ds ∨ FreesUnwritten es := by
  simp only [FreesUnwritten, List.mem_append, or_and_right, exists_or]

/-- Every lock that is destroyed was initialised before. -/
def LocksPaired (ds : List (EngineDeed δ)) : Prop :=
  ∀ earlier d later l, ds = earlier ++ d :: later → d.act = .release (.lock l) →
    ∃ e ∈ earlier, e.act = .acquire (.lock l)

/-- A failed call has released exactly what it acquired, without reading an undefined slot and
without destroying a lock that is not there. -/
structure CleanFailure (ds : List (EngineDeed δ)) : Prop where
  settled : ledger.gained ds = ledger.given ds
  defined : ¬ FreesUnwritten ds
  locks : LocksPaired ds

theorem freesUnwritten_freeSlots_iff (p : DmaPool) (is : List ℕ) (s : State δ) :
    FreesUnwritten ((freeSlots p is).trail (exec D) s) ↔ ∃ i ∈ is, p.allBuffers i = none := by
  induction is with
  | nil => simp [FreesUnwritten, freeSlots]
  | cons i is ih =>
      rw [freeSlots, Prog.trail_bind, freesUnwritten_append, List.exists_mem_cons_iff]
      cases hslot : p.allBuffers i with
      | none => simp [freeSlot, FreesUnwritten, Prog.perform]
      | some b =>
          have hstate : (run D (freeSlot (some b)) s).2 = s := rfl
          rw [hstate, ih]
          simp [freeSlot, FreesUnwritten, Prog.perform]

/-- The destructor frees the slots that were never written too. -/
theorem freesUnwritten_dmaPoolDestroy_iff (p : DmaPool) (s : State δ) :
    FreesUnwritten ((dmaPoolDestroy p).trail (exec D) s) ↔ ∃ i < p.count, p.allBuffers i = none := by
  rw [dmaPoolDestroy, Prog.trail_bind, freesUnwritten_append, freesUnwritten_freeSlots_iff]
  simp [FreesUnwritten, Prog.perform]

/-- The destructor destroys the lock. -/
theorem dmaPoolDestroy_lock (p : DmaPool) (s : State δ) :
    ∃ d ∈ (dmaPoolDestroy p).trail (exec D) s, d.act = .release (.lock .dmaPool) := by
  rw [dmaPoolDestroy, Prog.trail_bind]
  exact ⟨_, List.mem_append_right _ (List.mem_cons_of_mem _ (List.mem_cons_of_mem _
    List.mem_cons_self)), rfl⟩

/-- What becomes of the allocation loop when a buffer cannot be allocated. -/
structure TornDown (ds : List (EngineDeed δ)) : Prop where
  unwritten : FreesUnwritten ds
  destroyed : ∃ d ∈ ds, d.act = .release (.lock .dmaPool)
  uninitialised : ∀ d ∈ ds, d.act ≠ .acquire (.lock .dmaPool)

theorem TornDown.of_destroy {p : DmaPool} {i n : ℕ} (hp : p.Partial i (n + 1)) (s : State δ) :
    TornDown ((dmaPoolDestroy p).trail (exec D) s) where
  unwritten := by
    refine (freesUnwritten_dmaPoolDestroy_iff p s).mpr ⟨i, ?_, hp.unwritten i (Nat.le_refl i)⟩
    have := hp.count
    omega
  destroyed := dmaPoolDestroy_lock p s
  uninitialised := by
    have hperforms : (dmaPoolDestroy p).Performs (· ≠ .acquire (.lock .dmaPool)) :=
      dmaPoolDestroy_performs (fun _ => nofun) nofun (fun _ => nofun) p
    exact hperforms.trail (exec D) s

theorem TornDown.cons {d : EngineDeed δ} {ds : List (EngineDeed δ)}
    (hd : d.act ≠ .acquire (.lock .dmaPool)) (h : TornDown ds) : TornDown (d :: ds) where
  unwritten := (freesUnwritten_append [d] ds).mpr (.inr h.unwritten)
  destroyed := h.destroyed.imp fun _ he => ⟨List.mem_cons_of_mem d he.1, he.2⟩
  uninitialised e he := (List.mem_cons.mp he).elim (fun heq => heq ▸ hd) (h.uninitialised e)

/-- A lock that is destroyed without having been initialised is not paired. -/
theorem TornDown.not_locksPaired {ds : List (EngineDeed δ)} (h : TornDown ds) :
    ¬ LocksPaired ds := by
  intro hpaired
  obtain ⟨d, hd, hlock⟩ := h.destroyed
  obtain ⟨earlier, later, rfl⟩ := List.append_of_mem hd
  obtain ⟨e, he, hinit⟩ := hpaired earlier d later .dmaPool rfl hlock
  exact h.uninitialised e (List.mem_append_left _ he) hinit

theorem run_fillDmaPool_torn {p : DmaPool} {i n : ℕ} (hp : p.Partial i n) {s : State δ}
    (h : ∃ k < n, p.bufferSize = 0 ∨ s.heap k = none) :
    (run D (fillDmaPool p i n) s).1 = none ∧ TornDown ((fillDmaPool p i n).trail (exec D) s) := by
  induction n generalizing p i s with
  | zero => simp at h
  | succ n ih =>
      by_cases hsize : p.bufferSize = 0
      · simp only [fillDmaPool, dmaAlloc, hsize, if_true, Prog.pure_eq, Prog.ret_bind,
          Prog.run_bind, Prog.run_ret, Prog.trail_bind, Prog.trail_ret, List.append_nil, true_and]
        exact .of_destroy hp s
      · simp only [fillDmaPool, dmaAlloc, hsize, if_false, Prog.perform_bind, Prog.run_act,
          Prog.trail_act, exec, State.nextAlloc]
        cases hblock : s.heap 0 with
        | none =>
            simp only [Prog.run_bind, Prog.pure_eq, Prog.run_ret, Prog.trail_bind, Prog.trail_ret,
              List.append_nil, true_and]
            exact .cons (fun h => by cases h) (.of_destroy hp _)
        | some b =>
            obtain ⟨k, hk, hfail⟩ := h
            have hfail : s.heap k = none := hfail.resolve_left hsize
            obtain ⟨k, rfl⟩ : ∃ m, k = m + 1 :=
              Nat.exists_eq_succ_of_ne_zero fun h0 => by simp [h0, hblock] at hfail
            obtain ⟨hnone, htorn⟩ := ih (hp.put b) (s := s.dropAlloc)
              ⟨k, Nat.lt_of_succ_lt_succ hk, .inr hfail⟩
            exact ⟨hnone, .cons (fun h => by cases h) htorn⟩

theorem run_fillDmaPool_isSome {p : DmaPool} {i n : ℕ} {s : State δ}
    (h : ∀ k < n, p.bufferSize ≠ 0 ∧ (s.heap k).isSome) :
    (run D (fillDmaPool p i n) s).1.isSome := by
  induction n generalizing p i s with
  | zero => rfl
  | succ n ih =>
      obtain ⟨hsize, hblock⟩ := h 0 (Nat.succ_pos n)
      obtain ⟨b, hb⟩ := Option.isSome_iff_exists.mp hblock
      simp only [fillDmaPool, dmaAlloc, hsize, if_false, Prog.perform_bind, Prog.run_act, exec,
        State.nextAlloc, hb]
      exact ih fun k hk => h (k + 1) (Nat.succ_lt_succ hk)

/-- The three blocks of the pool are there, and `dma_alloc` returns null for one of the `count`
buffers. -/
def State.RefusesBuffer (s : State δ) (bufferSize count : ℕ) : Prop :=
  ((s.heap 0).isSome ∧ (s.heap 1).isSome ∧ (s.heap 2).isSome) ∧
    ∃ i < count, bufferSize = 0 ∨ s.heap (i + 3) = none

/-- A run without locks pairs them. -/
theorem LocksPaired.of_forall {ds : List (EngineDeed δ)}
    (h : ∀ d ∈ ds, ∀ l, d.act ≠ .release (.lock l)) : LocksPaired ds := by
  rintro earlier d later l rfl hd
  exact absurd hd (h d (by simp) l)

/-- A buffer that cannot be allocated: the call fails, and the pool is torn down. -/
theorem run_dmaPoolCreate_torn {bufferSize count : ℕ} {s : State δ}
    (h : s.RefusesBuffer bufferSize count) :
    (run D (dmaPoolCreate bufferSize count) s).1 = none ∧
      TornDown ((dmaPoolCreate bufferSize count).trail (exec D) s) := by
  obtain ⟨⟨hpool, hlist, hall⟩, hfail⟩ := h
  obtain ⟨hnone, htorn⟩ := run_fillDmaPool_torn (D := D) (s := s.dropAlloc.dropAlloc.dropAlloc)
    (p := ⟨fun _ => none, fun _ => none, -1, bufferSize, count⟩) (i := 0) (n := count)
    ⟨(Nat.zero_add count).symm, fun _ _ => rfl⟩ hfail
  simp only [dmaPoolCreate, Prog.perform_bind, Prog.run_act, Prog.trail_act, exec, State.nextAlloc,
    State.dropAlloc, hpool, hlist, hall, Bool.not_true, Bool.false_eq_true, if_false]
  refine ⟨hnone, .cons ?_ (.cons ?_ (.cons ?_ htorn))⟩ <;> simp

/-- Every other failure is one of the three blocks, and neither a slot nor a lock is touched. -/
theorem run_dmaPoolCreate_blocks {bufferSize count : ℕ} {s : State δ}
    (h : ¬ s.RefusesBuffer bufferSize count)
    (hnone : (run D (dmaPoolCreate bufferSize count) s).1 = none) :
    ∀ d ∈ (dmaPoolCreate bufferSize count).trail (exec D) s,
      d.act ≠ .freeUnwritten ∧ ∀ l, d.act ≠ .release (.lock l) := by
  simp only [dmaPoolCreate, Prog.perform_bind, Prog.run_act, Prog.trail_act, exec,
    State.nextAlloc] at hnone ⊢
  by_cases hpool : (s.heap 0).isSome = true
  · simp only [hpool, Bool.not_true, Bool.false_eq_true, if_false, Prog.run_act, Prog.trail_act,
      exec, State.nextAlloc, State.dropAlloc] at hnone ⊢
    by_cases hlist : (s.heap (0 + 1)).isSome = true
    · simp only [hlist, Bool.not_true, Bool.false_eq_true, if_false, Prog.run_act, Prog.trail_act,
        exec, State.nextAlloc, State.dropAlloc] at hnone ⊢
      by_cases hall : (s.heap (0 + 1 + 1)).isSome = true
      · -- With all three blocks, a creation that fails has been refused a buffer.
        simp only [hall, Bool.not_true, Bool.false_eq_true, if_false] at hnone
        refine absurd ?_ h
        refine ⟨⟨hpool, hlist, hall⟩, ?_⟩
        by_contra hbuffers
        refine Option.isSome_iff_ne_none.mp (run_fillDmaPool_isSome (D := D) ?_) hnone
        intro k hk
        have hk' := not_or.mp fun hor => hbuffers ⟨k, hk, hor⟩
        exact ⟨hk'.1, Option.isSome_iff_ne_none.mpr hk'.2⟩
      · simp [hall]
    · simp [hlist]
  · simp [hpool]

/-- A failed creation is clean unless `dma_alloc` failed.  Then the buffers are freed, each once,
and the pool is not there, but the destructor also frees the slots that were never written and
destroys the lock that is initialised after the loop. -/
theorem dmaPoolCreate_clean_iff (D : Driver δ) (bufferSize count : ℕ) (s : State δ) :
    (((run D (dmaPoolCreate bufferSize count) s).1 = none →
        CleanFailure ((dmaPoolCreate bufferSize count).trail (exec D) s)) ↔
      ¬ s.RefusesBuffer bufferSize count) ∧
    (s.RefusesBuffer bufferSize count →
      (run D (dmaPoolCreate bufferSize count) s).1 = none ∧
        ledger.gained ((dmaPoolCreate bufferSize count).trail (exec D) s) =
          ledger.given ((dmaPoolCreate bufferSize count).trail (exec D) s) ∧
        FreesUnwritten ((dmaPoolCreate bufferSize count).trail (exec D) s) ∧
        ¬ LocksPaired ((dmaPoolCreate bufferSize count).trail (exec D) s)) := by
  have hsettled (hnone : (run D (dmaPoolCreate bufferSize count) s).1 = none) :
      ledger.gained ((dmaPoolCreate bufferSize count).trail (exec D) s) =
        ledger.given ((dmaPoolCreate bufferSize count).trail (exec D) s) := by
    have hturns := dmaPoolCreate_turns (D := D) bufferSize count s
    rw [hnone, Option.elim_none] at hturns
    exact hturns.settled_iff.mpr rfl
  refine ⟨⟨fun hclean hrefused => ?_, fun hrefused hnone => ?_⟩, fun hrefused => ?_⟩
  · obtain ⟨hnone, htorn⟩ := run_dmaPoolCreate_torn (D := D) hrefused
    exact (hclean hnone).defined htorn.unwritten
  · have hdeeds := run_dmaPoolCreate_blocks hrefused hnone
    refine ⟨hsettled hnone, ?_, .of_forall fun d hd => (hdeeds d hd).2⟩
    rintro ⟨d, hd, hact⟩
    exact (hdeeds d hd).1 hact
  · obtain ⟨hnone, htorn⟩ := run_dmaPoolCreate_torn (D := D) hrefused
    exact ⟨hnone, hsettled hnone, htorn.unwritten, htorn.not_locksPaired⟩

/-- An allocator whose fifth call fails: the second buffer of a DMA pool. -/
def secondBufferRefused : State KeySpace :=
  { State.blank fun _ => .empty with heap := fun n => if n = 4 then none else some n }

/-- Two buffers, and the second cannot be allocated: the destructor frees the first one, frees what
the second slot happens to contain, and destroys a lock that nobody initialised. -/
theorem dmaPoolCreate_frees_garbage :
    (run keySpaceDriver (dmaPoolCreate kvEngineRetrieveSize 2) secondBufferRefused).1 = none ∧
    ((dmaPoolCreate kvEngineRetrieveSize 2).trail (exec keySpaceDriver) secondBufferRefused).map
        Deed.act =
      [.acquire .dmaPool, .acquire .dmaFreeList, .acquire .dmaAllBuffers,
        .alloc kvEngineRetrieveSize, .alloc kvEngineRetrieveSize,
        .free 3, .freeUnwritten, .release .dmaAllBuffers, .release .dmaFreeList,
        .release (.lock .dmaPool), .release .dmaPool] ∧
    ¬ CleanFailure
      ((dmaPoolCreate kvEngineRetrieveSize 2).trail (exec keySpaceDriver) secondBufferRefused) := by
  have hrefused : secondBufferRefused.RefusesBuffer kvEngineRetrieveSize 2 :=
    ⟨by decide, 1, by decide, .inr rfl⟩
  obtain ⟨hnone, htorn⟩ := run_dmaPoolCreate_torn (D := keySpaceDriver) hrefused
  exact ⟨hnone, rfl, fun h => h.defined htorn.unwritten⟩

end KvEngine
