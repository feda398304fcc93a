import KvEngine.Buffers

/-! # Lending the buffers of a pool

`dma_pool_acquire` and `dma_pool_release` (`src/utils/dma_pool.c`) between any number of holders.
Both functions hold the lock of the pool from beginning to end, so every interleaving is a sequence
of their critical sections.

`free_list` is a stack: its entries up to `top` are the free buffers, the ones above are stale.  The
invariant is that the free buffers and the ones that are held are together a permutation of
`all_buffers` (`Lending.Kept`).  An acquire moves the top of the stack to the holder and a release
moves it back, so the partition is kept, and a release always finds room. -/

namespace KvEngine

open Atomic

/-! ### The buffers of a new pool -/

/-- The allocator does not hand out a block twice. -/
def State.FreshBlocks {δ : Type} (s : State δ) : Prop :=
  ∀ m n b, s.heap m = some b → s.heap n = some b → m = n

section creation

variable {δ : Type} {D : Driver δ}

/-- The allocation loop writes the blocks it was given into `all_buffers`, in order. -/
theorem run_fillDmaPool_allBuffers {p q : DmaPool} {i n : ℕ} {s : State δ}
    (h : (run D (fillDmaPool p i n) s).1 = some q) :
    q.count = p.count ∧ (∀ k < i, q.allBuffers k = p.allBuffers k) ∧
      ∀ k < n, q.allBuffers (i + k) = s.heap k := by
  induction n generalizing p i s with
  | zero =>
      obtain rfl : p = q := Option.some.inj h
      exact ⟨rfl, fun _ _ => rfl, fun k hk => absurd hk (Nat.not_lt_zero k)⟩
  | succ n ih =>
      by_cases hsize : p.bufferSize = 0
      · simp [fillDmaPool, dmaAlloc, hsize, Prog.run_bind] at h
      · simp only [fillDmaPool, dmaAlloc, hsize, if_false, Prog.perform_bind, Prog.run_act, exec,
          State.nextAlloc] at h
        cases hblock : s.heap 0 with
        | none => simp [hblock, Prog.run_bind] at h
        | some b =>
            rw [hblock] at h
            obtain ⟨hcount, hbelow, hslots⟩ := ih h
            refine ⟨hcount, fun k hk => ?_, fun k hk => ?_⟩
            · rw [hbelow k (Nat.lt_succ_of_lt hk)]
              exact Function.update_of_ne (Nat.ne_of_lt hk) _ _
            · cases k with
              | zero =>
                  rw [Nat.add_zero, hbelow i (Nat.lt_succ_self i), hblock]
                  exact Function.update_self _ _ _
              | succ k =>
                  have hslot := hslots k (Nat.lt_of_succ_lt_succ hk)
                  rw [Nat.add_assoc, Nat.add_comm 1] at hslot
                  exact hslot

/-- A pool that `dma_pool_create` returns has `count` distinct buffers, all of them free. -/
theorem run_dmaPoolCreate {s : State δ} (hfresh : s.FreshBlocks) {bufferSize count : ℕ} {p : DmaPool}
    (h : (run D (dmaPoolCreate bufferSize count) s).1 = some p) :
    p.Sound ∧ p.count = count ∧ p.available = p.buffers ∧ p.buffers.Nodup := by
  obtain ⟨hsound, havailable, _⟩ := (dmaPoolCreate_ensures bufferSize count).run (exec D) s p h
  have hbuffers : p.count = count ∧ ∀ k < count, p.allBuffers k = s.heap (k + 1 + 1 + 1) := by
    simp only [dmaPoolCreate, Prog.perform_bind, Prog.run_act, exec, State.nextAlloc] at h
    cases hpool : (s.heap 0).isSome with
    | false => simp [hpool] at h
    | true =>
        simp only [hpool, Bool.not_true, Bool.false_eq_true, if_false, Prog.run_act, exec,
          State.nextAlloc, State.dropAlloc] at h
        cases hfree : (s.heap (0 + 1)).isSome with
        | false => simp [hfree] at h
        | true =>
            simp only [hfree, Bool.not_true, Bool.false_eq_true, if_false, Prog.run_act, exec,
              State.nextAlloc, State.dropAlloc] at h
            cases hall : (s.heap (0 + 1 + 1)).isSome with
            | false => simp [hall] at h
            | true =>
                simp only [hall, Bool.not_true, Bool.false_eq_true, if_false] at h
                obtain ⟨hcount, _, hslots⟩ := run_fillDmaPool_allBuffers h
                exact ⟨hcount, fun k hk => by simpa using hslots k hk⟩
  refine ⟨hsound, hbuffers.1, havailable, ?_⟩
  rw [DmaPool.buffers, hbuffers.1]
  have hnodup : ((List.range count).filterMap fun k => s.heap (k + 1 + 1 + 1)).Nodup := by
    refine List.nodup_range.filterMap fun k k' b hk hk' => ?_
    have := hfresh _ _ b hk hk'
    omega
  rwa [List.filterMap_congr fun k hk => hbuffers.2 k (List.mem_range.mp hk)]

end creation

/-! ### Holders -/

/-- A pool and who holds which of its buffers. -/
structure Lending (ι : Type) where
  pool : DmaPool
  held : List (ι × Addr)

/-- A critical section of one of the holders. -/
inductive LendingMove (ι : Type) where
  | acquire (who : ι)
  | release (who : ι) (b : Addr)

namespace Lending

variable {ι : Type}

/-- Nobody holds a buffer. -/
def start (p : DmaPool) : Lending ι := ⟨p, []⟩

/-- The buffers that are held. -/
def lent (σ : Lending ι) : List Addr := σ.held.map Prod.snd

/-- The free buffers and the ones that are held are the distinct buffers `P` of the pool. -/
structure Kept (P : List Addr) (σ : Lending ι) : Prop where
  sound : σ.pool.Sound
  buffers : σ.pool.buffers = P
  nodup : P.Nodup
  partition : (σ.pool.available ++ σ.lent).Perm P

variable {P : List Addr} {σ : Lending ι}

theorem Kept.length (h : σ.Kept P) : σ.pool.top + 1 + σ.held.length = σ.pool.count := by
  have hlength := h.partition.length_eq
  have htop := h.sound.top_ge
  rw [List.length_append, lent, List.length_map, DmaPool.available,
    length_filterMap_range h.sound.stocked, ← h.buffers, DmaPool.buffers,
    length_filterMap_range h.sound.filled] at hlength
  omega

/-- There is room for a buffer that is held. -/
theorem Kept.room (h : σ.Kept P) {who : ι} {b : Addr} (hb : (who, b) ∈ σ.held) :
    (σ.pool.top + 1).toNat < σ.pool.count := by
  have hpos : 0 < σ.held.length := List.length_pos_of_mem hb
  have hlength := h.length
  have htop := h.sound.top_ge
  omega

variable [DecidableEq ι]

/-- One critical section, and what it returns. -/
def next (σ : Lending ι) : LendingMove ι → Option Addr × Lending ι
  | .acquire who =>
      (σ.pool.acquire.1, ⟨σ.pool.acquire.2, σ.pool.acquire.1.toList.map (who, ·) ++ σ.held⟩)
  | .release who b => (none, ⟨σ.pool.release b, σ.held.erase (who, b)⟩)

/-- A release returns a buffer that its caller has acquired and not yet released. -/
def Proper (σ : Lending ι) : LendingMove ι → Prop
  | .acquire _ => True
  | .release who b => (who, b) ∈ σ.held

instance (σ : Lending ι) : (m : LendingMove ι) → Decidable (σ.Proper m)
  | .acquire _ => isTrue trivial
  | .release who b => inferInstanceAs (Decidable ((who, b) ∈ σ.held))

theorem Kept.next (h : σ.Kept P) {m : LendingMove ι} (hm : σ.Proper m) : (σ.next m).2.Kept P := by
  cases m with
  | acquire who =>
      refine ⟨h.sound.acquire, σ.pool.buffers_acquire.trans h.buffers, h.nodup, ?_⟩
      have hpartition := h.partition
      rw [h.sound.available_acquire, List.append_assoc] at hpartition
      simpa [Lending.next, lent, Function.comp_def] using hpartition
  | release who b =>
      refine ⟨h.sound.release b, (σ.pool.buffers_release b).trans h.buffers, h.nodup, ?_⟩
      have hroom : σ.pool.available.length < σ.pool.buffers.length := by
        rw [DmaPool.available, length_filterMap_range h.sound.stocked, DmaPool.buffers,
          length_filterMap_range h.sound.filled]
        exact h.room hm
      have hreturned : ([b] ++ (σ.held.erase (who, b)).map Prod.snd).Perm σ.lent :=
        ((List.perm_cons_erase hm).map Prod.snd).symm
      show ((σ.pool.release b).available ++ (σ.held.erase (who, b)).map Prod.snd).Perm P
      rw [h.sound.available_release b hroom, List.append_assoc]
      exact (hreturned.append_left _).trans h.partition

/-- What the pool guarantees to its holders; `P` are the buffers it was created with. -/
structure Partitioned (P : List Addr) (σ : Lending ι) : Prop where
  /-- `free_list[0..top]` has been written, without duplicates. -/
  written : ∀ k < (σ.pool.top + 1).toNat, (σ.pool.freeList k).isSome
  nodup : σ.pool.available.Nodup
  /-- Together with the buffers that are held it is exactly `all_buffers`. -/
  partition : (σ.pool.available ++ σ.lent).Perm P
  buffers : σ.pool.buffers = P
  length : σ.pool.top + 1 + σ.held.length = σ.pool.count
  /-- An acquire returns null exactly when all buffers are held, and no buffer that is held. -/
  exhausted : ∀ who, (σ.next (.acquire who)).1 = none ↔ σ.held.length = σ.pool.count
  unheld : ∀ who b, (σ.next (.acquire who)).1 = some b → b ∉ σ.lent
  /-- The early return of a release is not taken. -/
  room : ∀ who b, σ.Proper (.release who b) → ¬ σ.pool.count ≤ (σ.pool.top + 1).toNat

theorem Kept.partitioned (h : σ.Kept P) : σ.Partitioned P where
  written := h.sound.stocked
  nodup := (List.nodup_append.mp (h.partition.nodup_iff.mpr h.nodup)).1
  partition := h.partition
  buffers := h.buffers
  length := h.length
  exhausted who := by
    have hlength := h.length
    have htop := h.sound.top_ge
    simp only [Lending.next, DmaPool.acquire]
    split
    · simp only [true_iff]
      omega
    · rename_i hpos
      have hsome := h.sound.stocked σ.pool.top.toNat (by omega)
      refine iff_of_false (fun hnone => ?_) (by omega)
      rw [show σ.pool.freeList σ.pool.top.toNat = none from hnone] at hsome
      cases hsome
  unheld who b hb := by
    have hnodup := h.partition.nodup_iff.mpr h.nodup
    rw [h.sound.available_acquire, List.append_assoc] at hnodup
    have hb' : b ∈ σ.pool.acquire.1.toList := Option.mem_toList.mpr hb
    have hdisjoint := (List.nodup_append.mp (List.nodup_append.mp hnodup).2.1).2.2
    exact fun hlent => hdisjoint b hb' b hlent rfl
  room who b hm := Nat.not_le.mpr (h.room hm)

end Lending

/-- **The free buffers and the held ones partition the pool.**  For every count below `2 ^ 31`, every
number of holders and every interleaving of acquires and releases in which a release returns a
buffer that its caller holds.  The `int` `top` stays in range. -/
theorem pool_partitioned {ι δ : Type} [DecidableEq ι] {D : Driver δ} {s : State δ}
    (hfresh : s.FreshBlocks) {bufferSize count : ℕ} (hcount : count < 2 ^ 31) {p : DmaPool}
    (hp : (run D (dmaPoolCreate bufferSize count) s).1 = some p) {moves : List (LendingMove ι)}
    (hmoves : Machine.Always Lending.Proper Lending.next (Lending.start p) moves) :
    let σ := Machine.after Lending.next (Lending.start p) moves
    σ.Partitioned p.buffers ∧ σ.pool.count = count ∧ -1 ≤ σ.pool.top ∧ σ.pool.top + 1 < 2 ^ 31 := by
  intro σ
  obtain ⟨hsound, hpcount, havailable, hnodup⟩ := run_dmaPoolCreate hfresh hp
  have hstart : (Lending.start p : Lending ι).Kept p.buffers :=
    ⟨hsound, rfl, hnodup, by simp [Lending.start, Lending.lent, havailable]⟩
  have hkept : σ.Kept p.buffers :=
    hmoves.invariant (Lending.Kept p.buffers) (fun σ m h hm => h.next hm) hstart
  have hlength : σ.pool.count = count := by
    have hsame : σ.pool.buffers.length = p.buffers.length := congrArg List.length hkept.buffers
    rw [DmaPool.buffers, DmaPool.buffers, length_filterMap_range hkept.sound.filled,
      length_filterMap_range hsound.filled] at hsame
    exact hsame.trans hpcount
  have htop := hkept.sound.top_lt
  exact ⟨hkept.partitioned, hlength, hkept.sound.top_ge, by omega⟩

/-- A pool of two buffers. -/
def twoBuffers : DmaPool :=
  ((run keySpaceDriver (dmaPoolCreate kvEngineRetrieveSize 2) (.blank fun _ => .empty)).1).getD
    ⟨fun _ => none, fun _ => none, -1, 0, 0⟩

/-- Two clients take both buffers, a third acquire finds none, and the first client returns its
buffer. -/
def borrowing : List (LendingMove (Fin 2)) :=
  [.acquire 0, .acquire 1, .acquire 0, .release 0 4]

theorem pool_partitioned_twoBuffers :
    twoBuffers.buffers = [3, 4] ∧
      (Machine.after Lending.next (Lending.start twoBuffers) borrowing).Partitioned [3, 4] := by
  have hbuffers : twoBuffers.buffers = [3, 4] := by decide +kernel
  have hfresh : (State.blank fun _ => KeySpace.empty).FreshBlocks := by
    intro m n b hm hn
    exact Option.some.inj (hm.trans hn.symm)
  have hcreated : (run keySpaceDriver (dmaPoolCreate kvEngineRetrieveSize 2)
      (.blank fun _ => .empty)).1 = some twoBuffers := rfl
  have hmoves : Machine.Always Lending.Proper Lending.next (Lending.start twoBuffers) borrowing := by
    decide +kernel
  have hpartitioned := (pool_partitioned hfresh (by decide) hcreated hmoves).1
  rw [hbuffers] at hpartitioned
  exact ⟨hbuffers, hpartitioned⟩

end KvEngine
