import KvEngine.Custody
import KvEngine.Crew
import Mathlib.Data.Fintype.Option
import Mathlib.Algebra.Order.BigOperators.Group.Finset

/-! # Every buffer has one holder

The promises of `Custody.lean` put together, for any number of threads and every interleaving of
their actions.  The log tells where each block is: in a call in progress (`holding`), with a
caller or the user of a callback (`lent`), or with nobody, because a task returned without handing
it out (`abandoned`).  `BufferLedger` relates this to the pool and to `outstanding`, the blocks that
were taken from the pool or the heap and not returned: a buffer of the pool is either in the free
list or outstanding, and an outstanding block has exactly one holder.

`buffers_conserved` is about the synchronous functions: nothing is ever abandoned, every block
goes back to where it came from, and every buffer has the size it is used with.
`pool_refilled_iff` is about the execution of work items, and says when nothing is abandoned. -/

namespace KvEngine

open Atomic

/-! ### The pool -/

theorem length_filterMap_range {f : ℕ → Option Addr} {n : ℕ} (h : ∀ k < n, (f k).isSome) :
    ((List.range n).filterMap f).length = n := by
  induction n with
  | zero => rfl
  | succ n ih =>
      obtain ⟨b, hb⟩ := Option.isSome_iff_exists.mp (h n (Nat.lt_succ_self n))
      rw [List.range_succ, List.filterMap_append, List.length_append,
        ih fun k hk => h k (Nat.lt_succ_of_lt hk)]
      simp [hb]

namespace DmaPool

/-- The buffers of the pool. -/
def buffers (p : DmaPool) : List Addr := (List.range p.count).filterMap p.allBuffers

/-- The buffers of the free list. -/
def available (p : DmaPool) : List Addr := (List.range (p.top + 1).toNat).filterMap p.freeList

/-- `top` is in range, and the slots in use have been written. -/
structure Sound (p : DmaPool) : Prop where
  top_ge : -1 ≤ p.top
  top_lt : p.top < p.count
  stocked : ∀ k < (p.top + 1).toNat, (p.freeList k).isSome
  filled : ∀ k < p.count, (p.allBuffers k).isSome

variable {p : DmaPool}

instance (p : DmaPool) : Decidable p.Sound :=
  decidable_of_iff (-1 ≤ p.top ∧ p.top < p.count ∧
      (∀ k < (p.top + 1).toNat, (p.freeList k).isSome) ∧ ∀ k < p.count, (p.allBuffers k).isSome)
    ⟨fun h => ⟨h.1, h.2.1, h.2.2.1, h.2.2.2⟩,
      fun h => ⟨h.top_ge, h.top_lt, h.stocked, h.filled⟩⟩

theorem owns_iff (p : DmaPool) (b : Addr) : p.owns b = true ↔ b ∈ p.buffers := by
  simp [owns, buffers]

theorem buffers_acquire (p : DmaPool) : p.acquire.2.buffers = p.buffers := by
  unfold acquire
  split <;> rfl

theorem bufferSize_acquire (p : DmaPool) : p.acquire.2.bufferSize = p.bufferSize := by
  unfold acquire
  split <;> rfl

theorem buffers_release (p : DmaPool) (b : Addr) : (p.release b).buffers = p.buffers := by
  unfold release
  split <;> rfl

theorem bufferSize_release (p : DmaPool) (b : Addr) : (p.release b).bufferSize = p.bufferSize := by
  unfold release
  split <;> rfl

theorem Sound.acquire (h : p.Sound) : p.acquire.2.Sound := by
  have hge := h.top_ge
  have hlt := h.top_lt
  unfold DmaPool.acquire
  split
  · exact h
  · refine ⟨?_, ?_, fun k hk => h.stocked k ?_, h.filled⟩ <;> dsimp only at * <;> omega

/-- An acquire takes the top of the free list. -/
theorem Sound.available_acquire (h : p.Sound) :
    p.available = p.acquire.2.available ++ p.acquire.1.toList := by
  unfold DmaPool.acquire
  split
  · exact (List.append_nil _).symm
  · have htop : (p.top + 1).toNat = (p.top - 1 + 1).toNat + 1 := by omega
    obtain ⟨b, hb⟩ := Option.isSome_iff_exists.mp (h.stocked p.top.toNat (by omega))
    simp [available, htop, List.range_succ, hb]

theorem Sound.release (h : p.Sound) (b : Addr) : (p.release b).Sound := by
  have hge := h.top_ge
  unfold DmaPool.release
  split
  · exact h
  · refine ⟨by dsimp only; omega, by dsimp only; omega, fun k hk => ?_, h.filled⟩
    dsimp only at hk ⊢
    by_cases hk' : k = (p.top + 1).toNat
    · rw [hk', Function.update_self]
      rfl
    · rw [Function.update_of_ne hk']
      exact h.stocked k (by omega)

/-- A release pushes the buffer on the free list if there is room. -/
theorem Sound.available_release (h : p.Sound) (b : Addr)
    (hroom : p.available.length < p.buffers.length) :
    (p.release b).available = p.available ++ [b] := by
  have hge := h.top_ge
  have hlength : p.available.length = (p.top + 1).toNat := length_filterMap_range h.stocked
  have hcount : p.buffers.length = p.count := length_filterMap_range h.filled
  rw [hlength, hcount] at hroom
  have htop : (p.top + 1 + 1).toNat = (p.top + 1).toNat + 1 := by omega
  unfold DmaPool.release
  rw [if_neg (by omega)]
  simp only [available, htop, List.range_succ, List.filterMap_append, List.filterMap_cons,
    List.filterMap_nil, Function.update_self]
  congr 1
  refine List.filterMap_congr fun k hk => ?_
  rw [Function.update_of_ne (Nat.ne_of_lt (List.mem_range.mp hk))]

end DmaPool

namespace State

variable {δ : Type}

/-- The buffers of the pool, if there is one. -/
def poolBuffers (s : State δ) : List Addr := s.bufferPool.elim [] DmaPool.buffers

/-- The buffers in the free list of the pool. -/
def freeBuffers (s : State δ) : List Addr := s.bufferPool.elim [] DmaPool.available

/-- The pool, if there is one, has distinct buffers of the size of a retrieve, and all of them
are free. -/
structure Stocked (s : State δ) : Prop where
  sound : ∀ p, s.bufferPool = some p → p.Sound ∧ p.bufferSize = kvEngineRetrieveSize
  nodup : s.poolBuffers.Nodup
  whole : s.freeBuffers.Perm s.poolBuffers

instance (s : State δ) : Decidable s.Stocked :=
  decidable_of_iff ((∀ p ∈ s.bufferPool.toList, p.Sound ∧ p.bufferSize = kvEngineRetrieveSize) ∧
      s.poolBuffers.Nodup ∧ s.freeBuffers.Perm s.poolBuffers)
    ⟨fun h => ⟨fun p hp => h.1 p (Option.mem_toList.mpr hp), h.2.1, h.2.2⟩,
      fun h => ⟨fun p hp => h.sound p (Option.mem_toList.mp hp), h.nodup, h.whole⟩⟩

end State

/-- What `dma_pool_create` returns: every buffer is in both arrays. -/
theorem fillDmaPool_ensures (p : DmaPool) (i n : ℕ) (hcount : p.count = i + n) (htop : p.top + 1 = i)
    (hslots : ∀ k < i, (p.allBuffers k).isSome ∧ p.freeList k = p.allBuffers k) :
    (fillDmaPool p i n).Ensures fun r => ∀ q, r = some q →
      q.Sound ∧ q.available = q.buffers ∧ q.bufferSize = p.bufferSize := by
  induction n generalizing p i with
  | zero =>
      intro _ q hq
      cases hq
      have hrange : (p.top + 1).toNat = p.count := by omega
      refine ⟨⟨by omega, by omega, fun k hk => ?_, fun k hk => (hslots k (by omega)).1⟩, ?_, rfl⟩
      · rw [(hslots k (by omega)).2]
        exact (hslots k (by omega)).1
      · unfold DmaPool.available DmaPool.buffers
        rw [hrange]
        refine List.filterMap_congr fun k hk => (hslots k ?_).2
        have := List.mem_range.mp hk
        omega
  | succ n ih =>
      refine (Prog.ensures_true _).bind fun buf _ => ?_
      cases buf with
      | none =>
          refine (Prog.ensures_true _).bind fun _ _ q hq => ?_
          cases hq
      | some b =>
          have hslot : (p.top + 1).toNat = i := by omega
          have hnext := ih { p with
            top := p.top + 1
            freeList := Function.update p.freeList (p.top + 1).toNat (some b)
            allBuffers := Function.update p.allBuffers i (some b) } (i + 1)
          refine hnext (by dsimp only; omega) (by dsimp only; omega) fun k hk => ?_
          rw [hslot]
          by_cases hki : k = i
          · subst hki
            simp
          · simp only [Function.update_of_ne hki]
            exact hslots k (by omega)

theorem dmaPoolCreate_ensures (bufferSize count : ℕ) :
    (dmaPoolCreate bufferSize count).Ensures fun r => ∀ p, r = some p →
      p.Sound ∧ p.available = p.buffers ∧ p.bufferSize = bufferSize := by
  have hnone : ∀ p : DmaPool, none = some p →
      p.Sound ∧ p.available = p.buffers ∧ p.bufferSize = bufferSize := fun p hp => by cases hp
  intro pool
  cases pool with
  | false => exact hnone
  | true =>
      intro freeList
      cases freeList with
      | false => exact fun _ => hnone
      | true =>
          intro allBuffers
          cases allBuffers with
          | false => exact fun _ _ => hnone
          | true =>
              exact fillDmaPool_ensures ⟨fun _ => none, fun _ => none, -1, bufferSize, count⟩ 0 count
                (Nat.zero_add count).symm rfl fun k hk => absurd hk (Nat.not_lt_zero k)

/-- A pool that `dma_pool_create` has made of distinct buffers is fully stocked. -/
theorem dmaPoolCreate_stocked {δ : Type} (D : Driver δ) (count : ℕ) (s : State δ) {p : DmaPool}
    (hp : (run D (dmaPoolCreate kvEngineRetrieveSize count) s).1 = some p)
    (hdistinct : p.buffers.Nodup) (t : State δ) : State.Stocked { t with bufferPool := some p } := by
  obtain ⟨hsound, havailable, hsize⟩ :=
    (dmaPoolCreate_ensures kvEngineRetrieveSize count).run (exec D) s p hp
  refine ⟨fun q hq => ?_, hdistinct, ?_⟩
  · cases hq
    exact ⟨hsound, hsize⟩
  · exact List.Perm.of_eq havailable

/-! ### The ledger -/

namespace History

variable {κ δ : Type}

/-- The block of the work item that a task executes. -/
def itemBlock : Option κ → Task → List Addr
  | some _, .execute item => [item.addr]
  | _, _ => []

/-- The buffer that a caller gives back. -/
def takenBack : Option κ → Task → List Addr
  | some _, .freeBuffer (some b) => [b]
  | _, _ => []

/-- The blocks taken from the pool or the heap and not returned, and the work items in
execution. -/
def outstanding : History κ δ → List Addr
  | [] => []
  | .began who t :: log => itemBlock who t ++ outstanding log
  | .acted _ _ a answer :: log =>
      gained ⟨a, answer⟩ ++ (outstanding log).diff (returned ⟨a, answer⟩)
  | .ended _ _ _ :: log => outstanding log

/-- The buffers that callers and callbacks have received and not given back. -/
def lent : History κ δ → List Addr
  | [] => []
  | .began who t :: log => (lent log).diff (takenBack who t)
  | .acted _ _ a answer :: log => calledBack ⟨a, answer⟩ ++ lent log
  | .ended _ t o :: log => handedOut t o ++ lent log

variable [DecidableEq κ]

/-- The blocks that a call in progress holds. -/
def holding (who : Option κ) (log : History κ δ) : List Addr :=
  match who, log.doing who with
  | some _, some t => held t (log.own who)
  | _, _ => []

/-- The blocks that a task held when it returned and did not hand out. -/
def abandoned : History κ δ → List Addr
  | [] => []
  | .began _ _ :: log => abandoned log
  | .acted _ _ _ _ :: log => abandoned log
  | .ended who t o :: log => (holding who log).diff (handedOut t o) ++ abandoned log

theorem holding_none (log : History κ δ) : holding none log = [] := rfl

theorem holding_of_doing {j : κ} {t : Task} {log : History κ δ}
    (h : Log.doing (some j) log = some t) : holding (some j) log = held t (Log.own (some j) log) := by
  simp only [holding, h]

theorem holding_of_idle {who : Option κ} {log : History κ δ} (h : Log.doing who log = none) :
    holding who log = [] := by
  cases who with
  | none => rfl
  | some j => simp only [holding, h]

theorem holding_congr {who : Option κ} {log log' : History κ δ}
    (hdoing : Log.doing who log' = Log.doing who log) (hown : Log.own who log' = Log.own who log) :
    holding who log' = holding who log := by
  unfold holding
  rw [hdoing, hown]

end History

/-! ### The promises of all threads -/

section discipline

variable {κ : Type} {P : List Addr} {bufferSize : ℕ}

/-- What the threads promise about the buffers; the phase of a thread are its own actions. -/
def custody (κ : Type) (P : List Addr) (bufferSize : ℕ) :
    Discipline (Option κ) Task Act Act.Resp Outcome (fun _ => Events) where
  first _ := []
  enter _ _ _ := []
  ok
    | none, _, _, a => a.Plain
    | some _, t, ev, a => t.Fits P → Handles P bufferSize t ev a
  answers _ _ := Served P bufferSize
  next _ ev a answer := ⟨a, answer⟩ :: ev
  ends
    | none, _, _, o => ∃ recoveryCounts, o = .swept recoveryCounts
    | some _, t, ev, o => t.Fits P → Settles bufferSize t ev o ∧ Balanced t ev
  leave _ _ := []
  rests _ _ ev := ev = []

theorem custody_lawful (κ : Type) (P : List Addr) (hsize : kvEngineRetrieveSize ≤ bufferSize) :
    (custody κ P bufferSize).Lawful crewProg where
  starts _ := rfl
  follows
    | none, t, last, q, _ => by
        have hprobe : (probeSweep (recoveryCountsOf last)).Performs Act.Plain :=
          (probeSweepFrom_probes 0 kvMaxDevices _).mono fun a h => by
            cases a <;> first | exact trivial | exact h.elim
        refine Prog.Follows.bind (hprobe.follows_of_ok (fun _ _ h => h) (fun _ _ => trivial) _) ?_
        exact fun _ recoveryCounts _ => ⟨recoveryCounts, rfl⟩
    | some j, t, _, _, _ => by
        by_cases ht : t.Fits P
        · have hfollows := (task_custody hsize ht).invariant (I := Balanced t)
            (fun ev a answer hbalanced hok _ => Handles.balanced hok answer hbalanced)
            (balanced_nil t)
          exact (hfollows.mono fun ev o h _ => h).weaken (fun _ _ h _ => h) (fun _ _ _ h => h)
            fun _ _ _ => rfl
        · exact (Prog.performs_true _).follows_of_ok (fun _ _ _ h => absurd h ht)
            (fun _ _ h => absurd h ht) _
  rests _ _ _ _ _ := rfl

theorem phase_custody {δ : Type} [DecidableEq κ] (who : Option κ) (log : History κ δ) :
    (custody κ P bufferSize).phase who log = log.own who := by
  induction log with
  | nil => rfl
  | cons e log ih =>
      cases e with
      | began i t => exact if_congr Iff.rfl rfl ih
      | acted i before a answer =>
          exact if_congr Iff.rfl (congrArg (List.cons (⟨a, answer⟩ : Event Act Act.Resp)) ih) ih
      | ended i t o => exact if_congr Iff.rfl rfl ih

end discipline

/-! ### The pool and the outstanding blocks -/

section stock

variable {P out : List Addr} {pool : Option DmaPool}

/-- A buffer of the pool `P` is either free or outstanding, and no block is outstanding twice. -/
structure Stock (P : List Addr) (pool : Option DmaPool) (out : List Addr) : Prop where
  buffers : pool.elim [] DmaPool.buffers = P
  sound : ∀ p, pool = some p → p.Sound ∧ p.bufferSize = kvEngineRetrieveSize
  free_mem : ∀ b ∈ pool.elim [] DmaPool.available, b ∈ P
  once : ∀ b ∈ P, (pool.elim [] DmaPool.available).count b + out.count b = 1
  heap : ∀ b, b ∉ P → out.count b ≤ 1

theorem State.Stocked.stock {δ : Type} {s : State δ} (h : s.Stocked) :
    Stock s.poolBuffers s.bufferPool [] where
  buffers := rfl
  sound := h.sound
  free_mem b hb := h.whole.subset hb
  once b hb := by
    show s.freeBuffers.count b + 0 = 1
    rw [h.whole.count_eq b, List.count_eq_one_of_mem h.nodup hb]
  heap b _ := by simp

/-- What the pool tells about itself. -/
theorem Stock.served (h : Stock P pool out) :
    Served P kvEngineRetrieveSize .loadBufferPool pool := by
  have hbuffers := h.buffers
  cases pool with
  | none =>
      obtain rfl : [] = P := hbuffers
      exact ⟨fun b => by simp, rfl⟩
  | some p =>
      obtain rfl : p.buffers = P := hbuffers
      exact ⟨fun b => p.owns_iff b, by simp [(h.sound p rfl).2]⟩

theorem Stock.acquire {p : DmaPool} (h : Stock P (some p) out) :
    Stock P (some p.acquire.2) (p.acquire.1.toList ++ out) ∧ ∀ b ∈ p.acquire.1, b ∈ P := by
  obtain ⟨hsound, hsize⟩ := h.sound p rfl
  have havailable := hsound.available_acquire
  have hmem : ∀ b ∈ p.acquire.1, b ∈ P := fun b hb => h.free_mem b (by
    show b ∈ p.available
    rw [havailable]
    exact List.mem_append_right _ (Option.mem_toList.mpr hb))
  refine ⟨⟨p.buffers_acquire.trans h.buffers, fun q hq => ?_, fun b hb => h.free_mem b ?_,
    fun b hb => ?_, fun b hb => ?_⟩, hmem⟩
  · cases hq
    exact ⟨hsound.acquire, p.bufferSize_acquire.trans hsize⟩
  · show b ∈ p.available
    rw [havailable]
    exact List.mem_append_left _ hb
  · have honce : p.available.count b + out.count b = 1 := h.once b hb
    rw [havailable, List.count_append] at honce
    show p.acquire.2.available.count b + (p.acquire.1.toList ++ out).count b = 1
    rw [List.count_append]
    omega
  · have hzero : p.acquire.1.toList.count b = 0 :=
      List.count_eq_zero.mpr fun hb' => hb (hmem b (Option.mem_toList.mp hb'))
    rw [List.count_append, hzero, Nat.zero_add]
    exact h.heap b hb

/-- There is room for a buffer that is outstanding. -/
theorem Stock.room {p : DmaPool} (h : Stock P (some p) out) {b : Addr} (hb : b ∈ P)
    (hout : b ∈ out) : p.available.length < p.buffers.length := by
  have hcount (x : Addr) : (b :: p.available).count x ≤ p.buffers.count x := by
    have hbuffers : p.buffers = P := h.buffers
    by_cases hx : x ∈ (b :: p.available)
    · have hxP : x ∈ P := by
        rcases List.mem_cons.mp hx with rfl | hx
        · exact hb
        · exact h.free_mem x hx
      have honce : p.available.count x + out.count x = 1 := h.once x hxP
      have hP : 1 ≤ p.buffers.count x := List.count_pos_iff.mpr (hbuffers ▸ hxP)
      rw [List.count_cons]
      split
      · rename_i hbx
        obtain rfl : b = x := by simpa using hbx
        have := List.count_pos_iff.mpr hout
        omega
      · omega
    · rw [List.count_eq_zero.mpr hx]
      exact Nat.zero_le _
  exact (List.subperm_ext_iff.mpr fun x _ => hcount x).length_le

theorem Stock.release {p : DmaPool} (h : Stock P (some p) out) {b : Addr} (hb : b ∈ P)
    (hout : b ∈ out) : Stock P (some (p.release b)) (out.diff [b]) := by
  obtain ⟨hsound, hsize⟩ := h.sound p rfl
  have havailable := hsound.available_release b (h.room hb hout)
  refine ⟨(p.buffers_release b).trans h.buffers, fun q hq => ?_, fun x hx => ?_, fun x hx => ?_,
    fun x hx => ?_⟩
  · cases hq
    exact ⟨hsound.release b, (p.bufferSize_release b).trans hsize⟩
  · have hx' : x ∈ p.available ++ [b] := havailable ▸ hx
    rcases List.mem_append.mp hx' with hx' | hx'
    · exact h.free_mem x hx'
    · obtain rfl := List.mem_singleton.mp hx'
      exact hb
  · have honce : p.available.count x + out.count x = 1 := h.once x hx
    have hle := count_singleton_le hout x
    show (p.release b).available.count x + (out.diff [b]).count x = 1
    rw [havailable, List.count_append, List.count_diff]
    omega
  · rw [List.count_diff]
    exact (Nat.sub_le _ _).trans (h.heap x hx)

theorem Stock.take (h : Stock P pool out) {b : Addr} (hb : b ∉ P) (hout : b ∉ out) :
    Stock P pool (b :: out) := by
  refine { h with once := fun x hx => ?_, heap := fun x hx => ?_ }
  · have hne : b ≠ x := fun hbx => hb (hbx ▸ hx)
    rw [List.count_cons_of_ne hne]
    exact h.once x hx
  · by_cases hbx : b = x
    · subst hbx
      rw [List.count_cons_self, List.count_eq_zero.mpr hout]
    · rw [List.count_cons_of_ne hbx]
      exact h.heap x hx

theorem Stock.free (h : Stock P pool out) {b : Addr} (hb : b ∉ P) : Stock P pool (out.diff [b]) := by
  refine { h with once := fun x hx => ?_, heap := fun x hx => ?_ }
  · have hne : [b].count x = 0 := List.count_eq_zero.mpr (by
      rw [List.mem_singleton]
      exact fun hxb => hb (hxb ▸ hx))
    rw [List.count_diff, hne, Nat.sub_zero]
    exact h.once x hx
  · rw [List.count_diff]
    exact (Nat.sub_le _ _).trans (h.heap x hx)

/-- What an action of a task does to the pool and the outstanding blocks. -/
theorem Handles.stock_exec {δ : Type} {D : Driver δ} {s : State δ} {t : Task} {ev : Events} {a : Act}
    (hok : Handles P kvEngineRetrieveSize t ev a) (h : Stock P s.bufferPool out)
    (hheld : ∀ b ∈ held t ev, b ∈ out)
    (hfresh : ∀ size, a = .alloc size → ∀ b ∈ s.nextAlloc, b ∉ P ∧ b ∉ out) :
    Served P kvEngineRetrieveSize a (exec D a s).1 ∧
      Stock P (exec D a s).2.bufferPool
        (gained ⟨a, (exec D a s).1⟩ ++ out.diff (returned ⟨a, (exec D a s).1⟩)) := by
  by_cases hcommand : a.isCommand = true
  · obtain ⟨ssd, heq⟩ := exec_command (D := D) hcommand s
    rw [heq]
    cases a <;> first | exact ⟨trivial, h⟩ | cases hcommand
  cases a with
  | dmaPoolAcquire =>
      cases hpool : s.bufferPool with
      | none =>
          simp only [exec, hpool]
          exact ⟨fun b hb => (by cases hb), hpool ▸ h⟩
      | some p =>
          simp only [exec, hpool]
          obtain ⟨hstock, hmem⟩ := Stock.acquire (hpool ▸ h)
          exact ⟨hmem, hstock⟩
  | dmaPoolRelease b =>
      refine ⟨trivial, ?_⟩
      cases hpool : s.bufferPool with
      | none =>
          obtain rfl : [] = P := by
            have hbuffers := h.buffers
            rw [hpool] at hbuffers
            exact hbuffers
          cases hok.1
      | some p =>
          simp only [exec, hpool]
          exact Stock.release (hpool ▸ h) hok.1 (hheld b hok.2)
  | alloc size =>
      have hnew := hfresh size rfl
      refine ⟨fun b hb => (hnew b hb).1, ?_⟩
      cases halloc : s.nextAlloc with
      | none =>
          simp only [exec, halloc]
          exact h
      | some b =>
          simp only [exec, halloc]
          exact h.take (hnew b halloc).1 (hnew b halloc).2
  | free b => exact ⟨trivial, h.free hok.1⟩
  | loadBufferPool => exact ⟨h.served, h⟩
  | keyTableAdd key =>
      refine ⟨trivial, ?_⟩
      show Stock P (s.addTableKey key).bufferPool out
      unfold State.addTableKey
      split <;> exact h
  | _ => first | exact absurd rfl hcommand | exact ⟨trivial, h⟩ | exact hok.elim

end stock

/-! ### The tasks that can start -/

section admissible

variable {κ δ : Type} {s : State δ} {log : History κ δ}

/-- The tasks that can start: work items are blocks of their own, and a caller frees only a
buffer that it has received and not given back. -/
def Admissible (s : State δ) (log : History κ δ) : Task → Prop
  | .submit _ _ => False
  | .reject _ => False
  | .execute item => item.addr ∉ s.poolBuffers ++ log.outstanding
  | .freeBuffer (some b) => b ∈ log.lent
  | _ => True

instance (s : State δ) (log : History κ δ) : (t : Task) → Decidable (Admissible s log t)
  | .submit _ _ => isFalse id
  | .reject _ => isFalse id
  | .execute item => inferInstanceAs (Decidable (item.addr ∉ s.poolBuffers ++ log.outstanding))
  | .freeBuffer (some b) => inferInstanceAs (Decidable (b ∈ log.lent))
  | .freeBuffer none => isTrue trivial
  | .call _ => isTrue trivial
  | .record _ _ => isTrue trivial
  | .getDeviceHealth _ _ => isTrue trivial
  | .healthyDeviceCount => isTrue trivial
  | .getStats => isTrue trivial
  | .resetStats => isTrue trivial
  | .allocBuffer _ => isTrue trivial

theorem brings_count (j : κ) (t : Task) (b : Addr) :
    t.brings.count b = (History.takenBack (some j) t).count b +
      (History.itemBlock (some j) t).count b := by
  cases t with
  | freeBuffer buffer => cases buffer <;> simp [Task.brings, History.takenBack, History.itemBlock]
  | _ => simp [Task.brings, History.takenBack, History.itemBlock]

theorem Admissible.fits {t : Task} (h : Admissible s log t) : t.Fits s.poolBuffers := by
  cases t with
  | execute item => exact fun hP => h (List.mem_append_left _ hP)
  | _ => first | exact trivial | exact h.elim

theorem Admissible.count_takenBack_le {t : Task} (h : Admissible s log t) (j : κ) (b : Addr) :
    (History.takenBack (some j) t).count b ≤ log.lent.count b := by
  cases t with
  | freeBuffer buffer =>
      cases buffer with
      | none => simp [History.takenBack]
      | some b' => exact count_singleton_le h b
  | _ => simp [History.takenBack]

theorem Admissible.stock {t : Task} (h : Admissible s log t)
    (hstock : Stock s.poolBuffers s.bufferPool log.outstanding) (j : κ) :
    Stock s.poolBuffers s.bufferPool (History.itemBlock (some j) t ++ log.outstanding) := by
  cases t with
  | execute item =>
      exact hstock.take (fun hP => h (List.mem_append_left _ hP))
        fun hout => h (List.mem_append_right _ hout)
  | _ => exact hstock

end admissible

/-! ### The ledger is kept -/

section ledger

variable {κ δ : Type} [DecidableEq κ] [Fintype κ] {D : Driver δ} {P : List Addr} {s : State δ}
  {log : History κ δ}

/-- Every outstanding block has exactly one holder. -/
structure BufferLedger (P : List Addr) (s : State δ) (log : History κ δ) : Prop where
  stock : Stock P s.bufferPool log.outstanding
  holders : ∀ b, log.outstanding.count b =
    ∑ who, (log.holding who).count b + log.lent.count b + log.abandoned.count b
  fits : ∀ j t, log.doing (some j) = some t → t.Fits P

theorem bufferLedger_nil (hs : s.Stocked) : BufferLedger s.poolBuffers s ([] : History κ δ) where
  stock := hs.stock
  holders b := by
    have hnone : ∑ who : Option κ, (History.holding who ([] : History κ δ)).count b = 0 :=
      Finset.sum_eq_zero fun who _ => by rw [History.holding_of_idle rfl]; rfl
    rw [hnone]
    rfl
  fits j t h := by cases h

/-- A thread holds part of what the threads hold. -/
theorem count_holding_le (log : History κ δ) (who : Option κ) (b : Addr) :
    (log.holding who).count b ≤ ∑ i, (log.holding i).count b :=
  Finset.single_le_sum (f := fun i => (log.holding i).count b) (fun _ _ => Nat.zero_le _)
    (Finset.mem_univ who)

theorem sum_holding_cons {e : Entry κ δ} {who : Option κ}
    (hother : ∀ i, i ≠ who → History.holding i (e :: log) = log.holding i) (b : Addr) :
    ∑ i, (History.holding i (e :: log)).count b + (log.holding who).count b =
      ∑ i, (log.holding i).count b + (History.holding who (e :: log)).count b :=
  Log.sum_of_eq_of_ne (fun i => (log.holding i).count b)
    (fun i => (History.holding i (e :: log)).count b) fun i hi => by rw [hother i hi]

theorem BufferLedger.began (h : BufferLedger P s log) {who : Option κ} {t : Task}
    (hidle : log.doing who = none) (ht : who.isSome = true → Admissible s log t) :
    BufferLedger P s (.began who t :: log) := by
  obtain rfl : s.poolBuffers = P := h.stock.buffers
  have hother (i : Option κ) (hi : i ≠ who) :
      History.holding i (.began who t :: log) = log.holding i :=
    History.holding_congr (if_neg hi.symm) (if_neg hi.symm)
  have hsum := sum_holding_cons hother
  have hbefore : log.holding who = [] := History.holding_of_idle hidle
  have hfits : ∀ j t', Log.doing (some j) (.began who t :: log) = some t' →
      t'.Fits s.poolBuffers := by
    intro j t' hdoing
    unfold Log.doing at hdoing
    split_ifs at hdoing with hj
    · cases hdoing
      exact (ht (by rw [hj]; rfl)).fits
    · exact h.fits j t' hdoing
  cases who with
  | none =>
      refine ⟨h.stock, fun b => ?_, hfits⟩
      have hb := hsum b
      rw [hbefore, History.holding_none] at hb
      show log.outstanding.count b = _ + log.lent.count b + log.abandoned.count b
      rw [h.holders b]
      omega
  | some j =>
      have hadmissible := ht rfl
      refine ⟨hadmissible.stock h.stock j, fun b => ?_, hfits⟩
      have hb := hsum b
      have hbegun : History.holding (some j) (.began (some j) t :: log) = t.brings := by
        have hdoing : Log.doing (some j) (.began (some j) t :: log) = some t := if_pos rfl
        have hown : Log.own (some j) (.began (some j) t :: log) = [] := if_pos rfl
        rw [History.holding_of_doing hdoing, hown]
        rfl
      have hle := hadmissible.count_takenBack_le j b
      have hold := h.holders b
      rw [hbefore, hbegun, brings_count j] at hb
      show (History.itemBlock (some j) t ++ log.outstanding).count b =
        _ + (log.lent.diff (History.takenBack (some j) t)).count b + log.abandoned.count b
      rw [List.count_append, List.count_diff]
      simp only [List.count_nil] at hb
      omega

theorem BufferLedger.acted_probe (h : BufferLedger P s log) {a : Act} (ha : a.Plain) :
    Served P kvEngineRetrieveSize a (exec D a s).1 ∧
      BufferLedger P (exec D a s).2 (.acted none s a (exec D a s).1 :: log) := by
  have hok : Handles P kvEngineRetrieveSize .getStats [] a := ha.handles
  have hnothing : gained ⟨a, (exec D a s).1⟩ = [] ∧ returned ⟨a, (exec D a s).1⟩ = [] ∧
      calledBack ⟨a, (exec D a s).1⟩ = [] := by
    cases a <;> first | exact ⟨rfl, rfl, rfl⟩ | exact ha.elim
  obtain ⟨hserved, hstock⟩ := hok.stock_exec (D := D) h.stock (fun b hb => by cases hb)
    fun size heq => by subst heq; exact ha.elim
  refine ⟨hserved, hstock, fun b => ?_, h.fits⟩
  have hsame (i : Option κ) :
      History.holding i (.acted none s a (exec D a s).1 :: log) = log.holding i := by
    cases i with
    | none => rfl
    | some j => exact History.holding_congr rfl (Log.own_acted_of_ne (by simp) _ _ _ _)
  have hold := h.holders b
  simp only [History.outstanding, History.lent, History.abandoned, hnothing, hsame, List.diff_nil,
    List.nil_append]
  exact hold

theorem handedOut_swept (t : Task) (recoveryCounts : ℕ → UInt32) :
    handedOut t (.swept recoveryCounts) = [] := by
  cases t <;> rfl

/-- A task hands out only what it holds. -/
theorem Settles.count_le {t : Task} {ev : Events} {o : Outcome} {bufferSize : ℕ}
    (h : Settles bufferSize t ev o) (b : Addr) : (handedOut t o).count b ≤ (held t ev).count b := by
  cases t with
  | execute item =>
      rw [h.1]
      exact Nat.zero_le _
  | allocBuffer size => exact (congrArg (List.count b) h.1).ge
  | _ => exact (congrArg (List.count b) h).ge

theorem BufferLedger.ended (h : BufferLedger P s log) {who : Option κ} {t : Task} {o : Outcome}
    (hdoing : log.doing who = some t)
    (hends : (custody κ P kvEngineRetrieveSize).ends who t (log.own who) o) :
    BufferLedger P s (.ended who t o :: log) := by
  have hother (i : Option κ) (hi : i ≠ who) :
      History.holding i (.ended who t o :: log) = log.holding i :=
    History.holding_congr (if_neg hi.symm) (if_neg hi.symm)
  have hafter : History.holding who (.ended who t o :: log) = [] :=
    History.holding_of_idle (if_pos rfl)
  have hle (b : Addr) : (handedOut t o).count b ≤ (log.holding who).count b := by
    cases who with
    | none =>
        obtain ⟨recoveryCounts, rfl⟩ := hends
        rw [handedOut_swept]
        exact Nat.zero_le _
    | some j =>
        rw [History.holding_of_doing hdoing]
        exact (hends (h.fits j t hdoing)).1.count_le b
  refine ⟨h.stock, fun b => ?_, fun j t' hdoing' => ?_⟩
  · have hsum := sum_holding_cons hother b
    have hold := h.holders b
    have hb := hle b
    rw [hafter] at hsum
    show log.outstanding.count b = _ + (handedOut t o ++ log.lent).count b +
      ((log.holding who).diff (handedOut t o) ++ log.abandoned).count b
    rw [List.count_append, List.count_append, List.count_diff]
    simp only [List.count_nil] at hsum
    omega
  · unfold Log.doing at hdoing'
    split_ifs at hdoing'
    exact h.fits j t' hdoing'

theorem BufferLedger.acted_client (h : BufferLedger P s log) {j : κ} {t : Task} {a : Act}
    (hdoing : log.doing (some j) = some t)
    (hok : Handles P kvEngineRetrieveSize t (log.own (some j)) a)
    (hfresh : ∀ size, a = .alloc size → ∀ b ∈ s.nextAlloc, b ∉ s.poolBuffers ++ log.outstanding) :
    Served P kvEngineRetrieveSize a (exec D a s).1 ∧
      BufferLedger P (exec D a s).2 (.acted (some j) s a (exec D a s).1 :: log) := by
  obtain rfl : s.poolBuffers = P := h.stock.buffers
  have hholding : log.holding (some j) = held t (log.own (some j)) := History.holding_of_doing hdoing
  have hheld (b : Addr) (hb : b ∈ held t (log.own (some j))) : b ∈ log.outstanding := by
    have hle := count_holding_le log (some j) b
    have hold := h.holders b
    rw [hholding] at hle
    have := List.count_pos_iff.mpr hb
    exact List.count_pos_iff.mp (by omega)
  obtain ⟨hserved, hstock⟩ := hok.stock_exec (D := D) h.stock hheld fun size ha b hb =>
    ⟨fun hP => hfresh size ha b hb (List.mem_append_left _ hP),
      fun hout => hfresh size ha b hb (List.mem_append_right _ hout)⟩
  refine ⟨hserved, hstock, fun b => ?_, h.fits⟩
  have hother (i : Option κ) (hi : i ≠ some j) :
      History.holding i (.acted (some j) s a (exec D a s).1 :: log) = log.holding i :=
    History.holding_congr rfl (Log.own_acted_of_ne hi.symm _ _ _ _)
  have hsum := sum_holding_cons hother b
  have hacted : History.holding (some j) (.acted (some j) s a (exec D a s).1 :: log) =
      held t (⟨a, (exec D a s).1⟩ :: log.own (some j)) := by
    have hdoing' : Log.doing (some j) (.acted (some j) s a (exec D a s).1 :: log) = some t := hdoing
    rw [History.holding_of_doing hdoing', Log.own_acted_self]
  have hle := hok.count_le (exec D a s).1 b
  have hpart := count_holding_le log (some j) b
  have hold := h.holders b
  rw [hacted, hholding, count_held_cons] at hsum
  rw [hholding] at hpart
  show (gained ⟨a, (exec D a s).1⟩ ++
      log.outstanding.diff (returned ⟨a, (exec D a s).1⟩)).count b =
    _ + (calledBack ⟨a, (exec D a s).1⟩ ++ log.lent).count b + log.abandoned.count b
  rw [List.count_append, List.count_append, List.count_diff]
  omega

end ledger

/-! ### Every move keeps the ledger -/

section moves

variable {κ δ : Type} {D : Driver δ} {P : List Addr}

/-- No buffer of the pool is passed to `dma_free`, and no block of the heap is pushed onto the
pool. -/
def Routed (P : List Addr) : Entry κ δ → Prop
  | .acted _ _ (.free b) _ => b ∉ P
  | .acted _ _ (.dmaPoolRelease b) _ => b ∈ P
  | _ => True

variable [DecidableEq κ]

/-- The device gets a buffer that the call holds, with a length that fits, and a caller one of the
size it asked for. -/
def Roomy (e : Entry κ δ) (earlier : History κ δ) : Prop :=
  match e with
  | .acted who _ (.kvsRetrieveKvp _ _ b v _) _ =>
      b ∈ earlier.holding who ∧ Room kvEngineRetrieveSize (earlier.own who) b v.length.toNat
  | .ended who (.allocBuffer size) (.buffer (some b)) =>
      Room kvEngineRetrieveSize (earlier.own who) b size
  | _ => True

/-- A task that returns has returned every block it was given or obtained, except those it hands
out. -/
def Squared (e : Entry κ δ) (earlier : History κ δ) : Prop :=
  match e with
  | .ended (some j) t o => t.executes = false → ∀ b,
      t.brings.count b + ((earlier.own (some j)).flatMap gained).count b =
        ((earlier.own (some j)).flatMap returned).count b + (handedOut t o).count b
  | _ => True

/-- The request that was executed has not leaked its value. -/
def Unleaking (e : Entry κ δ) (earlier : History κ δ) : Prop :=
  match e with
  | .ended (some j) (.execute item) _ => ¬ Leaks item.arg (earlier.own (some j))
  | _ => True

instance (ctx : AsyncContext) (ev : Events) : Decidable (Leaks ctx ev) :=
  inferInstanceAs (Decidable (_ ∧ _ ∧ _))

instance (e : Entry κ δ) (earlier : History κ δ) : Decidable (Unleaking e earlier) :=
  match e with
  | .began _ _ => isTrue trivial
  | .acted _ _ _ _ => isTrue trivial
  | .ended none _ _ => isTrue trivial
  | .ended (some j) (.execute item) _ =>
      inferInstanceAs (Decidable (¬ Leaks item.arg (earlier.own (some j))))
  | .ended (some _) (.call _) _ => isTrue trivial
  | .ended (some _) (.submit _ _) _ => isTrue trivial
  | .ended (some _) (.reject _) _ => isTrue trivial
  | .ended (some _) (.record _ _) _ => isTrue trivial
  | .ended (some _) (.getDeviceHealth _ _) _ => isTrue trivial
  | .ended (some _) .healthyDeviceCount _ => isTrue trivial
  | .ended (some _) .getStats _ => isTrue trivial
  | .ended (some _) .resetStats _ => isTrue trivial
  | .ended (some _) (.allocBuffer _) _ => isTrue trivial
  | .ended (some _) (.freeBuffer _) _ => isTrue trivial

/-- What holds of every entry of the log. -/
def InOrder (P : List Addr) (e : Entry κ δ) (earlier : History κ δ) : Prop :=
  Routed P e ∧ Squared e earlier ∧ Roomy e earlier

theorem Handles.inOrder {j : κ} {s : State δ} {log : History κ δ} {t : Task} {a : Act}
    (hok : Handles P kvEngineRetrieveSize t (log.own (some j)) a)
    (hdoing : log.doing (some j) = some t) (answer : a.Resp) :
    InOrder P (.acted (some j) s a answer) log := by
  cases a with
  | free b => exact ⟨hok.1, trivial, trivial⟩
  | dmaPoolRelease b => exact ⟨hok.1, trivial, trivial⟩
  | kvsRetrieveKvp i k b v del =>
      refine ⟨trivial, trivial, ?_, hok.2⟩
      rw [History.holding_of_doing hdoing]
      exact hok.1
  | _ => exact ⟨trivial, trivial, trivial⟩

theorem Act.Plain.inOrder {who : Option κ} {s : State δ} {log : History κ δ} {a : Act}
    (ha : a.Plain) (answer : a.Resp) : InOrder P (.acted who s a answer) log := by
  cases a <;> first | exact ⟨trivial, trivial, trivial⟩ | exact ha.elim

theorem Settles.held_eq {bufferSize : ℕ} {t : Task} {ev : Events} {o : Outcome}
    (h : Settles bufferSize t ev o) (ht : t.executes = false) : held t ev = handedOut t o := by
  cases t with
  | execute item => cases ht
  | allocBuffer size => exact h.1
  | _ => exact h

theorem Settles.inOrder {j : κ} {log : History κ δ} {t : Task} {o : Outcome}
    (h : Settles kvEngineRetrieveSize t (log.own (some j)) o)
    (hbalanced : Balanced t (log.own (some j))) : InOrder P (.ended (some j) t o) log := by
  refine ⟨trivial, fun ht b => ?_, ?_⟩
  · have hb := hbalanced.1 b
    rw [h.held_eq ht, hbalanced.2 ht, List.count_nil] at hb
    omega
  · cases t with
    | allocBuffer size =>
        cases o with
        | buffer b =>
            cases b with
            | none => exact trivial
            | some b => exact h.2 b (List.mem_singleton_self b)
        | _ => exact trivial
    | _ => exact trivial

theorem diff_self (l : List Addr) : l.diff l = [] := by
  induction l with
  | nil => rfl
  | cons b l ih => rw [List.diff_cons, List.erase_cons_head, ih]

/-- What a task abandons when it returns. -/
theorem Settles.abandons_iff {j : κ} {log : History κ δ} {t : Task} {o : Outcome}
    (h : Settles kvEngineRetrieveSize t (log.own (some j)) o) :
    (held t (log.own (some j))).diff (handedOut t o) = [] ↔
      Unleaking (.ended (some j) t o) log := by
  cases t with
  | execute item =>
      rw [h.1, List.diff_nil]
      exact h.2
  | _ =>
      rw [h.held_eq rfl]
      exact iff_of_true (diff_self _) trivial

/-- The action asks the heap for a block. -/
def Act.allocates : Act → Bool
  | .alloc _ => true
  | _ => false

namespace Crew

variable {σ : Crew κ δ}

/-- The moves of well-behaved callers over a correct allocator: a thread starts only an admissible
task, and `dma_alloc` returns no address of a live buffer. -/
def Proper (σ : Crew κ δ) : Move (Option κ) Task → Prop
  | .invoke none _ => True
  | .invoke (some j) t =>
      (σ.session (some j)).isIdle = true → Admissible σ.shared σ.log t
  | .step who => (σ.nextAct who).any Act.allocates = true →
      ∀ b ∈ σ.shared.nextAlloc.toList, b ∉ σ.shared.poolBuffers ++ History.outstanding σ.log

instance (σ : Crew κ δ) : (m : Move (Option κ) Task) → Decidable (σ.Proper m)
  | .invoke none _ => isTrue trivial
  | .invoke (some j) t => inferInstanceAs
      (Decidable ((σ.session (some j)).isIdle = true → Admissible σ.shared σ.log t))
  | .step who => inferInstanceAs (Decidable ((σ.nextAct who).any Act.allocates = true →
      ∀ b ∈ σ.shared.nextAlloc.toList, b ∉ σ.shared.poolBuffers ++ History.outstanding σ.log))

variable [Fintype κ]

/-- The ledger is kept, every entry of the log is in order, and a block is abandoned only by a
request that leaks it. -/
structure Kept (P : List Addr) (σ : Crew κ δ) : Prop where
  logged : Sessions.Logged σ
  tracked : Sessions.Tracked (custody κ P kvEngineRetrieveSize) σ
  ledger : BufferLedger P σ.shared σ.log
  inOrder : σ.log.Each (InOrder P)
  abandoned_iff : History.abandoned σ.log = [] ↔ σ.log.Each Unleaking

theorem kept_start {s : State δ} (hs : s.Stocked) :
    Kept s.poolBuffers (Sessions.start s : Crew κ δ) where
  logged := Sessions.logged_start s
  tracked := Sessions.tracked_start (custody_lawful κ _ le_rfl) s
  ledger := bufferLedger_nil hs
  inOrder := .nil
  abandoned_iff := iff_of_true rfl .nil

theorem Kept.next (h : Kept P σ) {m : Move (Option κ) Task} (hm : σ.Proper m) :
    Kept P (σ.next D m).2 := by
  suffices hnext : Sessions.Tracked (custody κ P kvEngineRetrieveSize) (σ.next D m).2 ∧
      BufferLedger P (σ.next D m).2.shared (σ.next D m).2.log ∧
      (σ.next D m).2.log.Each (InOrder P) ∧
      (History.abandoned (σ.next D m).2.log = [] ↔ (σ.next D m).2.log.Each Unleaking) from
    ⟨h.logged.next m, hnext.1, hnext.2.1, hnext.2.2.1, hnext.2.2.2⟩
  refine Sessions.Tracked.next (fun s log => BufferLedger P s log ∧ log.Each (InOrder P) ∧
    (History.abandoned log = [] ↔ log.Each Unleaking)) (custody_lawful κ P le_rfl) h.tracked
    ⟨h.ledger, h.inOrder, h.abandoned_iff⟩ m ?_ ?_ ?_
  · rintro who t last rfl hsession
    refine ⟨h.ledger.began (h.logged.idle hsession) fun hwho => ?_,
      .cons h.inOrder ⟨trivial, trivial, trivial⟩, ?_⟩
    · cases who with
      | none => cases hwho
      | some j => exact hm (by rw [hsession]; rfl)
    · rw [Log.each_cons_iff, ← h.abandoned_iff]
      exact ⟨fun hnil => ⟨trivial, hnil⟩, fun hboth => hboth.2⟩
  · rintro who t a k rfl hsession hok
    have hdoing := h.logged.busy hsession
    have habandoned : History.abandoned
        (.acted who σ.shared a (exec D a σ.shared).1 :: σ.log) = [] ↔
        Log.Each Unleaking (.acted who σ.shared a (exec D a σ.shared).1 :: σ.log) := by
      rw [Log.each_cons_iff, ← h.abandoned_iff]
      exact ⟨fun hnil => ⟨trivial, hnil⟩, fun hboth => hboth.2⟩
    cases who with
    | none =>
        obtain ⟨hserved, hledger⟩ := h.ledger.acted_probe (D := D) hok
        exact ⟨hserved, hledger, .cons h.inOrder (Act.Plain.inOrder hok _), habandoned⟩
    | some j =>
        rw [phase_custody] at hok
        have hhandles := hok (h.ledger.fits j t hdoing)
        obtain ⟨hserved, hledger⟩ := h.ledger.acted_client (D := D) hdoing hhandles
          fun size ha b hb => hm (by simp [Sessions.nextAct, hsession, ha, Act.allocates]) b
            (Option.mem_toList.mpr hb)
        exact ⟨hserved, hledger, .cons h.inOrder (hhandles.inOrder hdoing _), habandoned⟩
  · rintro who t o rfl hsession hends
    have hdoing := h.logged.busy hsession
    rw [phase_custody] at hends
    have habandoned {e : Entry κ δ} {left : List Addr}
        (hiff : left = [] ↔ Unleaking e σ.log) :
        left ++ History.abandoned σ.log = [] ↔ Log.Each Unleaking (e :: σ.log) := by
      rw [List.append_eq_nil_iff, Log.each_cons_iff, hiff, h.abandoned_iff]
    refine ⟨h.ledger.ended hdoing hends, ?_⟩
    cases who with
    | none =>
        obtain ⟨recoveryCounts, rfl⟩ := hends
        refine ⟨.cons h.inOrder ⟨trivial, trivial, ?_⟩, habandoned ?_⟩
        · cases t <;> exact trivial
        · rw [History.holding_none, List.nil_diff]
          exact iff_of_true rfl trivial
    | some j =>
        obtain ⟨hsettles, hbalanced⟩ := hends (h.ledger.fits j t hdoing)
        refine ⟨.cons h.inOrder (hsettles.inOrder hbalanced), habandoned ?_⟩
        rw [History.holding_of_doing hdoing]
        exact hsettles.abandons_iff

end Crew

end moves

/-! ### The synchronous functions -/

section results

variable {κ δ : Type} [DecidableEq κ] {s : State δ} {moves : List (Move (Option κ) Task)}

/-- No work item is executed. -/
def Synchronous : Move (Option κ) Task → Prop
  | .invoke (some _) t => t.executes = false
  | _ => True

instance : (m : Move (Option κ) Task) → Decidable (Synchronous m)
  | .invoke (some _) t => inferInstanceAs (Decidable (t.executes = false))
  | .invoke none _ => isTrue trivial
  | .step _ => isTrue trivial

/-- Where no work item is executed, no request leaks. -/
theorem unleaking_of_synchronous {D : Driver δ}
    (hmoves : Machine.Always (fun _ m => Synchronous m) (Crew.next D) (Sessions.start s) moves) :
    (Crew.after D (Sessions.start s : Crew κ δ) moves).log.Each Unleaking := by
  have hinv := hmoves.invariant (fun σ : Crew κ δ => Sessions.Logged σ ∧
    (∀ j t, σ.log.doing (some j) = some t → t.executes = false) ∧ σ.log.Each Unleaking)
    (fun σ m h hm => ?_) ⟨Sessions.logged_start s, fun j t h => (by cases h), .nil⟩
  · exact hinv.2.2
  · obtain ⟨hlogged, htasks, heach⟩ := h
    refine ⟨hlogged.next m, Sessions.next_cases m
      (fun τ => (∀ j t, τ.log.doing (some j) = some t → t.executes = false) ∧ τ.log.Each Unleaking)
      ⟨htasks, heach⟩ ?_ ?_ ?_⟩
    · rintro who t last rfl -
      refine ⟨fun j t' hdoing => ?_, .cons heach trivial⟩
      unfold Log.doing at hdoing
      split_ifs at hdoing with hj
      · subst hj
        cases hdoing
        exact hm
      · exact htasks j t' hdoing
    · rintro who t a k rfl -
      exact ⟨htasks, .cons heach trivial⟩
    · rintro who t o rfl hsession
      have hdoing := hlogged.busy hsession
      refine ⟨fun j t' hdoing' => ?_, .cons heach ?_⟩
      · unfold Log.doing at hdoing'
        split_ifs at hdoing'
        exact htasks j t' hdoing'
      · cases who with
        | none => exact trivial
        | some j =>
            have ht := htasks j t hdoing
            cases t with
            | execute item => cases ht
            | _ => exact trivial

variable [Fintype κ]

/-- Buffer ownership is conserved by the synchronous functions: at all times a buffer of the pool
is once in the free list or once with a single holder, a call in progress or a caller; blocks go
back to where they came from; a call returns what it does not hand out; and every buffer has the
size it is used with. -/
theorem buffers_conserved (D : Driver δ) (hs : s.Stocked)
    (hmoves : Machine.Always (fun σ m => Synchronous m ∧ Crew.Proper σ m) (Crew.next D)
      (Sessions.start s) moves) :
    let σ : Crew κ δ := Crew.after D (.start s) moves
    (∀ b ∈ s.poolBuffers, σ.shared.freeBuffers.count b +
      (∑ who, (History.holding who σ.log).count b + (History.lent σ.log).count b) = 1) ∧
    σ.log.Each (InOrder s.poolBuffers) := by
  intro σ
  have hkept : Crew.Kept s.poolBuffers σ :=
    hmoves.invariant _ (fun _ _ h hm => h.next hm.2) (Crew.kept_start hs)
  have hsync : Machine.Always (fun _ m => Synchronous m) (Crew.next D)
      (Sessions.start s : Crew κ δ) moves :=
    hmoves.imp (fun _ => True) (fun _ _ _ _ => trivial) (fun _ _ _ hm => hm.1) trivial
  have habandoned : History.abandoned σ.log = [] :=
    hkept.abandoned_iff.mpr (unleaking_of_synchronous hsync)
  refine ⟨fun b hb => ?_, hkept.inOrder⟩
  have honce : σ.shared.freeBuffers.count b + (History.outstanding σ.log).count b = 1 :=
    hkept.ledger.stock.once b hb
  have hholders := hkept.ledger.holders b
  rw [habandoned, List.count_nil, Nat.add_zero] at hholders
  rw [← hholders]
  exact honce

/-- A client stores a value under a key of the device 1. -/
def storing (j : Fin 2) : List (Move (Option (Fin 2)) Task) :=
  .invoke (some j) (.call (.store (some [107, 101, 121, 49]) (some ⟨0, [118, 49]⟩) true)) ::
    stepping (some j) 9

/-- One client takes the only buffer of the pool, so that the other one retrieves into a block of
the heap; then each gives back what the other one got. -/
def exhaustedPool : List (Move (Option (Fin 2)) Task) :=
  storing 0 ++ ([.invoke (some 0) (.allocBuffer 100),
    .invoke (some 1) (.call (.retrieve (some [107, 101, 121, 49]) true false))] :
      List (Move (Option (Fin 2)) Task)) ++
  (List.replicate 12 ([.step (some 0), .step (some 1)] : List (Move _ Task))).flatten ++
  ([.invoke (some 0) (.freeBuffer (some 22)), .invoke (some 1) (.freeBuffer (some 15))] :
      List (Move (Option (Fin 2)) Task)) ++
  (List.replicate 2 ([.step (some 0), .step (some 1)] : List (Move _ Task))).flatten

theorem buffers_conserved_exhaustedPool :
    let σ := Crew.after keySpaceDriver (.start freshEngine) exhaustedPool
    (freshEngine.poolBuffers, σ.shared.freeBuffers, History.outstanding σ.log) = ([15], [15], []) ∧
      σ.shared.freeBuffers.count 15 + (∑ who, (History.holding who σ.log).count 15 +
        (History.lent σ.log).count 15) = 1 ∧
      σ.log.Each (InOrder freshEngine.poolBuffers) := by
  have hmoves : Machine.Always (fun σ m => Synchronous m ∧ Crew.Proper σ m)
      (Crew.next keySpaceDriver) (.start freshEngine) exhaustedPool := by decide +kernel
  have h := buffers_conserved keySpaceDriver (by decide +kernel) hmoves
  exact ⟨by decide +kernel, h.1 15 (by decide +kernel), h.2⟩

/-- When no call is in progress, nobody but callers and leaking requests holds a block. -/
theorem Crew.Kept.count_outstanding {P : List Addr} {σ : Crew κ δ} (h : σ.Kept P)
    (hσ : σ.Quiescent) (b : Addr) : (History.outstanding σ.log).count b =
      (History.lent σ.log).count b + (History.abandoned σ.log).count b := by
  have hidle (who : Option κ) : History.holding who σ.log = [] := by
    refine History.holding_of_idle ((h.logged who).trans ?_)
    have hwho := hσ who
    cases hsession : σ.session who with
    | idle last => rfl
    | busy t p =>
        rw [hsession] at hwho
        cases hwho
  have hholders := h.ledger.holders b
  simp only [hidle, List.count_nil, Finset.sum_const_zero, Nat.zero_add] at hholders
  exact hholders

/-- When all requests have been executed and every value that was delivered has been given back,
the pool is whole and no block of the heap is left, exactly if every retrieve without a callback
failed. -/
theorem pool_refilled_iff (D : Driver δ) (hs : s.Stocked)
    (hmoves : Machine.Always Crew.Proper (Crew.next D) (Sessions.start s) moves)
    (hquiescent : (Crew.after D (.start s : Crew κ δ) moves).Quiescent)
    (hback : History.lent (Crew.after D (.start s : Crew κ δ) moves).log = []) :
    let σ : Crew κ δ := Crew.after D (.start s) moves
    σ.shared.freeBuffers.Perm s.poolBuffers ∧ History.outstanding σ.log = [] ↔
      σ.log.Each Unleaking := by
  intro σ
  have hkept : Crew.Kept s.poolBuffers σ :=
    hmoves.invariant _ (fun _ _ h hm => h.next hm) (Crew.kept_start hs)
  have hcount (b : Addr) : (History.outstanding σ.log).count b =
      (History.abandoned σ.log).count b := by
    rw [hkept.count_outstanding hquiescent b, hback, List.count_nil, Nat.zero_add]
  have hnil : History.outstanding σ.log = [] ↔ History.abandoned σ.log = [] := by
    have hperm := List.perm_iff_count.mpr hcount
    exact ⟨fun h => (h ▸ hperm).nil_eq.symm, fun h => (h ▸ hperm).eq_nil⟩
  rw [← hkept.abandoned_iff, ← hnil]
  refine ⟨fun h => h.2, fun h => ⟨List.perm_iff_count.mpr fun b => ?_, h⟩⟩
  have hstock := hkept.ledger.stock
  by_cases hb : b ∈ s.poolBuffers
  · have honce : σ.shared.freeBuffers.count b + (History.outstanding σ.log).count b = 1 :=
      hstock.once b hb
    rw [h, List.count_nil, Nat.add_zero] at honce
    rw [honce, List.count_eq_one_of_mem hs.nodup hb]
  · rw [List.count_eq_zero.mpr hb]
    exact List.count_eq_zero.mpr fun hfree => hb (hstock.free_mem b hfree)

/-- A value is stored and retrieved asynchronously, with a completion callback or without one. -/
def retrieving (retrieveCallback : Bool) : List (Move (Option (Fin 2)) Task) :=
  storing 0 ++ .invoke (some 1) (.execute ⟨1000,
    ⟨7, .retrieve, [107, 101, 121, 49], none, false, retrieveCallback, 0, false⟩⟩) ::
    stepping (some 1) 12

/-- The user of the callback gives the value back. -/
def returning : List (Move (Option (Fin 2)) Task) :=
  retrieving true ++ .invoke (some 0) (.freeBuffer (some 15)) :: stepping (some 0) 3

theorem pool_refilled_iff_returning :
    let σ := Crew.after keySpaceDriver (.start freshEngine) returning
    σ.shared.callbacks.map (·.value.map (·.addr)) = [some 15] ∧
      σ.shared.freeBuffers.Perm freshEngine.poolBuffers ∧ History.outstanding σ.log = [] := by
  have hmoves : Machine.Always Crew.Proper (Crew.next keySpaceDriver) (.start freshEngine)
      returning := by decide +kernel
  have h := pool_refilled_iff keySpaceDriver (by decide +kernel) hmoves (by decide +kernel)
    (by decide +kernel)
  exact ⟨by decide +kernel, h.mpr (by decide +kernel)⟩

/-- Without a callback nobody learns of the value, and the only buffer of the pool is gone. -/
theorem value_without_callback_leaks :
    let σ := Crew.after keySpaceDriver (.start freshEngine) (retrieving false)
    Machine.Always Crew.Proper (Crew.next keySpaceDriver) (.start freshEngine) (retrieving false) ∧
      σ.Quiescent ∧ History.lent σ.log = [] ∧ freshEngine.poolBuffers = [15] ∧
      σ.shared.freeBuffers = [] ∧ History.outstanding σ.log = [15] := by
  decide +kernel

end results

end KvEngine
