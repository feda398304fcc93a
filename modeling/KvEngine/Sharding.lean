import KvEngine.Engine
import Mathlib.Data.Int.CardIntervalMod
import Mathlib.Data.ZMod.Basic
import Mathlib.Tactic.IntervalCases
import Mathlib.Tactic.LinearCombination

/-! # How the keys are spread over the devices

`kv_engine_shard_for_key` on the 256 keys that share all bytes but the last.

The last round of the hash is `(h ^ b) * prime` modulo `2 ^ 32`.  While `b` runs through the bytes,
`h ^ b` runs through the 256 numbers that agree with `h` above the low byte.  Their multiples of the
prime form an arithmetic progression that is shorter than `2 ^ 32`, so the reduction cuts it into
two stretches at most.  The prime is coprime to every number of devices, and a stretch of a
progression is spread evenly over the residues, up to one element (`card_progression`).  Hence the
bound of two in `shards_balanced`. -/

namespace KvEngine

/-! ### Residues of a progression -/

section progression

variable {n step : ℕ}

/-- The members of a progression in one residue class have indices in one residue class. -/
theorem exists_progression_modEq [NeZero n] (hstep : step.Coprime n) (a : ℕ) {r : ℕ} (hr : r < n) :
    ∃ v, ∀ j, (a + j * step) % n = r ↔ j ≡ v [MOD n] := by
  have hunit : (step : ZMod n) * (step : ZMod n)⁻¹ = 1 := ZMod.coe_mul_inv_eq_one step hstep
  refine ⟨(((r : ZMod n) - a) * (step : ZMod n)⁻¹).val, fun j => ?_⟩
  have hcast : (a + j * step) % n = r ↔ (a : ZMod n) + j * step = r := by
    have hmod : (a + j * step) % n = r ↔ a + j * step ≡ r [MOD n] := by
      rw [Nat.ModEq, Nat.mod_eq_of_lt hr]
    rw [hmod, ← ZMod.natCast_eq_natCast_iff]
    push_cast
    exact Iff.rfl
  rw [hcast, ← ZMod.natCast_eq_natCast_iff, ZMod.natCast_zmod_val]
  constructor
  · intro h
    linear_combination (step : ZMod n)⁻¹ * h - (j : ZMod n) * hunit
  · intro h
    linear_combination (step : ZMod n) * h + ((r : ZMod n) - a) * hunit

/-- A stretch of a progression is spread evenly over the residues. -/
theorem card_progression (hn : 0 < n) (hstep : step.Coprime n) (a length : ℕ) {r : ℕ} (hr : r < n) :
    length / n ≤ ((Finset.range length).filter fun j => (a + j * step) % n = r).card ∧
      ((Finset.range length).filter fun j => (a + j * step) % n = r).card ≤ length / n + 1 := by
  have : NeZero n := ⟨hn.ne'⟩
  obtain ⟨v, hv⟩ := exists_progression_modEq hstep a hr
  simp only [hv]
  rw [← Nat.count_eq_card_filter_range, Nat.count_modEq_card _ hn]
  split <;> omega

end progression

/-! ### The last round of the hash -/

/-- The FNV prime. -/
def fnvPrime : ℕ := 16777619

/-- Replacing the low byte of a number. -/
theorem xor_byte (h : ℕ) {b : ℕ} (hb : b < 256) : h ^^^ b = h / 256 * 256 + (h % 256 ^^^ b) := by
  have hbyte : b < 2 ^ 8 := hb
  have hdiv : (h ^^^ b) / 2 ^ 8 = h / 2 ^ 8 := by
    rw [Nat.xor_div_two_pow, Nat.div_eq_of_lt hbyte, Nat.xor_zero]
  have hmod : (h ^^^ b) % 2 ^ 8 = h % 2 ^ 8 ^^^ b := by
    rw [Nat.xor_mod_two_pow, Nat.mod_eq_of_lt hbyte]
  have hsplit := Nat.div_add_mod (h ^^^ b) (2 ^ 8)
  rw [hdiv, hmod] at hsplit
  rw [Nat.mul_comm]
  exact hsplit.symm

/-- The state of the hash after the bytes of `key`. -/
def hashBefore (key : Bytes) : UInt32 :=
  key.foldl (fun hash b => (hash ^^^ b.toUInt32) * 16777619) 2166136261

/-- The last round, on the natural numbers. -/
theorem shard_append (key : Bytes) (n : ℕ) {b : ℕ} (hb : b < 256) :
    kvEngineShardForKey (key ++ [UInt8.ofNat b]) n =
      ((hashBefore key).toNat ^^^ b) * fnvPrime % 2 ^ 32 % n := by
  have hbyte : (UInt8.ofNat b).toUInt32.toNat = b := by
    rw [UInt8.toNat_toUInt32, UInt8.toNat_ofNat', Nat.mod_eq_of_lt hb]
  simp only [kvEngineShardForKey, List.foldl_append, List.foldl_cons, List.foldl_nil]
  rw [UInt32.toNat_mul, UInt32.toNat_xor, hbyte]
  rfl

/-- The number of one-byte extensions of a key that are sent to the device `i` of `n`. -/
def shardCount (key : Bytes) (n i : ℕ) : ℕ :=
  ((Finset.range 256).filter fun b => kvEngineShardForKey (key ++ [UInt8.ofNat b]) n = i).card

/-- The exclusive or with a byte permutes the bytes. -/
theorem shardCount_eq (key : Bytes) (n i : ℕ) :
    shardCount key n i = ((Finset.range 256).filter fun j =>
      ((hashBefore key).toNat / 256 * 256 + j) * fnvPrime % 2 ^ 32 % n = i).card := by
  have hlow : (hashBefore key).toNat % 256 < 2 ^ 8 := Nat.mod_lt _ (by decide)
  have hbyte {b : ℕ} (hb : b < 256) : (hashBefore key).toNat % 256 ^^^ b < 256 :=
    Nat.xor_lt_two_pow (n := 8) hlow hb
  have hback (b : ℕ) : (hashBefore key).toNat % 256 ^^^ ((hashBefore key).toNat % 256 ^^^ b) = b := by
    rw [← Nat.xor_assoc, Nat.xor_self, Nat.zero_xor]
  refine Finset.card_nbij' (fun b => (hashBefore key).toNat % 256 ^^^ b)
    (fun j => (hashBefore key).toNat % 256 ^^^ j) ?_ ?_ (fun b _ => hback b) (fun j _ => hback j)
  · intro b hb
    obtain ⟨hb, hshard⟩ := Finset.mem_filter.mp hb
    rw [Finset.mem_range] at hb
    rw [shard_append key n hb, xor_byte _ hb] at hshard
    exact Finset.mem_filter.mpr ⟨Finset.mem_range.mpr (hbyte hb), hshard⟩
  · intro j hj
    obtain ⟨hj, hshard⟩ := Finset.mem_filter.mp hj
    rw [Finset.mem_range] at hj
    refine Finset.mem_filter.mpr ⟨Finset.mem_range.mpr (hbyte hj), ?_⟩
    rw [shard_append key n (hbyte hj), xor_byte _ (hbyte hj), hback]
    exact hshard

/-! ### The two stretches -/

/-- The members of a progression from `a < bound` on that are below `bound`. -/
def wrapIndex (bound a step : ℕ) : ℕ := (bound - a + (step - 1)) / step

theorem lt_wrapIndex_iff {bound a step j : ℕ} (hstep : 0 < step) (ha : a < bound) :
    j < wrapIndex bound a step ↔ a + j * step < bound := by
  rw [wrapIndex, Nat.lt_div_iff_mul_lt hstep]
  omega

/-- A progression that is reduced modulo a bound, and wraps at most once. -/
theorem card_wrapped {n step bound a length : ℕ} (hn : 0 < n) (hpos : 0 < step)
    (hstep : step.Coprime n) (ha : a < bound)
    (hshort : ∀ j < length, a + j * step < 2 * bound) {r : ℕ} (hr : r < n) :
    let first := min length (wrapIndex bound a step)
    let count := ((Finset.range length).filter fun j => (a + j * step) % bound % n = r).card
    first / n + (length - first) / n ≤ count ∧ count ≤ first / n + (length - first) / n + 2 := by
  intro first count
  have hfirst : first ≤ length := min_le_left _ _
  have hcount : count =
      ((Finset.range first).filter fun j => (a + j * step) % n = r).card +
      ((Finset.range (length - first)).filter fun k =>
        (a + first * step - bound + k * step) % n = r).card := by
    have hsplit : length = first + (length - first) := by omega
    have hlength : count = ((Finset.range (first + (length - first))).filter fun j =>
        (a + j * step) % bound % n = r).card := by rw [← hsplit]
    rw [hlength, ← Nat.count_eq_card_filter_range, Nat.count_add, Nat.count_eq_card_filter_range,
      Nat.count_eq_card_filter_range]
    congr 2
    · refine Finset.filter_congr fun j hj => ?_
      have hj' : j < first := Finset.mem_range.mp hj
      have hlt : a + j * step < bound :=
        (lt_wrapIndex_iff hpos ha).mp (hj'.trans_le (min_le_right _ _))
      rw [Nat.mod_eq_of_lt hlt]
    · refine Finset.filter_congr fun k hk => ?_
      have hk' : first + k < length := by
        have := Finset.mem_range.mp hk
        omega
      -- the first stretch ends before `length`, so it ends where the progression wraps
      have hwrap : bound ≤ a + first * step := by
        refine Nat.not_lt.mp fun hlt => ?_
        have := (lt_wrapIndex_iff hpos ha).mpr hlt
        omega
      have hlt := hshort _ hk'
      have hsum : a + (first + k) * step = bound + (a + first * step - bound + k * step) := by
        rw [Nat.add_mul]
        omega
      have hrest : a + first * step - bound + k * step < bound := by omega
      rw [hsum, Nat.add_mod_left, Nat.mod_eq_of_lt hrest]
  have hone := card_progression hn hstep a first hr
  have htwo := card_progression hn hstep (a + first * step - bound) (length - first) hr
  omega

/-- The multiples of the prime that belong to the 256 extensions wrap at most once. -/
theorem shardCount_bounds (key : Bytes) {n : ℕ} (hn : 0 < n) (hprime : fnvPrime.Coprime n) :
    ∃ low, ∀ i < n, low ≤ shardCount key n i ∧ shardCount key n i ≤ low + 2 := by
  obtain ⟨a, ha⟩ : ∃ a, a = (hashBefore key).toNat / 256 * 256 * fnvPrime % 2 ^ 32 := ⟨_, rfl⟩
  have hbound : a < 2 ^ 32 := ha ▸ Nat.mod_lt _ (by decide)
  have hcount (i : ℕ) : shardCount key n i = ((Finset.range 256).filter fun j =>
      (a + j * fnvPrime) % 2 ^ 32 % n = i).card := by
    rw [shardCount_eq]
    refine congrArg Finset.card (Finset.filter_congr fun j _ => ?_)
    rw [Nat.add_mul, ha, Nat.mod_add_mod]
  have hshort (j : ℕ) (hj : j < 256) : a + j * fnvPrime < 2 * 2 ^ 32 := by
    have : j * fnvPrime ≤ 255 * fnvPrime := Nat.mul_le_mul_right _ (by omega)
    have : 255 * fnvPrime < 2 ^ 32 := by decide
    omega
  let first := min 256 (wrapIndex (2 ^ 32) a fnvPrime)
  refine ⟨first / n + (256 - first) / n, fun i hi => ?_⟩
  rw [hcount]
  exact card_wrapped hn (by decide) hprime hbound hshort hi

/-- **Sharding is balanced on one-byte extensions.**  For every key and one to eight devices, the
numbers of extensions that two devices get differ by at most two, and every device gets some. -/
theorem shards_balanced (key : Bytes) {n : ℕ} (hn : 1 ≤ n) (hmax : n ≤ kvMaxDevices) :
    ∀ i < n, (∀ j < n, shardCount key n i ≤ shardCount key n j + 2) ∧ 0 < shardCount key n i := by
  have hprime : fnvPrime.Coprime n := by
    have hle : n ≤ 8 := hmax
    interval_cases n <;> decide
  obtain ⟨low, hlow⟩ := shardCount_bounds key hn hprime
  have htotal : ∑ i ∈ Finset.range n, shardCount key n i = 256 := by
    refine (Finset.card_eq_sum_card_fiberwise fun b _ => ?_).symm.trans (Finset.card_range 256)
    exact Finset.mem_coe.mpr (Finset.mem_range.mpr (kvEngineShardForKey_lt _ hn))
  have hsum : ∑ i ∈ Finset.range n, shardCount key n i ≤ n * (low + 2) := by
    have := Finset.sum_le_card_nsmul (Finset.range n) (shardCount key n) (low + 2)
      fun i hi => (hlow i (Finset.mem_range.mp hi)).2
    simpa using this
  have hpos : 0 < low := by
    refine Nat.pos_of_ne_zero fun hzero => ?_
    have hle : n ≤ 8 := hmax
    rw [htotal, hzero] at hsum
    omega
  intro i hi
  refine ⟨fun j hj => ?_, hpos.trans_le (hlow i hi).1⟩
  exact (hlow i hi).2.trans (Nat.add_le_add_right (hlow j hj).1 2)

/-- The extensions of `key` over three devices. -/
theorem shards_balanced_three :
    shardCount [107, 101, 121] 3 0 ≤ shardCount [107, 101, 121] 3 2 + 2 :=
  (shards_balanced [107, 101, 121] (by decide) (by decide) 0 (by decide)).1 2 (by decide)

end KvEngine
