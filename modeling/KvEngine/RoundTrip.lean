import KvEngine.Refinement
import KvEngine.Api
import Mathlib

/-! # Storing and reading back

`kv_engine_store` takes a 64-bit `value_len`, but `kvs_value.length` has 32 bits and is assigned
without a check.  What the device receives is the value cut to `value_len % 2^32` bytes, while
the statistics count all of `value_len`.

`RoundTrips n` says that a value of `n` bytes which was stored successfully is read back in
full, and counted as the device received it, on every mounted engine over documented devices.
`roundTrips_iff` determines the lengths for which it holds: those below `2^32`, and those whose
low 32 bits exceed the 2 MiB limit, since then no store succeeds. -/

namespace KvEngine

open Atomic

variable {δ : Type} {D : Driver δ} {contents : δ → Bytes → Option Bytes}

/-- A retrieve that succeeds returns what the device holds. -/
theorem Attempts.success (hD : Documented D contents) {d d' : δ} {key : Bytes} (hk : KeyOk key)
    {del : Bool} {r : KvsResult × KvsValue} (h : Attempts D d key del (some r) d')
    (hr : r.1 = .success) :
    contents d key = some r.2.bytes ∧ r.2.length.toNat = r.2.bytes.length := by
  have hdone (d : δ) (v : KvsValue) (hv : v.offset = 0)
      (h : (D.retrieveKvp d (kvsKeyOf key) v del).1.1 = .success) :
      contents d key = some (D.retrieveKvp d (kvsKeyOf key) v del).1.2.bytes ∧
        (D.retrieveKvp d (kvsKeyOf key) v del).1.2.length.toNat =
          (D.retrieveKvp d (kvsKeyOf key) v del).1.2.bytes.length := by
    obtain ⟨⟨stored, hst, hb, hl, _⟩, _⟩ := hD.retrieve_done d (kvsKeyOf key) v del hv h
    rw [hk.kvsKeyOf_bytes] at hst
    rw [hb]
    exact ⟨hst, hl⟩
  cases h with
  | first h hne =>
      have := hdone d retrieveRequest rfl (by rw [h]; exact hr)
      rwa [h] at this
  | @second v d₁ _ _ h h' =>
      have hkeep := hD.retrieve_failed d (kvsKeyOf key) retrieveRequest del (by rw [h]; simp)
      rw [h] at hkeep
      have := hdone d₁ (secondRequest v) rfl (by rw [h']; exact hr)
      rw [h', hkeep] at this
      exact this

/-- What a successful store leaves behind. -/
theorem store_success {s : State δ} (hs : s.Mounted) {key : Bytes} {value : Buf} {overwrite : Bool}
    (h : (run D (Call.prog (.store (some key) (some value) overwrite)) s).1.result = .success) :
    State.SameSlots s (run D (Call.prog (.store (some key) (some value) overwrite)) s).2 ∧
    (run D (Call.prog (.store (some key) (some value) overwrite)) s).2.stats =
      s.stats.update ⟨false, true, false, true, value.bytes.length.toUInt64⟩ ∧
    ∃ p, (s.devices (s.shard key)).keyspace = some p ∧
      (storeOutcome D (s.ssd p) key value.bytes overwrite).1 = .success ∧
      (run D (Call.prog (.store (some key) (some value) overwrite)) s).2.ssd p =
        (storeOutcome D (s.ssd p) key value.bytes overwrite).2 := by
  have hrun : CallRun D s _ _ _ := run_call hs (.store (some key) (some value) overwrite)
  refine ⟨hrun.sameSlots, ?_⟩
  generalize run D (Call.prog (.store (some key) (some value) overwrite)) s = out at hrun h ⊢
  obtain ⟨r, t⟩ := out
  cases hrun with
  | refused he => rcases admission_error he with rfl | rfl <;> cases h
  | storeNoMemory hk hb => cases h
  | @stored _ k i p _ _ hk hp hb =>
      obtain ⟨hkey, rfl, _⟩ := admission_ok hk
      cases hkey
      have hok := mapKvsResult_eq_success.mp h
      obtain ⟨n, hn⟩ := s.bounce_skip value
      refine ⟨?_, p, hp, hok, ?_⟩
      · rw [hn]
        simp [State.skip, hok]
      · simp

/-! ### Which lengths survive -/

/-- A value of `n` bytes that is stored with success is read back in full, and the statistics
count what the device received, which is `kvs_value.length`. -/
def RoundTrips (n : ℕ) : Prop :=
  ∀ (δ : Type) (D : Driver δ) (contents : δ → Bytes → Option Bytes), Documented D contents →
    ∀ s : State δ, s.Mounted → ∀ (key : Key) (value : Buf), value.bytes.length = n →
    ∀ overwrite : Bool,
      let stored := run D (Call.prog (.store (some key) (some value) overwrite)) s
      stored.1.result = .success →
        (∀ del, (run D (Call.prog (.retrieve (some key) true del)) stored.2).1.result = .success →
          (run D (Call.prog (.retrieve (some key) true del)) stored.2).1.output.value =
            some (value.bytes, n)) ∧
        stored.2.stats.bytesWritten =
          s.stats.bytesWritten + (kvsValueOf value.bytes).length.toUInt64

/-- The value read back after a successful store is the one the device received. -/
theorem retrieve_after_store (hD : Documented D contents) {s : State δ} (hs : s.Mounted)
    {key : Bytes} (hk : KeyOk key) {value : Buf} {overwrite del : Bool}
    (hstore : (run D (Call.prog (.store (some key) (some value) overwrite)) s).1.result = .success)
    (hget : (run D (Call.prog (.retrieve (some key) true del))
      (run D (Call.prog (.store (some key) (some value) overwrite)) s).2).1.result = .success) :
    (run D (Call.prog (.retrieve (some key) true del))
        (run D (Call.prog (.store (some key) (some value) overwrite)) s).2).1.output.value =
      some ((kvsValueOf value.bytes).bytes, (kvsValueOf value.bytes).bytes.length) := by
  obtain ⟨hslots, _, p, hp, hok, hssd⟩ := store_success hs hstore
  generalize (run D (Call.prog (.store (some key) (some value) overwrite)) s).2 = t at *
  have hcont : contents (t.ssd p) key = some (kvsValueOf value.bytes).bytes := by
    have := (hD.store_done _ _ _ _ (by cases overwrite <;> simp [storeTypeOf]) hok).2
    rw [hssd, storeOutcome, this, hk.kvsKeyOf_bytes, Function.update_self]
  have hrun : CallRun D t _ _ _ := run_call (hslots.mounted hs) (.retrieve (some key) true del)
  generalize run D (Call.prog (.retrieve (some key) true del)) t = out at hrun hget ⊢
  obtain ⟨r, u⟩ := out
  cases hrun with
  | refused he => rcases admission_error he with rfl | rfl <;> cases hget
  | retrieveNoMemory hk' hheap => cases hget
  | @retrieved _ k i q _ _ b pool heap o d' hk' hq ho hheap =>
      obtain ⟨hkey, rfl, _⟩ := admission_ok hk'
      cases hkey
      obtain rfl : p = q := by
        rw [hslots.shard, hslots.keyspace, hp] at hq
        cases hq
        rfl
      cases o with
      | none => cases hget
      | some r =>
          by_cases hr : r.1 = .success
          · obtain ⟨hbytes, hlen⟩ := ho.success hD hk hr
            have hb : (kvsValueOf value.bytes).bytes = r.2.bytes :=
              Option.some.inj (hcont.symm.trans hbytes)
            simp [Reply.output, retrieveAnswer, hr, hb, hlen]
          · simp only [retrieveAnswer, hr, if_false] at hget
            exact absurd (mapKvsResult_eq_success.mp hget) hr

theorem kvsValueOf_received (value : Bytes) :
    (kvsValueOf value).length.toUInt64.toNat = value.length % 2 ^ 32 := by
  simp [kvsValueOf]

/-- The counter after a successful store. -/
theorem bytesWritten_after_store {s : State δ} (hs : s.Mounted) {key : Bytes} {value : Buf}
    {overwrite : Bool}
    (h : (run D (Call.prog (.store (some key) (some value) overwrite)) s).1.result = .success) :
    (run D (Call.prog (.store (some key) (some value) overwrite)) s).2.stats.bytesWritten =
      s.stats.bytesWritten + value.bytes.length.toUInt64 := by
  obtain ⟨_, hstats, _⟩ := store_success hs h
  rw [hstats]
  rfl

theorem roundTrips_of_fits {n : ℕ} (hn : n < 2 ^ 32) : RoundTrips n := by
  intro δ D contents hD s hs key value hlen overwrite stored hstore
  refine ⟨fun del hget => ?_, ?_⟩
  · rw [retrieve_after_store hD hs key.2 hstore hget, kvsValueOf_bytes (by omega), hlen]
  · have hcount : (kvsValueOf value.bytes).length.toUInt64 = value.bytes.length.toUInt64 := by
      apply UInt64.toNat_inj.mp
      rw [kvsValueOf_received, hlen, Nat.toUInt64_eq, UInt64.toNat_ofNat']
      omega
    rw [hcount]
    exact bytesWritten_after_store hs hstore

/-- A length whose low 32 bits exceed the limit is never stored. -/
theorem roundTrips_of_refused {n : ℕ} (hn : kvsMaxValueLength < n % 2 ^ 32) : RoundTrips n := by
  intro δ D contents hD s hs key value hlen overwrite stored hstore
  obtain ⟨_, _, p, _, hok, _⟩ := store_success hs hstore
  have hfits := (hD.store_done _ _ _ _ (by cases overwrite <;> simp [storeTypeOf]) hok).1
  have hlow : (kvsValueOf value.bytes).length.toNat = n % 2 ^ 32 := by
    simp [kvsValueOf, hlen]
  omega

/-! ### Lengths that are cut -/

/-- On a new engine a value is stored whenever the low 32 bits of its length pass the limit. -/
theorem freshEngine_stores {value : Buf} (hpos : value.bytes ≠ [])
    (hlow : value.bytes.length % 2 ^ 32 ≤ kvsMaxValueLength) :
    (run keySpaceDriver (Call.prog (.store (some someKey.1) (some value) true))
      freshEngine).1.result = .success := by
  have hlen : (kvsValueOf value.bytes).length.toNat ≤ kvsMaxValueLength := by
    simpa [kvsValueOf] using hlow
  obtain ⟨t, hrun, _⟩ := serving_store keySpaceDriver_faultless freshEngine_serving someKey.2 hpos
    hlen true
  simp only [Call.prog, Prog.run_bind, hrun]
  rfl

/-- **Round trip.**  The lengths for which a successful store can be relied upon. -/
theorem roundTrips_iff {n : ℕ} (hn : n < 2 ^ 64) :
    RoundTrips n ↔ n < 2 ^ 32 ∨ kvsMaxValueLength < n % 2 ^ 32 := by
  constructor
  · intro h
    by_contra hcut
    obtain ⟨hlong, hlow⟩ := not_or.mp hcut
    have hpos : (⟨0, List.replicate n 0⟩ : Buf).bytes ≠ [] := by
      intro hnil
      have := congrArg List.length hnil
      rw [List.length_replicate, List.length_nil] at this
      omega
    have hlen : (⟨0, List.replicate n 0⟩ : Buf).bytes.length = n := List.length_replicate
    have hstore := freshEngine_stores hpos (by rw [hlen]; omega)
    -- The counter moves by `n`, the device received `n % 2^32` bytes.
    have hclaim := (h KeySpace keySpaceDriver _ keySpaceDriver_documented freshEngine
      freshEngine_serving.toMounted someKey _ hlen true hstore).2
    have hcount := bytesWritten_after_store freshEngine_serving.toMounted hstore
    have heq := (UInt64.add_right_inj _).mp (hcount.symm.trans hclaim)
    have := congrArg UInt64.toNat heq
    rw [kvsValueOf_received, hlen, Nat.toUInt64_eq, UInt64.toNat_ofNat'] at this
    omega
  · rintro (hfits | hrefused)
    · exact roundTrips_of_fits hfits
    · exact roundTrips_of_refused hrefused

/-- The largest value the devices accept. -/
theorem roundTrips_two_mebibytes : RoundTrips 2097152 :=
  (roundTrips_iff (by decide)).mpr (.inl (by decide))

/-- What the new engine returns after a store whose length is cut to `m` bytes. -/
theorem freshEngine_cuts {value : Buf} (hpos : value.bytes ≠ [])
    (hlow : value.bytes.length % 2 ^ 32 ≤ kvsMaxValueLength) :
    let t := (run keySpaceDriver (Call.prog (.store (some someKey.1) (some value) true)) freshEngine).2
    (engineStep keySpaceDriver t (.retrieve someKey false)).1 =
      ⟨.success, some ((kvsValueOf value.bytes).bytes, (kvsValueOf value.bytes).bytes.length), none⟩ := by
  have hlen : (kvsValueOf value.bytes).length.toNat ≤ kvsMaxValueLength := by
    simpa [kvsValueOf] using hlow
  obtain ⟨t, hrun, hserved⟩ := serving_store keySpaceDriver_faultless freshEngine_serving someKey.2
    hpos hlen true
  obtain ⟨b, u, hget, _⟩ := serving_retrieve keySpaceDriver_faultless
    (hserved.serving freshEngine_serving) someKey.2 false
  have hlookup : t.lookup KeySpace.pairs someKey.1 = some (kvsValueOf value.bytes).bytes := by
    rw [hserved.lookup]
    simp
  rw [hlookup] at hget
  simp only [engineStep, Op.call, Call.prog, Prog.run_bind, hrun, Prog.pure_eq, Prog.run_ret, hget]
  rfl

/-- `value_len = 2^32 + 1`: the store succeeds and one byte is read back, while the statistics
count all of it. -/
theorem store_cuts_long_value :
    let value : Buf := ⟨0, List.replicate (2 ^ 32 + 1) 7⟩
    let stored := run keySpaceDriver (Call.prog (.store (some someKey.1) (some value) true)) freshEngine
    stored.1.result = .success ∧
      (engineStep keySpaceDriver stored.2 (.retrieve someKey false)).1 =
        ⟨.success, some ([7], 1), none⟩ ∧
      stored.2.stats.bytesWritten = freshEngine.stats.bytesWritten + (2 ^ 32 + 1) := by
  intro value
  have hlen : value.bytes.length = 2 ^ 32 + 1 := List.length_replicate
  have hpos : value.bytes ≠ [] := by
    intro hnil
    rw [hnil, List.length_nil] at hlen
    omega
  have hlow : value.bytes.length % 2 ^ 32 ≤ kvsMaxValueLength := by
    rw [hlen]
    decide
  have hbytes : (kvsValueOf value.bytes).bytes = [7] := by
    have htake : (kvsValueOf value.bytes).bytes = value.bytes.take 1 := by
      rw [KvsValue.bytes]
      simp only [kvsValueOf, hlen]
      rfl
    rw [htake]
    show (List.replicate (2 ^ 32 + 1) 7).take 1 = [7]
    rw [List.take_replicate]
    rfl
  have hstore := freshEngine_stores hpos hlow
  refine ⟨hstore, ?_, ?_⟩
  · rw [freshEngine_cuts hpos hlow, hbytes]
    rfl
  · rw [bytesWritten_after_store freshEngine_serving.toMounted hstore, hlen]
    rfl

end KvEngine
