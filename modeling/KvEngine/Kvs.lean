import Mathlib.Data.Finset.Basic

/-! # The KVS device interface

The part of the vendored KVS API (`kvs_struct.h`, `kvs_result.h`, `kvs_api.h`) that the
engine calls, for one keyspace of one device.

* A `Driver δ` answers the commands of the API on a device whose internal state is of type
  `δ`.  Nothing is assumed about it: an arbitrary driver is an arbitrary device, with faults,
  unplugs and wrong data (its future answers are part of its state).
* `Documented D contents` says that the driver does what the headers document to the pairs
  the keyspace holds, `contents d : Bytes → Option Bytes`.  It may still fail any command;
  a command that does not succeed leaves the pairs alone.
* `Faultless D contents created` says in addition which answer each command gets when the
  device reports no fault; `created d` tells whether the keyspace exists.

`keySpaceDriver` is the device the headers describe, as a map of pairs with the parameter
checks of `validate_kv_pair_`; `keySpaceDriver_faultless` shows that it meets both. -/

namespace KvEngine

/-- A byte string. -/
abbrev Bytes := List UInt8

/-- `kvs_result`; `other` stands for the codes the enumeration does not list. -/
inductive KvsResult where
  | success
  | bufferSmall
  | devCapacity
  | devNotExist
  | ksCapacity
  | ksExist
  | ksIndex
  | ksName
  | ksNotExist
  | ksNotOpen
  | ksOpen
  | iteratorFilterInvalid
  | iteratorMax
  | iteratorNotExist
  | iteratorOpen
  | keyLengthInvalid
  | keyNotExist
  | optionInvalid
  | paramInvalid
  | sysIo
  | valueLengthInvalid
  | valueOffsetInvalid
  | valueOffsetMisaligned
  | valueUpdateNotAllowed
  | devNotOpened
  | other (code : ℕ)
deriving DecidableEq, Repr

/-- `kvs_store_type`. -/
inductive StoreType where
  | post
  | updateOnly
  | noOverwrite
  | append
deriving DecidableEq, Repr

/-- `kvs_key`: the memory behind the key pointer and the 16-bit length field. -/
structure KvsKey where
  key : Bytes
  length : UInt16
deriving DecidableEq, Repr

/-- `kvs_value`: the memory behind the value pointer and the 32-bit fields. -/
structure KvsValue where
  value : Bytes
  length : UInt32
  actualValueSize : UInt32
  offset : UInt32
deriving DecidableEq, Repr

/-- The byte string a `kvs_key` names. -/
def KvsKey.bytes (k : KvsKey) : Bytes := k.key.take k.length.toNat

/-- The byte string a `kvs_value` names. -/
def KvsValue.bytes (v : KvsValue) : Bytes := v.value.take v.length.toNat

def kvsMinKeyLength : ℕ := 4
def kvsMaxKeyLength : ℕ := 255
def kvsMaxValueLength : ℕ := 2 * 1024 * 1024

/-- The key length is one the devices support. -/
def KvsKey.LengthOk (k : KvsKey) : Prop :=
  kvsMinKeyLength ≤ k.length.toNat ∧ k.length.toNat ≤ kvsMaxKeyLength

instance (k : KvsKey) : Decidable k.LengthOk := inferInstanceAs (Decidable (_ ∧ _))

/-- A device with one keyspace: its answers to the commands of the KVS API. -/
structure Driver (δ : Type) where
  openDevice : δ → KvsResult × δ
  closeDevice : δ → KvsResult × δ
  openKeySpace : δ → KvsResult × δ
  createKeySpace : δ → KvsResult × δ
  closeKeySpace : δ → KvsResult × δ
  /-- `kvs_store_kvp` with the store type of its option. -/
  storeKvp : δ → KvsKey → KvsValue → StoreType → KvsResult × δ
  /-- `kvs_retrieve_kvp` with `kvs_retrieve_delete`; the `kvs_value` is an in-out argument. -/
  retrieveKvp : δ → KvsKey → KvsValue → Bool → (KvsResult × KvsValue) × δ
  /-- `kvs_delete_kvp` with `kvs_delete_error`. -/
  deleteKvp : δ → KvsKey → Bool → KvsResult × δ
  /-- `kvs_exist_kv_pairs` for one key; the byte is the result buffer. -/
  existKvPairs : δ → KvsKey → (KvsResult × UInt8) × δ
  getDeviceUtilization : δ → KvsResult × δ
  /-- What a successful `kvs_get_device_utilization` writes. -/
  utilization : δ → UInt32 := fun _ => 0
  getDeviceCapacity : δ → (KvsResult × UInt64) × δ := fun d => ((.success, 0), d)

/-- The pairs a documented device holds change as the headers say, faults or not. -/
structure Documented {δ : Type} (D : Driver δ) (contents : δ → Bytes → Option Bytes) : Prop where
  bounded : ∀ d k v, contents d k = some v → v.length ≤ kvsMaxValueLength
  openDevice : ∀ d, contents (D.openDevice d).2 = contents d
  closeDevice : ∀ d, contents (D.closeDevice d).2 = contents d
  openKeySpace : ∀ d, contents (D.openKeySpace d).2 = contents d
  createKeySpace : ∀ d, contents (D.createKeySpace d).2 = contents d
  closeKeySpace : ∀ d, contents (D.closeKeySpace d).2 = contents d
  getDeviceUtilization : ∀ d, contents (D.getDeviceUtilization d).2 = contents d
  existKvPairs : ∀ d k, contents (D.existKvPairs d k).2 = contents d
  exist_flag : ∀ d k, (D.existKvPairs d k).1.1 = .success →
    ((D.existKvPairs d k).1.2 ≠ 0 ↔ (contents d k.bytes).isSome)
  store_done : ∀ d k v t, t = .post ∨ t = .noOverwrite → (D.storeKvp d k v t).1 = .success →
    v.length.toNat ≤ kvsMaxValueLength ∧
    contents (D.storeKvp d k v t).2 = Function.update (contents d) k.bytes (some v.bytes)
  store_failed : ∀ d k v t, (D.storeKvp d k v t).1 ≠ .success →
    contents (D.storeKvp d k v t).2 = contents d
  retrieve_done : ∀ d k v del, v.offset = 0 → (D.retrieveKvp d k v del).1.1 = .success →
    (∃ stored, contents d k.bytes = some stored ∧
      (D.retrieveKvp d k v del).1.2.bytes = stored ∧
      (D.retrieveKvp d k v del).1.2.length.toNat = stored.length ∧
      (D.retrieveKvp d k v del).1.2.actualValueSize.toNat = stored.length) ∧
    contents (D.retrieveKvp d k v del).2 =
      if del then Function.update (contents d) k.bytes none else contents d
  retrieve_failed : ∀ d k v del, (D.retrieveKvp d k v del).1.1 ≠ .success →
    contents (D.retrieveKvp d k v del).2 = contents d
  delete_done : ∀ d k e, (D.deleteKvp d k e).1 = .success →
    contents (D.deleteKvp d k e).2 = Function.update (contents d) k.bytes none
  delete_failed : ∀ d k e, (D.deleteKvp d k e).1 ≠ .success →
    contents (D.deleteKvp d k e).2 = contents d

/-- The answers of a documented device that reports no fault. -/
structure Faultless {δ : Type} (D : Driver δ) (contents : δ → Bytes → Option Bytes)
    (created : δ → Bool) : Prop extends Documented D contents where
  openDevice_ok : ∀ d, (D.openDevice d).1 = .success
  openKeySpace_ok : ∀ d, (D.openKeySpace d).1 = .success ↔ created d = true
  createKeySpace_ok : ∀ d, created d = false → (D.createKeySpace d).1 = .success
  created_openDevice : ∀ d, created (D.openDevice d).2 = created d
  created_openKeySpace : ∀ d, created (D.openKeySpace d).2 = created d
  created_createKeySpace : ∀ d, created (D.createKeySpace d).2 = true
  store_long : ∀ d k v t, k.LengthOk → kvsMaxValueLength < v.length.toNat →
    (D.storeKvp d k v t).1 = .valueLengthInvalid
  store_post : ∀ d k v, k.LengthOk → v.length.toNat ≤ kvsMaxValueLength → v.offset = 0 →
    (D.storeKvp d k v .post).1 = .success
  store_noOverwrite : ∀ d k v, k.LengthOk → v.length.toNat ≤ kvsMaxValueLength → v.offset = 0 →
    (D.storeKvp d k v .noOverwrite).1 =
      if (contents d k.bytes).isSome then .valueUpdateNotAllowed else .success
  retrieve_absent : ∀ d k v del, k.LengthOk → v.length.toNat = kvsMaxValueLength → v.offset = 0 →
    contents d k.bytes = none → (D.retrieveKvp d k v del).1.1 = .keyNotExist
  retrieve_present : ∀ d k v del stored, k.LengthOk → v.length.toNat = kvsMaxValueLength →
    v.offset = 0 → contents d k.bytes = some stored → (D.retrieveKvp d k v del).1.1 = .success
  delete_ok : ∀ d k, k.LengthOk → (D.deleteKvp d k false).1 = .success
  exist_ok : ∀ d k, k.LengthOk → (D.existKvPairs d k).1.1 = .success

/-! ### The device the headers describe -/

/-- A keyspace: whether it was created, and its pairs, none longer than the device allows. -/
structure KeySpace where
  created : Bool
  pairs : Bytes → Option Bytes
  bounded : ∀ k v, pairs k = some v → v.length ≤ kvsMaxValueLength

namespace KeySpace

/-- The keyspace of a new device. -/
def empty : KeySpace := ⟨false, fun _ => none, by simp⟩

/-- Insert or overwrite a pair. -/
def put (d : KeySpace) (k v : Bytes) (hv : v.length ≤ kvsMaxValueLength) : KeySpace where
  created := d.created
  pairs := Function.update d.pairs k (some v)
  bounded := by
    intro k' v' h
    by_cases hk : k' = k
    · subst hk
      rw [Function.update_self] at h
      cases h
      exact hv
    · rw [Function.update_of_ne hk] at h
      exact d.bounded k' v' h

/-- Remove a pair. -/
def erase (d : KeySpace) (k : Bytes) : KeySpace where
  created := d.created
  pairs := Function.update d.pairs k none
  bounded := by
    intro k' v' h
    by_cases hk : k' = k
    · subst hk
      rw [Function.update_self] at h
      cases h
    · rw [Function.update_of_ne hk] at h
      exact d.bounded k' v' h

@[simp] theorem put_pairs (d : KeySpace) (k v : Bytes) (hv : v.length ≤ kvsMaxValueLength) :
    (d.put k v hv).pairs = Function.update d.pairs k (some v) := rfl
@[simp] theorem erase_pairs (d : KeySpace) (k : Bytes) :
    (d.erase k).pairs = Function.update d.pairs k none := rfl

end KeySpace

/-- `validate_kv_pair_` on a key. -/
def validateKey (k : KvsKey) : KvsResult := if k.LengthOk then .success else .keyLengthInvalid

/-- `validate_request`: the key, then the length and the offset of the value. -/
def validateRequest (k : KvsKey) (v : KvsValue) : KvsResult :=
  if ¬ k.LengthOk then .keyLengthInvalid
  else if kvsMaxValueLength < v.length.toNat then .valueLengthInvalid
  else if v.offset.toNat % 512 ≠ 0 then .valueOffsetMisaligned
  else .success

theorem length_le_of_validateRequest {k : KvsKey} {v : KvsValue}
    (h : validateRequest k v = .success) : v.length.toNat ≤ kvsMaxValueLength := by
  unfold validateRequest at h
  split_ifs at h
  omega

theorem KvsValue.bytes_length_le (v : KvsValue) : v.bytes.length ≤ v.length.toNat := by
  rw [KvsValue.bytes, List.length_take]
  exact min_le_left _ _

/-- `kvs_store_kvp`. -/
def storeKvp (d : KeySpace) (k : KvsKey) (v : KvsValue) (t : StoreType) : KvsResult × KeySpace :=
  if h : validateRequest k v = .success then
    let stored := d.put k.bytes v.bytes (le_trans v.bytes_length_le (length_le_of_validateRequest h))
    match t, d.pairs k.bytes with
    | .post, _ => (.success, stored)
    | .updateOnly, some _ => (.success, stored)
    | .updateOnly, none => (.keyNotExist, d)
    | .noOverwrite, some _ => (.valueUpdateNotAllowed, d)
    | .noOverwrite, none => (.success, stored)
    | .append, some old =>
        if h : (old ++ v.bytes).length ≤ kvsMaxValueLength then
          (.success, d.put k.bytes (old ++ v.bytes) h)
        else (.valueLengthInvalid, d)
    | .append, none => (.success, stored)
  else (validateRequest k v, d)

/-- `kvs_retrieve_kvp`: the buffer length must be a multiple of four; the value is copied
from the offset on, up to the buffer length. -/
def retrieveKvp (d : KeySpace) (k : KvsKey) (v : KvsValue) (del : Bool) :
    (KvsResult × KvsValue) × KeySpace :=
  if validateRequest k v ≠ .success then ((validateRequest k v, v), d)
  else if v.length.toNat % 4 ≠ 0 then ((.paramInvalid, v), d)
  else
    match d.pairs k.bytes with
    | none => ((.keyNotExist, v), d)
    | some stored =>
        if v.offset ≠ 0 ∧ stored.length ≤ v.offset.toNat then ((.valueOffsetInvalid, v), d)
        else
          let rest := stored.drop v.offset.toNat
          let copied := rest.take v.length.toNat
          let out : KvsValue :=
            { v with value := copied, length := copied.length.toUInt32,
                     actualValueSize := stored.length.toUInt32 }
          if v.length.toNat < rest.length then ((.bufferSmall, out), d)
          else ((.success, out), if del then d.erase k.bytes else d)

/-- `kvs_delete_kvp`. -/
def deleteKvp (d : KeySpace) (k : KvsKey) (deleteError : Bool) : KvsResult × KeySpace :=
  if validateKey k ≠ .success then (validateKey k, d)
  else if deleteError ∧ d.pairs k.bytes = none then (.keyNotExist, d)
  else (.success, d.erase k.bytes)

/-- `kvs_exist_kv_pairs` for one key. -/
def existKvPairs (d : KeySpace) (k : KvsKey) : (KvsResult × UInt8) × KeySpace :=
  if validateKey k ≠ .success then ((validateKey k, 0), d)
  else ((.success, if (d.pairs k.bytes).isSome then 1 else 0), d)

/-- The documented device. -/
def keySpaceDriver : Driver KeySpace where
  openDevice d := (.success, d)
  closeDevice d := (.success, d)
  openKeySpace d := (if d.created then .success else .ksNotExist, d)
  createKeySpace d := (if d.created then .ksExist else .success, { d with created := true })
  closeKeySpace d := (.success, d)
  storeKvp := storeKvp
  retrieveKvp := retrieveKvp
  deleteKvp := deleteKvp
  existKvPairs := existKvPairs
  getDeviceUtilization d := (.success, d)

section documented

theorem validateRequest_eq {k : KvsKey} {v : KvsValue} (hk : k.LengthOk)
    (hv : v.length.toNat ≤ kvsMaxValueLength) (ho : v.offset = 0) :
    validateRequest k v = .success := by
  simp [validateRequest, hk, ho, Nat.not_lt.mpr hv]

theorem validateKey_eq {k : KvsKey} (hk : k.LengthOk) : validateKey k = .success := by
  simp [validateKey, hk]

theorem storeKvp_done {d : KeySpace} {k : KvsKey} {v : KvsValue} {t : StoreType}
    (ht : t = .post ∨ t = .noOverwrite) (h : (storeKvp d k v t).1 = .success) :
    v.length.toNat ≤ kvsMaxValueLength ∧
      (storeKvp d k v t).2.pairs = Function.update d.pairs k.bytes (some v.bytes) := by
  unfold storeKvp at h ⊢
  by_cases hv : validateRequest k v = .success
  · refine ⟨length_le_of_validateRequest hv, ?_⟩
    rcases ht with rfl | rfl <;> cases hp : d.pairs k.bytes <;> simp_all
  · simp_all

theorem storeKvp_failed {d : KeySpace} {k : KvsKey} {v : KvsValue} {t : StoreType}
    (h : (storeKvp d k v t).1 ≠ .success) : (storeKvp d k v t).2 = d := by
  unfold storeKvp at h ⊢
  by_cases hv : validateRequest k v = .success
  · simp only [hv, dite_true] at h ⊢
    cases t <;> cases hp : d.pairs k.bytes <;> simp only [hp] at h ⊢ <;> try contradiction
    split at h
    · contradiction
    · rename_i hlen
      rw [dif_neg hlen]
  · rw [dif_neg hv]

/-- A retrieve that succeeds returns the whole stored value and honours the delete option. -/
theorem retrieveKvp_done {d : KeySpace} {k : KvsKey} {v : KvsValue} {del : Bool}
    (ho : v.offset = 0) (h : (retrieveKvp d k v del).1.1 = .success) :
    (∃ stored, d.pairs k.bytes = some stored ∧ (retrieveKvp d k v del).1.2.bytes = stored ∧
      (retrieveKvp d k v del).1.2.length.toNat = stored.length ∧
      (retrieveKvp d k v del).1.2.actualValueSize.toNat = stored.length) ∧
    (retrieveKvp d k v del).2.pairs =
      if del then Function.update d.pairs k.bytes none else d.pairs := by
  unfold retrieveKvp at h ⊢
  by_cases hv : validateRequest k v = .success
  · simp only [hv, ne_eq, not_true_eq_false, if_false] at h ⊢
    by_cases h4 : v.length.toNat % 4 = 0
    · simp only [h4, not_true_eq_false, if_false] at h ⊢
      cases hp : d.pairs k.bytes with
      | none => simp [hp] at h
      | some stored =>
          simp only [hp, ho, not_true_eq_false, false_and, if_false, UInt32.toNat_zero,
            List.drop_zero] at h ⊢
          by_cases hlt : v.length.toNat < stored.length
          · simp [hlt] at h
          · have hb := d.bounded _ _ hp
            have hcopy : stored.take v.length.toNat = stored :=
              List.take_of_length_le (Nat.not_lt.mp hlt)
            have hlen : (stored.length.toUInt32).toNat = stored.length := by
              rw [Nat.toUInt32_eq, UInt32.toNat_ofNat_of_lt']
              have : UInt32.size = 2 ^ 32 := rfl
              simp only [kvsMaxValueLength] at hb
              omega
            simp only [hlt, if_false, hcopy]
            refine ⟨⟨stored, rfl, ?_, hlen, hlen⟩, ?_⟩
            · rw [KvsValue.bytes, hlen, List.take_length]
            · cases del <;> rfl
    · simp [h4] at h
  · simp [hv] at h

theorem retrieveKvp_failed {d : KeySpace} {k : KvsKey} {v : KvsValue} {del : Bool}
    (h : (retrieveKvp d k v del).1.1 ≠ .success) : (retrieveKvp d k v del).2 = d := by
  unfold retrieveKvp at h ⊢
  split
  · rfl
  · split
    · rfl
    · cases hp : d.pairs k.bytes with
      | none => rfl
      | some stored =>
          simp only [hp] at h ⊢
          split_ifs at h ⊢ <;> simp_all

theorem deleteKvp_done {d : KeySpace} {k : KvsKey} {e : Bool} (h : (deleteKvp d k e).1 = .success) :
    (deleteKvp d k e).2.pairs = Function.update d.pairs k.bytes none := by
  unfold deleteKvp at h ⊢
  split_ifs at h ⊢ <;> simp_all

theorem deleteKvp_failed {d : KeySpace} {k : KvsKey} {e : Bool}
    (h : (deleteKvp d k e).1 ≠ .success) : (deleteKvp d k e).2 = d := by
  unfold deleteKvp at h ⊢
  split_ifs at h ⊢ <;> simp_all

theorem keySpaceDriver_documented : Documented keySpaceDriver KeySpace.pairs where
  bounded d := d.bounded
  openDevice _ := rfl
  closeDevice _ := rfl
  openKeySpace _ := rfl
  createKeySpace _ := rfl
  closeKeySpace _ := rfl
  getDeviceUtilization _ := rfl
  existKvPairs d k := by
    simp only [keySpaceDriver, existKvPairs]
    split <;> rfl
  exist_flag d k h := by
    simp only [keySpaceDriver, existKvPairs] at h ⊢
    split at h
    · simp_all
    · rename_i hk
      simp only [hk, if_false]
      cases d.pairs k.bytes <;> simp
  store_done _ _ _ _ ht h := storeKvp_done ht h
  store_failed _ _ _ _ h := congrArg KeySpace.pairs (storeKvp_failed h)
  retrieve_done _ _ _ _ ho h := retrieveKvp_done ho h
  retrieve_failed _ _ _ _ h := congrArg KeySpace.pairs (retrieveKvp_failed h)
  delete_done _ _ _ h := deleteKvp_done h
  delete_failed _ _ _ h := congrArg KeySpace.pairs (deleteKvp_failed h)

/-- The documented device is one that reports no fault. -/
theorem keySpaceDriver_faultless :
    Faultless keySpaceDriver KeySpace.pairs KeySpace.created where
  toDocumented := keySpaceDriver_documented
  openDevice_ok _ := rfl
  openKeySpace_ok d := by cases h : d.created <;> simp [keySpaceDriver, h]
  createKeySpace_ok d h := by simp [keySpaceDriver, h]
  created_openDevice _ := rfl
  created_openKeySpace _ := rfl
  created_createKeySpace _ := rfl
  store_long d k v t hk hv := by
    have hval : validateRequest k v = .valueLengthInvalid := by simp [validateRequest, hk, hv]
    simp [keySpaceDriver, storeKvp, hval]
  store_post d k v hk hv ho := by
    simp [keySpaceDriver, storeKvp, validateRequest_eq hk hv ho]
  store_noOverwrite d k v hk hv ho := by
    cases hp : d.pairs k.bytes <;>
      simp [keySpaceDriver, storeKvp, validateRequest_eq hk hv ho, hp]
  retrieve_absent d k v del hk hv ho hp := by
    have h4 : v.length.toNat % 4 = 0 := by rw [hv]; rfl
    simp [keySpaceDriver, retrieveKvp, validateRequest_eq hk (le_of_eq hv) ho, h4, hp]
  retrieve_present d k v del stored hk hv ho hp := by
    have h4 : v.length.toNat % 4 = 0 := by rw [hv]; rfl
    have hfit : ¬ v.length.toNat < stored.length := by
      rw [hv]
      exact Nat.not_lt.mpr (d.bounded _ _ hp)
    simp [keySpaceDriver, retrieveKvp, validateRequest_eq hk (le_of_eq hv) ho, h4, hp, ho, hfit]
  delete_ok d k hk := by simp [keySpaceDriver, deleteKvp, validateKey_eq hk]
  exist_ok d k hk := by simp [keySpaceDriver, existKvPairs, validateKey_eq hk]

end documented

end KvEngine
