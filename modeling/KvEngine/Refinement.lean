import KvEngine.Machine
import KvEngine.Lookup
import Mathlib.Data.Finmap

/-! # One map

What the engine is for: a finite map from keys to values.  Three machines over the same calls
are compared here.

* `engineStep D` runs a call of the engine.
* `Shadow.step` keeps one finite map and, beside it, the set of keys in the key table; an
  exists call asks both.  As long as no device reports a fault, the engine answers exactly as
  this machine (`engineStep_represents`): sharding, health checks and buffers are invisible.
* `Dict.step` keeps the finite map only.

Started on empty devices, every key of the map is in the table (`Shadow.Covered`), and so the
engine answers as one finite map does (`engine_answers_as_dict`). -/

namespace KvEngine

open Atomic

/-! ### Calls with valid arguments -/

/-- A key of an accepted length. -/
abbrev Key := { key : Bytes // KeyOk key }

/-- A value argument of 1 to 2097152 bytes. -/
structure Value where
  buf : Buf
  pos : 1 ≤ buf.bytes.length
  le : buf.bytes.length ≤ kvsMaxValueLength

theorem Value.lt (v : Value) : v.buf.bytes.length < 2 ^ 32 :=
  lt_of_le_of_lt v.le (by decide)

/-- A call of the synchronous API with valid arguments. -/
inductive Op where
  | store (key : Key) (value : Value) (overwrite : Bool)
  | retrieve (key : Key) (deleteValue : Bool)
  | delete (key : Key)
  | exists (key : Key)

/-- The call as the engine sees it. -/
def Op.call : Op → Call
  | .store key value overwrite => .store (some key) (some value.buf) overwrite
  | .retrieve key deleteValue => .retrieve (some key) true deleteValue
  | .delete key => .delete (some key)
  | .exists key => .exists (some key) true

/-- What a caller sees of a call: the result code, the bytes and the length of a retrieved
value, and the flag of an exists call. -/
structure Output where
  result : KvResult
  value : Option (Bytes × ℕ)
  flag : Option Bool
deriving DecidableEq, Repr

/-- The output of a reply: everything but the address of the buffer. -/
def Reply.output (r : Reply) : Output := ⟨r.result, r.value.map fun v => (v.bytes, v.len), r.flag⟩

/-- The engine as a machine. -/
def engineStep {δ : Type} (D : Driver δ) (s : State δ) (op : Op) : Output × State δ :=
  ((run D op.call.prog s).1.output, (run D op.call.prog s).2)

/-! ### The abstract machines -/

/-- A finite map from keys to values. -/
abbrev Dict := Finmap fun _ : Bytes => Bytes

/-- The answer of a store on a map. -/
def Dict.storeResult (m : Dict) (key : Bytes) (overwrite : Bool) : KvResult :=
  if !overwrite && (m.lookup key).isSome then .keyAlreadyExists else .success

/-- The map after a store. -/
def Dict.store (m : Dict) (key value : Bytes) (overwrite : Bool) : Dict :=
  if !overwrite && (m.lookup key).isSome then m else m.insert key value

/-- The answer of a retrieve on a map. -/
def Dict.retrieve (m : Dict) (key : Bytes) : Output :=
  match m.lookup key with
  | none => ⟨.keyNotFound, none, none⟩
  | some v => ⟨.success, some (v, v.length), none⟩

/-- One finite map. -/
def Dict.step (m : Dict) : Op → Output × Dict
  | .store key value overwrite =>
      (⟨m.storeResult key overwrite, none, none⟩, m.store key value.buf.bytes overwrite)
  | .retrieve key deleteValue => (m.retrieve key, if deleteValue then m.erase key.1 else m)
  | .delete key => (⟨.success, none, none⟩, m.erase key.1)
  | .exists key => (⟨.success, none, some (m.lookup key.1).isSome⟩, m)

/-- A finite map with the set of keys that were stored through the engine. -/
structure Shadow where
  pairs : Dict
  table : KeyTable

/-- The map with the key table: exists answers with the conjunction of both. -/
def Shadow.step (σ : Shadow) : Op → Output × Shadow
  | .store key value overwrite =>
      (⟨σ.pairs.storeResult key overwrite, none, none⟩,
        ⟨σ.pairs.store key value.buf.bytes overwrite, insert key.1 σ.table⟩)
  | .retrieve key deleteValue =>
      (σ.pairs.retrieve key,
        ⟨if deleteValue then σ.pairs.erase key.1 else σ.pairs,
          if deleteValue && (σ.pairs.lookup key.1).isSome then σ.table.erase key.1 else σ.table⟩)
  | .delete key => (⟨.success, none, none⟩, ⟨σ.pairs.erase key.1, σ.table.erase key.1⟩)
  | .exists key =>
      (⟨.success, none, some ((σ.pairs.lookup key.1).isSome && key.1 ∈ σ.table)⟩, σ)

theorem Dict.lookup_insert_eq (m : Dict) (key value : Bytes) :
    (fun k => (m.insert key value).lookup k) =
      Function.update (fun k => m.lookup k) key (some value) := by
  funext k
  by_cases hk : k = key
  · subst hk
    rw [Finmap.lookup_insert, Function.update_self]
  · rw [Finmap.lookup_insert_of_ne _ hk, Function.update_of_ne hk]

theorem Dict.lookup_erase_eq (m : Dict) (key : Bytes) :
    (fun k => (m.erase key).lookup k) = Function.update (fun k => m.lookup k) key none := by
  funext k
  by_cases hk : k = key
  · subst hk
    rw [Finmap.lookup_erase, Function.update_self]
  · rw [Finmap.lookup_erase_ne hk, Function.update_of_ne hk]

/-! ### The engine refines the map with the key table -/

section refinement

variable {δ : Type} {D : Driver δ} {contents : δ → Bytes → Option Bytes} {created : δ → Bool}

/-- The engine state `s`, over devices opened on `paths`, represents `σ`. -/
structure Represents (contents : δ → Bytes → Option Bytes) (paths : List String) (s : State δ)
    (σ : Shadow) : Prop where
  serving : s.Serving
  place : ∀ key, (s.devices (s.shard key)).keyspace = some (placeOn paths key)
  lookup : s.lookup contents = fun k => σ.pairs.lookup k
  keyTable : s.keyTable = σ.table

variable {paths : List String}

theorem Represents.of_served {s t : State δ} {σ σ' : Shadow} {m : Bytes → Option Bytes}
    {table : KeyTable} (h : Represents contents paths s σ)
    (hserved : State.Served contents s t m table) (hm : m = fun k => σ'.pairs.lookup k)
    (htable : table = σ'.table) : Represents contents paths t σ' where
  serving := hserved.serving h.serving
  place key := by rw [hserved.slots.shard, hserved.slots.keyspace, h.place]
  lookup := hserved.lookup.trans hm
  keyTable := hserved.keyTable.trans htable

/-- One call: the answers agree and the representation is kept. -/
theorem engineStep_represents (hD : Faultless D contents created) {s : State δ} {σ : Shadow}
    (h : Represents contents paths s σ) (op : Op) :
    (engineStep D s op).1 = (σ.step op).1 ∧
      Represents contents paths (engineStep D s op).2 (σ.step op).2 := by
  have hs := h.serving
  have hlookup := h.lookup
  have htable := h.keyTable
  have hat (key : Bytes) : s.lookup contents key = σ.pairs.lookup key := congrFun hlookup key
  cases op with
  | store key value overwrite =>
      obtain ⟨t, hrun, hserved⟩ := serving_store hD hs key.2
        (List.length_pos_iff.mp value.pos)
        (le_of_eq_of_le (kvsValueOf_length value.lt) value.le) overwrite
      rw [kvsValueOf_bytes value.lt] at hserved
      simp only [engineStep, Op.call, Call.prog, Prog.run_bind, hrun, Prog.pure_eq, Prog.run_ret]
      refine ⟨?_, h.of_served hserved ?_ ?_⟩
      · simp only [Reply.output, Shadow.step, Dict.storeResult, hat, Option.map_none]
      · rw [hat]
        simp only [Shadow.step, Dict.store]
        split
        · exact hlookup
        · rw [Dict.lookup_insert_eq, hlookup]
      · rw [htable]
        rfl
  | retrieve key del =>
      obtain ⟨b, t, hrun, hserved⟩ := serving_retrieve hD hs key.2 del
      simp only [engineStep, Op.call, Call.prog, Prog.run_bind, hrun, Prog.pure_eq, Prog.run_ret]
      refine ⟨?_, h.of_served hserved ?_ ?_⟩
      · simp only [Reply.output, Shadow.step, Dict.retrieve, hat]
        cases σ.pairs.lookup key.1 <;> rfl
      · simp only [Shadow.step]
        split
        · rw [Dict.lookup_erase_eq, hlookup]
        · exact hlookup
      · rw [htable, hat]
        rfl
  | delete key =>
      obtain ⟨t, hrun, hserved⟩ := serving_delete hD hs key.2
      simp only [engineStep, Op.call, Call.prog, Prog.run_bind, hrun, Prog.pure_eq, Prog.run_ret]
      refine ⟨rfl, h.of_served hserved ?_ ?_⟩
      · rw [hlookup]
        exact (Dict.lookup_erase_eq σ.pairs key.1).symm
      · rw [htable]
        rfl
  | «exists» key =>
      obtain ⟨t, hrun, hserved⟩ := serving_exists hD hs key.2
      simp only [engineStep, Op.call, Call.prog, Prog.run_bind, hrun, Prog.pure_eq, Prog.run_ret]
      refine ⟨?_, h.of_served hserved hlookup htable⟩
      simp only [Reply.output, Shadow.step, hat, htable, Option.map_none]

/-- Every stored key is in the table. -/
def Shadow.Covered (σ : Shadow) : Prop := ∀ key, (σ.pairs.lookup key).isSome → key ∈ σ.table

/-- While the table covers the map, the two abstract machines answer alike. -/
theorem Shadow.step_covered {σ : Shadow} (h : σ.Covered) (op : Op) :
    (σ.step op).1 = (σ.pairs.step op).1 ∧ (σ.step op).2.Covered ∧
      (σ.step op).2.pairs = (σ.pairs.step op).2 := by
  -- What a call removes from the table it removes from the map as well.
  have herase (key : Bytes) :
      ∀ k, ((σ.pairs.erase key).lookup k).isSome → k ∈ σ.table.erase key := by
    intro k hk
    by_cases hkey : k = key
    · subst hkey
      simp [Finmap.lookup_erase] at hk
    · rw [Finmap.lookup_erase_ne hkey] at hk
      exact Finset.mem_erase.mpr ⟨hkey, h k hk⟩
  cases op with
  | store key value overwrite =>
      refine ⟨rfl, fun k hk => ?_, rfl⟩
      by_cases hkey : k = key.1
      · exact hkey ▸ Finset.mem_insert_self _ _
      · refine Finset.mem_insert_of_mem (h k ?_)
        simp only [Shadow.step, Dict.store] at hk
        split at hk
        · exact hk
        · rwa [Finmap.lookup_insert_of_ne _ hkey] at hk
  | retrieve key del =>
      refine ⟨rfl, ?_, rfl⟩
      cases del with
      | false => exact h
      | true =>
          intro k hk
          have hmem := herase key.1 k hk
          cases hkey : (σ.pairs.lookup key.1).isSome with
          | true => simpa [Shadow.step, hkey] using hmem
          | false => simpa [Shadow.step, hkey] using Finset.mem_of_mem_erase hmem
  | delete key => exact ⟨rfl, herase key.1, rfl⟩
  | «exists» key =>
      refine ⟨?_, h, rfl⟩
      have hflag : ((σ.pairs.lookup key.1).isSome && decide (key.1 ∈ σ.table)) =
          (σ.pairs.lookup key.1).isSome := by
        cases hkey : (σ.pairs.lookup key.1).isSome with
        | false => rfl
        | true => simp [h _ hkey]
      simp only [Shadow.step, Dict.step, hflag]

/-- A booted engine represents the map its devices hold, with an empty table. -/
theorem Booted.represents (hD : Documented D contents) {s t : State δ} (h : Booted D paths s t)
    (hpaths : paths ≠ []) (hs : s.AllocsSucceed) {m : Dict}
    (hm : ∀ key, contents (s.ssd (placeOn paths key)) key = m.lookup key) :
    Represents contents paths t ⟨m, ∅⟩ where
  serving := h.serving hpaths hs
  place := h.place hpaths
  lookup := by
    funext key
    rw [h.lookup hD hpaths, hm]
  keyTable := h.keyTable

/-- **The engine is one finite map.**  On empty devices that report no fault, with allocations
that succeed, `kv_engine_init` succeeds, and every history of calls is answered as one finite
map answers it, whatever the number of devices. -/
theorem engine_answers_as_dict (hD : Faultless D contents created) {config : Config}
    (hpaths : kvEngineResolveDevicePaths config = .ok paths)
    {s₀ : State δ} (halloc : s₀.AllocsSucceed)
    (hempty : ∀ i path, paths[i]? = some path → ∀ key, contents (s₀.ssd ⟨path, i⟩) key = none)
    (ops : List Op) :
    (run D (kvEngineInit config) s₀).1 = .success ∧
      Machine.answers (engineStep D) (run D (kvEngineInit config) s₀).2 ops =
        Machine.answers Dict.step ∅ ops := by
  have hboot := kvEngineInit_booted hD hpaths halloc
  have hm (key : Bytes) : contents (s₀.ssd (placeOn paths key)) key = (∅ : Dict).lookup key := by
    have hlt := kvEngineShardForKey_lt key (kvEngineResolveDevicePaths_length hpaths).1
    rw [Finmap.lookup_empty, placeOn, List.getD_eq_getElem?_getD, List.getElem?_eq_getElem hlt]
    exact hempty _ _ (List.getElem?_eq_getElem hlt) key
  have hrep := hboot.represents hD.toDocumented (paths_ne_nil hpaths) halloc hm
  refine ⟨kvEngineInit_ok hD hpaths halloc, ?_⟩
  refine (Machine.answers_eq (R := Represents contents paths)
    (fun s σ op h => engineStep_represents hD h op) hrep ops).trans ?_
  refine Machine.answers_eq (R := fun (σ : Shadow) m => σ.Covered ∧ σ.pairs = m) ?_ ?_ ops
  · rintro σ _ op ⟨hcov, rfl⟩
    obtain ⟨hans, hcov', hpairs⟩ := Shadow.step_covered hcov op
    exact ⟨hans, hcov', hpairs⟩
  · refine ⟨fun key hkey => ?_, rfl⟩
    simp [Finmap.lookup_empty] at hkey

end refinement

/-- A key and a value for examples. -/
def someKey : Key := ⟨[107, 101, 121, 49], by decide⟩

def someValue : Value := ⟨⟨4096, [118, 49]⟩, by decide, by decide⟩

theorem engine_answers_as_dict_on_two_devices :
    Machine.answers (engineStep keySpaceDriver)
        (run keySpaceDriver (kvEngineInit twoDevices) (.blank fun _ => .empty)).2
        [.store someKey someValue false, .store someKey someValue false, .exists someKey,
          .retrieve someKey true, .exists someKey] =
      [⟨.success, none, none⟩, ⟨.keyAlreadyExists, none, none⟩, ⟨.success, none, some true⟩,
        ⟨.success, some ([118, 49], 2), none⟩, ⟨.success, none, some false⟩] :=
  (engine_answers_as_dict keySpaceDriver_faultless twoDevices_paths (fun _ => rfl)
    (fun _ _ _ _ => rfl) _).2.trans (by decide)

end KvEngine
