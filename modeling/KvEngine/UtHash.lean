import KvEngine.DoubleChains
import KvEngine.State

/-! # The key table on uthash

`src/utils/hashTable.h` as the code keeps it: `struct hash_entry` blocks with a `UT_hash_handle`
in each, one `UT_hash_table` block and one array of buckets, all of them from `malloc`, and the
macros of `lib/uthash.h` that the functions of the table expand to.

* A pointer is `none` when it is null.  An element and its handle have one address, so that
  `ELMT_FROM_HH` and `HH_FROM_ELMT` are the identity; the key pointer of a handle is the key of its
  own element.
* Entries, table blocks and bucket arrays are the three sorts of cells of `HashHeap`.  A
  dereference of what is not allocated, an index beyond the array and a second `free` are faults.
* `unsigned` is `UInt32`.  The hash function is a parameter; `hashJen` is the one that uthash takes
  when `HASH_FUNCTION` is not defined.
* The outcomes of the allocations of one call are its `Grants`.  uthash calls `exit` when one of
  its own allocations fails.
* A loop over pointers runs for `rounds` rounds at most. -/

namespace KvEngine

open DoubleChains

/-- `UT_hash_handle`. -/
structure HashHandle where
  tbl : Option Addr
  prev : Option Addr
  next : Option Addr
  hhPrev : Option Addr
  hhNext : Option Addr
  keylen : UInt32
  hashv : UInt32
deriving DecidableEq, Repr

/-- `struct hash_entry`; `key` is the part of the array that is written. -/
structure HashEntry where
  key : Bytes
  keyLen : UInt32
  hh : HashHandle
deriving DecidableEq, Repr

/-- `UT_hash_bucket`. -/
structure HashBucket where
  hhHead : Option Addr
  count : UInt32
  expandMult : UInt32
deriving DecidableEq, Repr

/-- A zeroed bucket. -/
def HashBucket.zero : HashBucket := ⟨none, 0, 0⟩

/-- `UT_hash_table`. -/
structure HashTbl where
  buckets : Option Addr
  numBuckets : UInt32
  log2NumBuckets : UInt32
  numItems : UInt32
  tail : Option Addr
  idealChainMaxlen : UInt32
  nonidealItems : UInt32
  ineffExpands : UInt32
  noexpand : Bool
deriving DecidableEq, Repr

/-- The blocks of a table. -/
structure HashHeap where
  entries : Cells Addr HashEntry
  tables : Cells Addr HashTbl
  arrays : Cells Addr (List HashBucket)

/-- Nothing is allocated. -/
def HashHeap.empty : HashHeap := ⟨fun _ => none, fun _ => none, fun _ => none⟩

/-- `hash_table_t` without its mutex, and the blocks that belong to it. -/
structure HashTable where
  head : Option Addr
  heap : HashHeap

/-- What `malloc` answers in one call: for a new entry, for the table block, for the first bucket
array and, given the number of bytes, for a wider one. -/
structure Grants where
  entry : Option Addr
  table : Option Addr
  buckets : Option Addr
  wider : ℕ → Option Addr

/-! ### `HASH_JEN` -/

/-- `HASH_TO_BKT`. -/
def toBkt (hashv numBkts : UInt32) : ℕ := (hashv &&& (numBkts - 1)).toNat

/-- `buckets[i]`. -/
def bucketAt (bs : List HashBucket) (i : ℕ) : Except Stop HashBucket :=
  match bs[i]? with
  | some b => .ok b
  | none => .error .fault

/-- `(head)->hh.tbl`, and what it points to. -/
def tblOf (h : HashHeap) (head : Option Addr) : Except Stop (Option Addr × HashTbl) := do
  let e ← h.entries.load head
  let t ← h.tables.load e.hh.tbl
  return (e.hh.tbl, t)

/-- The comparison of `HASH_FIND_IN_BKT`: the hash values, the lengths and then the bytes. -/
def HashEntry.matchesKey (e : HashEntry) (key : Bytes) (hashv : UInt32) : Bool :=
  e.hh.hashv = hashv && e.hh.keylen = UInt32.ofNat key.length &&
    e.key.take key.length = key

/-- The loop of `HASH_FIND_IN_BKT`. -/
def findInBkt (es : Cells Addr HashEntry) (key : Bytes) (hashv : UInt32) :
    ℕ → Option Addr → Except Stop (Option Addr)
  | _, none => .ok none
  | 0, some _ => .error .outOfRounds
  | rounds + 1, some out => do
      let e ← es.load (some out)
      if e.matchesKey key hashv then return some out
      else findInBkt es key hashv rounds e.hh.hhNext

/-- `HASH_FIND`. -/
def hashFind (hash : Bytes → UInt32) (rounds : ℕ) (t : HashTable) (key : Bytes) :
    Except Stop (Option Addr) :=
  match t.head with
  | none => .ok none
  | some _ => do
      let (_, tbl) ← tblOf t.heap t.head
      let bs ← t.heap.arrays.load tbl.buckets
      let b ← bucketAt bs (toBkt (hash key) tbl.numBuckets)
      findInBkt t.heap.entries key (hash key) rounds b.hhHead

/-! ### Adding -/

/-- The links that `HASH_ADD_TO_BKT` and `HASH_EXPAND_BUCKETS` write when a handle becomes the
first of a bucket whose head was `head`. -/
def pushHandle (es : Cells Addr HashEntry) (head : Option Addr) (thh : Addr) :
    Except Stop (Cells Addr HashEntry) := do
  let es ← es.modify (some thh) fun e =>
    { e with hh := { e.hh with hhPrev := none, hhNext := head } }
  es.modifyAt head fun e => { e with hh := { e.hh with hhPrev := some thh } }

/-- What the loops of `HASH_EXPAND_BUCKETS` change. -/
structure Rehash where
  entries : Cells Addr HashEntry
  newBuckets : List HashBucket
  nonidealItems : UInt32

/-- The counters of a new bucket that gets one more handle, and `nonideal_items`. -/
def HashBucket.grow (b : HashBucket) (ideal nonideal : UInt32) : HashBucket × UInt32 :=
  let b := { b with count := b.count + 1 }
  if ideal < b.count then
    (if b.expandMult * ideal < b.count then { b with expandMult := b.expandMult + 1 } else b,
      nonideal + 1)
  else (b, nonideal)

/-- The inner loop of `HASH_EXPAND_BUCKETS`, over the chain of an old bucket. -/
def rehashChain (ideal numBkts : UInt32) : ℕ → Rehash → Option Addr → Except Stop Rehash
  | _, r, none => .ok r
  | 0, _, some _ => .error .outOfRounds
  | rounds + 1, r, some thh => do
      let e ← r.entries.load (some thh)
      let i := toBkt e.hh.hashv numBkts
      let b ← bucketAt r.newBuckets i
      let (b', nonideal) := b.grow ideal r.nonidealItems
      let es ← pushHandle r.entries b.hhHead thh
      rehashChain ideal numBkts rounds
        ⟨es, r.newBuckets.set i { b' with hhHead := some thh }, nonideal⟩ e.hh.hhNext

/-- The outer loop of `HASH_EXPAND_BUCKETS`, over the indices of the old buckets. -/
def rehashAll (rounds : ℕ) (old : List HashBucket) (ideal numBkts : UInt32) (r : Rehash) :
    List ℕ → Except Stop Rehash
  | [] => .ok r
  | i :: is => do
      let b ← bucketAt old i
      let r ← rehashChain ideal numBkts rounds r b.hhHead
      rehashAll rounds old ideal numBkts r is

/-- `tbl->ideal_chain_maxlen`, for twice as many buckets. -/
def HashTbl.idealMaxlen (t : HashTbl) : UInt32 :=
  (t.numItems >>> (t.log2NumBuckets + 1)) +
    (if t.numItems &&& (t.numBuckets * 2 - 1) ≠ 0 then 1 else 0)

/-- The fields of the table after the loops of `HASH_EXPAND_BUCKETS`. -/
def HashTbl.expanded (t : HashTbl) (newBuckets : Addr) (nonideal : UInt32) : HashTbl :=
  let ineff := if t.numItems >>> 1 < nonideal then t.ineffExpands + 1 else 0
  { t with idealChainMaxlen := t.idealMaxlen, nonidealItems := nonideal,
           numBuckets := t.numBuckets * 2, log2NumBuckets := t.log2NumBuckets + 1,
           buckets := some newBuckets, ineffExpands := ineff,
           noexpand := t.noexpand || 1 < ineff }

/-- The size in bytes of an array of `n` buckets. -/
def bucketBytes (n : ℕ) : ℕ := 16 * n

/-- `HASH_EXPAND_BUCKETS`. -/
def expandBuckets (rounds : ℕ) (g : Grants) (h : HashHeap) (tbl : Option Addr) :
    Except Stop HashHeap := do
  let t ← h.tables.load tbl
  match g.wider (bucketBytes (t.numBuckets.toNat * 2)) with
  | none => .error .exit
  | some q => do
      let old ← h.arrays.load t.buckets
      let r ← rehashAll rounds old t.idealMaxlen (t.numBuckets * 2)
        ⟨h.entries, List.replicate (t.numBuckets.toNat * 2) HashBucket.zero, 0⟩
        (List.range t.numBuckets.toNat)
      let arrays ← Cells.release (Function.update h.arrays q (some r.newBuckets)) t.buckets
      let tables ← h.tables.modify tbl fun t => t.expanded q r.nonidealItems
      return ⟨r.entries, tables, arrays⟩

/-- With one handle more the bucket has as many as it may have. -/
def HashBucket.overflows (b : HashBucket) : Bool := (b.expandMult + 1) * 10 ≤ b.count + 1

/-- `HASH_ADD_TO_BKT`, for bucket `i` of the table at `tbl`. -/
def addToBkt (rounds : ℕ) (g : Grants) (h : HashHeap) (tbl : Option Addr) (i : ℕ)
    (addhh : Addr) : Except Stop HashHeap := do
  let t ← h.tables.load tbl
  let bs ← h.arrays.load t.buckets
  let b ← bucketAt bs i
  let es ← pushHandle h.entries b.hhHead addhh
  let arrays ← h.arrays.modify t.buckets fun bs =>
    bs.set i { b with count := b.count + 1, hhHead := some addhh }
  let (addTbl, t) ← tblOf ⟨es, h.tables, arrays⟩ (some addhh)
  if b.overflows = true ∧ t.noexpand = false then
    expandBuckets rounds g ⟨es, h.tables, arrays⟩ addTbl
  else return ⟨es, h.tables, arrays⟩

/-- `HASH_MAKE_TABLE`. -/
def makeTable (g : Grants) (h : HashHeap) (add : Addr) : Except Stop HashHeap :=
  match g.table, g.buckets with
  | some p, some q => do
      let es ← h.entries.modify (some add) fun e => { e with hh := { e.hh with tbl := some p } }
      let tbl : HashTbl :=
        { buckets := some q, numBuckets := 32, log2NumBuckets := 5, numItems := 0,
          tail := some add, idealChainMaxlen := 0, nonidealItems := 0, ineffExpands := 0,
          noexpand := false }
      return ⟨es, Function.update h.tables p (some tbl),
        Function.update h.arrays q (some (List.replicate 32 HashBucket.zero))⟩
  | _, _ => .error .exit

/-- `HASH_APPEND_LIST`, after `(add)->hh.tbl = (head)->hh.tbl`. -/
def appendList (h : HashHeap) (head : Option Addr) (add : Addr) : Except Stop HashHeap := do
  let (tbl, t) ← tblOf h head
  let es ← h.entries.modify (some add) fun e =>
    { e with hh := { e.hh with tbl := tbl, next := none, prev := t.tail } }
  let es ← es.modify t.tail fun e => { e with hh := { e.hh with next := some add } }
  let tables ← h.tables.modify tbl fun t => { t with tail := some add }
  return ⟨es, tables, h.arrays⟩

/-- `HASH_ADD_TO_TABLE`. -/
def addToTable (rounds : ℕ) (g : Grants) (h : HashHeap) (head : Option Addr) (hashv : UInt32)
    (add : Addr) : Except Stop HashHeap := do
  let (tbl, t) ← tblOf h head
  let tables ← h.tables.modify tbl fun t => { t with numItems := t.numItems + 1 }
  addToBkt rounds g { h with tables := tables } tbl (toBkt hashv t.numBuckets) add

/-- `HASH_ADD_KEYPTR` of the entry `add`, whose handle is still to be written. -/
def hashAddKeyptr (hash : Bytes → UInt32) (rounds : ℕ) (g : Grants) (t : HashTable) (key : Bytes)
    (add : Addr) : Except Stop HashTable := do
  let es ← t.heap.entries.modify (some add) fun e =>
    { e with hh := { e.hh with hashv := hash key, keylen := UInt32.ofNat key.length } }
  match t.head with
  | none => do
      let es ← es.modify (some add) fun e =>
        { e with hh := { e.hh with next := none, prev := none } }
      let h ← makeTable g { t.heap with entries := es } add
      let h ← addToTable rounds g h (some add) (hash key) add
      return ⟨some add, h⟩
  | some _ => do
      let h ← appendList { t.heap with entries := es } t.head add
      let h ← addToTable rounds g h t.head (hash key) add
      return ⟨t.head, h⟩

/-! ### Deleting -/

/-- `HASH_DEL_IN_BKT`, for bucket `i` of the array `bs` and the handle `d` at `del`. -/
def delInBkt (es : Cells Addr HashEntry) (bs : List HashBucket) (i : ℕ) (del : Addr)
    (d : HashHandle) : Except Stop (Cells Addr HashEntry × List HashBucket) := do
  let b ← bucketAt bs i
  let b' := { b with count := b.count - 1,
                     hhHead := if b.hhHead = some del then d.hhNext else b.hhHead }
  let es ← es.modifyAt d.hhPrev fun e => { e with hh := { e.hh with hhNext := d.hhNext } }
  let es ← es.modifyAt d.hhNext fun e => { e with hh := { e.hh with hhPrev := d.hhPrev } }
  return (es, bs.set i b')

/-- The repair of the list of all elements in `HASH_DELETE_HH`. -/
def unlinkElement (es : Cells Addr HashEntry) (d : HashHandle) :
    Except Stop (Cells Addr HashEntry) := do
  let es ← es.modifyAt d.prev fun e => { e with hh := { e.hh with next := d.next } }
  es.modifyAt d.next fun e => { e with hh := { e.hh with prev := d.prev } }

/-- `HASH_DELETE_HH` of the element at `del`. -/
def hashDelete (t : HashTable) (del : Addr) : Except Stop HashTable := do
  let d ← t.heap.entries.load (some del)
  if d.hh.prev = none ∧ d.hh.next = none then do
    let (tbl, tb) ← tblOf t.heap t.head
    let arrays ← t.heap.arrays.release tb.buckets
    let tables ← t.heap.tables.release tbl
    return ⟨none, ⟨t.heap.entries, tables, arrays⟩⟩
  else do
    let (tbl, tb) ← tblOf t.heap t.head
    let tables ← t.heap.tables.modify tbl fun t =>
      { t with tail := if tb.tail = some del then d.hh.prev else t.tail }
    let es ← unlinkElement t.heap.entries d.hh
    let head := if d.hh.prev = none then d.hh.next else t.head
    let (tbl, tb) ← tblOf ⟨es, tables, t.heap.arrays⟩ head
    let bs ← t.heap.arrays.load tb.buckets
    let (es, bs) ← delInBkt es bs (toBkt d.hh.hashv tb.numBuckets) del d.hh
    let arrays ← t.heap.arrays.modify tb.buckets fun _ => bs
    let tables ← tables.modify tbl fun t => { t with numItems := t.numItems - 1 }
    return ⟨head, ⟨es, tables, arrays⟩⟩

/-! ### The functions of the table -/

/-- The entry of `add_key` after the `memcpy`; its handle is not written yet. -/
def HashEntry.copied (key : Bytes) : HashEntry :=
  ⟨key, UInt32.ofNat key.length, ⟨none, none, none, none, none, 0, 0⟩⟩

namespace HashTable

/-- `create_table`. -/
def createTable : HashTable := ⟨none, HashHeap.empty⟩

/-- `key_in_table`. -/
def keyInTable (hash : Bytes → UInt32) (rounds : ℕ) (t : HashTable) (key : Bytes) :
    Except Stop Bool :=
  if !KeyTable.accepts key then .ok false
  else do
    let entry ← hashFind hash rounds t key
    return entry.isSome

/-- `add_key`. -/
def addKey (hash : Bytes → UInt32) (rounds : ℕ) (g : Grants) (t : HashTable) (key : Bytes) :
    Except Stop HashTable :=
  if !KeyTable.accepts key then .ok t
  else do
    let entry ← hashFind hash rounds t key
    match entry, g.entry with
    | some _, _ => return t
    | none, none => return t
    | none, some a => do
        let es := Function.update t.heap.entries a (some (HashEntry.copied key))
        hashAddKeyptr hash rounds g { t with heap := { t.heap with entries := es } } key a

/-- `delete_key`. -/
def deleteKey (hash : Bytes → UInt32) (rounds : ℕ) (t : HashTable) (key : Bytes) :
    Except Stop HashTable :=
  if !KeyTable.accepts key then .ok t
  else do
    let entry ← hashFind hash rounds t key
    match entry with
    | none => return t
    | some a => do
        let t ← hashDelete t a
        let es ← t.heap.entries.release (some a)
        return { t with heap := { t.heap with entries := es } }

/-- The loop of `HASH_ITER` in `free_table`; `tmp` is read before `current` is freed. -/
def freeEntries : ℕ → HashTable → Option Addr → Option Addr → Except Stop HashTable
  | _, t, none, _ => .ok t
  | 0, _, some _, _ => .error .outOfRounds
  | rounds + 1, t, some current, tmp => do
      let t ← hashDelete t current
      let es ← t.heap.entries.release (some current)
      let t := { t with heap := { t.heap with entries := es } }
      let tmp' ← match tmp with
        | none => pure none
        | some a => do
            let e ← t.heap.entries.load (some a)
            pure e.hh.next
      freeEntries rounds t tmp tmp'

/-- `free_table`. -/
def freeTable (rounds : ℕ) (t : HashTable) : Except Stop HashTable := do
  let tmp ← match t.head with
    | none => pure none
    | some a => do
        let e ← t.heap.entries.load (some a)
        pure e.hh.next
  freeEntries rounds t t.head tmp

end HashTable

/-! ### `HASH_FSCK` -/

end KvEngine
