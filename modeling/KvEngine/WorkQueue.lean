import KvEngine.Chains
import KvEngine.State

/-! # The linked work queue

The queue of `src/utils/thread_pool.c` as the code keeps it: `work_item_t` nodes in memory,
linked by `next`, with `queue_head`, `queue_tail` and a counter `queue_size` of 32 bits that
is kept beside them.  Null is `none`.  A function that would dereference a null pointer or a
freed node, or free a node twice, answers `none`.

`WorkQueue` is the part of `thread_pool_t` that `queue_lock` protects.  `WorkQueue.submit` and
`WorkQueue.work` are the sections of `thread_pool_submit` and `thread_pool_worker` under the
lock.  `pthread_cond_wait` ends a section with the thread blocked; a thread that wakes up, for
whatever reason, runs the section once more.

`WorkQueue.Represents` relates the pointers and the counter to a list, with one lemma for what
each of the functions does to the list. -/

namespace KvEngine

open Chains

/-- What a `work_item_t` holds besides `next`.  `φ` stands for the pointers to functions and `α`
for the pointers that they take. -/
structure Work (φ α : Type) where
  func : φ
  arg : α
  cleanup : Option φ
deriving DecidableEq, Repr

/-- The fields of `thread_pool_t` that `queue_lock` protects, and the allocated nodes. -/
structure WorkQueue (φ α : Type) where
  mem : Memory Addr (Work φ α)
  queueHead : Option Addr
  queueTail : Option Addr
  queueSize : UInt32
  queueCapacity : UInt32
  shutdown : Bool

/-- How the section of `thread_pool_submit` ends. -/
inductive SubmitExit where
  | rejected
  /-- In `pthread_cond_wait` on `queue_not_full`. -/
  | blocked
  | accepted

/-- How the section of `thread_pool_worker` ends. -/
inductive WorkExit where
  /-- In `pthread_cond_wait` on `queue_not_empty`. -/
  | blocked
  | exiting
  | took (item : Addr)

namespace WorkQueue

variable {φ α : Type}

/-- The queue that `thread_pool_create` makes. -/
def create (queueDepth : UInt32) : WorkQueue φ α where
  mem := fun _ => none
  queueHead := none
  queueTail := none
  queueSize := 0
  queueCapacity := if 0 < queueDepth then queueDepth else 128
  shutdown := false

/-- `thread_pool_submit`, "Enqueue at tail". -/
def enqueue (q : WorkQueue φ α) (item : Addr) : Option (WorkQueue φ α) := do
  let q ← match q.queueTail with
    | some tail => do
        let mem ← q.mem.setNext tail (some item)
        pure { q with mem := mem }
    | none => pure { q with queueHead := some item }
  return { q with queueTail := some item, queueSize := q.queueSize + 1 }

/-- `thread_pool_worker`, "Dequeue work item from head". -/
def dequeue (q : WorkQueue φ α) : Option (Addr × WorkQueue φ α) := do
  let item ← q.queueHead
  let node ← q.mem item
  let q := { q with queueHead := node.next }
  let q := if q.queueHead.isNone then { q with queueTail := none } else q
  return (item, { q with queueSize := q.queueSize - 1 })

/-- `free(item)`. -/
def free (q : WorkQueue φ α) (item : Addr) : Option (WorkQueue φ α) := do
  let mem ← q.mem.free item
  return { q with mem := mem }

/-- The section of `thread_pool_submit`, and the `free` of an item that is rejected. -/
def submit (q : WorkQueue φ α) (item : Addr) : Option (SubmitExit × WorkQueue φ α) :=
  if q.shutdown then do
    let q ← q.free item
    return (.rejected, q)
  else if q.queueCapacity ≤ q.queueSize then some (.blocked, q)
  else do
    let q ← q.enqueue item
    return (.accepted, q)

/-- The section of `thread_pool_worker`. -/
def work (q : WorkQueue φ α) : Option (WorkExit × WorkQueue φ α) :=
  if q.queueSize = 0 ∧ q.shutdown = false then some (.blocked, q)
  else if q.shutdown = true ∧ q.queueSize = 0 then some (.exiting, q)
  else do
    let (item, q) ← q.dequeue
    return (.took item, q)

/-- `thread_pool_destroy`, the loop over the items left in the queue, with `item` at the node it
has come to: the calls of `cleanup` in order, and the memory that is left.  The loop runs for
`rounds` rounds at most. -/
def freeLeftovers :
    ℕ → Memory Addr (Work φ α) → Option Addr → Option (List (φ × α) × Memory Addr (Work φ α))
  | _, mem, none => some ([], mem)
  | 0, _, some _ => none
  | rounds + 1, mem, some item => do
      let node ← mem item
      let mem ← mem.free item
      let (cleaned, mem) ← freeLeftovers rounds mem node.next
      return (node.val.cleanup.toList.map (·, node.val.arg) ++ cleaned, mem)

/-- A node with what it holds, for the history of the queue. -/
def entry (q : WorkQueue φ α) (item : Addr) : List (Addr × Work φ α) :=
  (q.mem item).toList.map fun node => (item, node.val)

/-! ### The list the queue represents -/

/-- The queue represents the list `items` of nodes with what they hold. -/
structure Represents (q : WorkQueue φ α) (items : List (Addr × Work φ α)) : Prop where
  chain : Chain q.mem q.queueHead items
  tail : q.queueTail = (addresses items).getLast?
  size : q.queueSize.toNat = items.length
  bound : items.length ≤ q.queueCapacity.toNat

variable {q : WorkQueue φ α} {items : List (Addr × Work φ α)}

theorem create_represents (queueDepth : UInt32) :
    (create queueDepth : WorkQueue φ α).Represents [] where
  chain := rfl
  tail := rfl
  size := rfl
  bound := Nat.zero_le _

theorem Represents.size_eq_zero_iff (h : q.Represents items) : q.queueSize = 0 ↔ items = [] := by
  rw [← UInt32.toNat_inj, h.size, UInt32.toNat_zero, List.length_eq_zero_iff]

theorem Represents.tail_eq_none_iff (h : q.Represents items) :
    q.queueTail = none ↔ q.queueHead = none := by
  rw [h.tail, h.chain.start, List.getLast?_eq_none_iff, List.head?_eq_none_iff]

/-- Changes off the queue do not matter. -/
theorem Represents.congr (h : q.Represents items) {mem : Memory Addr (Work φ α)}
    (hsame : ∀ a ∈ addresses items, mem a = q.mem a) : { q with mem := mem }.Represents items where
  chain := h.chain.congr hsame
  tail := h.tail
  size := h.size
  bound := h.bound

/-- From `q` to `q'` at most links of the nodes at `nodes` have changed. -/
structure Relinked (nodes : List Addr) (q q' : WorkQueue φ α) : Prop where
  off : ∀ a, a ∉ nodes → q'.mem a = q.mem a
  allocated : ∀ a, q'.mem a = none ↔ q.mem a = none
  capacity : q'.queueCapacity = q.queueCapacity
  shutdown : q'.shutdown = q.shutdown

/-- An item is enqueued. -/
theorem Represents.enqueue (h : q.Represents items) (hroom : q.queueSize < q.queueCapacity)
    {item : Addr} {work : Work φ α} (hitem : q.mem item = some ⟨work, none⟩)
    (hnew : item ∉ addresses items) :
    ∃ q', q.enqueue item = some q' ∧ q'.Represents (items ++ [(item, work)]) ∧
      Relinked (addresses items) q q' := by
  have hlt : q.queueSize.toNat < q.queueCapacity.toNat := UInt32.lt_iff_toNat_lt.mp hroom
  have hcapacity := q.queueCapacity.toNat_lt
  have hsize : (q.queueSize + 1).toNat = (items ++ [(item, work)]).length := by
    rw [UInt32.toNat_add, UInt32.toNat_one, Nat.mod_eq_of_lt (by omega), h.size,
      List.length_append, List.length_singleton]
  have hbound : (items ++ [(item, work)]).length ≤ q.queueCapacity.toNat := by
    rw [List.length_append, List.length_singleton, ← h.size]
    omega
  have hlast : some item = (addresses (items ++ [(item, work)])).getLast? := by simp
  rcases List.eq_nil_or_concat items with rfl | ⟨before, ⟨tail, last⟩, rfl⟩
  · -- the queue was empty: its head becomes the item
    refine ⟨{ q with
      queueHead := some item
      queueTail := some item
      queueSize := q.queueSize + 1 }, ?_,
      ⟨⟨rfl, none, hitem, rfl⟩, hlast, hsize, hbound⟩, fun _ _ => rfl, fun _ => Iff.rfl, rfl, rfl⟩
    simp [WorkQueue.enqueue, h.tail]
  · -- the last node is linked to the item
    rw [List.concat_eq_append] at *
    have htail : q.mem tail = some ⟨last, none⟩ := h.chain.last
    have hchain := h.chain.snoc hitem hnew
    refine ⟨{ q with
      mem := Function.update q.mem tail (some ⟨last, some item⟩)
      queueTail := some item
      queueSize := q.queueSize + 1 }, ?_, ⟨?_, hlast, hsize, hbound⟩,
      fun a ha => ?_, fun a => ?_, rfl, rfl⟩
    · simp [WorkQueue.enqueue, h.tail, Memory.setNext_eq htail]
    · rw [List.append_assoc]
      exact hchain
    · have hne : a ≠ tail := by
        rintro rfl
        simp at ha
      exact Function.update_of_ne hne _ _
    · by_cases ha : a = tail
      · subst ha
        simp [htail]
      · exact iff_of_eq (congrArg (· = none) (Function.update_of_ne ha _ _))

/-- The node at the head is dequeued.  The memory does not change. -/
theorem Represents.dequeue {item : Addr} {work : Work φ α}
    (h : q.Represents ((item, work) :: items)) :
    ∃ q', q.dequeue = some (item, q') ∧ q'.Represents items ∧ Relinked [] q q' ∧
      q'.queueSize.toNat + 1 = q.queueSize.toNat := by
  obtain ⟨hhead, next, hnode, hrest⟩ := h.chain
  have hsize := h.size
  have hbound := h.bound
  rw [List.length_cons] at hsize hbound
  have hone : (1 : UInt32) ≤ q.queueSize := by
    rw [UInt32.le_iff_toNat_le, UInt32.toNat_one]
    omega
  have hsub : (q.queueSize - 1).toNat + 1 = q.queueSize.toNat := by
    rw [UInt32.toNat_sub_of_le _ _ hone, UInt32.toNat_one]
    omega
  have htail : (if next.isNone then none else q.queueTail) = (addresses items).getLast? := by
    rw [hrest.start]
    cases items with
    | nil => rfl
    | cons item' items => simp [h.tail]
  refine ⟨{ q with
    queueHead := next
    queueTail := if next.isNone then none else q.queueTail
    queueSize := q.queueSize - 1 }, ?_, ⟨hrest, htail, ?_, ?_⟩,
    ⟨fun _ _ => rfl, fun _ => Iff.rfl, rfl, rfl⟩, hsub⟩
  · simp only [WorkQueue.dequeue, hhead, hnode, Option.bind_eq_bind, Option.bind_some]
    split <;> simp_all
  · show (q.queueSize - 1).toNat = items.length
    omega
  · show items.length ≤ q.queueCapacity.toNat
    omega

/-- A worker that finds the queue empty dequeues nothing. -/
theorem Represents.work_nil (h : q.Represents []) :
    q.work = some (if q.shutdown then .exiting else .blocked, q) := by
  have hsize : q.queueSize = 0 := h.size_eq_zero_iff.mpr rfl
  cases hshut : q.shutdown <;> simp [WorkQueue.work, hsize, hshut]

/-- A worker that finds the queue not empty takes its first node. -/
theorem Represents.work_cons {item : Addr} {work : Work φ α}
    (h : q.Represents ((item, work) :: items)) :
    ∃ q', q.work = some (.took item, q') ∧ q'.Represents items ∧ Relinked [] q q' ∧
      q'.queueSize.toNat + 1 = q.queueSize.toNat := by
  obtain ⟨q', hq', hrepr, hlinks, hsize⟩ := h.dequeue
  have hne : q.queueSize ≠ 0 := by
    rw [Ne, h.size_eq_zero_iff]
    exact List.cons_ne_nil _ _
  refine ⟨q', ?_, hrepr, hlinks, hsize⟩
  simp [WorkQueue.work, hne, hq']

/-- Whenever a worker dequeues, there is a node at the head and the counter is not zero. -/
theorem Represents.of_took (h : q.Represents items) {item : Addr} {q' : WorkQueue φ α}
    (hwork : q.work = some (.took item, q')) :
    0 < q.queueSize ∧ q.queueHead = some item ∧ (q.mem item).isSome ∧
      q'.queueSize.toNat + 1 = q.queueSize.toNat := by
  cases items with
  | nil =>
      rw [h.work_nil] at hwork
      split at hwork <;> simp at hwork
  | cons first rest =>
      obtain ⟨q'', hwork', -, -, hsize⟩ := h.work_cons
      rw [hwork', Option.some.injEq, Prod.mk.injEq, WorkExit.took.injEq] at hwork
      obtain ⟨rfl, rfl⟩ := hwork
      obtain ⟨hhead, next, hnode, -⟩ := h.chain
      refine ⟨?_, hhead, by rw [hnode]; rfl, hsize⟩
      rw [UInt32.lt_iff_toNat_lt, UInt32.toNat_zero]
      omega

/-- The loop of `thread_pool_destroy` over a chain: as many rounds as there are nodes are enough.
Each node is freed once, and its `cleanup`, if it has one, is called once on its argument. -/
theorem freeLeftovers_chain {mem : Memory Addr (Work φ α)} {p : Option Addr}
    (h : Chain mem p items) :
    ∃ mem', freeLeftovers items.length mem p =
        some (items.flatMap fun item => item.2.cleanup.toList.map (·, item.2.arg), mem') ∧
      ∀ a, mem' a = if a ∈ addresses items then none else mem a := by
  induction items generalizing mem p with
  | nil =>
      obtain rfl : p = none := h
      exact ⟨mem, rfl, fun _ => rfl⟩
  | cons item items ih =>
      have hfirst := (List.nodup_cons.mp h.nodup).1
      obtain ⟨rfl, next, hnode, hrest⟩ := h
      -- the rest of the chain does not meet the node that is freed
      have hkept : Chain (Function.update mem item.1 none) next items := by
        refine hrest.congr fun a ha => Function.update_of_ne ?_ _ _
        rintro rfl
        exact hfirst ha
      obtain ⟨mem', hloop, hmem'⟩ := ih hkept
      refine ⟨mem', ?_, fun a => ?_⟩
      · simp [freeLeftovers, hnode, Memory.free_eq hnode, hloop]
      · rw [hmem' a]
        by_cases ha : a = item.1
        · simp [ha]
        · simp only [Function.update_of_ne ha, addresses, List.map_cons, List.mem_cons, ha,
            false_or]

end WorkQueue

end KvEngine
