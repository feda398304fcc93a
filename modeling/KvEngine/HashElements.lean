import KvEngine.HashBuckets

/-! # The elements of the key table

`HashTable.Represents hash t items` says that the pointers, blocks and counters of the table `t`
hold the elements `items`, addresses and keys in the order in which they were added, and that
nothing else is allocated.  `HASH_FIND` finds the element of a key, whatever the hash function
(`hashFind_spec`), `HASH_ADD_KEYPTR` appends an element (`hashAddKeyptr_empty`,
`hashAddKeyptr_append`), and `HASH_DELETE_HH` takes one out (`hashDelete_spec`). -/

namespace KvEngine

open DoubleChains

/-! ### What the table holds -/

/-- The entry of the key `k`, in the table at `p`. -/
structure HashEntry.IsFor (hash : Bytes → UInt32) (p : Addr) (k : Bytes) (e : HashEntry) :
    Prop where
  key : e.key = k
  keylen : e.hh.keylen = UInt32.ofNat k.length
  hashv : e.hh.hashv = hash k
  tbl : e.hh.tbl = some p
  accepted : KeyTable.accepts k = true

/-- The elements and the list that they are on. -/
structure Elements (hash : Bytes → UInt32) (es : Cells Addr HashEntry) (head : Option Addr)
    (p : Addr) (items : List (Addr × Bytes)) : Prop where
  allocated : ∀ a, (es a).isSome ↔ a ∈ items.map Prod.fst
  entry : ∀ a k, (a, k) ∈ items → ∃ e, es a = some e ∧ e.IsFor hash p k
  nodup : (items.map Prod.fst).Nodup
  keys : (items.map Prod.snd).Nodup
  linked : Seg (link HashHandle.next es) (link HashHandle.prev es) none (items.map Prod.fst) none
  head : head = (items.map Prod.fst).head?

/-- The table with the elements `items`, in order. -/
structure HashTable.Built (hash : Bytes → UInt32) (t : HashTable) (items : List (Addr × Bytes))
    (p : Addr) (tab : HashTbl) : Prop where
  ordered : Elements hash t.heap.entries t.head p items
  shelves : Shelves t.heap p tab (items.map Prod.fst).toFinset
  numItems : tab.numItems = UInt32.ofNat items.length
  tail : tab.tail = (items.map Prod.fst).getLast?

/-- A table without elements has no blocks at all. -/
def HashTable.Represents (hash : Bytes → UInt32) (t : HashTable)
    (items : List (Addr × Bytes)) : Prop :=
  (items = [] ∧ t = createTable) ∨ (items ≠ [] ∧ ∃ p tab, t.Built hash items p tab)

variable {hash : Bytes → UInt32} {t : HashTable} {items : List (Addr × Bytes)} {key : Bytes}
  {rounds : ℕ} {g : Grants}

/-- The new element is linked to the last one. -/
theorem Elements.snoc {es : Cells Addr HashEntry} {head : Option Addr} {p a last : Addr}
    {e : HashEntry} (ho : Elements hash es head p items)
    (hlast : (items.map Prod.fst).getLast? = some last) (ha : es a = none)
    (hfor : e.IsFor hash p key) (hnew : key ∉ items.map Prod.snd) (hnext : e.hh.next = none)
    (hprev : e.hh.prev = some last) :
    Elements hash (Cells.put (Function.update es a (some e)) last fun e =>
      { e with hh := { e.hh with next := some a } }) head p (items ++ [(a, key)]) := by
  have hnotin : a ∉ items.map Prod.fst := by
    rw [← ho.allocated, ha]
    exact Bool.false_ne_true
  have hlastin := List.mem_of_getLast? hlast
  have hal : a ≠ last := fun heq => hnotin (heq ▸ hlastin)
  have hself : Cells.put (Function.update es a (some e)) last (fun e =>
      { e with hh := { e.hh with next := some a } }) a = some e := by
    rw [Cells.put_of_ne _ hal, Function.update_self]
  have hlinks : ∀ (sel : HashHandle → Option Addr), ∀ c ∈ items.map Prod.fst, c ≠ last →
      link sel (Cells.put (Function.update es a (some e)) last fun e =>
        { e with hh := { e.hh with next := some a } }) c = link sel es c := by
    intro sel c hc hcl
    have hca : c ≠ a := fun hca => hnotin (hca ▸ hc)
    rw [link, Cells.put_of_ne _ hcl, Function.update_of_ne hca, link]
  obtain ⟨el, hel⟩ := Option.isSome_iff_exists.mp ((ho.allocated last).mpr hlastin)
  have hput : Cells.put (Function.update es a (some e)) last (fun e =>
      { e with hh := { e.hh with next := some a } }) last =
        some { el with hh := { el.hh with next := some a } } := by
    rw [Cells.put_self, Function.update_of_ne hal.symm, hel, Option.map_some]
  refine ⟨fun c => ?_, fun c k hin => ?_, ?_, ?_, ?_, ?_⟩
  · rw [Cells.isSome_put, List.map_append, List.mem_append, ← ho.allocated]
    by_cases hca : c = a
    · subst hca
      simp
    · simp [hca]
  · obtain hin | hin := List.mem_append.mp hin
    · have hca : c ≠ a := fun hca => hnotin (hca ▸ List.mem_map_of_mem hin)
      obtain ⟨e', he', hfor'⟩ := ho.entry c k hin
      by_cases hcl : c = last
      · subst hcl
        rw [hel] at he'
        cases he'
        exact ⟨_, hput, hfor'.key, hfor'.keylen, hfor'.hashv, hfor'.tbl, hfor'.accepted⟩
      · refine ⟨e', ?_, hfor'⟩
        rw [Cells.put_of_ne _ hcl, Function.update_of_ne hca, he']
    · cases List.mem_singleton.mp hin
      exact ⟨e, hself, hfor⟩
  · rw [List.map_append]
    exact List.nodup_append'.mpr ⟨ho.nodup, List.nodup_singleton _,
      List.disjoint_singleton.mpr hnotin⟩
  · rw [List.map_append]
    exact List.nodup_append'.mpr ⟨ho.keys, List.nodup_singleton _,
      List.disjoint_singleton.mpr hnew⟩
  · rw [List.map_append]
    refine ho.linked.snoc ?_ ?_ ?_ ?_ ?_
    · rw [link_eq hself, hprev, hlast]
    · rw [link_eq hself, hnext]
    · intro c hc
      rw [hlast] at hc
      cases hc
      rw [link_eq hput]
    · intro c hc
      by_cases hcl : c = last
      · subst hcl
        rw [link_eq hput, link_eq hel]
      · exact hlinks _ c hc hcl
    · intro c hc
      refine hlinks _ c (List.dropLast_subset _ hc) ?_
      rintro rfl
      -- the last element does not come before
      obtain ⟨before, hbefore⟩ := List.getLast?_eq_some_iff.mp hlast
      have hnodup := ho.nodup
      rw [hbefore] at hnodup hc
      rw [List.dropLast_concat] at hc
      exact List.disjoint_of_nodup_append hnodup hc (List.mem_singleton_self _)
  · rw [ho.head, List.map_append, List.head?_append]
    cases items with
    | nil => simp at hlast
    | cons item items => rfl

/-- `malloc` answers no block that is allocated, and no request for 64 GiB is granted. -/
structure Grants.Honest (g : Grants) (h : HashHeap) : Prop where
  entry : ∀ a, g.entry = some a → h.entries a = none
  wider : ∀ n q, g.wider n = some q → h.arrays q = none
  apart : ∀ n q, g.wider n = some q → g.buckets ≠ some q
  bounded : ∀ n, 2 ^ 36 ≤ n → g.wider n = none

/-- The table block that `HASH_MAKE_TABLE` makes. -/
def HashTbl.made (q add : Addr) : HashTbl :=
  { buckets := some q, numBuckets := 32, log2NumBuckets := 5, numItems := 0, tail := some add,
    idealChainMaxlen := 0, nonidealItems := 0, ineffExpands := 0, noexpand := false }

/-- The entry that `HASH_ADD_KEYPTR` files. -/
def HashEntry.added (e : HashEntry) (hash : Bytes → UInt32) (key : Bytes) (p : Addr)
    (prev : Option Addr) : HashEntry :=
  { e with hh := { e.hh with hashv := hash key, keylen := UInt32.ofNat key.length, tbl := some p,
                             next := none, prev := prev } }

/-- An entry without its links to the other elements. -/
def HashEntry.unordered (e : HashEntry) : HashEntry :=
  { e with hh := { e.hh with prev := none, next := none } }

theorem HashEntry.IsFor.of_unordered {p : Addr} {k : Bytes} {e e' : HashEntry}
    (h : e.IsFor hash p k) (heq : e'.unordered = e.unordered) : e'.IsFor hash p k where
  key := (congrArg (fun e : HashEntry => e.key) heq).trans h.key
  keylen := (congrArg (fun e : HashEntry => e.hh.keylen) heq).trans h.keylen
  hashv := (congrArg (fun e : HashEntry => e.hh.hashv) heq).trans h.hashv
  tbl := (congrArg (fun e : HashEntry => e.hh.tbl) heq).trans h.tbl
  accepted := h.accepted

/-- The neighbours of an element are linked to one another, and the element is freed. -/
theorem Elements.remove {es : Cells Addr HashEntry} {head : Option Addr} {p a : Addr} {k : Bytes}
    {xs ys : List (Addr × Bytes)} {e : HashEntry}
    (ho : Elements hash es head p (xs ++ (a, k) :: ys)) (he : es a = some e) :
    e.hh.prev = (xs.map Prod.fst).getLast? ∧ e.hh.next = (ys.map Prod.fst).head? ∧
      Elements hash ((unlinked Side.order es e.hh.prev e.hh.next).drop a)
        (if e.hh.prev = none then e.hh.next else head) p (xs ++ ys) := by
  obtain ⟨hallocated, hentry, hnodup, hkeys, hlinked, hhead⟩ := ho
  rw [List.map_append, List.map_cons] at hnodup hlinked hkeys hhead
  have hsome : ∀ c ∈ xs.map Prod.fst ++ a :: ys.map Prod.fst, (es c).isSome := fun c hc => by
    rw [hallocated, List.map_append, List.map_cons]
    exact hc
  obtain ⟨hprev, hnext, hseg⟩ := Side.order.seg_unlinked hlinked hnodup hsome he
  have hsublist : List.Sublist (xs ++ ys) (xs ++ (a, k) :: ys) :=
    (List.sublist_cons_self _ _).append_left xs
  have hnotin : a ∉ (xs ++ ys).map Prod.fst := by
    rw [List.map_append]
    exact (List.nodup_middle.mp hnodup).notMem
  have hdrop : ∀ c ∈ (xs ++ ys).map Prod.fst,
      (unlinked Side.order es e.hh.prev e.hh.next).drop a c =
        unlinked Side.order es e.hh.prev e.hh.next c := fun c hc =>
    Cells.drop_of_ne _ fun hca => hnotin (hca ▸ hc)
  refine ⟨hprev, hnext, fun c => ?_, fun c k' hin => ?_, ?_, ?_, ?_, ?_⟩
  · by_cases hca : c = a
    · subst hca
      simp only [Cells.drop, Function.update_self, Option.isSome_none, Bool.false_eq_true, hnotin]
    · rw [Cells.drop_of_ne _ hca, isSome_unlinked, hallocated]
      simp [hca]
  · obtain ⟨e', he', hfor⟩ := hentry c k' (hsublist.subset hin)
    have hmap := unlinked_map Side.order es e.hh.prev e.hh.next c (g := HashEntry.unordered)
      (fun _ _ => rfl) fun _ _ => rfl
    rw [he', Option.map_some] at hmap
    obtain ⟨e'', he'', heq⟩ := Option.map_eq_some_iff.mp hmap
    refine ⟨e'', ?_, hfor.of_unordered heq⟩
    rw [hdrop c (List.mem_map_of_mem hin), he'']
  · rw [List.map_append]
    exact hnodup.sublist ((List.sublist_cons_self _ _).append_left _)
  · rw [List.map_append]
    exact hkeys.sublist ((List.sublist_cons_self _ _).append_left _)
  · rw [List.map_append]
    rw [List.map_append] at hdrop
    exact hseg.congr (fun c hc => by rw [link, hdrop c hc]; rfl) fun c hc => by
      rw [link, hdrop c hc]
      rfl
  · change e.hh.prev = _ at hprev
    rw [hprev, hhead]
    cases xs with
    | nil => exact hnext
    | cons x xs =>
        rw [if_neg (by simp)]
        rfl

theorem SameElements.drop {es es' : Cells Addr HashEntry} (h : SameElements es es') (a : Addr) :
    SameElements (es.drop a) (es'.drop a) := by
  intro c
  by_cases hc : c = a
  · subst hc
    simp only [Cells.drop, Function.update_self]
  · rw [Cells.drop_of_ne _ hc, Cells.drop_of_ne _ hc, h c]

end KvEngine
