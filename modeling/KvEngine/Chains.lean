import Mathlib.Data.List.Nodup
import Mathlib.Data.List.Chain
import Mathlib.Logic.Function.Basic
import Mathlib.Logic.Relation

/-! # Linked lists in memory

A memory maps addresses of type `A` to nodes; an address that is not allocated has no node.  A
node holds a value and a link, the address of the next node or null (`none`).  Reading and
writing an address without a node is a fault, and so is freeing it twice: `setNext` and `free`
answer `none` then.

`Chain m p items` says that the nodes met from the link `p` on are `items`, addresses and
values in order, and that the last link is null.  Since a node has one link only, a chain is
determined by where it starts (`Chain.unique`), so it meets no address twice (`Chain.nodup`) and
none of its nodes leads back to itself (`Chain.acyclic`); its addresses are the ones that can be
reached (`Chain.reachable_iff`).  What is changed off the chain does not matter
(`Chain.congr`), and linking a new last node to it appends one item (`Chain.snoc`).

Nodes that are not on a chain are in the hands of somebody else.  A table `own` says who owns
an address; `Held own tag f` says that the holders of one kind, each of which holds one address
at most, hold what the table gives them.  An address then has one holder only, and the three
rules `Held.acquire`, `Held.release` and `Held.pass` move it from one to the next. -/

namespace Chains

variable {A β : Type}

/-- A value, and the address of the next node or null. -/
structure Node (A β : Type) where
  val : β
  next : Option A

/-- The nodes at the allocated addresses. -/
abbrev Memory (A β : Type) := A → Option (Node A β)

namespace Memory

variable [DecidableEq A]

/-- `p->next = q`. -/
def setNext (m : Memory A β) (p : A) (q : Option A) : Option (Memory A β) :=
  (m p).map fun c => Function.update m p (some { c with next := q })

/-- `free(p)`. -/
def free (m : Memory A β) (p : A) : Option (Memory A β) :=
  (m p).map fun _ => Function.update m p none

theorem setNext_eq {m : Memory A β} {p : A} {b : β} {q : Option A} (h : m p = some ⟨b, q⟩)
    (q' : Option A) : m.setNext p q' = some (Function.update m p (some ⟨b, q'⟩)) := by
  simp [setNext, h]

theorem free_eq {m : Memory A β} {p : A} {c : Node A β} (h : m p = some c) :
    m.free p = some (Function.update m p none) := by
  simp [free, h]

end Memory

/-! ### Chains -/

/-- The nodes from the link `p` on, with the addresses they are at. -/
def Chain (m : Memory A β) : Option A → List (A × β) → Prop
  | p, [] => p = none
  | p, (a, b) :: items => p = some a ∧ ∃ q, m a = some ⟨b, q⟩ ∧ Chain m q items

/-- The addresses of a chain. -/
abbrev addresses (items : List (A × β)) : List A := items.map Prod.fst

/-- The node at `a` links to `b`. -/
def Links (m : Memory A β) (a b : A) : Prop := ∃ c, m a = some c ∧ c.next = some b

/-- The address `a` is met from the link `p` on. -/
def Reachable (m : Memory A β) (p : Option A) (a : A) : Prop :=
  ∃ b, p = some b ∧ Relation.ReflTransGen (Links m) b a

variable {m : Memory A β} {p : Option A} {items : List (A × β)}

@[simp] theorem chain_nil : Chain m p [] ↔ p = none := Iff.rfl

@[simp] theorem chain_cons {a : A} {b : β} :
    Chain m p ((a, b) :: items) ↔ p = some a ∧ ∃ q, m a = some ⟨b, q⟩ ∧ Chain m q items := Iff.rfl

theorem Chain.start (h : Chain m p items) : p = (addresses items).head? := by
  cases items with
  | nil => exact h
  | cons item items => exact h.1

theorem Chain.suffix {more : List (A × β)} {a : A} {b : β}
    (h : Chain m p (items ++ (a, b) :: more)) : Chain m (some a) ((a, b) :: more) := by
  induction items generalizing p with
  | nil => exact h.1 ▸ h
  | cons item items ih =>
      obtain ⟨_, q, _, hrest⟩ := h
      exact ih hrest

/-- The chain that starts at an address that is on the chain. -/
theorem Chain.exists_from {a : A} (h : Chain m p items) (ha : a ∈ addresses items) :
    ∃ rest, rest <:+ items ∧ Chain m (some a) rest := by
  obtain ⟨⟨_, b⟩, hmem, rfl⟩ := List.mem_map.mp ha
  obtain ⟨before, more, rfl⟩ := List.append_of_mem hmem
  exact ⟨_, List.suffix_append .., h.suffix⟩

theorem Chain.unique {items' : List (A × β)} (h : Chain m p items) (h' : Chain m p items') :
    items = items' := by
  induction items generalizing p items' with
  | nil =>
      cases items' with
      | nil => rfl
      | cons item' items' => cases h.symm.trans h'.1
  | cons item items ih =>
      cases items' with
      | nil => cases h'.symm.trans h.1
      | cons item' items' =>
          obtain ⟨hp, q, hnode, hrest⟩ := h
          obtain ⟨hp', q', hnode', hrest'⟩ := h'
          have haddr : item.1 = item'.1 := Option.some.inj (hp.symm.trans hp')
          rw [haddr, hnode', Option.some.injEq, Node.mk.injEq] at hnode
          obtain ⟨hval, rfl⟩ := hnode
          rw [ih hrest hrest', Prod.ext haddr hval.symm]

theorem Chain.nodup (h : Chain m p items) : (addresses items).Nodup := by
  induction items generalizing p with
  | nil => exact List.nodup_nil
  | cons item items ih =>
      obtain ⟨rfl, q, hnode, hrest⟩ := h
      refine List.nodup_cons.mpr ⟨fun hmem => ?_, ih hrest⟩
      -- the chain from that address would be shorter than itself
      obtain ⟨rest, hsuffix, hagain⟩ := hrest.exists_from hmem
      have hwhole : Chain m (some item.1) (item :: items) := ⟨rfl, q, hnode, hrest⟩
      have hlength := hsuffix.length_le
      rw [hagain.unique hwhole, List.length_cons] at hlength
      omega

/-- Changes off the chain do not matter. -/
theorem Chain.congr {m' : Memory A β} (h : Chain m p items)
    (hsame : ∀ a ∈ addresses items, m' a = m a) : Chain m' p items := by
  induction items generalizing p with
  | nil => exact h
  | cons item items ih =>
      obtain ⟨hp, q, hnode, hrest⟩ := h
      refine ⟨hp, q, ?_, ih hrest fun a ha => hsame a (List.mem_cons_of_mem _ ha)⟩
      rw [hsame item.1 List.mem_cons_self, hnode]

theorem Chain.node {a : A} {b : β} (h : Chain m p items) (hmem : (a, b) ∈ items) :
    ∃ q, m a = some ⟨b, q⟩ := by
  obtain ⟨before, more, rfl⟩ := List.append_of_mem hmem
  obtain ⟨_, q, hnode, _⟩ := h.suffix
  exact ⟨q, hnode⟩

/-- The link of the last node is null. -/
theorem Chain.last {a : A} {b : β} (h : Chain m p (items ++ [(a, b)])) : m a = some ⟨b, none⟩ := by
  obtain ⟨_, q, hnode, rfl⟩ := h.suffix
  exact hnode

/-- The last node is linked to a new one. -/
theorem Chain.snoc [DecidableEq A] {a t : A} {b w : β} (h : Chain m p (items ++ [(t, w)]))
    (ha : m a = some ⟨b, none⟩) (hnew : a ∉ addresses (items ++ [(t, w)])) :
    Chain (Function.update m t (some ⟨w, some a⟩)) p (items ++ [(t, w), (a, b)]) := by
  induction items generalizing p with
  | nil =>
      have hat : a ≠ t := by simpa using hnew
      refine ⟨h.1, some a, Function.update_self .., rfl, none, ?_, rfl⟩
      rw [Function.update_of_ne hat, ha]
  | cons item items ih =>
      have hnodup := h.nodup
      obtain ⟨hp, q, hnode, hrest⟩ := h
      have hitem : item.1 ≠ t := by
        rintro rfl
        simp at hnodup
      refine ⟨hp, q, ?_, ih hrest fun hmem => hnew (List.mem_cons_of_mem _ hmem)⟩
      rw [Function.update_of_ne hitem, hnode]

/-! ### What can be reached -/

/-- One link further, the chain is shorter. -/
theorem Chain.links {a b : A} (h : Chain m (some a) items) (hab : Links m a b) :
    ∃ rest, Chain m (some b) rest ∧ rest.length < items.length ∧
      addresses rest ⊆ addresses items := by
  cases items with
  | nil => cases h
  | cons item items =>
      obtain ⟨hp, q, hnode, hrest⟩ := h
      obtain ⟨c, hc, hnext⟩ := hab
      rw [← Option.some.inj hp, hc, Option.some.injEq] at hnode
      subst hnode
      exact ⟨items, hnext ▸ hrest, Nat.lt_succ_self _, List.subset_cons_self ..⟩

theorem Chain.mem_of_links {a b : A} (h : Chain m p items) (ha : a ∈ addresses items)
    (hab : Links m a b) : b ∈ addresses items := by
  obtain ⟨rest, hsuffix, hfrom⟩ := h.exists_from ha
  obtain ⟨next, hnext, -, hsub⟩ := hfrom.links hab
  have hb : b ∈ addresses next := List.mem_of_mem_head? hnext.start.symm
  exact List.map_subset _ hsuffix.subset (hsub hb)

/-- The addresses that can be reached are the addresses of the chain. -/
theorem Chain.reachable_iff (h : Chain m p items) (a : A) :
    Reachable m p a ↔ a ∈ addresses items := by
  constructor
  · rintro ⟨b, rfl, hba⟩
    induction hba with
    | refl => exact List.mem_of_mem_head? h.start.symm
    | tail _ hlinks ih => exact h.mem_of_links ih hlinks
  · intro ha
    induction items generalizing p with
    | nil => cases ha
    | cons item items ih =>
        obtain ⟨rfl, q, hnode, hrest⟩ := h
        rcases List.mem_cons.mp ha with rfl | ha
        · exact ⟨_, rfl, .refl⟩
        · obtain ⟨b, rfl, hba⟩ := ih hrest ha
          exact ⟨item.1, rfl, .head ⟨_, hnode, rfl⟩ hba⟩

/-- No node of a chain leads back to itself. -/
theorem Chain.acyclic {a : A} (h : Chain m p items) (ha : a ∈ addresses items) :
    ¬ Relation.TransGen (Links m) a a := by
  intro hcycle
  obtain ⟨rest, -, hfrom⟩ := h.exists_from ha
  have hshorter {c : A} (hac : Relation.TransGen (Links m) a c) :
      ∃ further, Chain m (some c) further ∧ further.length < rest.length := by
    induction hac with
    | single hlinks =>
        obtain ⟨further, hfurther, hlt, -⟩ := hfrom.links hlinks
        exact ⟨further, hfurther, hlt⟩
    | tail _ hlinks ih =>
        obtain ⟨further, hfurther, hlt⟩ := ih
        obtain ⟨last, hlast, hlt', -⟩ := hfurther.links hlinks
        exact ⟨last, hlast, hlt'.trans hlt⟩
  obtain ⟨further, hfurther, hlt⟩ := hshorter hcycle
  rw [hfurther.unique hfrom] at hlt
  exact lt_irrefl _ hlt

/-- Every node of a chain links to the one after it. -/
theorem Chain.isChain (h : Chain m p items) : (addresses items).IsChain (Links m) := by
  induction items generalizing p with
  | nil => exact .nil
  | cons item items ih =>
      obtain ⟨rfl, q, hnode, hrest⟩ := h
      refine List.isChain_cons.mpr ⟨fun b hb => ?_, ih hrest⟩
      exact ⟨_, hnode, hrest.start.trans hb⟩

/-! ### Who holds an address -/

variable {O ι : Type} {own : A → Option O} {tag : ι → O} {f : ι → Option A}

/-- The holder `i` holds the address `f i`, which the table gives to `tag i`. -/
def Held (own : A → Option O) (tag : ι → O) (f : ι → Option A) : Prop :=
  ∀ i a, f i = some a ↔ own a = some (tag i)

variable [DecidableEq A] {a : A} {o : Option O}

/-- An address that no holder of this kind has goes to an owner of another kind, or to none. -/
theorem Held.pass (h : Held own tag f) (ha : ∀ i, own a ≠ some (tag i))
    (ho : ∀ i, o ≠ some (tag i)) : Held (Function.update own a o) tag f := by
  intro i b
  by_cases hb : b = a
  · subst hb
    rw [Function.update_self, h i b]
    exact iff_of_false (ha i) (ho i)
  · rw [Function.update_of_ne hb, h i b]

variable [DecidableEq ι] {i : ι}

/-- A holder gets an address that no holder of its kind has. -/
theorem Held.acquire (htag : Function.Injective tag) (h : Held own tag f) (hi : f i = none)
    (ha : ∀ j, own a ≠ some (tag j)) :
    Held (Function.update own a (some (tag i))) tag (Function.update f i (some a)) := by
  intro j b
  by_cases hj : j = i
  · subst hj
    have hnone : own b ≠ some (tag j) := by
      rw [Ne, ← h j b, hi]
      exact fun hb => nomatch hb
    by_cases hb : b = a
    · simp [hb]
    · simp [Function.update_of_ne hb, hnone, Ne.symm hb]
  · have htags : tag i ≠ tag j := fun heq => hj (htag heq).symm
    rw [Function.update_of_ne hj, h j b]
    by_cases hb : b = a
    · subst hb
      simp [ha j, htags]
    · rw [Function.update_of_ne hb]

/-- A holder gives its address away. -/
theorem Held.release (htag : Function.Injective tag) (h : Held own tag f) (hi : f i = some a)
    (ho : ∀ j, o ≠ some (tag j)) :
    Held (Function.update own a o) tag (Function.update f i none) := by
  have hown : own a = some (tag i) := (h i a).mp hi
  intro j b
  by_cases hb : b = a
  · subst hb
    rw [Function.update_self]
    refine iff_of_false (fun hj => ?_) (ho j)
    by_cases hji : j = i
    · subst hji
      simp at hj
    · rw [Function.update_of_ne hji, h j b, hown] at hj
      exact hji (htag (Option.some.inj hj)).symm
  · rw [Function.update_of_ne hb, ← h j b]
    by_cases hji : j = i
    · subst hji
      simp [hi, Ne.symm hb]
    · rw [Function.update_of_ne hji]

end Chains
