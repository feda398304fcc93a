import Mathlib.Data.List.Nodup
import Mathlib.Logic.Function.Basic

/-! # Doubly linked lists in memory

Blocks of one type are cells: an address that is not allocated has none.  What a function does
with a pointer that may be null stops at a fault when the pointer is null or points to no
allocated block (`load`, `modify`, `release`); a loop over pointers stops when it has used up its
rounds.

`Seg next prev before xs after` says that the links `next` and `prev` string the addresses `xs`
together: each leads to the one after it, the last to `after`, and each leads back to the one
before it, the first to `before`.  A segment with new ends is again a segment when only the outer
links have changed (`Seg.relink`); a node pushed in front, appended at the end or taken out of the
middle are three uses of this (`Seg.push`, `Seg.snoc`, `Seg.remove`).  A loop that only follows
`next` sees a `Trail`. -/

namespace DoubleChains

/-- Why a function does not return. -/
inductive Stop where
  /-- A null pointer or a freed block was dereferenced, or a block freed twice. -/
  | fault
  /-- The process called `exit`. -/
  | exit
  /-- A loop has used up its rounds. -/
  | outOfRounds
deriving DecidableEq, Repr

/-- The allocated blocks of one type. -/
abbrev Cells (A β : Type) := A → Option β

namespace Cells

variable {A β : Type}

/-- `*p`. -/
def load (m : Cells A β) (p : Option A) : Except Stop β :=
  match p.bind m with
  | some v => .ok v
  | none => .error .fault

variable [DecidableEq A]

/-- The block at `a` with `f` done to it. -/
def put (m : Cells A β) (a : A) (f : β → β) : Cells A β := Function.update m a ((m a).map f)

/-- The block at `a`, if it is allocated, is freed. -/
def drop (m : Cells A β) (a : A) : Cells A β := Function.update m a none

/-- Nothing is allocated but `v`, at `a`. -/
def only (a : A) (v : β) : Cells A β := Function.update (fun _ => none) a (some v)

/-- `*p = f(*p)`. -/
def modify (m : Cells A β) (p : Option A) (f : β → β) : Except Stop (Cells A β) :=
  match p with
  | some a => if (m a).isSome then .ok (m.put a f) else .error .fault
  | none => .error .fault

/-- `if (p) *p = f(*p)`. -/
def modifyAt (m : Cells A β) (p : Option A) (f : β → β) : Except Stop (Cells A β) :=
  match p with
  | some a => m.modify (some a) f
  | none => .ok m

/-- `free(p)` of a block that is allocated. -/
def release (m : Cells A β) (p : Option A) : Except Stop (Cells A β) :=
  match p with
  | some a => if (m a).isSome then .ok (m.drop a) else .error .fault
  | none => .error .fault

variable {m : Cells A β} {a : A}

theorem put_self (m : Cells A β) (a : A) (f : β → β) : m.put a f a = (m a).map f :=
  Function.update_self ..

theorem put_of_ne (m : Cells A β) {a b : A} (h : b ≠ a) (f : β → β) : m.put a f b = m b :=
  Function.update_of_ne h ..

@[simp] theorem isSome_put (m : Cells A β) (a b : A) (f : β → β) :
    (m.put a f b).isSome = (m b).isSome := by
  by_cases h : b = a
  · rw [h, put_self, Option.isSome_map]
  · rw [put_of_ne m h]

/-- What `f` leaves alone is as before. -/
theorem put_map {γ : Type} (m : Cells A β) (a b : A) {f : β → β} {g : β → γ}
    (hf : ∀ v, g (f v) = g v) : (m.put a f b).map g = (m b).map g := by
  by_cases h : b = a
  · subst h
    rw [put_self, Option.map_map]
    exact congrArg (Option.map · (m b)) (funext hf)
  · rw [put_of_ne m h]

/-- The block at `p`, unless `p` is null, with `f` done to it. -/
def putAt (m : Cells A β) (p : Option A) (f : β → β) : Cells A β :=
  match p with
  | none => m
  | some a => m.put a f

@[simp] theorem isSome_putAt (m : Cells A β) (p : Option A) (b : A) (f : β → β) :
    (m.putAt p f b).isSome = (m b).isSome := by
  cases p with
  | none => rfl
  | some a => exact isSome_put m a b f

theorem putAt_apply (m : Cells A β) (p : Option A) (f : β → β) (b : A) :
    m.putAt p f b = if p = some b then (m b).map f else m b := by
  cases p with
  | none => simp [putAt]
  | some a =>
      by_cases h : b = a
      · subst h
        rw [if_pos rfl, putAt, put_self]
      · rw [if_neg fun hab => h (Option.some.inj hab).symm, putAt, put_of_ne m h]

theorem putAt_map {γ : Type} (m : Cells A β) (p : Option A) (b : A) {f : β → β} {g : β → γ}
    (hf : ∀ v, g (f v) = g v) : (m.putAt p f b).map g = (m b).map g := by
  cases p with
  | none => rfl
  | some a => exact put_map m a b hf

theorem drop_of_ne (m : Cells A β) {a b : A} (h : b ≠ a) : m.drop a b = m b :=
  Function.update_of_ne h ..

end Cells

/-! ### Segments -/

variable {A : Type} {next prev next' prev' : A → Option A} {before after before' after' : Option A}
  {xs ys : List A} {x : A}

/-- The addresses are linked to one another in order, in both directions. -/
def Seg (next prev : A → Option A) : Option A → List A → Option A → Prop
  | _, [], _ => True
  | before, x :: xs, after =>
      prev x = before ∧ next x = xs.head?.or after ∧ Seg next prev (some x) xs after

theorem seg_append : Seg next prev before (xs ++ ys) after ↔
    Seg next prev before xs (ys.head?.or after) ∧
      Seg next prev (xs.getLast?.or before) ys after := by
  induction xs generalizing before with
  | nil => simp [Seg]
  | cons x xs ih =>
      have hlast : (x :: xs).getLast?.or before = xs.getLast?.or (some x) := by
        cases xs <;> simp [List.getLast?_cons]
      simp only [List.cons_append, Seg, ih, hlast, List.head?_append, Option.or_assoc, and_assoc]

/-- The links inside are as they were, the outer ones lead to the new ends. -/
theorem Seg.relink (h : Seg next prev before xs after)
    (hfirst : ∀ y ∈ xs.head?, prev' y = before') (hback : ∀ y ∈ xs.tail, prev' y = prev y)
    (hlast : ∀ y ∈ xs.getLast?, next' y = after') (hforth : ∀ y ∈ xs.dropLast, next' y = next y) :
    Seg next' prev' before' xs after' := by
  induction xs generalizing before before' with
  | nil => trivial
  | cons x xs ih =>
      obtain ⟨-, hnext, hrest⟩ := h
      cases xs with
      | nil => exact ⟨hfirst x rfl, hlast x rfl, trivial⟩
      | cons y ys =>
          refine ⟨hfirst x rfl, ?_, ih hrest ?_ (fun z hz => hback z (List.mem_cons_of_mem _ hz))
            (fun z hz => hlast z (by simpa [List.getLast?_cons_cons] using hz))
            (fun z hz => hforth z (List.mem_cons_of_mem _ hz))⟩
          · exact (hforth x List.mem_cons_self).trans hnext
          · rintro z ⟨⟩
            exact (hback y List.mem_cons_self).trans hrest.1

/-- Changes off the segment do not matter. -/
theorem Seg.congr (h : Seg next prev before xs after) (hnext : ∀ y ∈ xs, next' y = next y)
    (hprev : ∀ y ∈ xs, prev' y = prev y) : Seg next' prev' before xs after := by
  induction xs generalizing before with
  | nil => trivial
  | cons x xs ih =>
      refine ⟨(hprev x List.mem_cons_self).trans h.1, (hnext x List.mem_cons_self).trans h.2.1, ?_⟩
      exact ih h.2.2 (fun y hy => hnext y (List.mem_cons_of_mem _ hy))
        fun y hy => hprev y (List.mem_cons_of_mem _ hy)

/-- A node is put in front. -/
theorem Seg.push (h : Seg next prev before xs none) (hxprev : prev' x = none)
    (hxnext : next' x = xs.head?) (hfirst : ∀ y ∈ xs.head?, prev' y = some x)
    (hback : ∀ y ∈ xs.tail, prev' y = prev y) (hforth : ∀ y ∈ xs, next' y = next y) :
    Seg next' prev' none (x :: xs) none := by
  refine ⟨hxprev, by rw [hxnext, Option.or_none], h.relink hfirst hback (fun y hy => ?_) ?_⟩
  · -- the last node led to null and still does
    obtain ⟨zs, rfl⟩ := List.getLast?_eq_some_iff.mp hy
    rw [hforth y (by simp)]
    exact (seg_append.mp h).2.2.1
  · exact fun y hy => hforth y (List.dropLast_subset _ hy)

/-- A node is appended. -/
theorem Seg.snoc (h : Seg next prev none xs none) (hxprev : prev' x = xs.getLast?)
    (hxnext : next' x = none) (hlast : ∀ y ∈ xs.getLast?, next' y = some x)
    (hback : ∀ y ∈ xs, prev' y = prev y) (hforth : ∀ y ∈ xs.dropLast, next' y = next y) :
    Seg next' prev' none (xs ++ [x]) none := by
  refine seg_append.mpr ⟨h.relink (fun y hy => ?_) (fun y hy => hback y (List.mem_of_mem_tail hy))
    hlast hforth, by rw [hxprev, Option.or_none], hxnext, trivial⟩
  rw [hback y (List.mem_of_mem_head? hy)]
  cases xs with
  | nil => cases hy
  | cons z zs =>
      cases hy
      exact h.1

/-- A node is taken out. -/
theorem Seg.remove (h : Seg next prev none (xs ++ x :: ys) none)
    (hlast : ∀ y ∈ xs.getLast?, next' y = next x) (hfirst : ∀ y ∈ ys.head?, prev' y = prev x)
    (hforth : ∀ y ∈ xs ++ ys, y ∉ xs.getLast? → next' y = next y)
    (hback : ∀ y ∈ xs ++ ys, y ∉ ys.head? → prev' y = prev y)
    (hnodup : (xs ++ x :: ys).Nodup) : Seg next' prev' none (xs ++ ys) none := by
  obtain ⟨hxs, hprev, hnext, hys⟩ := seg_append.mp h
  rw [Option.or_none] at hprev hnext
  have hdisjoint : xs.Disjoint ys :=
    fun y hx hy => List.disjoint_of_nodup_append hnodup hx (List.mem_cons_of_mem _ hy)
  have hnodup' : (xs ++ ys).Nodup :=
    hnodup.sublist ((List.sublist_cons_self x ys).append_left xs)
  refine seg_append.mpr ⟨hxs.relink ?_ ?_ ?_ ?_, hys.relink ?_ ?_ ?_ ?_⟩
  · intro y hy
    have hmem := List.mem_of_mem_head? hy
    rw [hback y (List.mem_append_left _ hmem) fun hin => hdisjoint hmem (List.mem_of_mem_head? hin)]
    cases xs with
    | nil => cases hy
    | cons z zs =>
        cases hy
        exact hxs.1
  · intro y hy
    have hmem := List.mem_of_mem_tail hy
    exact hback y (List.mem_append_left _ hmem) fun hin =>
      hdisjoint hmem (List.mem_of_mem_head? hin)
  · intro y hy
    rw [hlast y hy, hnext, Option.or_none]
  · intro y hy
    refine hforth y (List.mem_append_left _ (List.dropLast_subset _ hy)) fun hin => ?_
    obtain ⟨zs, rfl⟩ := List.getLast?_eq_some_iff.mp hin
    rw [List.dropLast_concat] at hy
    exact List.disjoint_of_nodup_append hnodup'.of_append_left hy (List.mem_singleton_self y)
  · intro y hy
    rw [hfirst y hy, hprev, Option.or_none]
  · intro y hy
    have hmem := List.mem_of_mem_tail hy
    refine hback y (List.mem_append_right _ hmem) fun hin => ?_
    cases ys with
    | nil => cases hin
    | cons z zs =>
        cases hin
        exact (List.nodup_cons.mp hnodup'.of_append_right).1 hy
  · intro y hy
    have hmem := List.mem_of_getLast? hy
    rw [hforth y (List.mem_append_right _ hmem) fun hin =>
      hdisjoint (List.mem_of_getLast? hin) hmem]
    obtain ⟨zs, rfl⟩ := List.getLast?_eq_some_iff.mp hy
    exact (seg_append.mp hys).2.2.1
  · intro y hy
    have hmem := List.dropLast_subset _ hy
    exact hforth y (List.mem_append_right _ hmem) fun hin =>
      hdisjoint (List.mem_of_getLast? hin) hmem

/-- A link of a node leads to a node. -/
theorem Seg.mem_of_link (h : Seg next prev none xs none) (hx : x ∈ xs) {y : A}
    (hy : prev x = some y ∨ next x = some y) : y ∈ xs := by
  obtain ⟨before, after, rfl⟩ := List.append_of_mem hx
  obtain ⟨-, hprev, hnext, -⟩ := seg_append.mp h
  rw [Option.or_none] at hprev hnext
  obtain hy | hy := hy
  · exact List.mem_append_left _ (List.mem_of_getLast? (hprev ▸ hy))
  · exact List.mem_append_right _ (List.mem_cons_of_mem _ (List.mem_of_mem_head? (hnext ▸ hy)))

/-! ### Trails -/

/-- The addresses met from `p` on by following `next`. -/
def Trail (next : A → Option A) : Option A → List A → Prop
  | p, [] => p = none
  | p, x :: xs => p = some x ∧ Trail next (next x) xs

theorem Trail.congr {p : Option A} (h : Trail next p xs) (hnext : ∀ y ∈ xs, next' y = next y) :
    Trail next' p xs := by
  induction xs generalizing p with
  | nil => exact h
  | cons x xs ih =>
      refine ⟨h.1, ?_⟩
      rw [hnext x List.mem_cons_self]
      exact ih h.2 fun y hy => hnext y (List.mem_cons_of_mem _ hy)

theorem Seg.trail (h : Seg next prev before xs none) : Trail next xs.head? xs := by
  induction xs generalizing before with
  | nil => rfl
  | cons x xs ih =>
      refine ⟨rfl, ?_⟩
      rw [h.2.1, Option.or_none]
      exact ih h.2.2

end DoubleChains
