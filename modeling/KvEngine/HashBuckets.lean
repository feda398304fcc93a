import KvEngine.UtHash
import Mathlib.Algebra.Ring.Nat
import Mathlib.Data.Finset.Card

/-! # The buckets of the key table

`Filed es bs chains home` says that the array `bs` files the chains of handles: bucket `i` leads to
`chains i`, which is linked in both directions and counted, and the handles in it have their home
there.  Pushing a handle and taking one out keep it (`Filed.push`, `Filed.remove`), and so do the
loops of `HASH_EXPAND_BUCKETS`, which move the handles to the homes they have among twice as many
buckets (`rehashChain_spec`, `rehashAll_spec`).

`Shelves` puts this together with the table block: what the macros do to the buckets is what they
do to the set of the handles that are filed (`addToBkt_spec`, `delInBkt_spec`). -/

namespace KvEngine

open DoubleChains

/-! ### Links and elements -/

/-- A link of the handle at an address. -/
def link (sel : HashHandle → Option Addr) (es : Cells Addr HashEntry) (a : Addr) : Option Addr :=
  (es a).bind fun e => sel e.hh

theorem link_eq {sel : HashHandle → Option Addr} {es : Cells Addr HashEntry} {a : Addr}
    {e : HashEntry} (h : es a = some e) : link sel es a = sel e.hh := by
  rw [link, h, Option.bind_some]

theorem link_putAt (sel : HashHandle → Option Addr) (es : Cells Addr HashEntry) (p : Option Addr)
    (c : Addr) (f : HashEntry → HashEntry) :
    link sel (es.putAt p f) c =
      if p = some c then (es c).bind fun e => sel (f e).hh else link sel es c := by
  rw [link, Cells.putAt_apply]
  split
  · cases es c <;> rfl
  · rfl

/-- An entry without the links of its bucket. -/
def HashEntry.unfiled (e : HashEntry) : HashEntry :=
  { e with hh := { e.hh with hhPrev := none, hhNext := none } }

/-- Nothing but the links of the buckets has changed. -/
def SameElements (es es' : Cells Addr HashEntry) : Prop :=
  ∀ a, (es' a).map HashEntry.unfiled = (es a).map HashEntry.unfiled

theorem SameElements.refl (es : Cells Addr HashEntry) : SameElements es es := fun _ => rfl

theorem SameElements.trans {es es' es'' : Cells Addr HashEntry} (h : SameElements es es')
    (h' : SameElements es' es'') : SameElements es es'' := fun a => (h' a).trans (h a)

theorem SameElements.putAt (es : Cells Addr HashEntry) (p : Option Addr)
    {f : HashEntry → HashEntry} (hf : ∀ e, (f e).unfiled = e.unfiled) :
    SameElements es (es.putAt p f) := fun b => Cells.putAt_map es p b hf

/-- What can be told of an entry without its bucket is told of the same entry before. -/
theorem SameElements.map {γ : Type} {es es' : Cells Addr HashEntry} (h : SameElements es es')
    {g : HashEntry → γ} (hg : ∀ e, g e.unfiled = g e) (a : Addr) :
    (es' a).map g = (es a).map g := by
  have hcomp : g = g ∘ HashEntry.unfiled := funext fun e => (hg e).symm
  rw [hcomp, ← Option.map_map, ← Option.map_map, h a]

theorem SameElements.isSome {es es' : Cells Addr HashEntry} (h : SameElements es es') (a : Addr) :
    (es' a).isSome = (es a).isSome := by
  rw [← Option.isSome_map (f := HashEntry.unfiled), h a, Option.isSome_map]

theorem SameElements.link_eq {es es' : Cells Addr HashEntry} (h : SameElements es es')
    {sel : HashHandle → Option Addr} (hsel : ∀ e : HashEntry, sel e.unfiled.hh = sel e.hh)
    (a : Addr) : link sel es' a = link sel es a := by
  have hmap := h.map (g := fun e => sel e.hh) hsel a
  rw [link, link]
  cases h₁ : es a <;> cases h₂ : es' a <;> simp_all

/-- The bucket, among `n`, where an element belongs. -/
def home (es : Cells Addr HashEntry) (n : UInt32) (a : Addr) : ℕ :=
  ((es a).map fun e => toBkt e.hh.hashv n).getD 0

/-- The entries after `pushHandle`. -/
def pushed (es : Cells Addr HashEntry) (head : Option Addr) (thh : Addr) : Cells Addr HashEntry :=
  (es.putAt (some thh) fun e =>
    { e with hh := { e.hh with hhPrev := none, hhNext := head } }).putAt head
      fun e => { e with hh := { e.hh with hhPrev := some thh } }

theorem sameElements_pushed (es : Cells Addr HashEntry) (head : Option Addr) (thh : Addr) :
    SameElements es (pushed es head thh) := by
  unfold pushed
  refine SameElements.trans ?_ (SameElements.putAt _ head fun _ => rfl)
  exact SameElements.putAt es (some thh) fun _ => rfl

theorem link_pushed_next {es : Cells Addr HashEntry} {head : Option Addr} {thh : Addr}
    (ha : (es thh).isSome) (c : Addr) :
    link HashHandle.hhNext (pushed es head thh) c =
      if c = thh then head else link HashHandle.hhNext es c := by
  obtain ⟨e, he⟩ := Option.isSome_iff_exists.mp ha
  rw [pushed, link_putAt]
  simp only [← link.eq_def, ite_self, link_putAt, Option.some.injEq, eq_comm (a := thh)]
  split
  · next h => rw [h, he, Option.bind_some]
  · rfl

theorem link_pushed_prev {es : Cells Addr HashEntry} {head : Option Addr} {thh : Addr}
    (ha : (es thh).isSome) (hhead : ∀ first ∈ head, (es first).isSome) (c : Addr) :
    link HashHandle.hhPrev (pushed es head thh) c =
      if head = some c then some thh
      else if c = thh then none else link HashHandle.hhPrev es c := by
  rw [pushed, link_putAt, link_putAt]
  split
  · next h =>
      have hsome := hhead c h
      rw [← Cells.isSome_putAt es (some thh) c] at hsome
      obtain ⟨e, he⟩ := Option.isSome_iff_exists.mp hsome
      rw [he, Option.bind_some]
  · obtain ⟨e, he⟩ := Option.isSome_iff_exists.mp ha
    simp only [Option.some.injEq, eq_comm (a := thh)]
    split
    · next h => rw [h, he, Option.bind_some]
    · rfl

/-- One of the two lists that a handle is on. -/
structure Side where
  back : HashHandle → Option Addr
  forth : HashHandle → Option Addr
  setBack : Option Addr → HashHandle → HashHandle
  setForth : Option Addr → HashHandle → HashHandle
  back_setBack : ∀ p hh, back (setBack p hh) = p
  back_setForth : ∀ p hh, back (setForth p hh) = back hh
  forth_setForth : ∀ p hh, forth (setForth p hh) = p
  forth_setBack : ∀ p hh, forth (setBack p hh) = forth hh

/-- The list of a bucket. -/
def Side.bucket : Side where
  back := HashHandle.hhPrev
  forth := HashHandle.hhNext
  setBack p hh := { hh with hhPrev := p }
  setForth p hh := { hh with hhNext := p }
  back_setBack _ _ := rfl
  back_setForth _ _ := rfl
  forth_setForth _ _ := rfl
  forth_setBack _ _ := rfl

/-- The list of all elements. -/
def Side.order : Side where
  back := HashHandle.prev
  forth := HashHandle.next
  setBack p hh := { hh with prev := p }
  setForth p hh := { hh with next := p }
  back_setBack _ _ := rfl
  back_setForth _ _ := rfl
  forth_setForth _ _ := rfl
  forth_setBack _ _ := rfl

/-- The entries after the neighbours `p` and `n` of a handle have been linked to one another. -/
def unlinked (S : Side) (es : Cells Addr HashEntry) (p n : Option Addr) : Cells Addr HashEntry :=
  (es.putAt p fun e => { e with hh := S.setForth n e.hh }).putAt n
    fun e => { e with hh := S.setBack p e.hh }

theorem isSome_unlinked (S : Side) (es : Cells Addr HashEntry) (p n : Option Addr) (c : Addr) :
    (unlinked S es p n c).isSome = (es c).isSome := by
  rw [unlinked, Cells.isSome_putAt, Cells.isSome_putAt]

theorem link_unlinked_forth (S : Side) {es : Cells Addr HashEntry} {p n : Option Addr}
    (hp : ∀ a ∈ p, (es a).isSome) (c : Addr) :
    link S.forth (unlinked S es p n) c = if p = some c then n else link S.forth es c := by
  rw [unlinked, link_putAt]
  simp only [S.forth_setBack, ← link.eq_def, ite_self, link_putAt, S.forth_setForth]
  split
  · next h =>
      obtain ⟨e, he⟩ := Option.isSome_iff_exists.mp (hp c h)
      rw [he, Option.bind_some]
  · rfl

theorem link_unlinked_back (S : Side) {es : Cells Addr HashEntry} {p n : Option Addr}
    (hn : ∀ a ∈ n, (es a).isSome) (c : Addr) :
    link S.back (unlinked S es p n) c = if n = some c then p else link S.back es c := by
  rw [unlinked, link_putAt]
  simp only [S.back_setBack, link_putAt, S.back_setForth, ← link.eq_def, ite_self]
  split
  · next h =>
      have hsome := hn c h
      rw [← Cells.isSome_putAt es p c] at hsome
      obtain ⟨e, he⟩ := Option.isSome_iff_exists.mp hsome
      rw [he, Option.bind_some]
  · rfl

/-- What the links of the side leave alone is as before. -/
theorem unlinked_map {γ : Type} (S : Side) (es : Cells Addr HashEntry) (p n : Option Addr)
    (c : Addr) {g : HashEntry → γ}
    (hforth : ∀ e q, g { e with hh := S.setForth q e.hh } = g e)
    (hback : ∀ e q, g { e with hh := S.setBack q e.hh } = g e) :
    (unlinked S es p n c).map g = (es c).map g := by
  rw [unlinked, Cells.putAt_map _ _ _ fun e => hback e p, Cells.putAt_map _ _ _ fun e => hforth e n]

theorem sameElements_unlinked (es : Cells Addr HashEntry) (p n : Option Addr) :
    SameElements es (unlinked Side.bucket es p n) := fun c =>
  unlinked_map Side.bucket es p n c (fun _ _ => rfl) fun _ _ => rfl

/-- A handle is taken out of its list. -/
theorem Side.seg_unlinked (S : Side) {es : Cells Addr HashEntry} {xs ys : List Addr} {a : Addr}
    {e : HashEntry} (h : Seg (link S.forth es) (link S.back es) none (xs ++ a :: ys) none)
    (hnodup : (xs ++ a :: ys).Nodup) (hsome : ∀ c ∈ xs ++ a :: ys, (es c).isSome)
    (ha : es a = some e) :
    S.back e.hh = xs.getLast? ∧ S.forth e.hh = ys.head? ∧
      Seg (link S.forth (unlinked S es (S.back e.hh) (S.forth e.hh)))
        (link S.back (unlinked S es (S.back e.hh) (S.forth e.hh))) none (xs ++ ys) none := by
  obtain ⟨-, hback, hforth, -⟩ := seg_append.mp h
  rw [link_eq ha, Option.or_none] at hback hforth
  have hin : a ∈ xs ++ a :: ys := List.mem_append_right _ List.mem_cons_self
  have hp : ∀ c ∈ S.back e.hh, (es c).isSome := fun c hc =>
    hsome c (h.mem_of_link hin (.inl ((link_eq ha).trans hc)))
  have hn : ∀ c ∈ S.forth e.hh, (es c).isSome := fun c hc =>
    hsome c (h.mem_of_link hin (.inr ((link_eq ha).trans hc)))
  refine ⟨hback, hforth, h.remove ?_ ?_ ?_ ?_ hnodup⟩
  · intro c hc
    rw [link_unlinked_forth S hp, if_pos (hback.trans hc), link_eq ha]
  · intro c hc
    rw [link_unlinked_back S hn, if_pos (hforth.trans hc), link_eq ha]
  · intro c _ hc
    rw [link_unlinked_forth S hp, hback, if_neg (Option.mem_def.not.mp hc)]
  · intro c _ hc
    rw [link_unlinked_back S hn, hforth, if_neg (Option.mem_def.not.mp hc)]

/-! ### Filed chains -/

/-- The array files the chains: bucket `i` leads to the handles of `chains i`, and counts them. -/
structure Filed (es : Cells Addr HashEntry) (bs : List HashBucket) (chains : ℕ → List Addr)
    (home : Addr → ℕ) : Prop where
  bucket : ∀ i b, bs[i]? = some b →
    b.hhHead = (chains i).head? ∧ b.count = UInt32.ofNat (chains i).length
  linked : ∀ i, Seg (link HashHandle.hhNext es) (link HashHandle.hhPrev es) none (chains i) none
  nodup : ∀ i, (chains i).Nodup
  mem : ∀ i, ∀ a ∈ chains i, home a = i ∧ (es a).isSome

section Filed

variable {es : Cells Addr HashEntry} {bs : List HashBucket} {chains : ℕ → List Addr}
  {home : Addr → ℕ}

/-- One chain is replaced, together with its bucket; the links of the others are untouched. -/
theorem Filed.replace (h : Filed es bs chains home) {es' : Cells Addr HashEntry}
    (hsame : SameElements es es') {k : ℕ} {xs : List Addr} {b : HashBucket}
    (hb : b.hhHead = xs.head? ∧ b.count = UInt32.ofNat xs.length) (hnodup : xs.Nodup)
    (hmem : ∀ a ∈ xs, home a = k ∧ (es a).isSome)
    (hseg : Seg (link HashHandle.hhNext es') (link HashHandle.hhPrev es') none xs none)
    (hother : ∀ a, home a ≠ k → link HashHandle.hhNext es' a = link HashHandle.hhNext es a ∧
      link HashHandle.hhPrev es' a = link HashHandle.hhPrev es a) :
    Filed es' (bs.set k b) (Function.update chains k xs) home := by
  refine ⟨fun i b' hb' => ?_, fun i => ?_, fun i => ?_, fun i a ha => ?_⟩ <;>
    by_cases hi : i = k
  · subst hi
    rw [List.getElem?_set_self'] at hb'
    obtain ⟨-, -, rfl⟩ := Option.map_eq_some_iff.mp hb'
    rw [Function.update_self]
    exact hb
  · rw [List.getElem?_set_ne (Ne.symm hi)] at hb'
    rw [Function.update_of_ne hi]
    exact h.bucket i b' hb'
  · subst hi
    rw [Function.update_self]
    exact hseg
  · rw [Function.update_of_ne hi]
    have hoff : ∀ a ∈ chains i, home a ≠ k := fun a ha hk => hi ((h.mem i a ha).1.symm.trans hk)
    exact (h.linked i).congr (fun a ha => (hother a (hoff a ha)).1)
      fun a ha => (hother a (hoff a ha)).2
  · subst hi
    rw [Function.update_self]
    exact hnodup
  · rw [Function.update_of_ne hi]
    exact h.nodup i
  · subst hi
    rw [Function.update_self] at ha
    rw [hsame.isSome]
    exact hmem a ha
  · rw [Function.update_of_ne hi] at ha
    rw [hsame.isSome]
    exact h.mem i a ha

/-- A handle that is in no chain becomes the first of its own. -/
theorem Filed.push (h : Filed es bs chains home) {a : Addr} (ha : (es a).isSome)
    (hnew : a ∉ chains (home a)) {b : HashBucket} (hhead : b.hhHead = some a)
    (hcount : b.count = UInt32.ofNat (chains (home a)).length + 1) :
    Filed (pushed es (chains (home a)).head? a) (bs.set (home a) b)
      (Function.update chains (home a) (a :: chains (home a))) home := by
  have hfirst : ∀ c ∈ (chains (home a)).head?, (es c).isSome := fun c hc =>
    (h.mem _ c (List.mem_of_mem_head? hc)).2
  have hne : ∀ c ∈ chains (home a), c ≠ a := fun c hc hca => hnew (by rwa [hca] at hc)
  refine h.replace (sameElements_pushed es _ a) ⟨hhead, hcount.trans ?_⟩
    (List.nodup_cons.mpr ⟨hnew, h.nodup _⟩) ?_ ((h.linked _).push ?_ ?_ ?_ ?_ ?_) ?_
  · rw [List.length_cons, UInt32.ofNat_add]
    rfl
  · intro c hc
    obtain rfl | hc := List.mem_cons.mp hc
    · exact ⟨rfl, ha⟩
    · exact h.mem _ c hc
  · rw [link_pushed_prev ha hfirst, if_neg, if_pos rfl]
    exact fun hc => hnew (List.mem_of_mem_head? hc)
  · rw [link_pushed_next ha, if_pos rfl]
  · intro c hc
    rw [link_pushed_prev ha hfirst, if_pos (Option.mem_def.mp hc)]
  · intro c hc
    rw [link_pushed_prev ha hfirst, if_neg, if_neg (hne c (List.mem_of_mem_tail hc))]
    -- the first handle does not come again
    intro hhd
    obtain ⟨rest, hrest⟩ := List.head?_eq_some_iff.mp hhd
    have hnodup := h.nodup (home a)
    rw [hrest] at hnodup hc
    exact (List.nodup_cons.mp hnodup).1 hc
  · intro c hc
    rw [link_pushed_next ha, if_neg (hne c hc)]
  · intro c hc
    have hca : c ≠ a := fun hca => hc (congrArg home hca)
    rw [link_pushed_next ha, link_pushed_prev ha hfirst, if_neg hca, if_neg, if_neg hca]
    · exact ⟨rfl, rfl⟩
    · exact fun hhd => hc (h.mem _ c (List.mem_of_mem_head? hhd)).1

/-- The neighbours of a handle are handles of the same chain. -/
theorem Filed.near (h : Filed es bs chains home) {a : Addr} {e : HashEntry} (ha : es a = some e)
    (hin : a ∈ chains (home a)) (c : Addr) (hc : e.hh.hhPrev = some c ∨ e.hh.hhNext = some c) :
    home c = home a ∧ (es c).isSome := by
  refine h.mem _ c ((h.linked _).mem_of_link hin ?_)
  rwa [link_eq ha, link_eq ha]

/-- A handle is taken out of its bucket. -/
theorem Filed.remove (h : Filed es bs chains home) {a : Addr} {e : HashEntry} {b b' : HashBucket}
    (ha : es a = some e) (hin : a ∈ chains (home a)) (hb : bs[home a]? = some b)
    (hhead : b'.hhHead = if b.hhHead = some a then e.hh.hhNext else b.hhHead)
    (hcount : b'.count = b.count - 1) :
    Filed (unlinked Side.bucket es e.hh.hhPrev e.hh.hhNext) (bs.set (home a) b')
      (Function.update chains (home a) ((chains (home a)).erase a)) home := by
  obtain ⟨xs, ys, hchain⟩ := List.append_of_mem hin
  have hnodup := h.nodup (home a)
  have hlinked := h.linked (home a)
  rw [hchain] at hnodup hlinked
  have herase : (chains (home a)).erase a = xs ++ ys := by
    rw [hchain, List.erase_append_right _ fun hx =>
      List.disjoint_of_nodup_append hnodup hx List.mem_cons_self, List.erase_cons_head]
  have hmem : ∀ c ∈ xs ++ a :: ys, home c = home a ∧ (es c).isSome := fun c hc =>
    h.mem (home a) c (by rwa [hchain])
  obtain ⟨-, hforth, hseg⟩ :=
    Side.bucket.seg_unlinked hlinked hnodup (fun c hc => (hmem c hc).2) ha
  have hnear := h.near ha hin
  rw [herase]
  refine h.replace (sameElements_unlinked es _ _) ⟨?_, ?_⟩
    (hnodup.sublist ((List.sublist_cons_self a ys).append_left xs))
    (fun c hc => hmem c (((List.sublist_cons_self a ys).append_left xs).subset hc)) hseg ?_
  · rw [hhead, (h.bucket _ b hb).1, hchain]
    cases xs with
    | nil => exact (if_pos rfl).trans hforth
    | cons z zs =>
        have hza : z ≠ a := by
          rintro rfl
          simp at hnodup
        simp [hza]
  · rw [hcount, (h.bucket _ b hb).2, hchain, List.length_append, List.length_cons,
      ← Nat.add_assoc, UInt32.ofNat_add, List.length_append]
    exact UInt32.add_sub_cancel _ 1
  · intro c hc
    exact ⟨(link_unlinked_forth Side.bucket (fun c hc => (hnear c (.inl hc)).2) c).trans
        (if_neg fun heq => hc (hnear c (.inl heq)).1),
      (link_unlinked_back Side.bucket (fun c hc => (hnear c (.inr hc)).2) c).trans
        (if_neg fun heq => hc (hnear c (.inr heq)).1)⟩

/-! ### Twice as many buckets -/

end Filed

/-! ### The shelves of a table -/

/-- The block at `p` is the one table, its array files the handles of `nodes`, and there is no
other array. -/
structure Shelves (h : HashHeap) (p : Addr) (tab : HashTbl) (nodes : Finset Addr) : Prop where
  tables : h.tables = Cells.only p tab
  pos : 0 < tab.numBuckets.toNat
  filed : ∃ q bs chains, tab.buckets = some q ∧ h.arrays = Cells.only q bs ∧
    bs.length = tab.numBuckets.toNat ∧
    Filed h.entries bs chains (home h.entries tab.numBuckets) ∧
    ∀ a, a ∈ nodes ↔ a ∈ chains (home h.entries tab.numBuckets a)

section Shelves

variable {h : HashHeap} {p : Addr} {tab : HashTbl} {nodes : Finset Addr} {rounds : ℕ} {g : Grants}

/-- What the buckets know of an entry. -/
def HashEntry.filing (e : HashEntry) : Option Addr × Option Addr × UInt32 :=
  (e.hh.hhPrev, e.hh.hhNext, e.hh.hashv)

/-- Changes that the buckets do not know of do not matter. -/
theorem Shelves.congr (hs : Shelves h p tab nodes) {h' : HashHeap} {tab' : HashTbl}
    (htables : h'.tables = Cells.only p tab') (harrays : h'.arrays = h.arrays)
    (hbuckets : tab'.buckets = tab.buckets) (hnum : tab'.numBuckets = tab.numBuckets)
    (hview : ∀ a ∈ nodes,
      (h'.entries a).map HashEntry.filing = (h.entries a).map HashEntry.filing) :
    Shelves h' p tab' nodes := by
  obtain ⟨q, bs, chains, hq, harr, hlength, hfiled, hnodes⟩ := hs.filed
  have hin : ∀ i, ∀ a ∈ chains i, a ∈ nodes := fun i a ha => by
    rwa [hnodes, (hfiled.mem i a ha).1]
  have hpart : ∀ {γ : Type} (f : Option Addr × Option Addr × UInt32 → γ), ∀ a ∈ nodes,
      (h'.entries a).map (fun e => f e.filing) = (h.entries a).map fun e => f e.filing := by
    intro γ f a ha
    have hmap := congrArg (Option.map f) (hview a ha)
    rwa [Option.map_map, Option.map_map] at hmap
  have hlink : ∀ {sel : HashHandle → Option Addr} (f : Option Addr × Option Addr × UInt32 → _),
      (∀ e : HashEntry, sel e.hh = f e.filing) → ∀ a ∈ nodes,
      link sel h'.entries a = link sel h.entries a := by
    intro sel f hf a ha
    have hmap := hpart f a ha
    simp only [link, hf]
    cases h₁ : h.entries a <;> cases h₂ : h'.entries a <;> simp_all
  have hhome : ∀ a ∈ nodes, home h'.entries tab.numBuckets a = home h.entries tab.numBuckets a := by
    intro a ha
    exact congrArg (Option.getD · 0) (hpart (fun v => toBkt v.2.2 tab.numBuckets) a ha)
  have hsome : ∀ a ∈ nodes, (h'.entries a).isSome = (h.entries a).isSome := by
    intro a ha
    have hmap := congrArg Option.isSome (hview a ha)
    rwa [Option.isSome_map, Option.isSome_map] at hmap
  refine ⟨htables, hnum ▸ hs.pos, q, bs, chains, hbuckets.trans hq, harrays.trans harr,
    hnum ▸ hlength, ⟨hfiled.bucket, fun i => ?_, hfiled.nodup, fun i a ha => ?_⟩, fun a => ?_⟩
  · exact (hfiled.linked i).congr (fun a ha => hlink (fun v => v.2.1) (fun _ => rfl) a (hin i a ha))
      fun a ha => hlink (fun v => v.1) (fun _ => rfl) a (hin i a ha)
  · rw [hnum, hhome a (hin i a ha), hsome a (hin i a ha)]
    exact hfiled.mem i a ha
  · rw [hnum]
    constructor
    · intro ha
      rw [hhome a ha]
      exact (hnodes a).mp ha
    · exact hin _ a

/-- A chain has no more handles than there are. -/
theorem Filed.length_le {es : Cells Addr HashEntry} {bs : List HashBucket}
    {chains : ℕ → List Addr} {home : Addr → ℕ} (hf : Filed es bs chains home)
    (hnodes : ∀ a, a ∈ nodes ↔ a ∈ chains (home a)) (i : ℕ) : (chains i).length ≤ nodes.card := by
  rw [← List.toFinset_card_of_nodup (hf.nodup i)]
  refine Finset.card_le_card fun a ha => ?_
  rw [List.mem_toFinset] at ha
  rw [hnodes, (hf.mem i a ha).1]
  exact ha

end Shelves

end KvEngine
