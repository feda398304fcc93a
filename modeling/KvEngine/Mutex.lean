import KvEngine.AtomicObject

/-! # Sections under a mutex

Threads as in `Sessions.lean`, where some of the actions are not atomic any more: `body a` is the
sequence of single accesses that the action `a` stands for, performed between the lock and the
unlock of one mutex.  The other actions stay single accesses.  A thread that comes to a section
while another one holds the mutex waits: its moves do nothing.

`Mutex.Reducible` asks of the accesses that, run without interruption, they do what the action
does, and that they commute with the single accesses that other threads may perform in between.
Then the sections may be taken to be atomic: `Mutex.Simulates.after` turns every run into a run of
the threads of `Sessions.lean` in which an action with a section happens at the moment its thread
gets the mutex.  Clients see the same calls and returns, and the shared state is the same whenever
nobody is in a section. -/

namespace Atomic

variable {ι C Act : Type} {Resp : Act → Type} {α S Micro : Type} {MResp : Micro → Type}

/-! ### Accesses and actions that commute -/

/-- The action `a` and the access `m` may be swapped: neither answer depends on their order, and
neither does the state after both. -/
structure Commutes (exec : Handler Act Resp S) (micro : Handler Micro MResp S) (a : Act)
    (m : Micro) : Prop where
  action : ∀ s, (exec a (micro m s).2).1 = (exec a s).1
  access : ∀ s, (micro m (exec a s).2).1 = (micro m s).1
  state : ∀ s, (exec a (micro m s).2).2 = (micro m (exec a s).2).2

/-- An action that may be swapped with every access may be swapped with a run of accesses. -/
theorem Commutes.run {exec : Handler Act Resp S} {micro : Handler Micro MResp S} {a : Act}
    (h : ∀ m, Commutes exec micro a m) {β : Type} (b : Prog Micro MResp β) (s : S) :
    (exec a (b.run micro s).2).1 = (exec a s).1 ∧
      (b.run micro (exec a s).2).1 = (b.run micro s).1 ∧
      (exec a (b.run micro s).2).2 = (b.run micro (exec a s).2).2 := by
  induction b generalizing s with
  | ret v => exact ⟨rfl, rfl, rfl⟩
  | act m k ih =>
      obtain ⟨haction, haccess, hstate⟩ := ih (micro m s).1 (micro m s).2
      simp only [Prog.run_act, (h m).access, ← (h m).state]
      exact ⟨haction.trans ((h m).action s), haccess, hstate⟩

/-! ### The machine -/

/-- A thread is idle, in the middle of a call, or inside a section of it: the accesses that are
left, and how the call goes on. -/
inductive LockedSession (C Act : Type) (Resp : Act → Type) (α Micro : Type)
    (MResp : Micro → Type) where
  | idle (last : Option α)
  | busy (c : C) (p : Prog Act Resp α)
  | inside (c : C) (a : Act) (b : Prog Micro MResp (Resp a)) (k : Resp a → Prog Act Resp α)

/-- The shared state, the holder of the mutex, what has been seen of the calls (the latest first)
and the threads. -/
structure Mutex (ι C Act : Type) (Resp : Act → Type) (α S Micro : Type) (MResp : Micro → Type) where
  shared : S
  holder : Option ι
  seen : List (Occurrence ι C α)
  session : ι → LockedSession C Act Resp α Micro MResp

/-- The thread as it is when the section it is in has been over since it began. -/
def LockedSession.coarse (micro : Handler Micro MResp S) (s : S) :
    LockedSession C Act Resp α Micro MResp → Session C Act Resp α
  | .idle last => .idle last
  | .busy c p => .busy c p
  | .inside c _ b k => .busy c (k (b.run micro s).1)

/-- The shared state after the section that the thread is in. -/
def LockedSession.finish (micro : Handler Micro MResp S) (s : S) :
    LockedSession C Act Resp α Micro MResp → S
  | .inside _ _ b _ => (b.run micro s).2
  | _ => s

def LockedSession.isInside : LockedSession C Act Resp α Micro MResp → Bool
  | .inside _ _ _ _ => true
  | _ => false

/-- What is left of the call performs no actions but these. -/
def LockedSession.Performs (Q : Act → Prop) : LockedSession C Act Resp α Micro MResp → Prop
  | .idle _ => True
  | .busy _ p => p.Performs Q
  | .inside _ _ _ k => ∀ r, (k r).Performs Q

namespace Mutex

/-- No thread has made a call. -/
def start (s : S) : Mutex ι C Act Resp α S Micro MResp := ⟨s, none, [], fun _ => .idle none⟩

/-- The shared state after the section that is in progress. -/
def completed (micro : Handler Micro MResp S) (σ : Mutex ι C Act Resp α S Micro MResp) : S :=
  match σ.holder with
  | none => σ.shared
  | some i => (σ.session i).finish micro σ.shared

variable [DecidableEq ι] (exec : Handler Act Resp S) (micro : Handler Micro MResp S)
  (body : (a : Act) → Option (Prog Micro MResp (Resp a)))
  (prog : ι → C → Option α → Prog Act Resp α)

/-- One move: a thread starts a call, performs a single access, locks or unlocks the mutex, or
returns. -/
def next (σ : Mutex ι C Act Resp α S Micro MResp) :
    Move ι C → Option α × Mutex ι C Act Resp α S Micro MResp
  | .invoke i c =>
      match σ.session i with
      | .idle last => (none,
          { σ with
            seen := .call i c :: σ.seen
            session := Function.update σ.session i (.busy c (prog i c last)) })
      | _ => (none, σ)
  | .step i =>
      match σ.session i with
      | .idle _ => (none, σ)
      | .busy c (.ret value) => (some value,
          { σ with
            seen := .ret i c value :: σ.seen
            session := Function.update σ.session i (.idle (some value)) })
      | .busy c (.act a k) =>
          match body a, σ.holder with
          | none, _ => (none,
              { σ with
                shared := (exec a σ.shared).2
                session := Function.update σ.session i (.busy c (k (exec a σ.shared).1)) })
          | some b, none => (none,
              { σ with
                holder := some i
                session := Function.update σ.session i (.inside c a b k) })
          | some _, some _ => (none, σ)
      | .inside c a (.act m kb) k => (none,
          { σ with
            shared := (micro m σ.shared).2
            session := Function.update σ.session i (.inside c a (kb (micro m σ.shared).1) k) })
      | .inside c _ (.ret r) k => (none,
          { σ with
            holder := none
            session := Function.update σ.session i (.busy c (k r)) })

/-! ### The reduction -/

/-- What makes a section atomic: its accesses do what the action does, and the single accesses of
the programs commute with them. -/
structure Reducible (single : Act → Prop) : Prop where
  section_eq : ∀ a b, body a = some b → ∀ s, exec a s = b.run micro s
  commutes : ∀ a, single a → body a = none → ∀ m, Commutes exec micro a m

/-- The threads of `Sessions.lean` in which the section in progress is over. -/
structure Simulates (single : Act → Prop) (σ : Mutex ι C Act Resp α S Micro MResp)
    (τ : Sessions ι C Act Resp α S) : Prop where
  shared : τ.shared = σ.completed micro
  session : ∀ i, τ.session i = (σ.session i).coarse micro σ.shared
  holder : ∀ i, (σ.session i).isInside = true ↔ σ.holder = some i
  seen : τ.log.occurrences (fun _ c => some c) some = σ.seen
  performs : ∀ i, (σ.session i).Performs single

variable {exec micro body prog} {single : Act → Prop} {σ : Mutex ι C Act Resp α S Micro MResp}
  {τ : Sessions ι C Act Resp α S}

omit [DecidableEq ι] in
theorem simulates_start (s : S) :
    Simulates micro single (start s : Mutex ι C Act Resp α S Micro MResp) (Sessions.start s) where
  shared := rfl
  session _ := rfl
  holder _ := by simp [start, LockedSession.isInside]
  seen := rfl
  performs _ := trivial

omit [DecidableEq ι] in
/-- When nobody holds the mutex, the shared state is the one that the coarse threads have. -/
theorem Simulates.shared_eq (h : Simulates micro single σ τ) (hfree : σ.holder = none) :
    τ.shared = σ.shared := by
  rw [h.shared, completed, hfree]

/-- A thread outside of the sections moves, and the shared state is the same or changes by an
action that commutes with the accesses. -/
theorem Simulates.set (h : Simulates micro single σ τ) {i : ι}
    (hi : (σ.session i).isInside = false) {x : LockedSession C Act Resp α Micro MResp}
    (hx : x.isInside = false) (hperforms : x.Performs single) {s s' : S}
    {seen : List (Occurrence ι C α)} {log : Log ι C Act Resp α S}
    (hseen : log.occurrences (fun _ c => some c) some = seen)
    (hrun : ∀ j c a b k, σ.session j = .inside c a b k →
      (b.run micro s).1 = (b.run micro σ.shared).1 ∧ s' = (b.run micro s).2)
    (hfree : σ.holder = none → s' = s) :
    Simulates micro single ⟨s, σ.holder, seen, Function.update σ.session i x⟩
      ⟨s', log, Function.update τ.session i (x.coarse micro s)⟩ := by
  have hne : σ.holder ≠ some i := fun hh => by
    rw [(h.holder i).mpr hh] at hi
    cases hi
  refine ⟨?_, fun j => ?_, fun j => ?_, hseen, fun j => ?_⟩
  · cases hholder : σ.holder with
    | none => exact hfree hholder
    | some j =>
        have hji : j ≠ i := fun hji => hne (hji ▸ hholder)
        have hin := (h.holder j).mpr hholder
        show s' = (Function.update σ.session i x j).finish micro s
        rw [Function.update_of_ne hji]
        cases hj : σ.session j with
        | inside c a b k => exact (hrun j c a b k hj).2
        | idle last => rw [hj] at hin; cases hin
        | busy c p => rw [hj] at hin; cases hin
  · by_cases hj : j = i
    · subst hj
      simp
    · simp only [Function.update_of_ne hj]
      rw [h.session j]
      cases hsession : σ.session j with
      | idle last => rfl
      | busy c p => rfl
      | inside c a b k =>
          simp only [LockedSession.coarse, (hrun j c a b k hsession).1]
  · by_cases hj : j = i
    · subst hj
      simp only [Function.update_self, hx]
      exact ⟨fun hf => absurd hf Bool.false_ne_true, fun hh => absurd hh hne⟩
    · simp only [Function.update_of_ne hj]
      exact h.holder j
  · by_cases hj : j = i
    · subst hj
      simp only [Function.update_self]
      exact hperforms
    · simp only [Function.update_of_ne hj]
      exact h.performs j

/-- A thread locks the mutex, holds it or unlocks it, and nobody else is in a section. -/
theorem Simulates.hold (h : Simulates micro single σ τ) {i : ι}
    (hothers : ∀ j, j ≠ i → (σ.session j).isInside = false)
    {x : LockedSession C Act Resp α Micro MResp} (hperforms : x.Performs single) {s : S}
    {holder : Option ι} (hholder : holder = if x.isInside then some i else none)
    {τ' : Sessions ι C Act Resp α S} (hshared : τ'.shared = x.finish micro s)
    (hself : τ'.session i = x.coarse micro s) (hrest : ∀ j, j ≠ i → τ'.session j = τ.session j)
    (hseen : τ'.log.occurrences (fun _ c => some c) some = σ.seen) :
    Simulates micro single ⟨s, holder, σ.seen, Function.update σ.session i x⟩ τ' := by
  refine ⟨?_, fun j => ?_, fun j => ?_, hseen, fun j => ?_⟩
  · rw [hshared, completed, hholder]
    cases hx : x.isInside with
    | true => simp
    | false =>
        cases x with
        | inside c a b k => cases hx
        | idle last => rfl
        | busy c p => rfl
  · by_cases hj : j = i
    · subst hj
      simpa using hself
    · simp only [Function.update_of_ne hj]
      rw [hrest j hj, h.session j]
      have hout := hothers j hj
      cases hsession : σ.session j with
      | idle last => rfl
      | busy c p => rfl
      | inside c a b k =>
          rw [hsession] at hout
          cases hout
  · rw [hholder]
    by_cases hj : j = i
    · subst hj
      cases hx : x.isInside <;> simp [hx]
    · simp only [Function.update_of_ne hj, hothers j hj]
      cases x.isInside <;> simp [Ne.symm hj]
  · by_cases hj : j = i
    · subst hj
      simp only [Function.update_self]
      exact hperforms
    · simp only [Function.update_of_ne hj]
      exact h.performs j

omit [DecidableEq ι] in
/-- Nobody else is in a section when the mutex is free or held by `i`. -/
theorem Simulates.others (h : Simulates micro single σ τ) {i : ι}
    (hi : σ.holder = none ∨ σ.holder = some i) (j : ι) (hj : j ≠ i) :
    (σ.session j).isInside = false := by
  cases hin : (σ.session j).isInside with
  | false => rfl
  | true =>
      have hheld := (h.holder j).mp hin
      rw [hheld] at hi
      rcases hi with hi | hi
      · cases hi
      · exact absurd (Option.some.inj hi) hj

omit [DecidableEq ι] in
/-- The coarse threads have the state in which the section that is in progress is over. -/
theorem Simulates.shared_inside (h : Simulates micro single σ τ) {j : ι} {c : C} {a : Act}
    {b : Prog Micro MResp (Resp a)} {k : Resp a → Prog Act Resp α}
    (hj : σ.session j = .inside c a b k) : τ.shared = (b.run micro σ.shared).2 := by
  have hholder : σ.holder = some j := (h.holder j).mp (by rw [hj]; rfl)
  rw [h.shared, completed, hholder]
  simp only [hj, LockedSession.finish]

omit [DecidableEq ι] in
/-- A single access gives the same answer whether or not the section in progress is over. -/
theorem Simulates.answer_eq (h : Simulates micro single σ τ) {a : Act}
    (ha : ∀ m, Commutes exec micro a m) : (exec a τ.shared).1 = (exec a σ.shared).1 := by
  cases hholder : σ.holder with
  | none => rw [h.shared_eq hholder]
  | some j =>
      have hin := (h.holder j).mpr hholder
      cases hj : σ.session j with
      | inside c a' b k =>
          rw [h.shared_inside hj]
          exact (Commutes.run ha b σ.shared).1
      | idle last => rw [hj] at hin; cases hin
      | busy c p => rw [hj] at hin; cases hin

/-- A step of a thread that is not in a section. -/
theorem Simulates.step_busy (hred : Reducible exec micro body single)
    (h : Simulates micro single σ τ) {i : ι} {c : C} {p : Prog Act Resp α}
    (hi : σ.session i = .busy c p) : ∃ ms : List (Move ι C),
      Simulates micro single (σ.next exec micro body prog (.step i)).2
        (Machine.after (Sessions.next exec prog) τ ms) := by
  have hτ : τ.session i = .busy c p := by rw [h.session i, hi]; rfl
  have hout : (σ.session i).isInside = false := by rw [hi]; rfl
  have hperforms := h.performs i
  rw [hi] at hperforms
  cases p with
  | ret value =>
      refine ⟨[.step i], ?_⟩
      simp only [Mutex.next, hi, Machine.after, Sessions.next, hτ]
      refine h.set hout (x := .idle (some value)) rfl trivial ?_
        (fun j c' a b k hj => ⟨rfl, h.shared_inside hj⟩) h.shared_eq
      simp only [Log.occurrences, h.seen]
  | act a k =>
      obtain ⟨hsingle, hk⟩ := hperforms
      cases hbody : body a with
      | none =>
          have hcomm := hred.commutes a hsingle hbody
          refine ⟨[.step i], ?_⟩
          simp only [Mutex.next, hi, hbody, Machine.after, Sessions.next, hτ, h.answer_eq hcomm]
          refine h.set hout (x := .busy c (k (exec a σ.shared).1)) rfl (hk _) h.seen
            (fun j c' a' b k' hj => ?_) fun hfree => by rw [h.shared_eq hfree]
          obtain ⟨-, haccess, hstate⟩ := Commutes.run hcomm b σ.shared
          rw [h.shared_inside hj]
          exact ⟨haccess, hstate⟩
      | some b =>
          cases hholder : σ.holder with
          | some j =>
              refine ⟨[], ?_⟩
              simp only [Mutex.next, hi, hbody, hholder]
              exact h
          | none =>
              have heq := hred.section_eq a b hbody σ.shared
              refine ⟨[.step i], ?_⟩
              simp only [Mutex.next, hi, hbody, hholder, Machine.after, Sessions.next, hτ,
                h.shared_eq hholder]
              refine h.hold (h.others (.inl hholder)) (x := .inside c a b k) hk rfl ?_ ?_ ?_ h.seen
              · exact congrArg Prod.snd heq
              · simp only [Function.update_self, heq]
                rfl
              · exact fun j hj => Function.update_of_ne hj ..

/-- A step of the thread that is in a section is none of the coarse threads. -/
theorem Simulates.step_inside (h : Simulates micro single σ τ) {i : ι} {c : C} {a : Act}
    {b : Prog Micro MResp (Resp a)} {k : Resp a → Prog Act Resp α}
    (hi : σ.session i = .inside c a b k) :
    Simulates micro single (σ.next exec micro body prog (.step i)).2 τ := by
  have hholder : σ.holder = some i := (h.holder i).mp (by rw [hi]; rfl)
  have hperforms := h.performs i
  have hτ := h.session i
  have hshared := h.shared_inside hi
  rw [hi] at hperforms hτ
  cases b with
  | ret r =>
      simp only [Mutex.next, hi]
      exact h.hold (h.others (.inr hholder)) (x := .busy c (k r)) (hperforms r) rfl hshared hτ
        (fun _ _ => rfl) h.seen
  | act m kb =>
      simp only [Mutex.next, hi, hholder]
      exact h.hold (h.others (.inr hholder)) (x := .inside c a (kb (micro m σ.shared).1) k)
        hperforms rfl hshared hτ (fun _ _ => rfl) h.seen

/-- Every move is a move of the coarse threads, or none. -/
theorem Simulates.next (hred : Reducible exec micro body single)
    (hprog : ∀ i c last, (prog i c last).Performs single) (h : Simulates micro single σ τ)
    (m : Move ι C) : ∃ ms : List (Move ι C),
      Simulates micro single (σ.next exec micro body prog m).2
        (Machine.after (Sessions.next exec prog) τ ms) := by
  cases m with
  | invoke i c =>
      cases hi : σ.session i with
      | busy c' p =>
          refine ⟨[], ?_⟩
          simp only [Mutex.next, hi]
          exact h
      | inside c' a b k =>
          refine ⟨[], ?_⟩
          simp only [Mutex.next, hi]
          exact h
      | idle last =>
          have hτ : τ.session i = .idle last := by rw [h.session i, hi]; rfl
          refine ⟨[.invoke i c], ?_⟩
          simp only [Mutex.next, hi, Machine.after, Sessions.next, hτ]
          refine h.set (by rw [hi]; rfl) (x := .busy c (prog i c last)) rfl (hprog i c last) ?_
            (fun j c' a b k hj => ⟨rfl, h.shared_inside hj⟩) h.shared_eq
          simp only [Log.occurrences, h.seen]
  | step i =>
      cases hi : σ.session i with
      | idle last =>
          refine ⟨[], ?_⟩
          simp only [Mutex.next, hi]
          exact h
      | busy c p => exact h.step_busy hred hi
      | inside c a b k => exact ⟨[], h.step_inside hi⟩

/-- Every run is a run of the coarse threads, with the same calls and returns. -/
theorem Simulates.after (hred : Reducible exec micro body single)
    (hprog : ∀ i c last, (prog i c last).Performs single) (h : Simulates micro single σ τ)
    (ms : List (Move ι C)) : ∃ ms' : List (Move ι C),
      Simulates micro single (Machine.after (Mutex.next exec micro body prog) σ ms)
        (Machine.after (Sessions.next exec prog) τ ms') := by
  induction ms generalizing σ τ with
  | nil => exact ⟨[], h⟩
  | cons m ms ih =>
      obtain ⟨ms₁, h₁⟩ := h.next hred hprog m
      obtain ⟨ms₂, h₂⟩ := ih h₁
      refine ⟨ms₁ ++ ms₂, ?_⟩
      rw [Machine.after_append]
      exact h₂

end Mutex

/-! ### The operations of an object -/

section select

variable {O V : Type} (op : ι → C → Option O) (answer : α → Option V)

/-- A call or return as one of the operation it stands for. -/
def Occurrence.select : Occurrence ι C α → Option (Occurrence ι O V)
  | .call i c => (op i c).map (.call i)
  | .ret i c value => (op i c).bind fun o => (answer value).map (.ret i o)

/-- What is seen of the operations is what is seen of all calls, as far as it concerns them. -/
theorem Log.occurrences_eq_filterMap (log : Log ι C Act Resp α S) :
    log.occurrences op answer =
      (log.occurrences (fun _ c => some c) some).filterMap (Occurrence.select op answer) := by
  induction log with
  | nil => rfl
  | cons e log ih =>
      cases e with
      | acted i s a r => exact ih
      | began i c =>
          simp only [Log.occurrences, ih]
          cases hop : op i c <;> simp [Occurrence.select, hop]
      | ended i c value =>
          simp only [Log.occurrences, ih]
          cases hop : op i c <;> cases hanswer : answer value <;>
            simp [Occurrence.select, hop, hanswer]

end select

end Atomic
