import KvEngine.Prog
import KvEngine.Machine
import Mathlib.Data.Fintype.Basic
import Mathlib.Logic.Function.Basic

/-! # Threads that share a state

Any number of threads, indexed by `ι`, run programs over the atomic actions of one shared
state.  A thread is idle or in the middle of a program.  `Threads.next` is one move of such a
system: an idle thread starts a program, or a thread performs the next action of its program,
or it returns.  Every list of moves is an interleaving.

A property of all interleavings is proved with a protocol.  A `Protocol` is what one thread
promises about the order of its actions: in the phase `q` it performs only actions that are
`ok q`, and when `a` was answered `r` it goes on in the phase `next q a r`.  `Prog.Follows`
says that a program keeps the promise, provided that its actions are only answered as
`answers` allows; it is proved once for each program, without looking at other threads.
`Threads.Tracked.next` then reduces an invariant of the shared state and of the phases of all
threads to the single actions. -/

namespace Atomic

variable {Act : Type} {Resp : Act → Type} {Q α β S ι C : Type}

/-! ### Protocols -/

/-- What a thread may do and may be told in each of its phases. -/
structure Protocol (Act : Type) (Resp : Act → Type) (Q : Type) where
  ok : Q → Act → Prop
  answers : Q → (a : Act) → Resp a → Prop
  next : Q → (a : Act) → Resp a → Q

namespace Prog

/-- The program keeps to the protocol from the phase `q` on; the phase in which it returns and
the value it returns satisfy `post`. -/
def Follows (P : Protocol Act Resp Q) (post : Q → α → Prop) : Prog Act Resp α → Q → Prop
  | ret a, q => post q a
  | act a k, q => P.ok q a ∧ ∀ r, P.answers q a r → Follows P post (k r) (P.next q a r)

variable {P : Protocol Act Resp Q} {post : Q → α → Prop}

@[simp] theorem follows_ret (a : α) (q : Q) : Follows P post (ret a) q ↔ post q a := Iff.rfl

@[simp] theorem follows_act (a : Act) (k : Resp a → Prog Act Resp α) (q : Q) :
    Follows P post (act a k) q ↔
      P.ok q a ∧ ∀ r, P.answers q a r → Follows P post (k r) (P.next q a r) := Iff.rfl

theorem Follows.mono {post' : Q → α → Prop} {p : Prog Act Resp α} {q : Q} (hp : Follows P post p q)
    (h : ∀ q a, post q a → post' q a) : Follows P post' p q := by
  induction p generalizing q with
  | ret a => exact h q a hp
  | act a k ih => exact ⟨hp.1, fun r hr => ih r (hp.2 r hr)⟩

/-- The rule of sequential composition. -/
theorem Follows.bind {post : Q → β → Prop} {mid : Q → α → Prop} {p : Prog Act Resp α}
    {f : α → Prog Act Resp β} {q : Q} (hp : Follows P mid p q)
    (hf : ∀ q a, mid q a → Follows P post (f a) q) : Follows P post (p >>= f) q := by
  induction p generalizing q with
  | ret a => exact hf q a hp
  | act a k ih => exact ⟨hp.1, fun r hr => ih r (hp.2 r hr)⟩

/-- A program whose actions are all allowed in the phase `q` and keep it returns in `q`. -/
theorem Performs.follows {R : Act → Prop} {p : Prog Act Resp α} (hp : Performs R p) {q : Q}
    (hR : ∀ a, R a → P.ok q a ∧ ∀ r, P.next q a r = q) :
    Follows P (fun q' _ => q' = q) p q := by
  induction p with
  | ret a => rfl
  | act a k ih =>
      refine ⟨(hR a hp.1).1, fun r _ => ?_⟩
      rw [(hR a hp.1).2 r]
      exact ih r (hp.2 r)

/-- A program whose actions are allowed in every phase. -/
theorem Performs.follows_of_ok {R : Act → Prop} {p : Prog Act Resp α} (hp : Performs R p)
    (hR : ∀ q a, R a → P.ok q a) (hpost : ∀ q a, post q a) (q : Q) : Follows P post p q := by
  induction p generalizing q with
  | ret a => exact hpost q a
  | act a k ih => exact ⟨hR q a hp.1, fun r _ => ih r (hp.2 r) _⟩

/-- A protocol that allows more actions and fewer answers is easier to follow. -/
theorem Follows.weaken {P' : Protocol Act Resp Q} {p : Prog Act Resp α} {q : Q}
    (hp : Follows P post p q) (hok : ∀ q a, P.ok q a → P'.ok q a)
    (hanswers : ∀ q a r, P'.answers q a r → P.answers q a r)
    (hnext : ∀ q a r, P'.next q a r = P.next q a r) : Follows P' post p q := by
  induction p generalizing q with
  | ret a => exact hp
  | act a k ih =>
      refine ⟨hok q a hp.1, fun r hr => ?_⟩
      rw [hnext]
      exact ih r (hp.2 r (hanswers q a r hr))

/-- What every allowed action keeps holds when the program returns. -/
theorem Follows.invariant {I : Q → Prop}
    (hI : ∀ q a r, I q → P.ok q a → P.answers q a r → I (P.next q a r)) {p : Prog Act Resp α}
    {q : Q} (hp : Follows P post p q) (hq : I q) : Follows P (fun q a => post q a ∧ I q) p q := by
  induction p generalizing q with
  | ret a => exact ⟨hp, hq⟩
  | act a k ih => exact ⟨hp.1, fun r hr => ih r (hp.2 r hr) (hI q a r hq hp.1 hr)⟩

/-- The action a program performs next. -/
def head? : Prog Act Resp α → Option Act
  | ret _ => none
  | act a _ => some a

@[simp] theorem head?_ret (a : α) : head? (ret a : Prog Act Resp α) = none := rfl
@[simp] theorem head?_act (a : Act) (k : Resp a → Prog Act Resp α) : head? (act a k) = some a := rfl

end Prog

/-! ### The system -/

/-- The shared state, and the program each thread is in the middle of. -/
structure Threads (ι Act : Type) (Resp : Act → Type) (α S : Type) where
  shared : S
  running : ι → Option (Prog Act Resp α)

/-- A thread starts the call `c`, or goes on with its program. -/
inductive Move (ι C : Type) where
  | invoke (i : ι) (c : C)
  | step (i : ι)

namespace Threads

variable [DecidableEq ι] (exec : Handler Act Resp S) (prog : C → Prog Act Resp α)

/-- One move; a program that has returned answers the move with its value.  A thread in the
middle of a call starts no other, and an idle thread has no step. -/
def next (σ : Threads ι Act Resp α S) : Move ι C → Option α × Threads ι Act Resp α S
  | .invoke i c =>
      match σ.running i with
      | none => (none, { σ with running := Function.update σ.running i (some (prog c)) })
      | some _ => (none, σ)
  | .step i =>
      match σ.running i with
      | none => (none, σ)
      | some (.ret a) => (some a, { σ with running := Function.update σ.running i none })
      | some (.act a k) =>
          (none, ⟨(exec a σ.shared).2,
            Function.update σ.running i (some (k (exec a σ.shared).1))⟩)

/-- No call is in progress. -/
def Quiescent (σ : Threads ι Act Resp α S) : Prop := ∀ i, σ.running i = none

instance [Fintype ι] (σ : Threads ι Act Resp α S) : Decidable σ.Quiescent :=
  inferInstanceAs (Decidable (∀ i, σ.running i = none))

/-- The action a thread performs next. -/
def nextAct (σ : Threads ι Act Resp α S) (i : ι) : Option Act := (σ.running i).bind Prog.head?

/-! ### Tracking the phases -/

variable {exec prog}

/-- A thread in the phase `q` is idle and at rest, or follows the protocol from `q` on. -/
def InPhase (P : Protocol Act Resp Q) (rest : Q) (q : Q) : Option (Prog Act Resp α) → Prop
  | none => q = rest
  | some p => p.Follows P (fun q _ => q = rest) q

/-- Every thread is in its phase. -/
def Tracked (P : Protocol Act Resp Q) (rest : Q) (σ : Threads ι Act Resp α S) (phase : ι → Q) :
    Prop := ∀ i, InPhase P rest (phase i) (σ.running i)

variable {P : Protocol Act Resp Q} {rest : Q} {σ : Threads ι Act Resp α S} {phase : ι → Q}

theorem Tracked.set (h : Tracked P rest σ phase) (i : ι) {q : Q}
    {r : Option (Prog Act Resp α)} (hr : InPhase P rest q r) (s : S) :
    Tracked P rest ⟨s, Function.update σ.running i r⟩ (Function.update phase i q) := by
  intro j
  by_cases hji : j = i
  · subst hji
    simpa using hr
  · simpa [Function.update_of_ne hji] using h j

/-- The rule for one move: if every action keeps the invariant and is answered as the protocol
says, and every call keeps to the protocol, then the move keeps both the invariant and the
tracking. -/
theorem Tracked.next {Inv : S → (ι → Q) → Prop} (h : Tracked P rest σ phase)
    (hinv : Inv σ.shared phase) (hprog : ∀ c, (prog c).Follows P (fun q _ => q = rest) rest)
    (m : Move ι C)
    (hact : ∀ i a k, m = .step i → σ.running i = some (.act a k) → P.ok (phase i) a →
      P.answers (phase i) a (exec a σ.shared).1 ∧
      Inv (exec a σ.shared).2
        (Function.update phase i (P.next (phase i) a (exec a σ.shared).1))) :
    ∃ phase', Tracked P rest (σ.next exec prog m).2 phase' ∧
      Inv (σ.next exec prog m).2.shared phase' := by
  cases m with
  | invoke i c =>
      have hi := h i
      cases hrun : σ.running i with
      | some p =>
          simp only [Threads.next, hrun]
          exact ⟨phase, h, hinv⟩
      | none =>
          rw [hrun] at hi
          simp only [Threads.next, hrun]
          have hstart : InPhase P rest (phase i) (some (prog c)) := by
            rw [show phase i = rest from hi]
            exact hprog c
          refine ⟨phase, ?_, hinv⟩
          simpa using h.set i hstart σ.shared
  | step i =>
      have hi := h i
      cases hrun : σ.running i with
      | none =>
          simp only [Threads.next, hrun]
          exact ⟨phase, h, hinv⟩
      | some p =>
          rw [hrun] at hi
          cases p with
          | ret a =>
              simp only [Threads.next, hrun]
              refine ⟨phase, ?_, hinv⟩
              have hend : InPhase P rest (phase i) (none : Option (Prog Act Resp α)) := hi
              simpa using h.set i hend σ.shared
          | act a k =>
              simp only [Threads.next, hrun]
              obtain ⟨hok, hk⟩ := hi
              obtain ⟨hans, hinv'⟩ := hact i a k rfl hrun hok
              have hnext : InPhase P rest _ (some (k (exec a σ.shared).1)) := hk _ hans
              exact ⟨_, h.set i hnext _, hinv'⟩

end Threads

/-! ### Numbered threads

Threads are often numbered by `Fin n`.  The proofs that a number and a comparison of numbers need
have names here, so that they are the same terms wherever a number is written. -/

instance neZero_one : @NeZero ℕ Zero.ofOfNat0 1 := ⟨Nat.one_ne_zero⟩

instance neZero_two : @NeZero ℕ Zero.ofOfNat0 2 := ⟨Nat.succ_ne_zero 1⟩

instance lawfulBEq_fin (n : ℕ) : LawfulBEq (Fin n) := inferInstance

/-! ### Condition variables

A condition variable is the list of the threads that are blocked on it and have not been
notified.  A thread that waits is appended; it can go on once it is no longer in the list. -/

/-- The threads blocked on a condition variable. -/
abbrev CondVar (ι : Type) := List ι

namespace CondVar

variable [DecidableEq ι]

/-- `pthread_cond_signal`: the thread `i` is notified if it is blocked, and otherwise the first
of the blocked threads. -/
def signal (i : ι) (blocked : CondVar ι) : CondVar ι :=
  if i ∈ blocked then blocked.erase i else blocked.tail

/-- `pthread_cond_broadcast`. -/
def broadcast (_ : CondVar ι) : CondVar ι := []

/-- A blocked thread wakes up without having been notified. -/
def spurious (i : ι) (blocked : CondVar ι) : CondVar ι := blocked.erase i

theorem signal_sublist (i : ι) (blocked : CondVar ι) : (blocked.signal i).Sublist blocked := by
  unfold signal
  split
  · exact List.erase_sublist
  · exact List.tail_sublist blocked

/-- A signal notifies one of the blocked threads, if there are any. -/
theorem exists_notified (i : ι) {blocked : CondVar ι} (hnodup : blocked.Nodup)
    (hne : blocked ≠ []) : ∃ j ∈ blocked, j ∉ blocked.signal i := by
  unfold signal
  split
  · rename_i hi
    exact ⟨i, hi, hnodup.not_mem_erase⟩
  · obtain ⟨j, rest, rfl⟩ := List.exists_cons_of_ne_nil hne
    exact ⟨j, List.mem_cons_self, (List.nodup_cons.mp hnodup).1⟩

end CondVar

end Atomic
