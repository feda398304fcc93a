import KvEngine.Threads
import Mathlib.Algebra.BigOperators.Group.Finset.Basic
import Mathlib.Algebra.Ring.Nat

/-! # Threads that keep a log

The threads of `Threads.lean` once more, with everything they do written down.  Each thread
makes one call after the other; between two calls it remembers the value the last one returned,
and its next program may depend on it.

* `Sessions.next` is one move: a thread starts a call, performs the next action of its program
  or returns.  The log has an entry for each of these, latest first, and an entry for an action
  holds the shared state before it, so that questions about the past of a run ("since when",
  "how often") are functions of the log.
* `Log.since`, `Log.own` and `Log.calls` are such functions.  A sum over all threads of what each
  has done in its call changes by the thread that moves (`Log.sum_own_acted`), and what is summed
  over the actions of a log belongs to calls that have returned or are in progress
  (`Booked.total_eq`).
* A `Discipline` is what each thread promises about its actions, depending on its phase, and the
  phase is read off the log (`Discipline.phase`).  `Sessions.Tracked.next` is the rule for one
  move: an invariant of the state and the log follows from what starting a call, a single action
  and a return do to it. -/

namespace Atomic

variable {ι C Act : Type} {Resp : Act → Type} {α S : Type} {Q : ι → Type}

/-! ### Logs -/

/-- An entry of the log. -/
inductive Note (ι C Act : Type) (Resp : Act → Type) (α S : Type) where
  | began (who : ι) (c : C)
  | acted (who : ι) (before : S) (a : Act) (answer : Resp a)
  | ended (who : ι) (c : C) (value : α)

/-- The entries so far, the latest first. -/
abbrev Log (ι C Act : Type) (Resp : Act → Type) (α S : Type) := List (Note ι C Act Resp α S)

/-- An action and its answer. -/
structure Event (Act : Type) (Resp : Act → Type) where
  act : Act
  answer : Resp act

/-- A call that has returned: its actions, the latest first, and its value. -/
structure Finished (C Act : Type) (Resp : Act → Type) (α : Type) where
  call : C
  events : List (Event Act Resp)
  value : α

namespace Log

/-- The entries after the latest one that satisfies `p`. -/
def since (p : Note ι C Act Resp α S → Bool) (log : Log ι C Act Resp α S) :
    Log ι C Act Resp α S := log.takeWhile fun e => !p e

theorem since_cons_pos {p : Note ι C Act Resp α S → Bool} {e : Note ι C Act Resp α S}
    (he : p e = true) (log : Log ι C Act Resp α S) : since p (e :: log) = [] := by
  simp [since, he]

theorem since_cons_neg {p : Note ι C Act Resp α S → Bool} {e : Note ι C Act Resp α S}
    (he : p e = false) (log : Log ι C Act Resp α S) :
    since p (e :: log) = e :: since p log := by
  simp [since, he]

/-- Every entry satisfies `P` together with the entries before it. -/
inductive Each (P : Note ι C Act Resp α S → Log ι C Act Resp α S → Prop) :
    Log ι C Act Resp α S → Prop where
  | nil : Each P []
  | cons {e : Note ι C Act Resp α S} {log : Log ι C Act Resp α S} (h : Each P log)
      (he : P e log) : Each P (e :: log)

theorem each_cons_iff {P : Note ι C Act Resp α S → Log ι C Act Resp α S → Prop}
    {e : Note ι C Act Resp α S} {log : Log ι C Act Resp α S} :
    Each P (e :: log) ↔ P e log ∧ Each P log := by
  constructor
  · intro h
    cases h with
    | cons h he => exact ⟨he, h⟩
  · intro h
    exact .cons h.2 h.1

theorem Each.of_mem {P : Note ι C Act Resp α S → Prop} {log : Log ι C Act Resp α S}
    (h : Each (fun e _ => P e) log) {e : Note ι C Act Resp α S} (he : e ∈ log) : P e := by
  induction h with
  | nil => cases he
  | cons _ hhead ih =>
      rcases List.mem_cons.mp he with rfl | hmem
      · exact hhead
      · exact ih hmem

instance Each.decidable {P : Note ι C Act Resp α S → Log ι C Act Resp α S → Prop}
    [∀ e log, Decidable (P e log)] : ∀ log, Decidable (Each P log)
  | [] => isTrue .nil
  | e :: log =>
      haveI := Each.decidable (P := P) log
      decidable_of_iff (P e log ∧ Each P log) each_cons_iff.symm

variable [DecidableEq ι]

/-- The call `who` is in. -/
def doing (who : ι) : Log ι C Act Resp α S → Option C
  | [] => none
  | .began i c :: log => if i = who then some c else doing who log
  | .acted _ _ _ _ :: log => doing who log
  | .ended i _ _ :: log => if i = who then none else doing who log

theorem began_of_doing {who : ι} {c : C} {log : Log ι C Act Resp α S}
    (h : doing who log = some c) : .began who c ∈ log := by
  induction log with
  | nil => cases h
  | cons e log ih =>
      cases e with
      | began i c' =>
          unfold doing at h
          split_ifs at h with hi
          · cases h
            subst hi
            exact List.mem_cons_self
          · exact List.mem_cons_of_mem _ (ih h)
      | acted i s a answer => exact List.mem_cons_of_mem _ (ih h)
      | ended i c' value =>
          unfold doing at h
          split_ifs at h with hi
          exact List.mem_cons_of_mem _ (ih h)

/-- The actions of `who` in the call it is in, the latest first. -/
def own (who : ι) : Log ι C Act Resp α S → List (Event Act Resp)
  | [] => []
  | .began i _ :: log => if i = who then [] else own who log
  | .acted i _ a answer :: log => if i = who then ⟨a, answer⟩ :: own who log else own who log
  | .ended i _ _ :: log => if i = who then [] else own who log

theorem own_acted_of_ne {i who : ι} (h : i ≠ who) (s : S) (a : Act) (answer : Resp a)
    (log : Log ι C Act Resp α S) : own who (.acted i s a answer :: log) = own who log := if_neg h

theorem own_acted_self (who : ι) (s : S) (a : Act) (answer : Resp a) (log : Log ι C Act Resp α S) :
    own who (.acted who s a answer :: log) = ⟨a, answer⟩ :: own who log := if_pos rfl

/-- A thread that begins a call has done nothing in it; for the others nothing changes. -/
theorem own_began (who i : ι) (c : C) (log : Log ι C Act Resp α S) :
    own who (.began i c :: log) = [] ∨
      own who (.began i c :: log) = own who log ∧ doing who (.began i c :: log) = doing who log := by
  by_cases hi : i = who
  · exact .inl (if_pos hi)
  · exact .inr ⟨if_neg hi, if_neg hi⟩

theorem own_ended (who i : ι) (c : C) (value : α) (log : Log ι C Act Resp α S) :
    own who (.ended i c value :: log) = [] ∨
      own who (.ended i c value :: log) = own who log ∧
        doing who (.ended i c value :: log) = doing who log := by
  by_cases hi : i = who
  · exact .inl (if_pos hi)
  · exact .inr ⟨if_neg hi, if_neg hi⟩

/-- The calls that have returned. -/
def calls : Log ι C Act Resp α S → List (Finished C Act Resp α)
  | [] => []
  | .ended i c value :: log => ⟨c, own i log, value⟩ :: calls log
  | .began _ _ :: log => calls log
  | .acted _ _ _ _ :: log => calls log

/-! ### Sums over the threads -/

section sums

/-- The sum of `w` over all actions. -/
def total (w : Event Act Resp → ℕ) : Log ι C Act Resp α S → ℕ
  | [] => 0
  | .acted _ _ a answer :: log => w ⟨a, answer⟩ + total w log
  | .began _ _ :: log => total w log
  | .ended _ _ _ :: log => total w log

variable [Fintype ι]

theorem sum_of_eq_of_ne (f f' : ι → ℕ) {i : ι} (h : ∀ j, j ≠ i → f' j = f j) :
    ∑ j, f' j + f i = ∑ j, f j + f' i := by
  have hrest : ∑ j ∈ Finset.univ.erase i, f' j = ∑ j ∈ Finset.univ.erase i, f j :=
    Finset.sum_congr rfl fun j hj => h j (Finset.ne_of_mem_erase hj)
  rw [← Finset.add_sum_erase _ f' (Finset.mem_univ i), ← Finset.add_sum_erase _ f (Finset.mem_univ i),
    hrest]
  omega

/-- An action changes the sum over the threads by the thread that performs it. -/
theorem sum_own_acted (g : List (Event Act Resp) → ℕ) (who : ι) (s : S) (a : Act)
    (answer : Resp a) (log : Log ι C Act Resp α S) :
    ∑ i, g (own i (.acted who s a answer :: log)) + g (own who log) =
      ∑ i, g (own i log) + g (⟨a, answer⟩ :: own who log) := by
  have h := sum_of_eq_of_ne (fun i => g (own i log))
    (fun i => g (own i (.acted who s a answer :: log)))
    fun j (hj : j ≠ who) => congrArg g (own_acted_of_ne hj.symm s a answer log)
  simp only [own_acted_self] at h
  exact h

theorem sum_own_began (g : List (Event Act Resp) → ℕ) (who : ι) (c : C)
    (log : Log ι C Act Resp α S) :
    ∑ i, g (own i (.began who c :: log)) + g (own who log) = ∑ i, g (own i log) + g [] := by
  have h := sum_of_eq_of_ne (fun i => g (own i log)) (fun i => g (own i (.began who c :: log)))
    fun j (hj : j ≠ who) => congrArg g (if_neg hj.symm)
  rw [show own who (.began who c :: log) = [] from if_pos rfl] at h
  exact h

theorem sum_own_ended (g : List (Event Act Resp) → ℕ) (who : ι) (c : C) (value : α)
    (log : Log ι C Act Resp α S) :
    ∑ i, g (own i (.ended who c value :: log)) + g (own who log) = ∑ i, g (own i log) + g [] := by
  have h := sum_of_eq_of_ne (fun i => g (own i log))
    (fun i => g (own i (.ended who c value :: log)))
    fun j (hj : j ≠ who) => congrArg g (if_neg hj.symm)
  rw [show own who (.ended who c value :: log) = [] from if_pos rfl] at h
  exact h

end sums

end Log

/-! ### The system -/

/-- A thread is idle, with the value its last call returned, or in the middle of a call. -/
inductive Session (C Act : Type) (Resp : Act → Type) (α : Type) where
  | idle (last : Option α)
  | busy (c : C) (p : Prog Act Resp α)

def Session.isIdle : Session C Act Resp α → Bool
  | .idle _ => true
  | .busy _ _ => false

/-- The call a thread is in. -/
def Session.call : Session C Act Resp α → Option C
  | .idle _ => none
  | .busy c _ => some c

/-- The shared state, the log and the threads. -/
structure Sessions (ι C Act : Type) (Resp : Act → Type) (α S : Type) where
  shared : S
  log : Log ι C Act Resp α S
  session : ι → Session C Act Resp α

namespace Sessions

/-- No thread has made a call. -/
def start (s : S) : Sessions ι C Act Resp α S := ⟨s, [], fun _ => .idle none⟩

/-- No call is in progress. -/
def Quiescent (σ : Sessions ι C Act Resp α S) : Prop := ∀ i, (σ.session i).isIdle = true

instance [Fintype ι] (σ : Sessions ι C Act Resp α S) : Decidable σ.Quiescent :=
  inferInstanceAs (Decidable (∀ i, (σ.session i).isIdle = true))

variable [DecidableEq ι] (exec : Handler Act Resp S)
  (prog : ι → C → Option α → Prog Act Resp α)

/-- One move; it is answered when a call returns. -/
def next (σ : Sessions ι C Act Resp α S) : Move ι C → Option α × Sessions ι C Act Resp α S
  | .invoke i c =>
      match σ.session i with
      | .busy _ _ => (none, σ)
      | .idle last => (none,
          { σ with
            log := .began i c :: σ.log
            session := Function.update σ.session i (.busy c (prog i c last)) })
  | .step i =>
      match σ.session i with
      | .idle _ => (none, σ)
      | .busy c (.ret value) => (some value,
          { σ with
            log := .ended i c value :: σ.log
            session := Function.update σ.session i (.idle (some value)) })
      | .busy c (.act a k) => (none,
          { shared := (exec a σ.shared).2
            log := .acted i σ.shared a (exec a σ.shared).1 :: σ.log
            session := Function.update σ.session i (.busy c (k (exec a σ.shared).1)) })

/-- What a move can be. -/
theorem next_cases {exec : Handler Act Resp S} {prog : ι → C → Option α → Prog Act Resp α}
    {σ : Sessions ι C Act Resp α S} (m : Move ι C) (P : Sessions ι C Act Resp α S → Prop)
    (hsame : P σ)
    (hbegan : ∀ i c last, m = .invoke i c → σ.session i = .idle last →
      P ⟨σ.shared, .began i c :: σ.log, Function.update σ.session i (.busy c (prog i c last))⟩)
    (hacted : ∀ i c a k, m = .step i → σ.session i = .busy c (.act a k) →
      P ⟨(exec a σ.shared).2, .acted i σ.shared a (exec a σ.shared).1 :: σ.log,
        Function.update σ.session i (.busy c (k (exec a σ.shared).1))⟩)
    (hended : ∀ i c value, m = .step i → σ.session i = .busy c (.ret value) →
      P ⟨σ.shared, .ended i c value :: σ.log,
        Function.update σ.session i (.idle (some value))⟩) : P (σ.next exec prog m).2 := by
  cases m with
  | invoke i c =>
      cases hsession : σ.session i with
      | busy c' p =>
          simp only [Sessions.next, hsession]
          exact hsame
      | idle last =>
          simp only [Sessions.next, hsession]
          exact hbegan i c last rfl hsession
  | step i =>
      cases hsession : σ.session i with
      | idle last =>
          simp only [Sessions.next, hsession]
          exact hsame
      | busy c p =>
          cases p with
          | ret value =>
              simp only [Sessions.next, hsession]
              exact hended i c value rfl hsession
          | act a k =>
              simp only [Sessions.next, hsession]
              exact hacted i c a k rfl hsession

/-- The action a thread performs next. -/
def nextAct (σ : Sessions ι C Act Resp α S) (i : ι) : Option Act :=
  match σ.session i with
  | .idle _ => none
  | .busy _ p => p.head?

end Sessions

/-! ### Tracking the phases -/

/-- What each thread promises: the phase it starts in, the phase in which a call starts, the
actions of a call and the answers it relies on, the phase after an answer, what a call has done
when it returns, the phase after that, and the phases in which the thread may be idle. -/
structure Discipline (ι C Act : Type) (Resp : Act → Type) (α : Type) (Q : ι → Type) where
  first : (i : ι) → Q i
  enter : (i : ι) → C → Q i → Q i
  ok : (i : ι) → C → Q i → Act → Prop
  answers : (i : ι) → Q i → (a : Act) → Resp a → Prop
  next : (i : ι) → Q i → (a : Act) → Resp a → Q i
  ends : (i : ι) → C → Q i → α → Prop
  leave : (i : ι) → Q i → Q i
  rests : (i : ι) → Option α → Q i → Prop

namespace Discipline

/-- The protocol of the call `c` of the thread `i`. -/
def protocol (Δ : Discipline ι C Act Resp α Q) (i : ι) (c : C) : Protocol Act Resp (Q i) where
  ok := Δ.ok i c
  answers := Δ.answers i
  next := Δ.next i

/-- Every call keeps to its protocol, and the thread is at rest when it has returned. -/
structure Lawful (Δ : Discipline ι C Act Resp α Q) (prog : ι → C → Option α → Prog Act Resp α) :
    Prop where
  starts : ∀ i, Δ.rests i none (Δ.first i)
  follows : ∀ i c last q, Δ.rests i last q →
    (prog i c last).Follows (Δ.protocol i c) (Δ.ends i c) (Δ.enter i c q)
  rests : ∀ i c q value, Δ.ends i c q value → Δ.rests i (some value) (Δ.leave i q)

variable [DecidableEq ι]

/-- The phase of a thread, from what the log says about it. -/
def phase (Δ : Discipline ι C Act Resp α Q) (i : ι) : Log ι C Act Resp α S → Q i
  | [] => Δ.first i
  | .began j c :: log => if j = i then Δ.enter i c (Δ.phase i log) else Δ.phase i log
  | .acted j _ a answer :: log =>
      if j = i then Δ.next i (Δ.phase i log) a answer else Δ.phase i log
  | .ended j _ _ :: log => if j = i then Δ.leave i (Δ.phase i log) else Δ.phase i log

end Discipline

namespace Sessions

variable [DecidableEq ι]

/-- The session is in the phase `q`. -/
def InPhase (Δ : Discipline ι C Act Resp α Q) (i : ι) (q : Q i) : Session C Act Resp α → Prop
  | .idle last => Δ.rests i last q
  | .busy c p => p.Follows (Δ.protocol i c) (Δ.ends i c) q

/-- Every thread is in the phase that the log tells. -/
def Tracked (Δ : Discipline ι C Act Resp α Q) (σ : Sessions ι C Act Resp α S) : Prop :=
  ∀ i, InPhase Δ i (Δ.phase i σ.log) (σ.session i)

variable {exec : Handler Act Resp S} {prog : ι → C → Option α → Prog Act Resp α}
  {Δ : Discipline ι C Act Resp α Q} {σ : Sessions ι C Act Resp α S}

theorem tracked_start (hΔ : Δ.Lawful prog) (s : S) : Tracked Δ (start s) := fun i => hΔ.starts i

theorem Tracked.busy (h : Tracked Δ σ) {i : ι} {c : C} {p : Prog Act Resp α}
    (hsession : σ.session i = .busy c p) :
    p.Follows (Δ.protocol i c) (Δ.ends i c) (Δ.phase i σ.log) := by
  have hi := h i
  rw [hsession] at hi
  exact hi

theorem Tracked.idle (h : Tracked Δ σ) {i : ι} {last : Option α}
    (hsession : σ.session i = .idle last) : Δ.rests i last (Δ.phase i σ.log) := by
  have hi := h i
  rw [hsession] at hi
  exact hi

/-- Only the thread that moves changes its session and its phase. -/
theorem Tracked.set (h : Tracked Δ σ) (i : ι) {x : Session C Act Resp α} (s : S)
    {log : Log ι C Act Resp α S} (hx : InPhase Δ i (Δ.phase i log) x)
    (hlog : ∀ j, j ≠ i → Δ.phase j log = Δ.phase j σ.log) :
    Tracked Δ ⟨s, log, Function.update σ.session i x⟩ := by
  intro j
  by_cases hji : j = i
  · subst hji
    simpa using hx
  · show InPhase Δ j (Δ.phase j log) (Function.update σ.session i x j)
    rw [Function.update_of_ne hji, hlog j hji]
    exact h j

/-- The log tells which call each thread is in. -/
def Logged (σ : Sessions ι C Act Resp α S) : Prop := ∀ i, σ.log.doing i = (σ.session i).call

theorem logged_start (s : S) : Logged (start s : Sessions ι C Act Resp α S) := fun _ => rfl

theorem Logged.busy (h : Logged σ) {i : ι} {c : C} {p : Prog Act Resp α}
    (hsession : σ.session i = .busy c p) : σ.log.doing i = some c := by
  rw [h i, hsession]
  rfl

theorem Logged.idle (h : Logged σ) {i : ι} {last : Option α}
    (hsession : σ.session i = .idle last) : σ.log.doing i = none := by
  rw [h i, hsession]
  rfl

theorem Logged.set (h : Logged σ) (i : ι) {x : Session C Act Resp α} (s : S)
    {log : Log ι C Act Resp α S} (hx : log.doing i = x.call)
    (hlog : ∀ j, j ≠ i → log.doing j = σ.log.doing j) :
    Logged ⟨s, log, Function.update σ.session i x⟩ := by
  intro j
  by_cases hji : j = i
  · subst hji
    simpa using hx
  · show log.doing j = (Function.update σ.session i x j).call
    rw [Function.update_of_ne hji, hlog j hji]
    exact h j

theorem Logged.next (h : Logged σ) (m : Move ι C) : Logged (σ.next exec prog m).2 := by
  refine next_cases m Logged h ?_ ?_ ?_
  · intro i c last _ _
    exact h.set i _ (if_pos rfl) fun j hj => if_neg hj.symm
  · intro i c a k _ hsession
    exact h.set i _ (h.busy hsession) fun j hj => rfl
  · intro i c value _ _
    exact h.set i _ (if_pos rfl) fun j hj => if_neg hj.symm

/-- The rule for one move. -/
theorem Tracked.next (Inv : S → Log ι C Act Resp α S → Prop) (hΔ : Δ.Lawful prog)
    (h : Tracked Δ σ) (hinv : Inv σ.shared σ.log) (m : Move ι C)
    (hbegan : ∀ i c last, m = .invoke i c → σ.session i = .idle last →
      Inv σ.shared (.began i c :: σ.log))
    (hacted : ∀ i c a k, m = .step i → σ.session i = .busy c (.act a k) →
      Δ.ok i c (Δ.phase i σ.log) a →
      Δ.answers i (Δ.phase i σ.log) a (exec a σ.shared).1 ∧
        Inv (exec a σ.shared).2 (.acted i σ.shared a (exec a σ.shared).1 :: σ.log))
    (hended : ∀ i c value, m = .step i → σ.session i = .busy c (.ret value) →
      Δ.ends i c (Δ.phase i σ.log) value → Inv σ.shared (.ended i c value :: σ.log)) :
    Tracked Δ (σ.next exec prog m).2 ∧
      Inv (σ.next exec prog m).2.shared (σ.next exec prog m).2.log := by
  refine next_cases m (fun τ => Tracked Δ τ ∧ Inv τ.shared τ.log) ⟨h, hinv⟩ ?_ ?_ ?_
  · intro i c last hm hsession
    refine ⟨h.set i _ ?_ fun j hj => if_neg hj.symm, hbegan i c last hm hsession⟩
    show InPhase Δ i (if i = i then _ else _) _
    rw [if_pos rfl]
    exact hΔ.follows i c last _ (h.idle hsession)
  · intro i c a k hm hsession
    obtain ⟨hok, hk⟩ := h.busy hsession
    obtain ⟨hanswers, hinv'⟩ := hacted i c a k hm hsession hok
    refine ⟨h.set i _ ?_ fun j hj => if_neg hj.symm, hinv'⟩
    show InPhase Δ i (if i = i then _ else _) _
    rw [if_pos rfl]
    exact hk _ hanswers
  · intro i c value hm hsession
    have hends := h.busy hsession
    refine ⟨h.set i _ ?_ fun j hj => if_neg hj.symm, hended i c value hm hsession hends⟩
    show InPhase Δ i (if i = i then _ else _) _
    rw [if_pos rfl]
    exact hΔ.rests i c _ value hends

/-! ### Booking the actions -/

section booking

variable [Fintype ι] {w : Event Act Resp → ℕ}

/-- Every action belongs to a call that has returned or to one in progress, and an idle thread has
none in progress. -/
structure Booked (w : Event Act Resp → ℕ) (σ : Sessions ι C Act Resp α S) : Prop where
  idle : ∀ i last, σ.session i = .idle last → σ.log.own i = []
  total_eq : σ.log.total w =
    ((σ.log.calls).map fun f => (f.events.map w).sum).sum + ∑ i, ((σ.log.own i).map w).sum

theorem booked_start (w : Event Act Resp → ℕ) (s : S) :
    Booked w (start s : Sessions ι C Act Resp α S) := by
  refine ⟨fun _ _ _ => rfl, ?_⟩
  simp [start, Log.total, Log.calls, Log.own]

theorem Booked.set_idle (h : Booked w σ) (i : ι) {x : Session C Act Resp α}
    {log : Log ι C Act Resp α S} (hx : ∀ last, x = .idle last → log.own i = [])
    (hlog : ∀ j, j ≠ i → log.own j = σ.log.own j) (j : ι) (last : Option α)
    (hj : Function.update σ.session i x j = .idle last) : log.own j = [] := by
  by_cases hji : j = i
  · subst hji
    rw [Function.update_self] at hj
    exact hx last hj
  · rw [Function.update_of_ne hji] at hj
    exact (hlog j hji).trans (h.idle j last hj)

theorem Booked.next (h : Booked w σ) (m : Move ι C) : Booked w (σ.next exec prog m).2 := by
  refine next_cases m (Booked w) h ?_ ?_ ?_
  · intro i c last _ hsession
    refine ⟨h.set_idle i (fun _ hx => by cases hx) fun j hj => if_neg hj.symm, ?_⟩
    have hsum := Log.sum_own_began (fun ev => (ev.map w).sum) i c σ.log
    have htotal := h.total_eq
    rw [h.idle i last hsession] at hsum
    simp only [List.map_nil, List.sum_nil] at hsum
    show σ.log.total w = (σ.log.calls.map _).sum +
      ∑ j, ((Log.own j (.began i c :: σ.log)).map w).sum
    omega
  · intro i c a k _ hsession
    refine ⟨h.set_idle i (fun _ hx => by cases hx) fun j hj => if_neg hj.symm, ?_⟩
    have hsum := Log.sum_own_acted (fun ev => (ev.map w).sum) i σ.shared a (exec a σ.shared).1 σ.log
    have htotal := h.total_eq
    simp only [List.map_cons, List.sum_cons] at hsum
    show w _ + σ.log.total w = (σ.log.calls.map _).sum +
      ∑ j, ((Log.own j (.acted i σ.shared a (exec a σ.shared).1 :: σ.log)).map w).sum
    omega
  · intro i c value _ hsession
    refine ⟨h.set_idle i (fun _ _ => if_pos rfl) fun j hj => if_neg hj.symm, ?_⟩
    have hsum := Log.sum_own_ended (fun ev => (ev.map w).sum) i c value σ.log
    have htotal := h.total_eq
    simp only [List.map_nil, List.sum_nil] at hsum
    show σ.log.total w = ((σ.log.own i).map w).sum + (σ.log.calls.map _).sum +
      ∑ j, ((Log.own j (.ended i c value :: σ.log)).map w).sum
    omega

/-- When no call is in progress, every action belongs to a call that has returned. -/
theorem Booked.quiescent (h : Booked w σ) (hσ : σ.Quiescent) :
    σ.log.total w = ((σ.log.calls).map fun f => (f.events.map w).sum).sum := by
  have hown : ∑ i, ((σ.log.own i).map w).sum = 0 := by
    refine Finset.sum_eq_zero fun i _ => ?_
    have hi := hσ i
    cases hsession : σ.session i with
    | idle last =>
        rw [h.idle i last hsession]
        rfl
    | busy c p =>
        rw [hsession] at hi
        cases hi
  rw [h.total_eq, hown, Nat.add_zero]

end booking

end Sessions

end Atomic
