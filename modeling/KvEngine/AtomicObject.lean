import KvEngine.Sessions

/-! # Atomic objects

An object with states of type `M` is specified by a relation: `spec m o v m'` says that in the
state `m` the operation `o` may answer `v` and leave `m'`.  Clients see when an operation is called
and when it returns (`Occurrence`).  `AtomicRun spec m₀` are the runs of the object itself: between
its call and its return an operation takes effect at one moment, as `spec` says.  A history of
calls and returns is `Linearizable` if it is the history of such a run.

`Sessions.simulates` is the rule for the threads of `Sessions.lean`.  The shared state is read as
a state of the object, and each call of a thread keeps to a protocol whose phase tells whether the
operation has taken effect and what it answers then.  A history is linearizable if a single action
either leaves the object and the phase alone, or is the moment at which the operation takes effect.

`AtomicRun.owned` is about a part of the object that only one client uses: this client's operations
on it are a run of its own. -/

namespace Atomic

variable {ι O V M : Type}

/-- What is seen of an operation. -/
inductive Occurrence (ι O V : Type) where
  | call (who : ι) (o : O)
  | ret (who : ι) (o : O) (v : V)
deriving DecidableEq

/-- Where a client is with its operation. -/
inductive Status (O V : Type) where
  | idle
  | called (o : O)
  | answered (o : O) (v : V)

section runs

variable [DecidableEq ι] (spec : M → O → V → M → Prop) (m₀ : M)

/-- The runs of the object, with what has been seen of them (the latest first), the state of the
object and the status of each client. -/
inductive AtomicRun : List (Occurrence ι O V) → M → (ι → Status O V) → Prop where
  | start : AtomicRun [] m₀ fun _ => .idle
  | call {seen : List (Occurrence ι O V)} {m : M} {status : ι → Status O V} {who : ι} (o : O)
      (h : AtomicRun seen m status) (hwho : status who = .idle) :
      AtomicRun (.call who o :: seen) m (Function.update status who (.called o))
  | effect {seen : List (Occurrence ι O V)} {m m' : M} {status : ι → Status O V} {who : ι} {o : O}
      {v : V} (h : AtomicRun seen m status) (hwho : status who = .called o)
      (hspec : spec m o v m') : AtomicRun seen m' (Function.update status who (.answered o v))
  | ret {seen : List (Occurrence ι O V)} {m : M} {status : ι → Status O V} {who : ι} {o : O} {v : V}
      (h : AtomicRun seen m status) (hwho : status who = .answered o v) :
      AtomicRun (.ret who o v :: seen) m (Function.update status who .idle)

/-- The history is one of the object, and leaves it in the state `m`. -/
def Linearizable (seen : List (Occurrence ι O V)) (m : M) : Prop :=
  ∃ status, AtomicRun spec m₀ seen m status

/-- The operations, the latest first, can be answered so one after the other. -/
inductive Sequential : List (O × V) → M → Prop where
  | nil : Sequential [] m₀
  | cons {done : List (O × V)} {m m' : M} {o : O} {v : V} (h : Sequential done m)
      (hspec : spec m o v m') : Sequential ((o, v) :: done) m'

end runs

/-- What the operations keep holds of the object, and what they answer then has been answered. -/
theorem AtomicRun.answers [DecidableEq ι] {spec : M → O → V → M → Prop} {m₀ m : M}
    {seen : List (Occurrence ι O V)} {status : ι → Status O V} (Inv : M → Prop) (Ok : O → V → Prop)
    (hspec : ∀ m o v m', Inv m → spec m o v m' → Inv m' ∧ Ok o v) (h₀ : Inv m₀)
    (h : AtomicRun spec m₀ seen m status) :
    Inv m ∧ (∀ i o v, status i = .answered o v → Ok o v) ∧
      ∀ i o v, .ret i o v ∈ seen → Ok o v := by
  have hset {status : ι → Status O V} {who : ι} {x : Status O V}
      (hall : ∀ i o v, status i = .answered o v → Ok o v)
      (hx : ∀ o v, x = .answered o v → Ok o v) (i : ι) (o : O) (v : V)
      (hi : Function.update status who x i = .answered o v) : Ok o v := by
    by_cases hwho : i = who
    · subst hwho
      rw [Function.update_self] at hi
      exact hx o v hi
    · rw [Function.update_of_ne hwho] at hi
      exact hall i o v hi
  induction h with
  | start =>
      refine ⟨h₀, fun i o v hi => ?_, fun i o v hmem => ?_⟩
      · cases hi
      · cases hmem
  | call o _ _ ih =>
      obtain ⟨hm, hstatus, hret⟩ := ih
      refine ⟨hm, hset hstatus fun o v hx => ?_, fun i o v hmem => ?_⟩
      · cases hx
      · rcases List.mem_cons.mp hmem with heq | hmem
        · cases heq
        · exact hret i o v hmem
  | effect _ _ hs ih =>
      obtain ⟨hm, hstatus, hret⟩ := ih
      obtain ⟨hm', hok⟩ := hspec _ _ _ _ hm hs
      refine ⟨hm', hset hstatus fun o v hx => ?_, hret⟩
      cases hx
      exact hok
  | ret _ hwho ih =>
      obtain ⟨hm, hstatus, hret⟩ := ih
      refine ⟨hm, hset hstatus fun o v hx => ?_, fun i o v hmem => ?_⟩
      · cases hx
      · rcases List.mem_cons.mp hmem with heq | hmem
        · cases heq
          exact hstatus _ _ _ hwho
        · exact hret i o v hmem

/-! ### A part of the object with one client -/

section owned

variable [DecidableEq ι]

/-- The operations in `mine` that have returned to `who`, the latest first. -/
def returnedTo (who : ι) (mine : O → Bool) : List (Occurrence ι O V) → List (O × V)
  | [] => []
  | .call _ _ :: seen => returnedTo who mine seen
  | .ret i o v :: seen =>
      if i = who ∧ mine o = true then (o, v) :: returnedTo who mine seen
      else returnedTo who mine seen

/-- The client is in an operation. -/
def Status.Names (o : O) : Status O V → Prop
  | .idle => False
  | .called o' => o' = o
  | .answered o' _ => o' = o

theorem Status.names_update {status : ι → Status O V} {i j : ι} {y : Status O V} {o : O}
    (h : (Function.update status i y j).Names o) : j = i ∧ y.Names o ∨ (status j).Names o := by
  by_cases hj : j = i
  · subst hj
    rw [Function.update_self] at h
    exact .inl ⟨rfl, h⟩
  · rw [Function.update_of_ne hj] at h
    exact .inr h

/-- A client in an operation has called it. -/
theorem AtomicRun.called {spec : M → O → V → M → Prop} {m₀ m : M}
    {seen : List (Occurrence ι O V)} {status : ι → Status O V}
    (h : AtomicRun spec m₀ seen m status) {i : ι} {o : O} (hi : (status i).Names o) :
    .call i o ∈ seen := by
  induction h with
  | start => exact hi.elim
  | call o' _ _ ih =>
      rcases Status.names_update hi with ⟨rfl, rfl⟩ | hi
      · exact List.mem_cons_self
      · exact List.mem_cons_of_mem _ (ih hi)
  | effect _ hwho _ ih =>
      rcases Status.names_update hi with ⟨rfl, rfl⟩ | hi
      · refine ih ?_
        rw [hwho]
        rfl
      · exact ih hi
  | ret _ _ ih =>
      rcases Status.names_update hi with ⟨_, hidle⟩ | hi
      · exact hidle.elim
      · exact List.mem_cons_of_mem _ (ih hi)

variable {spec : M → O → V → M → Prop} {m₀ m : M} {seen : List (Occurrence ι O V)}
  {status : ι → Status O V} {who : ι} {mine : O → Bool} {part : M → M}

/-- What the client `who` has done to its part of the object, where `k₀` is the part at first and
`k` the part now: its operations that have returned are answered one after the other, and one that
has taken effect comes next. -/
def Owned (spec : M → O → V → M → Prop) (mine : O → Bool) (k₀ : M) (done : List (O × V)) (k : M) :
    Status O V → Prop
  | .answered o v =>
      if mine o = true then ∃ k', Sequential spec k₀ done k' ∧ spec k' o v k
      else Sequential spec k₀ done k
  | _ => Sequential spec k₀ done k

/-- A client that alone uses a part of the object is answered there as if it were alone. -/
theorem AtomicRun.owned (h : AtomicRun spec m₀ seen m status)
    (hothers : ∀ m o v m', spec m o v m' → mine o = false → part m' = part m)
    (hmine : ∀ m o v m', spec m o v m' → mine o = true → spec (part m) o v (part m'))
    (honly : ∀ i o, .call i o ∈ seen → mine o = true → i = who) :
    Owned spec mine (part m₀) (returnedTo who mine seen) (part m) (status who) := by
  induction h with
  | start => exact .nil
  | @call seen m status i o h hi ih =>
      have hprev := ih fun i o hmem => honly i o (List.mem_cons_of_mem _ hmem)
      by_cases hwho : who = i
      · subst hwho
        rw [hi] at hprev
        rw [Function.update_self]
        exact hprev
      · rw [Function.update_of_ne hwho]
        exact hprev
  | @effect seen m m' status i o v h hi hspec ih =>
      have hprev := ih honly
      have hcalled : .call i o ∈ seen := h.called (by rw [hi]; rfl)
      cases ho : mine o with
      | true =>
          obtain rfl : i = who := honly i o hcalled ho
          rw [hi] at hprev
          rw [Function.update_self, Owned, if_pos ho]
          exact ⟨_, hprev, hmine _ _ _ _ hspec ho⟩
      | false =>
          rw [hothers _ _ _ _ hspec ho]
          by_cases hwho : who = i
          · subst hwho
            rw [hi] at hprev
            rw [Function.update_self, Owned, if_neg (by simp [ho])]
            exact hprev
          · rw [Function.update_of_ne hwho]
            exact hprev
  | @ret seen m status i o v h hi ih =>
      have hprev := ih fun i o hmem => honly i o (List.mem_cons_of_mem _ hmem)
      by_cases hwho : who = i
      · subst hwho
        rw [hi] at hprev
        rw [Function.update_self]
        simp only [Owned] at hprev
        simp only [returnedTo, Owned, true_and]
        split at hprev
        · rename_i ho
          obtain ⟨k', hdone, hlast⟩ := hprev
          rw [if_pos ho]
          exact hdone.cons hlast
        · rename_i ho
          rw [if_neg ho]
          exact hprev
      · have hother : ¬ (i = who ∧ mine o = true) := fun h => hwho h.1.symm
        rw [Function.update_of_ne hwho, returnedTo, if_neg hother]
        exact hprev

theorem Owned.sequential {k₀ k : M} {done : List (O × V)} {x : Status O V}
    (h : Owned spec mine k₀ done k x) : ∃ k', Sequential spec k₀ done k' := by
  cases x with
  | idle => exact ⟨k, h⟩
  | called o => exact ⟨k, h⟩
  | answered o v =>
      simp only [Owned] at h
      split at h
      · obtain ⟨k', hdone, _⟩ := h
        exact ⟨k', hdone⟩
      · exact ⟨k, h⟩

end owned

/-! ### Protocols with foresight -/

section transfer

variable {Act : Type} {Resp : Act → Type} {α Q Q' : Type}

/-- What a program performs and returns in any case can be added to the protocol. -/
theorem Prog.Follows.restrict {P : Protocol Act Resp Q} {post : Q → α → Prop} {R : Act → Prop}
    {B : α → Prop} {p : Prog Act Resp α} {q : Q} (h : p.Follows P post q) (hp : p.Performs R)
    (he : p.Ensures B) :
    p.Follows { P with ok := fun q a => P.ok q a ∧ R a } (fun q v => post q v ∧ B v) q := by
  induction p generalizing q with
  | ret v => exact ⟨h, he⟩
  | act a k ih => exact ⟨⟨h.1, hp.1⟩, fun r hr => ih r (h.2 r hr) (hp.2 r) (he r)⟩

/-- A program that follows one protocol follows another one, whose phases are a function of those
of the first.  `I` is known of the phases in which the program returns and goes back from a phase
to the one before, so it holds along the whole way: what a program has done in the end restricts
what it may do at each step. -/
theorem Prog.Follows.transfer {P : Protocol Act Resp Q} {P' : Protocol Act Resp Q'}
    {post : Q → α → Prop} {post' : Q' → α → Prop} (f : Q → Q') (I : Q → Prop)
    (hpost : ∀ q v, post q v → I q ∧ post' (f q) v)
    (hback : ∀ q a r, I (P.next q a r) → I q)
    (hanswers : ∀ q a, ∃ r, P.answers q a r)
    (hstep : ∀ q a, P.ok q a → (∀ r, P.answers q a r → I (P.next q a r)) →
      P'.ok (f q) a ∧ ∀ r, P'.answers (f q) a r →
        P.answers q a r ∧ P'.next (f q) a r = f (P.next q a r))
    {p : Prog Act Resp α} {q : Q} (hp : p.Follows P post q) :
    I q ∧ p.Follows P' post' (f q) := by
  induction p generalizing q with
  | ret v => exact hpost q v hp
  | act a k ih =>
      obtain ⟨hok, hk⟩ := hp
      have hrest (r : Resp a) (hr : P.answers q a r) := ih r (hk r hr)
      obtain ⟨hok', hnext⟩ := hstep q a hok fun r hr => (hrest r hr).1
      obtain ⟨r₀, hr₀⟩ := hanswers q a
      refine ⟨hback q a r₀ (hrest r₀ hr₀).1, hok', fun r hr => ?_⟩
      obtain ⟨hanswered, heq⟩ := hnext r hr
      rw [heq]
      exact (hrest r hanswered).2

end transfer

/-! ### Calls of threads as operations -/

section sessions

variable {C Act : Type} {Resp : Act → Type} {α S : Type} [DecidableEq ι]

namespace Log

variable (op : ι → C → Option O) (answer : α → Option V)

/-- The calls and returns of the operations in a log. -/
def occurrences : Log ι C Act Resp α S → List (Occurrence ι O V)
  | [] => []
  | .began i c :: log =>
      match op i c with
      | some o => .call i o :: occurrences log
      | none => occurrences log
  | .acted _ _ _ _ :: log => occurrences log
  | .ended i c value :: log =>
      match op i c, answer value with
      | some o, some v => .ret i o v :: occurrences log
      | _, _ => occurrences log

end Log

/-- The status of a client in the operation `o`, by the answer that has been fixed. -/
def Status.at (o : Option O) (q : Option V) : Status O V :=
  match o, q with
  | none, _ => .idle
  | some o, none => .called o
  | some o, some v => .answered o v

/-- What a call that returns `value` in the phase `q` has done: its answer was fixed, or it can be
given at any time and has no effect. -/
def Concludes (spec : M → O → V → M → Prop) (answer : α → Option V) (o : Option O) (q : Option V)
    (value : α) : Prop :=
  match o, q with
  | none, _ => True
  | some _, some v => answer value = some v
  | some o, none => ∃ v, answer value = some v ∧ ∀ m, spec m o v m

variable {spec : M → O → V → M → Prop} {op : ι → C → Option O} {answer : α → Option V}
  {exec : Handler Act Resp S} {prog : ι → C → Option α → Prog Act Resp α}
  {P : ι → C → Protocol Act Resp (Option V)} {Inv : S → Prop} {abs : S → M}

/-- A thread is in a call exactly if the object's client is in the operation, and keeps to its
protocol from the phase that its status tells. -/
def Session.Fits (spec : M → O → V → M → Prop) (op : ι → C → Option O) (answer : α → Option V)
    (P : ι → C → Protocol Act Resp (Option V)) (i : ι) :
    Session C Act Resp α → Status O V → Prop
  | .idle _, status => status = .idle
  | .busy c p, status => ∃ q, status = Status.at (op i c) q ∧
      p.Follows (P i c) (Concludes spec answer (op i c)) q

/-- The threads run as the clients of the object. -/
structure Sessions.Simulates (spec : M → O → V → M → Prop) (op : ι → C → Option O)
    (answer : α → Option V) (P : ι → C → Protocol Act Resp (Option V)) (Inv : S → Prop)
    (abs : S → M) (m₀ : M) (σ : Sessions ι C Act Resp α S) (status : ι → Status O V) : Prop where
  inv : Inv σ.shared
  run : AtomicRun spec m₀ (σ.log.occurrences op answer) (abs σ.shared) status
  fits : ∀ i, (σ.session i).Fits spec op answer P i (status i)

namespace Sessions

theorem simulates_start {s : S} (hs : Inv s) :
    Simulates spec op answer P Inv abs (abs s) (start s : Sessions ι C Act Resp α S)
      fun _ => .idle :=
  ⟨hs, .start, fun _ => rfl⟩

theorem fits_update {session : ι → Session C Act Resp α} {status : ι → Status O V} {i : ι}
    {x : Session C Act Resp α} {y : Status O V}
    (h : ∀ j, (session j).Fits spec op answer P j (status j)) (hi : x.Fits spec op answer P i y)
    (j : ι) :
    (Function.update session i x j).Fits spec op answer P j (Function.update status i y j) := by
  by_cases hj : j = i
  · subst hj
    simpa using hi
  · simpa [Function.update_of_ne hj] using h j

/-- One move. -/
theorem Simulates.next {m₀ : M} {σ : Sessions ι C Act Resp α S} {status : ι → Status O V}
    (h : Simulates spec op answer P Inv abs m₀ σ status)
    (hprog : ∀ i c last, (prog i c last).Follows (P i c) (Concludes spec answer (op i c)) none)
    (hact : ∀ i c q a s, Inv s → (P i c).ok q a →
      (P i c).answers q a (exec a s).1 ∧ Inv (exec a s).2 ∧
        ((P i c).next q a (exec a s).1 = q ∧ abs (exec a s).2 = abs s ∨
          ∃ o v, op i c = some o ∧ q = none ∧ (P i c).next q a (exec a s).1 = some v ∧
            spec (abs s) o v (abs (exec a s).2)))
    (m : Move ι C) :
    ∃ status', Simulates spec op answer P Inv abs m₀ (σ.next exec prog m).2 status' := by
  refine next_cases m (fun τ => ∃ status', Simulates spec op answer P Inv abs m₀ τ status')
    ⟨status, h⟩ ?_ ?_ ?_
  · intro i c last _ hsession
    have hidle : status i = .idle := by
      have hi := h.fits i
      rw [hsession] at hi
      exact hi
    refine ⟨Function.update status i (Status.at (op i c) none), h.inv, ?_, ?_⟩
    · simp only [Log.occurrences]
      cases hop : op i c with
      | none =>
          simp only [Status.at]
          rw [← hidle, Function.update_eq_self]
          exact h.run
      | some o => exact h.run.call o hidle
    · exact fits_update h.fits ⟨none, rfl, hprog i c last⟩
  · intro i c a k _ hsession
    obtain ⟨q, hstatus, hok, hk⟩ : ∃ q, status i = Status.at (op i c) q ∧
        (P i c).ok q a ∧ ∀ r, (P i c).answers q a r →
          (k r).Follows (P i c) (Concludes spec answer (op i c)) ((P i c).next q a r) := by
      have hi := h.fits i
      rw [hsession] at hi
      exact hi
    obtain ⟨hanswers, hinv, hstep⟩ := hact i c q a σ.shared h.inv hok
    have hrest := hk _ hanswers
    rcases hstep with ⟨hnext, habs⟩ | ⟨o, v, hop, rfl, hnext, hspec⟩
    · -- the object does not notice the action
      refine ⟨status, hinv, ?_, fun j => ?_⟩
      · show AtomicRun spec m₀ _ (abs (exec a σ.shared).2) status
        rw [habs]
        exact h.run
      · have hself := fits_update h.fits (i := i) (y := status i)
          (show Session.Fits spec op answer P i (.busy c (k (exec a σ.shared).1)) (status i) from
            ⟨q, hstatus, hnext ▸ hrest⟩) j
        rwa [Function.update_eq_self] at hself
    · -- the operation takes effect
      rw [hop] at hstatus
      refine ⟨Function.update status i (.answered o v), hinv, h.run.effect hstatus hspec, ?_⟩
      refine fits_update h.fits ⟨some v, ?_, hnext ▸ hrest⟩
      rw [hop]
      rfl
  · intro i c value _ hsession
    obtain ⟨q, hstatus, hconcludes⟩ : ∃ q, status i = Status.at (op i c) q ∧
        Concludes spec answer (op i c) q value := by
      have hi := h.fits i
      rw [hsession] at hi
      exact hi
    refine ⟨Function.update status i .idle, h.inv, ?_, fits_update h.fits rfl⟩
    simp only [Log.occurrences]
    cases hop : op i c with
    | none =>
        simp only [hop, Status.at] at hstatus ⊢
        rw [← hstatus, Function.update_eq_self]
        exact h.run
    | some o =>
        cases q with
        | some v =>
            simp only [hop, Concludes] at hconcludes
            simp only [hop, Status.at] at hstatus
            rw [hconcludes]
            exact h.run.ret hstatus
        | none =>
            simp only [hop, Concludes] at hconcludes
            simp only [hop, Status.at] at hstatus
            obtain ⟨v, hanswer, hspec⟩ := hconcludes
            rw [hanswer]
            -- it takes effect just before it returns
            have hrun := (h.run.effect hstatus (hspec _)).ret (Function.update_self ..)
            rwa [Function.update_idem] at hrun

/-- Every run of the threads is a run of the clients. -/
theorem simulates (P : ι → C → Protocol Act Resp (Option V)) (Inv : S → Prop) (abs : S → M)
    {s : S} (hs : Inv s)
    (hprog : ∀ i c last, (prog i c last).Follows (P i c) (Concludes spec answer (op i c)) none)
    (hact : ∀ i c q a s, Inv s → (P i c).ok q a →
      (P i c).answers q a (exec a s).1 ∧ Inv (exec a s).2 ∧
        ((P i c).next q a (exec a s).1 = q ∧ abs (exec a s).2 = abs s ∨
          ∃ o v, op i c = some o ∧ q = none ∧ (P i c).next q a (exec a s).1 = some v ∧
            spec (abs s) o v (abs (exec a s).2)))
    (moves : List (Move ι C)) :
    ∃ status, Simulates spec op answer P Inv abs (abs s)
      (Machine.after (next exec prog) (start s) moves) status :=
  Machine.invariant (fun σ => ∃ status, Simulates spec op answer P Inv abs (abs s) σ status)
    (fun _ m h => h.choose_spec.next hprog hact m) ⟨_, simulates_start hs⟩ moves

theorem Simulates.linearizable {m₀ : M} {σ : Sessions ι C Act Resp α S} {status : ι → Status O V}
    (h : Simulates spec op answer P Inv abs m₀ σ status) :
    Linearizable spec m₀ (σ.log.occurrences op answer) (abs σ.shared) := ⟨status, h.run⟩

end Sessions

end sessions

end Atomic
