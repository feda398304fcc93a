import Mathlib.Tactic.Common

/-! # Programs over atomic actions

`Prog Act Resp α` is the type of programs that perform atomic actions one at a time: a
program has returned a value of type `α`, or it performs an action `a : Act` and goes on
with the answer, a value of type `Resp a`.  What an action does to a shared state of type
`S` is given separately, by a handler `exec : (a : Act) → S → Resp a × S`.

The same program is therefore read in two ways:

* `Prog.run exec p s` performs all of its actions without interruption (the meaning of a
  call in a single-threaded history);
* threads that perform one action of their programs at a time, in any order, are the subject
  of `Threads.lean`.

`Prog.Performs Q p` says that every action `p` can perform satisfies `Q`.  A relation
between states that every such action keeps is kept by the whole run (`run_rel`), which is
how frame conditions are proved; `run_related` is the same for two runs.  `Prog.Ensures` is a
condition on the returned value. -/

namespace Atomic

/-- A program over atomic actions `Act`, where the action `a` is answered in `Resp a`. -/
inductive Prog (Act : Type) (Resp : Act → Type) (α : Type) : Type where
  | ret (a : α)
  | act (a : Act) (k : Resp a → Prog Act Resp α)

/-- What the atomic actions do: the answer and the state after them. -/
abbrev Handler (Act : Type) (Resp : Act → Type) (S : Type) := (a : Act) → S → Resp a × S

namespace Prog

variable {Act : Type} {Resp : Act → Type} {α β γ S : Type}

/-- Sequential composition. -/
def bind : Prog Act Resp α → (α → Prog Act Resp β) → Prog Act Resp β
  | ret a, f => f a
  | act a k, f => act a fun r => bind (k r) f

instance : Monad (Prog Act Resp) where
  pure := ret
  bind := bind

@[simp] theorem pure_eq (a : α) : (pure a : Prog Act Resp α) = ret a := rfl

@[simp] theorem ret_bind (a : α) (f : α → Prog Act Resp β) : (ret a >>= f) = f a := rfl

@[simp] theorem act_bind (a : Act) (k : Resp a → Prog Act Resp α) (f : α → Prog Act Resp β) :
    (act a k >>= f) = act a fun r => k r >>= f := rfl

/-- The program that performs one action and returns its answer. -/
def perform (a : Act) : Prog Act Resp (Resp a) := act a ret

@[simp] theorem perform_bind (a : Act) (f : Resp a → Prog Act Resp β) :
    (perform a >>= f) = act a f := rfl

theorem bind_assoc' (p : Prog Act Resp α) (f : α → Prog Act Resp β) (g : β → Prog Act Resp γ) :
    (p >>= f) >>= g = p >>= fun a => f a >>= g := by
  induction p with
  | ret a => rfl
  | act a k ih =>
      simp only [act_bind]
      congr 1
      funext r
      exact ih r

theorem bind_ret (p : Prog Act Resp α) : p >>= ret = p := by
  induction p with
  | ret a => rfl
  | act a k ih =>
      simp only [act_bind]
      congr 1
      funext r
      exact ih r

instance : LawfulMonad (Prog Act Resp) :=
  LawfulMonad.mk' _ bind_ret (fun _ _ => rfl) bind_assoc'

/-! ### Uninterrupted runs -/

variable (exec : Handler Act Resp S)

/-- Perform every action of the program, one after another. -/
def run : Prog Act Resp α → S → α × S
  | ret a, s => (a, s)
  | act a k, s => run (k (exec a s).1) (exec a s).2

@[simp] theorem run_ret (a : α) (s : S) : run exec (ret a) s = (a, s) := rfl

@[simp] theorem run_act (a : Act) (k : Resp a → Prog Act Resp α) (s : S) :
    run exec (act a k) s = run exec (k (exec a s).1) (exec a s).2 := rfl

theorem run_bind (p : Prog Act Resp α) (f : α → Prog Act Resp β) (s : S) :
    run exec (p >>= f) s = run exec (f (run exec p s).1) (run exec p s).2 := by
  induction p generalizing s with
  | ret a => rfl
  | act a k ih => exact ih _ _

@[simp] theorem run_perform (a : Act) (s : S) : run exec (perform a) s = exec a s := rfl

/-! ### The actions a program performs -/

/-- Every action of the program satisfies `Q`, whatever the answers are. -/
def Performs (Q : Act → Prop) : Prog Act Resp α → Prop
  | ret _ => True
  | act a k => Q a ∧ ∀ r, Performs Q (k r)

@[simp] theorem performs_ret (Q : Act → Prop) (a : α) :
    Performs Q (ret a : Prog Act Resp α) := trivial

@[simp] theorem performs_act (Q : Act → Prop) (a : Act) (k : Resp a → Prog Act Resp α) :
    Performs Q (act a k) ↔ Q a ∧ ∀ r, Performs Q (k r) := Iff.rfl

theorem performs_true (p : Prog Act Resp α) : Performs (fun _ => True) p := by
  induction p with
  | ret a => trivial
  | act a k ih => exact ⟨trivial, ih⟩

theorem Performs.bind {Q : Act → Prop} {p : Prog Act Resp α} {f : α → Prog Act Resp β}
    (hp : Performs Q p) (hf : ∀ a, Performs Q (f a)) : Performs Q (p >>= f) := by
  induction p with
  | ret a => exact hf a
  | act a k ih => exact ⟨hp.1, fun r => ih r (hp.2 r)⟩

theorem Performs.mono {Q Q' : Act → Prop} {p : Prog Act Resp α} (h : ∀ a, Q a → Q' a)
    (hp : Performs Q p) : Performs Q' p := by
  induction p with
  | ret a => trivial
  | act a k ih => exact ⟨h a hp.1, fun r => ih r (hp.2 r)⟩

/-- A reflexive and transitive relation that every action of the program keeps relates the
states before and after its run. -/
theorem run_rel {Q : Act → Prop} {R : S → S → Prop} (hrefl : ∀ s, R s s)
    (htrans : ∀ {s t u}, R s t → R t u → R s u) (hact : ∀ a s, Q a → R s (exec a s).2)
    {p : Prog Act Resp α} (hp : Performs Q p) (s : S) : R s (run exec p s).2 := by
  induction p generalizing s with
  | ret a => exact hrefl s
  | act a k ih => exact htrans (hact a s hp.1) (ih _ (hp.2 _) _)

/-- Two runs of one program: a relation under which every action gives the same answer, and
which every action keeps, relates the states after them. -/
theorem run_related {Q : Act → Prop} {R : S → S → Prop}
    (hact : ∀ a s t, Q a → R s t → (exec a s).1 = (exec a t).1 ∧ R (exec a s).2 (exec a t).2)
    {p : Prog Act Resp α} (hp : Performs Q p) {s t : S} (h : R s t) :
    (run exec p s).1 = (run exec p t).1 ∧ R (run exec p s).2 (run exec p t).2 := by
  induction p generalizing s t with
  | ret a => exact ⟨rfl, h⟩
  | act a k ih =>
      obtain ⟨hans, hnext⟩ := hact a s t hp.1 h
      simp only [run_act, hans]
      exact ih _ (hp.2 _) hnext

/-! ### The values a program returns -/

/-- Every value the program can return satisfies `post`, whatever the answers are. -/
def Ensures (post : α → Prop) : Prog Act Resp α → Prop
  | ret a => post a
  | act _ k => ∀ r, Ensures post (k r)

theorem ensures_true (p : Prog Act Resp α) : Ensures (fun _ => True) p := by
  induction p with
  | ret a => trivial
  | act a k ih => exact ih

theorem Ensures.run {post : α → Prop} {p : Prog Act Resp α} (hp : Ensures post p) (s : S) :
    post (run exec p s).1 := by
  induction p generalizing s with
  | ret a => exact hp
  | act a k ih => exact ih _ (hp _) _

theorem Ensures.mono {post post' : α → Prop} {p : Prog Act Resp α} (hp : Ensures post p)
    (h : ∀ a, post a → post' a) : Ensures post' p := by
  induction p with
  | ret a => exact h a hp
  | act a k ih => exact fun r => ih r (hp r)

theorem Ensures.bind {post : β → Prop} {mid : α → Prop} {p : Prog Act Resp α}
    {f : α → Prog Act Resp β} (hp : Ensures mid p) (hf : ∀ a, mid a → Ensures post (f a)) :
    Ensures post (p >>= f) := by
  induction p with
  | ret a => exact hf a hp
  | act a k ih => exact fun r => ih r (hp r)

end Prog

end Atomic
