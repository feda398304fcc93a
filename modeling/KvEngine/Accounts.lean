import KvEngine.Prog
import Mathlib.Algebra.BigOperators.Group.Multiset.Basic

/-! # Accounts of a run

`Prog.trail exec p s` lists what an uninterrupted run of `p` does: every action with the state
before it and its answer.

An `Account` says what an action gains and what it gives up, as multisets over a type of assets.
`Turns base p s final` is the balance of a run: who holds `base` before it holds `final` after it,
each asset as often as it was gained and not given up.  The rules follow the program (`ret`, `act`,
`bind`), and `frame` adds what the run does not touch.  A run that turns nothing into nothing has
given up everything it gained, each asset once for every time it was gained
(`Turns.settled_iff`). -/

namespace Atomic

/-- An action of a run, with the state before it and its answer. -/
structure Deed (Act : Type) (Resp : Act → Type) (S : Type) where
  before : S
  act : Act
  answer : Resp act

variable {Act : Type} {Resp : Act → Type} {α β S A : Type}

namespace Prog

variable (exec : Handler Act Resp S)

/-- What an uninterrupted run does, in order. -/
def trail : Prog Act Resp α → S → List (Deed Act Resp S)
  | ret _, _ => []
  | act a k, s => ⟨s, a, (exec a s).1⟩ :: trail (k (exec a s).1) (exec a s).2

@[simp] theorem trail_ret (a : α) (s : S) : trail exec (ret a : Prog Act Resp α) s = [] := rfl

@[simp] theorem trail_act (a : Act) (k : Resp a → Prog Act Resp α) (s : S) :
    trail exec (act a k) s = ⟨s, a, (exec a s).1⟩ :: trail exec (k (exec a s).1) (exec a s).2 := rfl

@[simp] theorem trail_perform (a : Act) (s : S) :
    trail exec (perform a) s = [⟨s, a, (exec a s).1⟩] := rfl

theorem trail_bind (p : Prog Act Resp α) (f : α → Prog Act Resp β) (s : S) :
    trail exec (p >>= f) s = trail exec p s ++ trail exec (f (run exec p s).1) (run exec p s).2 := by
  induction p generalizing s with
  | ret a => rfl
  | act a k ih => exact congrArg (List.cons _) (ih _ _)

/-- Every deed of the run is an action the program can perform. -/
theorem Performs.trail {Q : Act → Prop} {p : Prog Act Resp α} (hp : Performs Q p) (s : S) :
    ∀ d ∈ trail exec p s, Q d.act := by
  induction p generalizing s with
  | ret a => simp
  | act a k ih =>
      intro d hd
      rcases List.mem_cons.mp hd with rfl | hd
      · exact hp.1
      · exact ih _ (hp.2 _) _ d hd

end Prog

namespace Deed

variable {ds es : List (Deed Act Resp S)} {a : Act}

/-- An action that the deeds rule out is not among them. -/
theorem not_exists_act {Q : Act → Prop} (h : ∀ d ∈ ds, Q d.act) (ha : ¬ Q a) :
    ¬ ∃ d ∈ ds, d.act = a := by
  rintro ⟨d, hd, rfl⟩
  exact ha (h d hd)

theorem not_exists_act_append (h : ¬ ∃ d ∈ ds, d.act = a) (h' : ¬ ∃ d ∈ es, d.act = a) :
    ¬ ∃ d ∈ ds ++ es, d.act = a := by
  rintro ⟨d, hd, hact⟩
  rcases List.mem_append.mp hd with hd | hd
  · exact h ⟨d, hd, hact⟩
  · exact h' ⟨d, hd, hact⟩

end Deed

/-- What an action gains and what it gives up. -/
structure Account (Act : Type) (Resp : Act → Type) (S A : Type) where
  gains : Deed Act Resp S → Multiset A
  gives : Deed Act Resp S → Multiset A

namespace Account

variable (acc : Account Act Resp S A)

/-- Everything that was gained. -/
def gained (ds : List (Deed Act Resp S)) : Multiset A := (ds.map acc.gains).sum

/-- Everything that was given up. -/
def given (ds : List (Deed Act Resp S)) : Multiset A := (ds.map acc.gives).sum

@[simp] theorem gained_nil : acc.gained [] = 0 := rfl

@[simp] theorem given_nil : acc.given [] = 0 := rfl

@[simp] theorem gained_cons (d : Deed Act Resp S) (ds : List (Deed Act Resp S)) :
    acc.gained (d :: ds) = acc.gains d + acc.gained ds := List.sum_cons

@[simp] theorem given_cons (d : Deed Act Resp S) (ds : List (Deed Act Resp S)) :
    acc.given (d :: ds) = acc.gives d + acc.given ds := List.sum_cons

theorem gained_append (ds es : List (Deed Act Resp S)) :
    acc.gained (ds ++ es) = acc.gained ds + acc.gained es := by
  simp [gained]

theorem given_append (ds es : List (Deed Act Resp S)) :
    acc.given (ds ++ es) = acc.given ds + acc.given es := by
  simp [given]

variable (exec : Handler Act Resp S)

/-- Who holds `base` before the run of `p` from `s` holds `final` after it. -/
def Turns (base : Multiset A) (p : Prog Act Resp α) (s : S) (final : Multiset A) : Prop :=
  base + acc.gained (p.trail exec s) = acc.given (p.trail exec s) + final

namespace Turns

variable {acc} {exec} {base mid final : Multiset A} {s : S}

theorem ret (a : α) : acc.Turns exec base (.ret a : Prog Act Resp α) s base := by
  simp [Turns]

theorem act {a : Act} {k : Resp a → Prog Act Resp α}
    (ha : base + acc.gains ⟨s, a, (exec a s).1⟩ = acc.gives ⟨s, a, (exec a s).1⟩ + mid)
    (hk : acc.Turns exec mid (k (exec a s).1) (exec a s).2 final) :
    acc.Turns exec base (.act a k) s final := by
  unfold Turns at hk ⊢
  rw [Prog.trail_act, gained_cons, given_cons, ← add_assoc, ha, add_assoc, hk, add_assoc]

theorem bind {p : Prog Act Resp α} {f : α → Prog Act Resp β} (hp : acc.Turns exec base p s mid)
    (hf : acc.Turns exec mid (f (p.run exec s).1) (p.run exec s).2 final) :
    acc.Turns exec base (p >>= f) s final := by
  unfold Turns at hp hf ⊢
  rw [Prog.trail_bind, gained_append, given_append, ← add_assoc, hp, add_assoc, hf, add_assoc]

/-- What the run does not touch is held before and after it. -/
theorem frame {p : Prog Act Resp α} (hp : acc.Turns exec base p s final) (rest : Multiset A) :
    acc.Turns exec (base + rest) p s (final + rest) := by
  unfold Turns at hp ⊢
  rw [add_right_comm, hp, add_assoc]

/-- A run that uses up what it needs leaves the rest. -/
theorem spend {p : Prog Act Resp α} (hp : acc.Turns exec base p s 0) (rest : Multiset A) :
    acc.Turns exec (rest + base) p s rest := by
  have hframe := hp.frame rest
  rwa [zero_add, add_comm] at hframe

/-- A run that needs nothing adds to what is held. -/
theorem earn {p : Prog Act Resp α} (hp : acc.Turns exec 0 p s final) (rest : Multiset A) :
    acc.Turns exec rest p s (rest + final) := by
  have hframe := hp.frame rest
  rwa [zero_add, add_comm] at hframe

/-- Who starts with nothing ends with what was gained and not given up. -/
theorem settled_iff {p : Prog Act Resp α} (hp : acc.Turns exec 0 p s final) :
    acc.gained (p.trail exec s) = acc.given (p.trail exec s) ↔ final = 0 := by
  unfold Turns at hp
  rw [zero_add] at hp
  rw [hp]
  exact add_eq_left

end Turns

end Account

end Atomic
