import Mathlib.Logic.Relation
import Mathlib.Tactic.Common

/-! # Machines that answer their inputs

A machine is given by its step function `step : S → I → O × S`: in state `s` the input `i` is
answered by `(step s i).1`, and the machine goes on in `(step s i).2`.  A history is a finite
list of inputs.

* `after` is the state a history leads to, `answers` the list of answers.
* `Always P` says that every step of a history satisfies `P`, a condition on the state before
  the step and on the input.
* An invariant of the steps holds after the whole history (`Always.invariant`, `invariant`);
  under an invariant, two conditions that agree on every step agree on every history
  (`always_congr`).
* `answers_eq_iff` compares a machine with an abstract one: if a relation is kept by every
  step, and on related states the two answers agree exactly under the condition `C`, then the
  two lists of answers agree exactly when `C` always holds. -/

namespace Machine

variable {S T I O : Type} {step : S → I → O × S} {step' : T → I → O × T}

/-- The state after a history. -/
def after (step : S → I → O × S) (s : S) : List I → S
  | [] => s
  | i :: is => after step (step s i).2 is

/-- The answers along a history. -/
def answers (step : S → I → O × S) (s : S) : List I → List O
  | [] => []
  | i :: is => (step s i).1 :: answers step (step s i).2 is

/-- Every step of the history satisfies `P`. -/
def Always (P : S → I → Prop) (step : S → I → O × S) (s : S) : List I → Prop
  | [] => True
  | i :: is => P s i ∧ Always P step (step s i).2 is

@[simp] theorem after_nil (s : S) : after step s [] = s := rfl
@[simp] theorem after_cons (s : S) (i : I) (is : List I) :
    after step s (i :: is) = after step (step s i).2 is := rfl
theorem after_append (s : S) (is js : List I) :
    after step s (is ++ js) = after step (after step s is) js := by
  induction is generalizing s with
  | nil => rfl
  | cons i is ih => exact ih (step s i).2

@[simp] theorem answers_nil (s : S) : answers step s [] = [] := rfl
@[simp] theorem answers_cons (s : S) (i : I) (is : List I) :
    answers step s (i :: is) = (step s i).1 :: answers step (step s i).2 is := rfl
@[simp] theorem always_nil (P : S → I → Prop) (s : S) : Always P step s [] := trivial
@[simp] theorem always_cons (P : S → I → Prop) (s : S) (i : I) (is : List I) :
    Always P step s (i :: is) ↔ P s i ∧ Always P step (step s i).2 is := Iff.rfl

/-- What every step that satisfies `P` keeps holds after a history of such steps. -/
theorem Always.invariant {P : S → I → Prop} (Inv : S → Prop)
    (hstep : ∀ s i, Inv s → P s i → Inv (step s i).2) {s : S} {is : List I}
    (hall : Always P step s is) (hs : Inv s) : Inv (after step s is) := by
  induction is generalizing s with
  | nil => exact hs
  | cons i is ih => exact ih hall.2 (hstep s i hs hall.1)

instance Always.decidable {P : S → I → Prop} [∀ s i, Decidable (P s i)] :
    ∀ (s : S) (is : List I), Decidable (Always P step s is)
  | _, [] => inferInstanceAs (Decidable True)
  | s, i :: is => @instDecidableAnd _ _ _ (Always.decidable (step s i).2 is)

/-- A condition on the inputs alone. -/
theorem always_of_forall_mem {P : I → Prop} {is : List I} (h : ∀ i ∈ is, P i) (s : S) :
    Always (fun _ i => P i) step s is := by
  induction is generalizing s with
  | nil => trivial
  | cons i is ih =>
      exact ⟨h i (List.mem_cons_self ..), ih (fun i' hi' => h i' (List.mem_cons_of_mem i hi')) _⟩

/-- What every step keeps holds after every history. -/
theorem invariant (Inv : S → Prop) (hstep : ∀ s i, Inv s → Inv (step s i).2) {s : S} (hs : Inv s)
    (is : List I) : Inv (after step s is) := by
  induction is generalizing s with
  | nil => exact hs
  | cons i is ih => exact ih (hstep s i hs)

/-- A state that can be reached by inputs in `P` is the state after a history of them. -/
theorem exists_history {P : I → Prop} {s t : S}
    (h : Relation.ReflTransGen (fun s t => ∃ i, P i ∧ t = (step s i).2) s t) :
    ∃ is, (∀ i ∈ is, P i) ∧ after step s is = t := by
  induction h using Relation.ReflTransGen.head_induction_on with
  | refl => exact ⟨[], by simp, rfl⟩
  | head hstep _ ih =>
      obtain ⟨i, hi, rfl⟩ := hstep
      obtain ⟨is, his, hafter⟩ := ih
      exact ⟨i :: is, by simpa using ⟨hi, his⟩, hafter⟩

/-- A condition that implies the next one under an invariant. -/
theorem Always.imp {P Q : S → I → Prop} (Inv : S → Prop)
    (hstep : ∀ s i, Inv s → P s i → Inv (step s i).2) (himp : ∀ s i, Inv s → P s i → Q s i)
    {s : S} {is : List I} (hall : Always P step s is) (hs : Inv s) : Always Q step s is := by
  induction is generalizing s with
  | nil => trivial
  | cons i is ih => exact ⟨himp s i hs hall.1, ih hall.2 (hstep s i hs hall.1)⟩

/-- Two conditions that agree on every step under an invariant agree on every history. -/
theorem always_congr {P Q : S → I → Prop} (Inv : S → Prop)
    (hstep : ∀ s i, Inv s → Inv (step s i).2) (hiff : ∀ s i, Inv s → (P s i ↔ Q s i))
    {s : S} (hs : Inv s) (is : List I) : Always P step s is ↔ Always Q step s is := by
  induction is generalizing s with
  | nil => exact Iff.rfl
  | cons i is ih => exact and_congr (hiff s i hs) (ih (hstep s i hs))

/-- A relation that two machines keep on the inputs in `P` relates the states after a history of
such inputs. -/
theorem after_related {R : S → T → Prop} {P : I → Prop}
    (hstep : ∀ s t i, P i → R s t → R (step s i).2 (step' t i).2) {s : S} {t : T} (hst : R s t)
    {is : List I} (his : ∀ i ∈ is, P i) : R (after step s is) (after step' t is) := by
  induction is generalizing s t with
  | nil => exact hst
  | cons i is ih =>
      have hi : P i := his i (List.mem_cons_self ..)
      exact ih (hstep s t i hi hst) fun i' hi' => his i' (List.mem_cons_of_mem i hi')

/-- Simulation with the exact condition under which the answers agree. -/
theorem answers_eq_iff {R : S → T → Prop} {C : T → I → Prop}
    (hstep : ∀ s t i, R s t → R (step s i).2 (step' t i).2)
    (hans : ∀ s t i, R s t → ((step s i).1 = (step' t i).1 ↔ C t i)) {s : S} {t : T} (hst : R s t)
    (is : List I) : answers step s is = answers step' t is ↔ Always C step' t is := by
  induction is generalizing s t with
  | nil => simp
  | cons i is ih =>
      rw [answers_cons, answers_cons, List.cons.injEq, always_cons, hans s t i hst,
        ih (hstep s t i hst)]

/-- Simulation: related states answer alike. -/
theorem answers_eq {R : S → T → Prop}
    (hstep : ∀ s t i, R s t → (step s i).1 = (step' t i).1 ∧ R (step s i).2 (step' t i).2)
    {s : S} {t : T} (hst : R s t) (is : List I) : answers step s is = answers step' t is := by
  induction is generalizing s t with
  | nil => rfl
  | cons i is ih =>
      obtain ⟨hans, hnext⟩ := hstep s t i hst
      rw [answers_cons, answers_cons, hans, ih hnext]

end Machine
