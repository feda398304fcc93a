import KvEngine.AtomicObject

/-! # The same threads over a representation of the state

The threads of `Sessions.lean` on two levels: they run the same programs, and on the lower level
the shared state is a representation of the one above.  The lower level may come to a stop from
which it does not recover.

`Realizes` asks of the actions that they give the same answers and keep the representation, unless
they stop.  Then every run of the lower level that has not stopped goes as on the upper level
(`Sessions.Implements.after`). -/

namespace Atomic

variable {ι C Act : Type} {Resp : Act → Type} {α S T : Type}

/-- `R` relates the states on which the two handlers do the same, as far as the actions in `Q` are
concerned, until the lower one stops. -/
structure Realizes (low : Handler Act Resp T) (exec : Handler Act Resp S) (Q : Act → Prop)
    (Stopped : T → Prop) (R : T → S → Prop) : Prop where
  step : ∀ a t s, Q a → R t s →
    Stopped (low a t).2 ∨ (low a t).1 = (exec a s).1 ∧ R (low a t).2 (exec a s).2
  stopped : ∀ a t, Stopped t → Stopped (low a t).2

/-- What is left of the call is in `Q`. -/
def Session.Performs (Q : Act → Prop) : Session C Act Resp α → Prop
  | .idle _ => True
  | .busy _ p => p.Performs Q

namespace Sessions

/-- The threads are at the same places, and the states are related. -/
structure Implements (Q : Act → Prop) (R : T → S → Prop) (τ : Sessions ι C Act Resp α T)
    (σ : Sessions ι C Act Resp α S) : Prop where
  shared : R τ.shared σ.shared
  session : τ.session = σ.session
  performs : ∀ i, (σ.session i).Performs Q
  seen : τ.log.occurrences (fun _ c => some c) some = σ.log.occurrences (fun _ c => some c) some

variable {low : Handler Act Resp T} {exec : Handler Act Resp S} {Q : Act → Prop}
  {Stopped : T → Prop} {R : T → S → Prop} {τ : Sessions ι C Act Resp α T}
  {σ : Sessions ι C Act Resp α S} {prog : ι → C → Option α → Prog Act Resp α}

variable [DecidableEq ι]

/-- A thread has moved on both levels. -/
theorem Implements.set (h : Implements Q R τ σ) (i : ι) {x : Session C Act Resp α}
    (hx : x.Performs Q) {t : T} {s : S} (hR : R t s) {log : Log ι C Act Resp α T}
    {log' : Log ι C Act Resp α S} (hseen : log.occurrences (fun _ c => some c) some =
      log'.occurrences (fun _ c => some c) some) :
    Implements Q R ⟨t, log, Function.update σ.session i x⟩
      ⟨s, log', Function.update σ.session i x⟩ := by
  refine ⟨hR, rfl, fun j => ?_, hseen⟩
  by_cases hj : j = i
  · subst hj
    simp only [Function.update_self]
    exact hx
  · simp only [Function.update_of_ne hj]
    exact h.performs j

/-- A move on the lower level is the same move on the upper level, unless it stops. -/
theorem Implements.next (hlow : Realizes low exec Q Stopped R)
    (hprog : ∀ i c last, (prog i c last).Performs Q) (h : Implements Q R τ σ) (m : Move ι C) :
    Stopped (τ.next low prog m).2.shared ∨
      Implements Q R (τ.next low prog m).2 (σ.next exec prog m).2 := by
  cases m with
  | invoke i c =>
      right
      cases hi : σ.session i with
      | busy c' p =>
          simp only [Sessions.next, h.session, hi]
          exact h
      | idle last =>
          simp only [Sessions.next, h.session, hi]
          refine h.set i ?_ h.shared ?_
          · exact hprog i c last
          · simp only [Log.occurrences, h.seen]
  | step i =>
      have hperforms := h.performs i
      cases hi : σ.session i with
      | idle last =>
          simp only [Sessions.next, h.session, hi]
          exact .inr h
      | busy c p =>
          rw [hi] at hperforms
          cases p with
          | ret value =>
              simp only [Sessions.next, h.session, hi]
              refine .inr (h.set i ?_ h.shared ?_)
              · exact trivial
              · simp only [Log.occurrences, h.seen]
          | act a k =>
              simp only [Sessions.next, h.session, hi]
              refine (hlow.step a τ.shared σ.shared hperforms.1 h.shared).imp_right ?_
              rintro ⟨hanswer, hR⟩
              rw [hanswer]
              refine h.set i ?_ hR h.seen
              exact hperforms.2 _

/-- What has stopped does not go on. -/
theorem stopped_next (hlow : Realizes low exec Q Stopped R) (h : Stopped τ.shared)
    (m : Move ι C) : Stopped (τ.next low prog m).2.shared := by
  refine next_cases m (fun τ => Stopped τ.shared) h ?_ ?_ ?_
  · exact fun _ _ _ _ _ => h
  · exact fun _ _ a _ _ _ => hlow.stopped a _ h
  · exact fun _ _ _ _ _ => h

/-- A run of the lower level goes as the run of the upper level, unless it has stopped. -/
theorem Implements.after (hlow : Realizes low exec Q Stopped R)
    (hprog : ∀ i c last, (prog i c last).Performs Q) (h : Implements Q R τ σ)
    (ms : List (Move ι C)) :
    Stopped (Machine.after (Sessions.next low prog) τ ms).shared ∨
      Implements Q R (Machine.after (Sessions.next low prog) τ ms)
        (Machine.after (Sessions.next exec prog) σ ms) := by
  induction ms generalizing τ σ with
  | nil => exact .inr h
  | cons m ms ih =>
      rcases h.next hlow hprog m with hstopped | hnext
      · left
        refine Machine.invariant (fun τ : Sessions ι C Act Resp α T => Stopped τ.shared) ?_ hstopped
          ms
        exact fun _ m h => stopped_next hlow h m
      · exact ih hnext

end Sessions

end Atomic
