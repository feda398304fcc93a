import KvEngine.Fairness
import KvEngine.Sessions

/-! # Threads that are scheduled fairly

The threads of `Sessions.lean` in an infinite run.  A thread that is scheduled again and again
finishes the call it is in, whatever the other threads do in between.

`Prog.Achieves goal answers post` says what a program comes to if the answers it gets are in
`answers`: an action in `goal`, or a return with a value that satisfies `post`.
`Sessions.busy_leadsTo` turns this into a statement about the run: the thread returns such a value
unless `Stop` happens, where the answers are in `answers` until `Stop` and an action in `goal` makes
it happen.  `Sessions.idle_leadsTo` puts a call before it. -/

namespace Atomic

variable {ι C Act : Type} {Resp : Act → Type} {α β S : Type}

/-! ### What a program comes to -/

namespace Prog

variable {goal : Act → Prop} {answers : (a : Act) → Resp a → Prop}

/-- With answers in `answers` the program comes to an action in `goal`, or returns a value that
satisfies `post`. -/
def Achieves (goal : Act → Prop) (answers : (a : Act) → Resp a → Prop) (post : α → Prop) :
    Prog Act Resp α → Prop
  | ret v => post v
  | act a k => goal a ∨ ∀ r, answers a r → Achieves goal answers post (k r)

theorem Ensures.achieves {post : α → Prop} {p : Prog Act Resp α} (h : Ensures post p) :
    p.Achieves goal answers post := by
  induction p with
  | ret v => exact h
  | act a k ih => exact .inr fun r _ => ih r (h r)

/-- The rule of sequential composition. -/
theorem Achieves.bind {mid : α → Prop} {post : β → Prop} {p : Prog Act Resp α}
    {f : α → Prog Act Resp β} (hp : p.Achieves goal answers mid)
    (hf : ∀ v, mid v → (f v).Achieves goal answers post) :
    (p >>= f).Achieves goal answers post := by
  induction p with
  | ret v => exact hf v hp
  | act a k ih =>
      rcases hp with hgoal | hk
      · exact .inl hgoal
      · exact .inr fun r hr => ih r (hk r hr)

end Prog

/-! ### Fair threads -/

namespace Sessions

variable [DecidableEq ι] {exec : Handler Act Resp S} {prog : ι → C → Option α → Prog Act Resp α}
  {σ σ₀ : Sessions ι C Act Resp α S} {i : ι}

/-- Only its own steps move a thread that is in a call. -/
theorem next_session_busy {c : C} {p : Prog Act Resp α} (hi : σ.session i = .busy c p)
    {m : Move ι C} (hm : m ≠ .step i) : (σ.next exec prog m).2.session i = .busy c p := by
  have hother {j : ι} {x : Session C Act Resp α} (hj : j ≠ i) :
      Function.update σ.session j x i = .busy c p := by
    rw [Function.update_of_ne hj.symm]
    exact hi
  refine next_cases m (fun τ => τ.session i = .busy c p) hi ?_ ?_ ?_
  · intro j c' last _ hsession
    refine hother fun hj => ?_
    rw [hj, hi] at hsession
    cases hsession
  · rintro j c' a k rfl _
    exact hother fun hj => hm (congrArg Move.step hj)
  · rintro j c' value rfl _
    exact hother fun hj => hm (congrArg Move.step hj)

/-- Only its own calls move a thread that is idle. -/
theorem next_session_idle {last : Option α} (hi : σ.session i = .idle last) {m : Move ι C}
    (hm : ∀ c, m ≠ .invoke i c) : (σ.next exec prog m).2.session i = .idle last := by
  have hother {j : ι} {x : Session C Act Resp α} (hj : j ≠ i) :
      Function.update σ.session j x i = .idle last := by
    rw [Function.update_of_ne hj.symm]
    exact hi
  refine next_cases m (fun τ => τ.session i = .idle last) hi ?_ ?_ ?_
  · rintro j c' last' rfl _
    exact hother fun hj => hm c' (by rw [hj])
  · intro j c' a k _ hsession
    refine hother fun hj => ?_
    rw [hj, hi] at hsession
    cases hsession
  · intro j c' value _ hsession
    refine hother fun hj => ?_
    rw [hj, hi] at hsession
    cases hsession

section leads

variable {moves : ℕ → Move ι C} {goal : Act → Prop} {answers : (a : Act) → Resp a → Prop}
  {post : α → Prop} (Stop : S → Prop)
  (hfair : Machine.Recurs (· = .step i) moves)
  (hanswers : ∀ s a, ¬ Stop s → answers a (exec a s).1)
  (hgoal : ∀ s a, ¬ Stop s → goal a → Stop (exec a s).2)
include hfair hanswers hgoal

/-- A call that is in progress returns, unless `Stop` happens before. -/
theorem busy_leadsTo (p : Prog Act Resp α) (hp : p.Achieves goal answers post) :
    Machine.LeadsTo (Machine.stateAt (next exec prog) σ₀ moves)
      (fun σ => ∃ c, σ.session i = .busy c p)
      (fun σ => Stop σ.shared ∨ ∃ v, σ.session i = .idle (some v) ∧ post v) := by
  induction p with
  | ret v =>
      refine Machine.leadsTo_of_recurs hfair ?_ ?_
      · rintro t ⟨c, hi⟩ hm
        refine .inr ⟨v, ?_, hp⟩
        simp only [Machine.stateAt, hm, next, hi, Function.update_self]
      · rintro t ⟨c, hi⟩ hm
        exact .inl ⟨c, next_session_busy hi hm⟩
  | act a k ih =>
      have hact : Machine.LeadsTo (Machine.stateAt (next exec prog) σ₀ moves)
          (fun σ => ¬ Stop σ.shared ∧ ∃ c, σ.session i = .busy c (.act a k))
          (fun σ => Stop σ.shared ∨
            ∃ r, (k r).Achieves goal answers post ∧ ∃ c, σ.session i = .busy c (k r)) := by
        refine Machine.leadsTo_of_recurs hfair ?_ ?_
        · rintro t ⟨hstop, c, hi⟩ hm
          simp only [Machine.stateAt, hm, next, hi]
          rcases hp with hdone | hk
          · exact .inl (hgoal _ a hstop hdone)
          · exact .inr ⟨_, hk _ (hanswers _ a hstop), c, Function.update_self ..⟩
        · rintro t ⟨_, c, hi⟩ hm
          by_cases hstop : Stop (Machine.stateAt (next exec prog) σ₀ moves (t + 1)).shared
          · exact .inr (.inl hstop)
          · exact .inl ⟨hstop, c, next_session_busy hi hm⟩
      have hrest : Machine.LeadsTo (Machine.stateAt (next exec prog) σ₀ moves)
          (fun σ => Stop σ.shared ∨
            ∃ r, (k r).Achieves goal answers post ∧ ∃ c, σ.session i = .busy c (k r))
          (fun σ => Stop σ.shared ∨ ∃ v, σ.session i = .idle (some v) ∧ post v) := by
        refine (Machine.leadsTo_of_imp fun _ h => .inl h).or (Machine.leadsTo_exists fun r => ?_)
        rintro t ⟨hk, hi⟩
        exact ih r hk t hi
      rintro t hi
      by_cases hstop : Stop (Machine.stateAt (next exec prog) σ₀ moves t).shared
      · exact ⟨t, Nat.le_refl t, .inl hstop⟩
      · exact (hact.trans hrest) t ⟨hstop, hi⟩

/-- A thread that is called again and again and is scheduled fairly comes to the end of its next
call, unless `Stop` happens before. -/
theorem idle_leadsTo (hcalls : Machine.Recurs (fun m => ∃ c, m = .invoke i c) moves)
    {last : Option α}
    (hprog : ∀ t c, moves t = .invoke i c → (prog i c last).Achieves goal answers post) :
    Machine.LeadsTo (Machine.stateAt (next exec prog) σ₀ moves)
      (fun σ => σ.session i = .idle last)
      (fun σ => Stop σ.shared ∨ ∃ v, σ.session i = .idle (some v) ∧ post v) := by
  have hstart : Machine.LeadsTo (Machine.stateAt (next exec prog) σ₀ moves)
      (fun σ => σ.session i = .idle last)
      (fun σ => ∃ p, p.Achieves goal answers post ∧ ∃ c, σ.session i = .busy c p) := by
    refine Machine.leadsTo_of_recurs hcalls ?_ ?_
    · rintro t hi ⟨c, hm⟩
      refine ⟨prog i c last, hprog t c hm, c, ?_⟩
      simp only [Machine.stateAt, hm, next, hi, Function.update_self]
    · intro t hi hm
      exact .inl (next_session_idle hi fun c hc => hm ⟨c, hc⟩)
  refine hstart.trans (Machine.leadsTo_exists fun p => ?_)
  rintro t ⟨hp, hi⟩
  exact busy_leadsTo Stop hfair hanswers hgoal p hp t hi

end leads

end Sessions

end Atomic
