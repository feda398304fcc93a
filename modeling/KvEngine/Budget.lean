import KvEngine.Health

/-! # The error budget of a device

A device that is not unplugged falls when `consecutive_errors` reaches the limit.  The probe marks
a device healthy before it resets `consecutive_errors`, so errors that were counted before the
mark can still count after it: `WithinBudget` says what `consecutive_errors` is worth at each
moment, and `Undisturbed` is the condition under which it only ever counts errors made since the
last mark. -/

namespace KvEngine

open Atomic

section budget

open History

variable {κ δ : Type} {D : Driver δ} {i n : ℕ} {s s' : State δ} {log : History κ δ}
  {e : Entry κ δ}

/-! ### Causes of a fall -/

/-- The number of device errors counted since the device was last marked healthy. -/
def History.errorsSinceMark (i : ℕ) (log : History κ δ) : ℕ :=
  (log.since (marked i)).countP (erred i)

theorem errorsSinceMark_cons (hmarked : marked i e = false) (log : History κ δ) :
    errorsSinceMark i (e :: log) = errorsSinceMark i log + if erred i e then 1 else 0 := by
  unfold errorsSinceMark
  rw [Log.since_cons_neg hmarked, List.countP_cons]

variable [DecidableEq κ] {σ : Crew κ δ}

/-- The result that the thread is recording. -/
def History.recording (who : Option κ) (log : History κ δ) : Option KvsResult :=
  (Log.doing who log).bind fun t => lastResult t (Log.own who log)

/-- The result is one of an unplugged device. -/
def History.unplugged (who : Option κ) (log : History κ δ) : Bool :=
  (recording who log).any isUnplug

/-- What a fall should be caused by: an unplug result, or as many device errors since the last mark
as the limit says. -/
def Budgeted (i : ℕ) : Entry κ δ → History κ δ → Prop
  | .acted who before a answer, earlier =>
      fell i (.acted who before a answer : Entry κ δ) = true →
        unplugged who earlier = true ∨
          (before.devices i).maxConsecutiveErrors.toNat ≤ errorsSinceMark i earlier
  | _, _ => True

instance (i : ℕ) : ∀ (e : Entry κ δ) (earlier : History κ δ), Decidable (Budgeted i e earlier)
  | .acted _ _ _ _, _ => inferInstanceAs (Decidable (_ → _))
  | .began _ _, _ => inferInstanceAs (Decidable True)
  | .ended _ _ _, _ => inferInstanceAs (Decidable True)

/-! ### What the counter is worth -/

/-- The value of `consecutive_errors` that the thread has just added to. -/
def addedTo (i : ℕ) : Events → Option UInt64
  | ⟨.fetchAddConsecutiveErrors j, prev⟩ :: _ => if j = i then some prev else none
  | ⟨.loadMaxConsecutiveErrors _, _⟩ :: ev => addedTo i ev
  | _ => none

/-- The thread is recording an error that has reached the limit of a device that is not
unplugged, and has not stored `healthy := false` yet. -/
def Committed (i : ℕ) (s : State δ) (log : History κ δ) (j : κ) : Prop :=
  unplugged (some j) log = false ∧ (addedTo i (Log.own (some j) log)).any
    (fun prev => (s.devices i).maxConsecutiveErrors.toUInt64 ≤ prev + 1) = true

instance (i : ℕ) (s : State δ) (log : History κ δ) : DecidablePred (Committed i s log) :=
  fun _ => inferInstanceAs (Decidable (_ ∧ _))

/-- Outside the probe's two stores `consecutive_errors` counts errors made since the last mark, and
so do the threads that are committed. -/
structure WithinBudget (i : ℕ) (s : State δ) (log : History κ δ) : Prop where
  consecutive : (probe log).stage ≠ .clearing i →
    (s.devices i).consecutiveErrors.toNat ≤ errorsSinceMark i log
  committed : ∀ j, Committed i s log j →
    (s.devices i).maxConsecutiveErrors.toNat ≤ errorsSinceMark i log
  limit : ∀ j max rest, Log.own (some j) log = ⟨.loadMaxConsecutiveErrors i, max⟩ :: rest →
    max = (s.devices i).maxConsecutiveErrors

/-- A step of a client changes `consecutive_errors` only as the log tells, and the limit never. -/
theorem Touch.budget {t : Task} {ev : Events} {a : Act} (h : Touch t ev i a) (s : State δ) :
    ((exec D a s).2.devices i).maxConsecutiveErrors = (s.devices i).maxConsecutiveErrors ∧
      ((exec D a s).2.devices i).consecutiveErrors.toNat ≤
        (s.devices i).consecutiveErrors.toNat + if a.errs i then 1 else 0 := by
  cases h with
  | consecutive _ =>
      have hadd : ((s.devices i).consecutiveErrors + 1).toNat ≤
          (s.devices i).consecutiveErrors.toNat + 1 := by
        rw [UInt64.toNat_add]
        exact Nat.mod_le _ _
      simpa [exec, Act.errs] using hadd
  | away haway =>
      rw [(haway.exec s).1]
      exact ⟨rfl, Nat.le_add_right _ _⟩
  | _ => simp [exec, Act.errs]

/-- What the thread has added to after one more action. -/
theorem addedTo_cons {a : Act} {ev : Events} {prev : UInt64}
    (h : addedTo i (⟨a, (exec D a s).1⟩ :: ev) = some prev) :
    (∀ t, lastResult t (⟨a, (exec D a s).1⟩ :: ev) = lastResult t ev) ∧
      (a.errs i = true ∧ prev = (s.devices i).consecutiveErrors ∨ addedTo i ev = some prev) := by
  cases a with
  | fetchAddConsecutiveErrors j =>
      refine ⟨fun _ => rfl, .inl ?_⟩
      have h' : (if j = i then some (s.devices j).consecutiveErrors else none) = some prev := h
      split_ifs at h' with hj
      subst hj
      exact ⟨beq_self_eq_true j, (Option.some.inj h').symm⟩
  | loadMaxConsecutiveErrors j => exact ⟨fun _ => rfl, .inr h⟩
  | _ => cases h

/-- The recorders and the probe keep apart: no error that reaches the limit of a device that is not
unplugged is counted between the two stores of the probe, and none is waiting for its store when
the probe marks the device. -/
def Undisturbed (i : ℕ) (σ : Crew κ δ) : Move (Option κ) Task → Prop
  | .step (some j) =>
      (σ.nextAct none).any (·.clears i) = true → (σ.nextAct (some j)).any (·.errs i) = true →
        (σ.shared.devices i).maxConsecutiveErrors.toUInt64 ≤
          (σ.shared.devices i).consecutiveErrors + 1 → unplugged (some j) σ.log = true
  | .step none => (σ.nextAct none).any (·.stores i true) = true →
      ∀ j, ¬ Committed i σ.shared σ.log j
  | .invoke _ _ => True

instance [Fintype κ] (i : ℕ) (σ : Crew κ δ) : DecidablePred (Undisturbed i σ)
  | .step (some _) => inferInstanceAs (Decidable (_ → _))
  | .step none => inferInstanceAs (Decidable (_ → _))
  | .invoke _ _ => inferInstanceAs (Decidable True)

/-- An entry that is neither a mark of the device nor an action of a client. -/
theorem WithinBudget.frame (h : WithinBudget i s log) (hmarked : marked i e = false)
    (herred : erred i e = false)
    (hown : ∀ j, Log.own (some j) (e :: log) = [] ∨
      Log.own (some j) (e :: log) = Log.own (some j) log ∧
        Log.doing (some j) (e :: log) = Log.doing (some j) log)
    (hlimit : (s'.devices i).maxConsecutiveErrors = (s.devices i).maxConsecutiveErrors)
    (hconsecutive : (probe (e :: log)).stage ≠ .clearing i →
      (s'.devices i).consecutiveErrors.toNat ≤ errorsSinceMark i log) :
    WithinBudget i s' (e :: log) := by
  have herrors : errorsSinceMark i (e :: log) = errorsSinceMark i log := by
    rw [errorsSinceMark_cons hmarked, herred]
    rfl
  refine ⟨?_, fun j hj => ?_, fun j max rest hj => ?_⟩
  · rw [herrors]
    exact hconsecutive
  · rw [herrors, hlimit]
    refine h.committed j ?_
    unfold Committed unplugged recording at hj ⊢
    rw [hlimit] at hj
    rcases hown j with hnil | ⟨hsame, hdoing⟩
    · rw [hnil] at hj
      cases hj.2
    · rwa [hsame, hdoing] at hj
  · rw [hlimit]
    rcases hown j with hnil | ⟨hsame, -⟩
    · rw [hnil] at hj
      cases hj
    · rw [hsame] at hj
      exact h.limit j max rest hj

/-- A thread that is committed after an action of another thread was committed before it. -/
theorem Committed.of_other {who : Option κ} {j : κ} {a : Act} {answer : a.Resp}
    (hne : who ≠ some j)
    (hlimit : (s'.devices i).maxConsecutiveErrors = (s.devices i).maxConsecutiveErrors)
    (h : Committed i s' (.acted who s a answer :: log) j) : Committed i s log j := by
  unfold Committed unplugged recording at h ⊢
  rw [Log.own_acted_of_ne hne, hlimit] at h
  exact h

/-- A thread that is committed after its own action has just counted the error, or was committed
before. -/
theorem Committed.of_self {j : κ} {a : Act}
    (hlimit : ((exec D a s).2.devices i).maxConsecutiveErrors = (s.devices i).maxConsecutiveErrors)
    (h : Committed i (exec D a s).2 (.acted (some j) s a (exec D a s).1 :: log) j) :
    (a.errs i = true ∧ unplugged (some j) log = false ∧
      (s.devices i).maxConsecutiveErrors.toUInt64 ≤ (s.devices i).consecutiveErrors + 1) ∨
    Committed i s log j := by
  obtain ⟨hplugged, hreached⟩ := h
  obtain ⟨prev, hprev, hle⟩ := (Option.any_eq_true _ _).mp hreached
  rw [hlimit, decide_eq_true_eq] at hle
  rw [Log.own_acted_self] at hprev
  obtain ⟨hresult, hcase⟩ := addedTo_cons hprev
  have hplugged' : unplugged (some j) log = false := by
    unfold unplugged recording at hplugged ⊢
    rw [Log.own_acted_self] at hplugged
    simp only [hresult] at hplugged
    exact hplugged
  rcases hcase with ⟨herrs, rfl⟩ | hold
  · exact .inl ⟨herrs, hplugged', hle⟩
  · exact .inr ⟨hplugged', (Option.any_eq_true _ _).mpr ⟨prev, hold, decide_eq_true hle⟩⟩

theorem toNat_le_succ_of_le {max : UInt32} {count : UInt64} (h : max.toUInt64 ≤ count + 1) :
    max.toNat ≤ count.toNat + 1 := by
  have hle := UInt64.le_iff_toNat_le.mp h
  rw [UInt64.toNat_add, UInt32.toNat_toUInt64] at hle
  exact hle.trans (Nat.mod_le _ _)

/-- A step of a client. -/
theorem WithinBudget.client {j : κ} {t : Task} {a : Act} {k : a.Resp → M Outcome}
    (h : WithinBudget i σ.shared σ.log) (htracked : Crew.Tracked n σ)
    (hsession : σ.session (some j) = .busy t (.act a k))
    (hallowed : Allowed n t (Log.own (some j) σ.log) a)
    (hundisturbed : Undisturbed i σ (.step (some j))) :
    WithinBudget i (exec D a σ.shared).2
      (.acted (some j) σ.shared a (exec D a σ.shared).1 :: σ.log) := by
  obtain ⟨hlimit, hadd⟩ := (hallowed.touch i).budget (D := D) σ.shared
  have herrors : errorsSinceMark i (.acted (some j) σ.shared a (exec D a σ.shared).1 :: σ.log) =
      errorsSinceMark i σ.log + if a.errs i then 1 else 0 := errorsSinceMark_cons rfl _
  refine ⟨fun hstage => ?_, fun j' hj' => ?_, fun j' max rest hj' => ?_⟩
  · rw [herrors]
    have hcons := h.consecutive hstage
    omega
  · rw [herrors, hlimit]
    by_cases hjj : j = j'
    · subst hjj
      rcases hj'.of_self hlimit with ⟨herrs, hplugged, hle⟩ | hold
      · -- the error has just been counted, and not between the two stores of the probe
        have hstage : (probe σ.log).stage ≠ .clearing i := by
          intro hclearing
          have hunplugged : unplugged (some j) σ.log = true := by
            refine hundisturbed ?_ ?_ hle
            · rw [htracked.nextAct_clearing hclearing]
              simp [Act.clears]
            · simp only [Sessions.nextAct, hsession, Prog.head?_act, Option.any_some, herrs]
          rw [hplugged] at hunplugged
          cases hunplugged
        have hcons := h.consecutive hstage
        have hmax := toNat_le_succ_of_le hle
        rw [herrs, if_pos rfl]
        omega
      · exact Nat.le_add_right_of_le (h.committed j hold)
    · have hne : (some j : Option κ) ≠ some j' := fun heq => hjj (Option.some.inj heq)
      exact Nat.le_add_right_of_le (h.committed j' (hj'.of_other hne hlimit))
  · rw [hlimit]
    by_cases hjj : j = j'
    · subst hjj
      rw [Log.own_acted_self] at hj'
      injection hj' with hevent _
      cases hevent
      rfl
    · have hne : (some j : Option κ) ≠ some j' := fun heq => hjj (Option.some.inj heq)
      rw [Log.own_acted_of_ne hne] at hj'
      exact h.limit j' max rest hj'

/-- A step of the probe. -/
theorem WithinBudget.probing {a : Act} (h : WithinBudget i s log) (hok : (probe log).Ok a)
    (hundisturbed : a.stores i true = true → ∀ j, ¬ Committed i s log j) :
    WithinBudget i (exec D a s).2 (.acted none s a (exec D a s).1 :: log) := by
  have hne (j : κ) : (none : Option κ) ≠ some j := fun heq => by cases heq
  have hown (j : κ) : Log.own (some j) (.acted none s a (exec D a s).1 :: log) = [] ∨
      Log.own (some j) (.acted none s a (exec D a s).1 :: log) = Log.own (some j) log ∧
        Log.doing (some j) (.acted none s a (exec D a s).1 :: log) = Log.doing (some j) log :=
    .inr ⟨Log.own_acted_of_ne (hne j) .., rfl⟩
  by_cases haway : a.Away i
  · have hslot := (haway.exec (D := D) s).1
    refine h.frame (haway.stores true) rfl hown (by rw [hslot]) fun _ => ?_
    rw [hslot]
    refine h.consecutive fun hclearing => ?_
    cases hok <;> simp_all [Act.Away]
  · cases hok with
    | mark k hstage =>
        obtain rfl : k = i := by_contra haway
        have hnone : ∀ j, ¬ Committed k (exec D (.storeHealthy k true) s).2
            (.acted none s (.storeHealthy k true) (exec D (.storeHealthy k true) s).1 :: log) j := by
          intro j hj
          exact hundisturbed (by simp [Act.stores]) j (hj.of_other (hne j) (by simp [exec]))
        refine ⟨fun hclearing => absurd rfl hclearing, fun j hj => absurd hj (hnone j), ?_⟩
        intro j max rest hj
        rw [Log.own_acted_of_ne (hne j)] at hj
        simpa [exec] using h.limit j max rest hj
    | clear k _ =>
        obtain rfl : k = i := by_contra haway
        refine h.frame rfl rfl hown (by simp [exec]) fun _ => ?_
        simp [exec]
    | _ => exact absurd trivial haway

/-- A recorder that makes the device fall has a cause. -/
theorem WithinBudget.budgeted {j : κ} {t : Task} {a : Act} {k : a.Resp → M Outcome}
    (h : WithinBudget i σ.shared σ.log) (htracked : Crew.Tracked n σ)
    (hsession : σ.session (some j) = .busy t (.act a k))
    (hallowed : Allowed n t (Log.own (some j) σ.log) a) (answer : a.Resp) :
    Budgeted i (.acted (some j) σ.shared a answer) σ.log := by
  intro hfell
  have hdoing := htracked.logged.busy hsession
  have hstores : a.stores i false = true := ((Bool.and_eq_true _ _).mp hfell).2
  obtain ⟨b, rfl⟩ : ∃ b, a = .storeHealthy i b := by
    cases a <;> simp_all [Act.stores]
  obtain ⟨rfl, hunplug | ⟨max, prev, rest, hown, hle⟩⟩ := hallowed
  · obtain ⟨_, _, -, r, hr, hisUnplug⟩ := hunplug
    refine .inl ?_
    simp only [unplugged, recording, hdoing, Option.bind_some, hr, Option.any_some, hisUnplug]
  · by_cases hplugged : unplugged (some j) σ.log = true
    · exact .inl hplugged
    · refine .inr (h.committed j ⟨Bool.eq_false_of_not_eq_true hplugged, ?_⟩)
      rw [← h.limit j max _ hown, hown]
      simp only [addedTo, if_true, Option.any_some, decide_eq_true_eq]
      exact hle

theorem WithinBudget.next (hn : 0 < n) (htracked : Crew.Tracked n σ)
    (h : WithinBudget i σ.shared σ.log ∧ σ.log.Each (Budgeted i)) {m : Move (Option κ) Task}
    (hundisturbed : Undisturbed i σ m) :
    Crew.Tracked n (σ.next D m).2 ∧ WithinBudget i (σ.next D m).2.shared (σ.next D m).2.log ∧
      (σ.next D m).2.log.Each (Budgeted i) := by
  obtain ⟨hbudget, heach⟩ := h
  refine htracked.next (fun s log => WithinBudget i s log ∧ log.Each (Budgeted i)) hn
    ⟨hbudget, heach⟩ m ?_ ?_ ?_ ?_
  · intro who t _
    exact ⟨hbudget.frame rfl rfl (fun j => Log.own_began (some j) who t σ.log) rfl
      hbudget.consecutive, heach.cons trivial⟩
  · intro j t a k hm hsession hallowed
    subst hm
    exact ⟨hbudget.client htracked hsession hallowed hundisturbed,
      heach.cons (hbudget.budgeted htracked hsession hallowed _)⟩
  · intro t a k hm hsession hok
    subst hm
    have hact : σ.nextAct none = some a := by
      simp only [Sessions.nextAct, hsession, Prog.head?_act]
    refine ⟨hbudget.probing hok fun hstores => hundisturbed ?_, heach.cons fun hfell => ?_⟩
    · rw [hact]
      exact hstores
    · have hstores : a.stores i false = true := ((Bool.and_eq_true _ _).mp hfell).2
      obtain ⟨rfl, -⟩ := hok.stage_of_stores hstores
      simp [Act.stores] at hstores
  · intro who t o _ _ _
    exact ⟨hbudget.frame rfl rfl (fun j => Log.own_ended (some j) who t o σ.log) rfl
      hbudget.consecutive, heach.cons trivial⟩

/-- In every run in which the recorders and the probe keep apart, a device falls only for an
unplug result or for as many errors since its last mark as its limit says.  The run starts when
the device has been opened. -/
theorem falls_budgeted_of_undisturbed (D : Driver δ) {s : State δ} (hn : 0 < s.numDevices) {i : ℕ}
    (hopened : (s.devices i).consecutiveErrors = 0) {moves : List (Move (Option κ) Task)}
    (hmoves : Machine.Always (Undisturbed i) (Crew.next D) (.start s) moves) :
    (Crew.after D (.start s) moves).log.Each (Budgeted i) := by
  have hinv : Crew.Tracked s.numDevices (Crew.after D (.start s : Crew κ δ) moves) ∧
      WithinBudget i (Crew.after D (.start s) moves).shared (Crew.after D (.start s) moves).log ∧
      (Crew.after D (.start s) moves).log.Each (Budgeted i) := by
    refine hmoves.invariant (fun σ : Crew κ δ => Crew.Tracked s.numDevices σ ∧
      WithinBudget i σ.shared σ.log ∧ σ.log.Each (Budgeted i)) ?_ ?_
    · intro σ m h hundisturbed
      exact WithinBudget.next hn h.1 h.2 hundisturbed
    · refine ⟨Crew.tracked_start hn, ⟨fun _ => ?_, fun j hj => ?_, fun j max rest hj => ?_⟩, .nil⟩
      · show (s.devices i).consecutiveErrors.toNat ≤ 0
        rw [hopened]
        exact Nat.le_refl 0
      · cases hj.2
      · cases hj
  exact hinv.2.2

/-- Ten failing deletes, and the recovery after them. -/
def exhaustion : List (Move (Option (Fin 2)) Task) :=
  (List.replicate 10 (deleting 0 12)).flatten ++ sweeping 7 ++ sweeping 7 ++ sweeping 9

theorem falls_budgeted_of_undisturbed_exhaustion :
    let σ := Crew.after (failingDeletes .sysIo) (.start freshEngine) exhaustion
    σ.log.any (fell 1) = true ∧ σ.log.any (marked 1) = true ∧ σ.log.Each (Budgeted 1) := by
  have hmoves : Machine.Always (Undisturbed 1) (Crew.next (failingDeletes .sysIo))
      (.start freshEngine) exhaustion := by
    decide +kernel
  exact ⟨by decide +kernel, by decide +kernel,
    falls_budgeted_of_undisturbed (failingDeletes .sysIo) (by decide +kernel) (by decide +kernel)
      hmoves⟩

/-- A delete of the second client is in flight while ten deletes of the first one fail.  The probe
marks the device healthy; before it resets `consecutive_errors` the second client counts its
error and finds the limit exceeded. -/
def lateError : List (Move (Option (Fin 2)) Task) :=
  deleting 1 4 ++ (List.replicate 10 (deleting 0 12)).flatten ++ sweeping 7 ++ sweeping 7 ++
    sweeping 6 ++ stepping (some 1) 3 ++ stepping none 1 ++ stepping (some 1) 2

/-- The device that has just been marked falls for a single error. -/
theorem late_error_condemns :
    let σ := Crew.after (failingDeletes .sysIo) (.start freshEngine) lateError
    ¬ σ.log.Each (Budgeted 1) ∧ (σ.shared.devices 1).healthy = false ∧
      errorsSinceMark 1 σ.log = 1 ∧ (σ.shared.devices 1).maxConsecutiveErrors = 10 := by
  decide +kernel

end budget

end KvEngine
