import KvEngine.Drain

/-! # Nobody is left asleep

A worker blocks on `queue_not_empty` only when it found the queue empty under `queue_lock`, and
every submission signals.  So as long as the queue holds an item, some worker is not blocked, or
was notified (`Pool.Roused`).  It follows that the workers can empty the queue from every state
and finish what they have begun (`exists_rested`).

A call blocks on `queue_not_full` only when it found the queue full, and every item that is taken
signals.  So as long as calls are blocked, the free slots of the queue are matched by different
calls that were notified and have not been through their section since (`Pool.Matched`). -/

namespace KvEngine

open Atomic

variable {δ : Type} {n : ℕ} {D : Driver δ} {config : Config} {req : ℕ → AsyncCall}

/-- The worker executes an item. -/
def Worker.busy : Worker → Bool
  | .executing _ _ => true
  | _ => false

namespace Pool

/-- The blocked workers are in `pthread_cond_wait`, each once, and while the queue holds an item
there is a worker that is not among them. -/
structure Roused (σ : Pool δ n) : Prop where
  blocked : ∀ w ∈ σ.notEmpty, σ.workers w = .waiting
  nodup : σ.notEmpty.Nodup
  awake : σ.queue ≠ [] → ∃ w, w ∉ σ.notEmpty ∧ σ.workers w ≠ .exited

theorem start_roused (s : State δ) : (start n s).Roused where
  blocked _ h := by cases h
  nodup := List.nodup_nil
  awake h := absurd rfl h

section frame

variable {σ : Pool δ n} (h : σ.Roused)
include h

theorem Roused.not_blocked {w : Fin n} (hw : σ.workers w ≠ .waiting) : w ∉ σ.notEmpty :=
  fun hmem => hw (h.blocked w hmem)

theorem Roused.atQueue {w : Fin n} (hw : σ.AtQueue w) : w ∉ σ.notEmpty := by
  rcases hw with hw | ⟨_, hwoken⟩
  · exact h.not_blocked (by rw [hw]; simp)
  · exact hwoken

/-- A worker that is not blocked goes on. -/
theorem Roused.setWorker {w : Fin n} (hw : w ∉ σ.notEmpty) (x : Worker) {queue : List WorkItem}
    (hqueue : queue ≠ [] → x ≠ .exited) (s : State δ) (blocked : CondVar ℕ)
    (started finished : List ℕ) :
    Roused { σ.setWorker w x with
      engine := s, queue := queue, notFull := blocked, started := started,
      finished := finished } where
  blocked v hv := by
    have hvw : v ≠ w := by
      rintro rfl
      exact hw hv
    simpa [Pool.setWorker, Function.update_of_ne hvw] using h.blocked v hv
  nodup := h.nodup
  awake hne := ⟨w, hw, by simpa [Pool.setWorker] using hqueue hne⟩

end frame

/-- Every transition keeps the workers roused. -/
theorem Roused.step (hn : 0 < n) {σ τ : Pool δ n} (hsound : σ.Sound req) (h : σ.Roused)
    (hstep : Step D config req σ τ) : τ.Roused := by
  cases hstep with
  | spuriousWorker w =>
      refine ⟨fun v hv => h.blocked v (List.mem_of_mem_erase hv), h.nodup.erase w, fun hne => ?_⟩
      obtain ⟨v, hv, hexit⟩ := h.awake hne
      exact ⟨v, fun hmem => hv (List.mem_of_mem_erase hmem), hexit⟩
  | @accept i item wakes hi hshut hroom =>
      have hsub := CondVar.signal_sublist wakes σ.notEmpty
      refine ⟨fun v hv => h.blocked v (hsub.subset hv), h.nodup.sublist hsub, fun _ => ?_⟩
      -- nobody has exited, and the signal wakes a worker unless none is blocked
      have hexit (w : Fin n) : σ.workers w ≠ .exited := by
        intro hw
        rw [(hsound.exited w hw).1] at hshut
        cases hshut
      by_cases hnone : σ.notEmpty = []
      · refine ⟨⟨0, hn⟩, fun hmem => ?_, hexit _⟩
        have hmem' := hsub.subset hmem
        rw [hnone] at hmem'
        cases hmem'
      · obtain ⟨v, _, hv⟩ := CondVar.exists_notified wakes h.nodup hnone
        exact ⟨v, hv, hexit v⟩
  | @wait w hw hempty hshut =>
      have hfree := h.atQueue hw
      refine ⟨fun v hv => ?_, ?_, fun hne => absurd hempty hne⟩
      · by_cases hvw : v = w
        · subst hvw
          simp [Pool.setWorker]
        · have hold : v ∈ σ.notEmpty := (List.mem_append.mp hv).resolve_right (by simpa using hvw)
          simpa [Pool.setWorker, Function.update_of_ne hvw] using h.blocked v hold
      · exact List.Nodup.append h.nodup (List.nodup_singleton w)
          (List.disjoint_singleton.mpr hfree)
  | @exit w hw hempty hshut =>
      exact h.setWorker (h.atQueue hw) .exited (fun hne => absurd hempty hne) σ.engine σ.notFull
        σ.started σ.finished
  | @take w item rest wakes hw hqueue =>
      exact h.setWorker (h.atQueue hw) (.executing item (executeItem item)) (fun _ => by simp)
        σ.engine _ _ σ.finished
  | @execute w item a k hw =>
      exact h.setWorker (h.not_blocked (by rw [hw]; simp)) (.executing item _) (fun _ => by simp)
        _ σ.notFull σ.started σ.finished
  | @finish w item u hw =>
      exact h.setWorker (h.not_blocked (by rw [hw]; simp)) .atLock (fun _ => by simp) σ.engine
        σ.notFull σ.started _
  | shutdown hc =>
      refine ⟨fun v hv => (by cases hv), List.nodup_nil, fun hne => ?_⟩
      obtain ⟨v, _, hexit⟩ := h.awake hne
      exact ⟨v, List.not_mem_nil, hexit⟩
  | @drop item rest hc hqueue =>
      exact ⟨h.blocked, h.nodup, fun _ => h.awake (by rw [hqueue]; simp)⟩
  | _ => exact ⟨h.blocked, h.nodup, h.awake⟩

/-! ### Slots -/

/-- The call was notified, or woke up spuriously, and has not been through its section since. -/
def Notified (σ : Pool δ n) (i : ℕ) : Prop := (∃ item, σ.calls i = .waiting item) ∧ i ∉ σ.notFull

/-- The blocked calls are in `pthread_cond_wait`, each once, and while there are any, the free
slots of the queue are matched by notified calls. -/
structure Matched (config : Config) (σ : Pool δ n) : Prop where
  blocked : ∀ i ∈ σ.notFull, ∃ item, σ.calls i = .waiting item
  nodup : σ.notFull.Nodup
  slots : σ.notFull ≠ [] → ∃ notified : List ℕ, notified.Nodup ∧
    (∀ i ∈ notified, σ.Notified i) ∧ config.queueCapacity ≤ σ.queue.length + notified.length

theorem start_matched (s : State δ) : (start n s).Matched config where
  blocked _ h := by cases h
  nodup := List.nodup_nil
  slots h := absurd rfl h

section frame

variable {σ : Pool δ n} (h : σ.Matched config)
include h

theorem Matched.not_blocked {i : ℕ} (hi : ∀ item, σ.calls i ≠ .waiting item) : i ∉ σ.notFull := by
  intro hmem
  obtain ⟨item, hitem⟩ := h.blocked i hmem
  exact hi item hitem

theorem Matched.atSubmit {i : ℕ} {item : WorkItem} (hi : σ.AtSubmit i item) : i ∉ σ.notFull := by
  rcases hi with hi | ⟨_, hwoken⟩
  · exact h.not_blocked fun _ => by rw [hi]; simp
  · exact hwoken

/-- A call that is not blocked goes on.  If it was notified, it has used a slot. -/
theorem Matched.setCall {i : ℕ} (hi : i ∉ σ.notFull) (c : Submitter) {queue : List WorkItem}
    (hle : σ.queue.length ≤ queue.length) (hused : σ.Notified i → σ.queue.length < queue.length)
    (s : State δ) (blocked : CondVar (Fin n)) :
    Matched config { σ.setCall i c with engine := s, queue := queue, notEmpty := blocked } where
  blocked j hj := by
    have hji : j ≠ i := by
      rintro rfl
      exact hi hj
    simpa [Pool.setCall, Function.update_of_ne hji] using h.blocked j hj
  nodup := h.nodup
  slots hne := by
    obtain ⟨notified, hnodup, hmem, hslots⟩ := h.slots hne
    refine ⟨notified.erase i, hnodup.erase i, fun j hj => ?_, ?_⟩
    · have hji : j ≠ i := by
        rintro rfl
        exact hnodup.not_mem_erase hj
      obtain ⟨hwaiting, hfree⟩ := hmem j (List.mem_of_mem_erase hj)
      exact ⟨by simpa [Pool.setCall, Function.update_of_ne hji] using hwaiting, hfree⟩
    · show config.queueCapacity ≤ queue.length + (notified.erase i).length
      by_cases hin : i ∈ notified
      · have hlength := List.length_erase_of_mem hin
        have hlt := hused (hmem i hin)
        omega
      · rw [List.erase_of_not_mem hin]
        omega

end frame

/-- Every transition keeps the slots matched. -/
theorem Matched.step {σ τ : Pool δ n} (hsound : σ.Sound req) (h : σ.Matched config)
    (hstep : Step D config req σ τ) : τ.Matched config := by
  -- a call that is not in `pthread_cond_wait` goes on
  have hcall {i : ℕ} (hi : ∀ item, σ.calls i ≠ .waiting item) (c : Submitter) (s : State δ) :
      Matched config { σ.setCall i c with engine := s } :=
    h.setCall (h.not_blocked hi) c le_rfl
      (fun hnotified => hnotified.1.elim fun item hitem => absurd hitem (hi item)) s σ.notEmpty
  -- after `shutdown` was raised no call is blocked
  have hclosed (τ : Pool δ n) (hnone : τ.notFull = []) : τ.Matched config := by
    refine ⟨fun i hi => ?_, ?_, fun hne => absurd hnone hne⟩
    · rw [hnone] at hi
      cases hi
    · rw [hnone]
      exact List.nodup_nil
  cases hstep with
  | spuriousCall i =>
      refine ⟨fun j hj => h.blocked j (List.mem_of_mem_erase hj), h.nodup.erase i, fun hne => ?_⟩
      obtain ⟨notified, hnodup, hmem, hslots⟩ := h.slots fun hnone => hne (by
        show σ.notFull.erase i = []
        rw [hnone]
        rfl)
      exact ⟨notified, hnodup,
        fun j hj => ⟨(hmem j hj).1, fun hblocked => (hmem j hj).2 (List.mem_of_mem_erase hblocked)⟩,
        hslots⟩
  | @invoke i hi => exact hcall (fun _ => by rw [hi]; simp) _ σ.engine
  | @prepare i a k hi => exact hcall (fun _ => by rw [hi]; simp) _ _
  | @refuse i e hi => exact hcall (fun _ => by rw [hi]; simp) _ σ.engine
  | @arrive i item hi => exact hcall (fun _ => by rw [hi]; simp) _ σ.engine
  | @unwind i a k hi => exact hcall (fun _ => by rw [hi]; simp) _ _
  | @giveUp i r hi => exact hcall (fun _ => by rw [hi]; simp) _ σ.engine
  | reject hi hshut => exact hclosed _ (hsound.woken hshut).2
  | @block i item hi hshut hfull =>
      have hfree := h.atSubmit hi
      refine ⟨fun j hj => ?_, ?_, fun _ => ⟨[], List.nodup_nil, by simp, hfull⟩⟩
      · by_cases hji : j = i
        · subst hji
          exact ⟨item, by simp [Pool.setCall]⟩
        · have hold : j ∈ σ.notFull := (List.mem_append.mp hj).resolve_right (by simpa using hji)
          simpa [Pool.setCall, Function.update_of_ne hji] using h.blocked j hold
      · exact List.Nodup.append h.nodup (List.nodup_singleton i)
          (List.disjoint_singleton.mpr hfree)
  | @accept i item wakes hi hshut hroom =>
      have hlonger : σ.queue.length < (σ.queue ++ [item]).length := by simp
      exact h.setCall (h.atSubmit hi) (.returned .success) hlonger.le (fun _ => hlonger) σ.engine _
  | @take w item rest wakes hw hqueue =>
      have hsub := CondVar.signal_sublist wakes σ.notFull
      refine ⟨fun j hj => h.blocked j (hsub.subset hj), h.nodup.sublist hsub, fun hne => ?_⟩
      have hsome : σ.notFull ≠ [] := fun hnone => hne (List.sublist_nil.mp (hnone ▸ hsub))
      obtain ⟨notified, hnodup, hmem, hslots⟩ := h.slots hsome
      -- the slot that becomes free is matched by the call that the signal notifies
      obtain ⟨v, hv, hwoken⟩ := CondVar.exists_notified wakes h.nodup hsome
      refine ⟨v :: notified, List.nodup_cons.mpr ⟨fun hin => (hmem v hin).2 hv, hnodup⟩,
        fun j hj => ?_, ?_⟩
      · rcases List.mem_cons.mp hj with rfl | hj
        · exact ⟨h.blocked j hv, hwoken⟩
        · exact ⟨(hmem j hj).1, fun hblocked => (hmem j hj).2 (hsub.subset hblocked)⟩
      · rw [hqueue] at hslots
        simp only [List.length_cons] at hslots ⊢
        omega
  | shutdown hc => exact hclosed _ rfl
  | @drop item rest hc hqueue =>
      have hjoined := hsound.joined
      rw [hc] at hjoined
      exact hclosed _ (hsound.woken hjoined.1).2
  | _ => exact ⟨h.blocked, h.nodup, h.slots⟩

/-! ### Rest -/

/-- The queue is empty and no worker executes an item. -/
structure Rests (σ : Pool δ n) : Prop where
  queue : σ.queue = []
  workers : ∀ w, (σ.workers w).busy = false

/-- The accepted requests are those in the queue and those that were started. -/
theorem Sound.returned_iff {σ : Pool δ n} (h : σ.Sound req) (i : ℕ) :
    σ.calls i = .returned .success ↔ 0 < σ.queued i + σ.started.count i := by
  rw [← h.accepted i]
  constructor
  · intro hi
    rw [hi]
    exact Nat.one_pos
  · intro hpos
    exact eq_returned_of_accepted (by have := accepted_le (σ.calls i); omega)

/-- At rest every accepted request has been executed. -/
theorem Sound.finished_of_rests {σ : Pool δ n} (h : σ.Sound req) (hrest : σ.Rests) {i : ℕ}
    (hi : σ.calls i = .returned .success) : i ∈ σ.finished := by
  have hstarted := (h.returned_iff i).mp hi
  have hexe := h.executed i
  have hqueued : σ.queued i = 0 := by
    rw [queued, hrest.queue]
    rfl
  have hrunning : σ.running i = 0 := by
    refine Finset.sum_eq_zero fun w _ => ?_
    have hidle := hrest.workers w
    cases hw : σ.workers w with
    | executing item p =>
        rw [hw] at hidle
        cases hidle
    | _ => rfl
  exact List.count_pos_iff.mp (by omega)

section progress

variable (D config req)

/-- The calls and the cleanup have not moved. -/
structure Inward (σ τ : Pool δ n) : Prop where
  reaches : Reaches D config req σ τ
  calls : τ.calls = σ.calls
  cleaner : τ.cleaner = σ.cleaner

variable {D config req}

theorem Inward.trans {σ τ υ : Pool δ n} (h : Inward D config req σ τ)
    (h' : Inward D config req τ υ) : Inward D config req σ υ :=
  ⟨h.reaches.trans h'.reaches, h'.calls.trans h.calls, h'.cleaner.trans h.cleaner⟩

theorem Alone.inward {w : Fin n} {σ τ : Pool δ n} (h : Alone w σ τ)
    (hreach : Reaches D config req σ τ) : Inward D config req σ τ := ⟨hreach, h.calls, h.cleaner⟩

variable (D config req)

/-- Some worker can empty the queue. -/
theorem exists_emptied_queue {σ : Pool δ n} (h : σ.Roused) :
    ∃ τ, Inward D config req σ τ ∧ τ.queue = [] := by
  by_cases hqueue : σ.queue = []
  · exact ⟨σ, ⟨.refl, rfl, rfl⟩, hqueue⟩
  · obtain ⟨w, hfree, hexit⟩ := h.awake hqueue
    have hatQueue (σ : Pool δ n) (hw : σ.AtQueue w) :
        ∃ τ, Inward D config req σ τ ∧ τ.queue = [] := by
      obtain ⟨τ, hreach, hempty, _, halone⟩ := exists_emptied D config req w _ σ rfl hw
      exact ⟨τ, halone.inward hreach, hempty⟩
    cases hw : σ.workers w with
    | atLock => exact hatQueue σ (.inl hw)
    | waiting => exact hatQueue σ (.inr ⟨hw, hfree⟩)
    | executing item p =>
        obtain ⟨τ, hreach, hlock, _, halone⟩ := exists_executed D config req w item p σ hw
        obtain ⟨υ, hinward, hempty⟩ := hatQueue τ (.inl hlock)
        exact ⟨υ, (halone.inward hreach).trans hinward, hempty⟩
    | exited => exact absurd hw hexit

/-- With an empty queue, the workers in `ws` can finish what they execute. -/
theorem exists_finished_workers (ws : List (Fin n)) {σ : Pool δ n} (hqueue : σ.queue = []) :
    ∃ τ, Inward D config req σ τ ∧ τ.queue = [] ∧
      ∀ w ∈ ws, (τ.workers w).busy = false := by
  induction ws with
  | nil => exact ⟨σ, ⟨.refl, rfl, rfl⟩, hqueue, by simp⟩
  | cons w ws ih =>
      obtain ⟨τ, hinward, hempty, hdone⟩ := ih
      cases hw : τ.workers w with
      | executing item p =>
          obtain ⟨υ, hreach, hlock, hsame, halone⟩ := exists_executed D config req w item p τ hw
          refine ⟨υ, hinward.trans (halone.inward hreach), hsame.trans hempty, fun v hv => ?_⟩
          by_cases hvw : v = w
          · subst hvw
            rw [hlock]
            rfl
          · rw [halone.others v hvw]
            exact hdone v ((List.mem_cons.mp hv).resolve_left hvw)
      | _ =>
          refine ⟨τ, hinward, hempty, fun v hv => ?_⟩
          by_cases hvw : v = w
          · subst hvw
            rw [hw]
            rfl
          · exact hdone v ((List.mem_cons.mp hv).resolve_left hvw)

/-- The workers can come to rest from every state in which they are roused. -/
theorem exists_rested {σ : Pool δ n} (h : σ.Roused) :
    ∃ τ, Inward D config req σ τ ∧ τ.Rests := by
  obtain ⟨τ, hinward, hempty⟩ := exists_emptied_queue D config req h
  obtain ⟨υ, hinward', hempty', hdone⟩ :=
    exists_finished_workers D config req (List.finRange n) hempty
  exact ⟨υ, hinward.trans hinward', hempty', fun w => hdone w (List.mem_finRange w)⟩

end progress

end Pool

end KvEngine
