import KvEngine.ThreadPool
import Mathlib.Algebra.BigOperators.Group.Finset.Basic
import Mathlib.Algebra.Order.BigOperators.Group.Finset

/-! # Requests in the pool

Two invariants of every run of the pool.

`Pool.Sound` is the accounting: every accepted request is in the queue, or being executed by
one worker, or finished, and it is so exactly once.  It also says what the threads know: a
worker has exited only after `shutdown` was raised and the queue was empty, and
`kv_engine_cleanup` goes on to release the engine only when all workers have exited.

`Pool.Tracked` follows the programs of the requests.  A request is prepared by the thread of
the call, rejected there or executed by a worker, so at any time at most one thread runs a
program for it; `Tracked.step` is the rule of `Threads.lean` for the pool: an invariant of the
engine and of the phases of all requests follows from what single actions do. -/

namespace KvEngine

open Atomic

variable {δ : Type} {n : ℕ} {D : Driver δ} {config : Config} {req : ℕ → AsyncCall}

/-! ### Accounting -/

/-- Changing one summand. -/
theorem sum_update_add {α : Type} (f : α → ℕ) (g : Fin n → α) (w : Fin n) (x : α) :
    ∑ v, f (Function.update g w x v) + f (g w) = ∑ v, f (g v) + f x := by
  rw [← Finset.add_sum_erase _ _ (Finset.mem_univ w),
    ← Finset.add_sum_erase _ (fun v => f (g v)) (Finset.mem_univ w), Function.update_self]
  have hrest : ∑ v ∈ Finset.univ.erase w, f (Function.update g w x v) =
      ∑ v ∈ Finset.univ.erase w, f (g v) := by
    refine Finset.sum_congr rfl fun v hv => ?_
    rw [Function.update_of_ne (Finset.ne_of_mem_erase hv)]
  rw [hrest]
  omega

/-- One if the call has returned success. -/
def Submitter.accepted : Submitter → ℕ
  | .returned .success => 1
  | _ => 0

theorem accepted_returned {r : KvResult} (hr : r ≠ .success) :
    (Submitter.returned r).accepted = 0 := by
  cases r <;> first | rfl | exact absurd rfl hr

/-- One if the worker executes the request. -/
def Worker.runs (i : ℕ) : Worker → ℕ
  | .executing item _ => if item.arg.request = i then 1 else 0
  | _ => 0

/-- The item a call brings to the queue holds its arguments; a call that fails says so. -/
def Submitter.Names (c : AsyncCall) (i : ℕ) : Submitter → Prop
  | .idle => True
  | .preparing p => p.Ensures (Prepared fun item => c.Copied i item.arg)
  | .atLock item => c.Copied i item.arg
  | .waiting item => c.Copied i item.arg
  | .rejected p => p.Ensures (· ≠ .success)
  | .returned _ => True

theorem AsyncCall.Copied.request {c : AsyncCall} {i : ℕ} {ctx : AsyncContext}
    (h : c.Copied i ctx) : ctx.request = i := by
  cases c with
  | store key value callback userData overwrite =>
      obtain ⟨_, _, _, _, _, _, rfl, _⟩ := h
      rfl
  | retrieve key callback userData =>
      obtain ⟨_, _, _, rfl⟩ := h
      rfl
  | delete key callback userData =>
      obtain ⟨_, _, _, rfl⟩ := h
      rfl

namespace Pool

/-- How often the request is in the queue. -/
def queued (σ : Pool δ n) (i : ℕ) : ℕ := (σ.queue.map (·.arg.request)).count i

/-- The number of workers that execute the request. -/
def running (σ : Pool δ n) (i : ℕ) : ℕ := ∑ w, (σ.workers w).runs i

/-- What `kv_engine_cleanup` knows about the workers. -/
def Joined (σ : Pool δ n) : Cleaner → Prop
  | .idle => True
  | .stopping _ => True
  | .atShutdown => True
  | .joining j => σ.shutdown = true ∧ ∀ w : Fin n, w.val < j → σ.workers w = .exited
  | .leftovers => σ.shutdown = true ∧ ∀ w, σ.workers w = .exited
  | .releasing _ => σ.shutdown = true ∧ ∀ w, σ.workers w = .exited
  | .finished => σ.shutdown = true ∧ ∀ w, σ.workers w = .exited

/-- The accounting of the requests, and what the threads have seen. -/
structure Sound (req : ℕ → AsyncCall) (σ : Pool δ n) : Prop where
  names : ∀ i, (σ.calls i).Names (req i) i
  copied : ∀ item ∈ σ.queue, (req item.arg.request).Copied item.arg.request item.arg
  accepted : ∀ i, (σ.calls i).accepted = σ.queued i + σ.started.count i
  executed : ∀ i, σ.started.count i = σ.running i + σ.finished.count i
  exited : ∀ w, σ.workers w = .exited → σ.shutdown = true ∧ σ.queue = []
  joined : σ.Joined σ.cleaner
  woken : σ.shutdown = true → σ.notEmpty = [] ∧ σ.notFull = []

theorem start_sound (s : State δ) : (start n s).Sound req where
  names _ := trivial
  copied _ h := by cases h
  accepted _ := rfl
  executed i := by simp [start, running, Worker.runs]
  exited _ h := by cases h
  joined := trivial
  woken h := by cases h

theorem Joined.of_workers {σ τ : Pool δ n} {c : Cleaner} (h : σ.Joined c)
    (hshut : τ.shutdown = σ.shutdown)
    (hexit : ∀ w, σ.workers w = .exited → τ.workers w = .exited) : τ.Joined c := by
  cases c with
  | idle => trivial
  | stopping p => trivial
  | atShutdown => trivial
  | joining j => exact ⟨hshut.trans h.1, fun w hw => hexit w (h.2 w hw)⟩
  | leftovers => exact ⟨hshut.trans h.1, fun w => hexit w (h.2 w)⟩
  | releasing p => exact ⟨hshut.trans h.1, fun w => hexit w (h.2 w)⟩
  | finished => exact ⟨hshut.trans h.1, fun w => hexit w (h.2 w)⟩

section frame

variable {σ : Pool δ n} (h : σ.Sound req)
include h

/-- A call that has not been accepted goes on, and is not accepted. -/
theorem Sound.setCall (i : ℕ) (c : Submitter) (hold : (σ.calls i).accepted = 0)
    (hnew : c.accepted = 0) (hnames : c.Names (req i) i) (s : State δ) {blocked : CondVar ℕ}
    (hblocked : σ.shutdown = true → blocked = []) :
    Sound req { σ.setCall i c with engine := s, notFull := blocked } where
  names j := by
    by_cases hj : j = i
    · subst hj
      simpa [Pool.setCall] using hnames
    · simpa [Pool.setCall, Function.update_of_ne hj] using h.names j
  copied := h.copied
  accepted j := by
    have hsame := h.accepted j
    show (Function.update σ.calls i c j).accepted = σ.queued j + σ.started.count j
    by_cases hj : j = i
    · subst hj
      rw [Function.update_self]
      omega
    · rwa [Function.update_of_ne hj]
  executed := h.executed
  exited := h.exited
  joined := h.joined.of_workers rfl fun _ hw => hw
  woken hshut := ⟨(h.woken hshut).1, hblocked hshut⟩

/-- A worker goes on with the same request, or still without one. -/
theorem Sound.setWorker (w : Fin n) (x : Worker) (hold : σ.workers w ≠ .exited)
    (hruns : ∀ i, x.runs i = (σ.workers w).runs i)
    (hexit : x = .exited → σ.shutdown = true ∧ σ.queue = []) (s : State δ)
    {blocked : CondVar (Fin n)} (hblocked : σ.shutdown = true → blocked = []) :
    Sound req { σ.setWorker w x with engine := s, notEmpty := blocked } where
  names := h.names
  copied := h.copied
  accepted := h.accepted
  executed i := by
    have hsum := sum_update_add (Worker.runs i) σ.workers w x
    have hsame := h.executed i
    rw [hruns i] at hsum
    simp only [running, Pool.setWorker] at hsame ⊢
    omega
  exited v hv := by
    by_cases hvw : v = w
    · subst hvw
      exact hexit (by simpa [Pool.setWorker] using hv)
    · exact h.exited v (by simpa [Pool.setWorker, Function.update_of_ne hvw] using hv)
  joined := by
    refine h.joined.of_workers rfl fun v hv => ?_
    have hvw : v ≠ w := by
      rintro rfl
      exact hold hv
    simpa [Pool.setWorker, Function.update_of_ne hvw] using hv
  woken hshut := ⟨hblocked hshut, (h.woken hshut).2⟩

theorem Sound.setCleaner (c : Cleaner) (hc : σ.Joined c) (s : State δ) :
    Sound req { σ with engine := s, cleaner := c } where
  names := h.names
  copied := h.copied
  accepted := h.accepted
  executed := h.executed
  exited := h.exited
  joined := hc.of_workers rfl fun _ hw => hw
  woken := h.woken

theorem Sound.atSubmit {i : ℕ} {item : WorkItem} (hi : σ.AtSubmit i item) :
    (σ.calls i).accepted = 0 ∧ (req i).Copied i item.arg := by
  have hnames := h.names i
  rcases hi with hi | ⟨hi, _⟩ <;> rw [hi] at hnames ⊢ <;> exact ⟨rfl, hnames⟩

/-- An item enters the queue while the flag is down. -/
theorem Sound.accept {i : ℕ} {item : WorkItem} (wakes : Fin n) (hi : σ.AtSubmit i item)
    (hshut : σ.shutdown = false) :
    Sound req { σ.setCall i (.returned .success) with
      queue := σ.queue ++ [item]
      notEmpty := σ.notEmpty.signal wakes } where
  names j := by
    by_cases hj : j = i
    · subst hj
      simp [Pool.setCall, Submitter.Names]
    · simpa [Pool.setCall, Function.update_of_ne hj] using h.names j
  copied item' hitem' := by
    rcases List.mem_append.mp hitem' with hold | hnew
    · exact h.copied item' hold
    · obtain rfl : item' = item := by simpa using hnew
      have hcopied := (h.atSubmit hi).2
      rw [hcopied.request]
      exact hcopied
  accepted j := by
    obtain ⟨hold, hcopied⟩ := h.atSubmit hi
    have hsame := h.accepted j
    simp only [queued, List.map_append, List.map_cons, List.map_nil, List.count_append,
      Pool.setCall, hcopied.request] at hsame ⊢
    by_cases hj : j = i
    · subst hj
      simp only [Function.update_self, Submitter.accepted, List.count_singleton_self]
      omega
    · have hone : List.count j [i] = 0 := by simp [Ne.symm hj]
      simp only [Function.update_of_ne hj]
      omega
  executed := h.executed
  exited w hw := by
    rw [(h.exited w hw).1] at hshut
    cases hshut
  joined := h.joined.of_workers rfl fun _ hw => hw
  woken hraised := by
    rw [show σ.shutdown = true from hraised] at hshut
    cases hshut

omit h in
theorem AtQueue.idle {w : Fin n} (hw : σ.AtQueue w) :
    σ.workers w ≠ .exited ∧ ∀ i, (σ.workers w).runs i = 0 := by
  rcases hw with hw | ⟨hw, _⟩ <;> rw [hw] <;> exact ⟨by simp, fun _ => rfl⟩

/-- A worker takes the head of the queue. -/
theorem Sound.take {w : Fin n} {item : WorkItem} {rest : List WorkItem} (wakes : ℕ)
    (hw : σ.AtQueue w) (hqueue : σ.queue = item :: rest) :
    Sound req { σ.setWorker w (.executing item (executeItem item)) with
      queue := rest
      notFull := σ.notFull.signal wakes
      started := σ.started ++ [item.arg.request] } where
  names := h.names
  copied item' hitem' := h.copied item' (by rw [hqueue]; exact List.mem_cons_of_mem _ hitem')
  accepted i := by
    have hsame := h.accepted i
    simp only [queued, hqueue, List.map_cons, List.count_cons, List.count_append, List.count_nil,
      Pool.setWorker] at hsame ⊢
    omega
  executed i := by
    obtain ⟨_, hidle⟩ := hw.idle
    have hsum := sum_update_add (Worker.runs i) σ.workers w (.executing item (executeItem item))
    have hsame := h.executed i
    have hruns : (Worker.executing item (executeItem item)).runs i =
        List.count i [item.arg.request] := by
      simp [Worker.runs, List.count_cons]
    rw [hidle i, hruns] at hsum
    simp only [running, Pool.setWorker, List.count_append] at hsame ⊢
    omega
  exited v hv := by
    by_cases hvw : v = w
    · subst hvw
      simp [Pool.setWorker] at hv
    · have hexit := h.exited v (by simpa [Pool.setWorker, Function.update_of_ne hvw] using hv)
      rw [hqueue] at hexit
      cases hexit.2
  joined := by
    refine h.joined.of_workers rfl fun v hv => ?_
    have hvw : v ≠ w := by
      rintro rfl
      exact hw.idle.1 hv
    simpa [Pool.setWorker, Function.update_of_ne hvw] using hv
  woken hshut := by
    obtain ⟨hne, hnf⟩ := h.woken hshut
    refine ⟨hne, ?_⟩
    simp [hnf, CondVar.signal]

/-- A worker has executed its item. -/
theorem Sound.finish {w : Fin n} {item : WorkItem} {p : M Unit}
    (hw : σ.workers w = .executing item p) :
    Sound req { σ.setWorker w .atLock with finished := σ.finished ++ [item.arg.request] } where
  names := h.names
  copied := h.copied
  accepted := h.accepted
  executed i := by
    have hsum := sum_update_add (Worker.runs i) σ.workers w .atLock
    have hsame := h.executed i
    have hruns : (σ.workers w).runs i = List.count i [item.arg.request] := by
      rw [hw]
      simp [Worker.runs, List.count_cons]
    have hidle : Worker.atLock.runs i = 0 := rfl
    rw [hidle, hruns] at hsum
    simp only [running, Pool.setWorker, List.count_append] at hsame ⊢
    omega
  exited v hv := by
    by_cases hvw : v = w
    · subst hvw
      simp [Pool.setWorker] at hv
    · exact h.exited v (by simpa [Pool.setWorker, Function.update_of_ne hvw] using hv)
  joined := by
    refine h.joined.of_workers rfl fun v hv => ?_
    have hvw : v ≠ w := by
      rintro rfl
      rw [hw] at hv
      cases hv
    simpa [Pool.setWorker, Function.update_of_ne hvw] using hv
  woken := h.woken

theorem Sound.raise :
    Sound req { σ with
      shutdown := true
      notEmpty := σ.notEmpty.broadcast
      notFull := σ.notFull.broadcast
      cleaner := .joining 0 } where
  names := h.names
  copied := h.copied
  accepted := h.accepted
  executed := h.executed
  exited w hw := ⟨rfl, (h.exited w hw).2⟩
  joined := ⟨rfl, fun _ hw => absurd hw (Nat.not_lt_zero _)⟩
  woken _ := ⟨rfl, rfl⟩

/-- All workers have exited when the loop over the leftover items starts, and the queue is
empty. -/
theorem Sound.leftovers_empty (hn : 0 < n) (hc : σ.cleaner = .leftovers) : σ.queue = [] := by
  have hjoined := h.joined
  rw [hc] at hjoined
  exact (h.exited ⟨0, hn⟩ (hjoined.2 _)).2

end frame

/-- Every transition keeps the accounting. -/
theorem Sound.step (hn : 0 < n) {σ τ : Pool δ n} (h : σ.Sound req) (hstep : Step D config req σ τ) :
    τ.Sound req := by
  have hjoined := h.joined
  cases hstep with
  | stay => exact h
  | spuriousWorker w =>
      refine { h with joined := h.joined.of_workers rfl fun _ hw => hw, woken := fun hshut => ?_ }
      obtain ⟨hne, hnf⟩ := h.woken hshut
      exact ⟨by simp [hne, CondVar.spurious], hnf⟩
  | spuriousCall i =>
      refine { h with joined := h.joined.of_workers rfl fun _ hw => hw, woken := fun hshut => ?_ }
      obtain ⟨hne, hnf⟩ := h.woken hshut
      exact ⟨hne, by simp [hnf, CondVar.spurious]⟩
  | @invoke i hi =>
      exact h.setCall i (.preparing _) (by rw [hi]; rfl) rfl (asyncCall_ensures i (req i)) σ.engine
        fun hshut => (h.woken hshut).2
  | @prepare i a k hi =>
      have hnames := h.names i
      rw [hi] at hnames
      exact h.setCall i (.preparing _) (by rw [hi]; rfl) rfl (hnames _) _
        fun hshut => (h.woken hshut).2
  | @refuse i e hi =>
      have hnames := h.names i
      rw [hi] at hnames
      exact h.setCall i (.returned e) (by rw [hi]; rfl) (accepted_returned hnames) trivial σ.engine
        fun hshut => (h.woken hshut).2
  | @arrive i item hi =>
      have hnames := h.names i
      rw [hi] at hnames
      exact h.setCall i (.atLock item) (by rw [hi]; rfl) rfl hnames σ.engine
        fun hshut => (h.woken hshut).2
  | @reject i item hi hshut =>
      have hfails : (asyncRejected item).Ensures (· ≠ .success) := fun _ _ => by
        show KvResult.io ≠ .success
        decide
      exact h.setCall i (.rejected (asyncRejected item)) (h.atSubmit hi).1 rfl hfails σ.engine
        fun hshut => (h.woken hshut).2
  | @block i item hi hshut hfull =>
      obtain ⟨hold, hcopied⟩ := h.atSubmit hi
      refine h.setCall i (.waiting item) hold rfl hcopied σ.engine fun hraised => ?_
      rw [hraised] at hshut
      cases hshut
  | accept wakes hi hshut hroom => exact h.accept wakes hi hshut
  | @unwind i a k hi =>
      have hnames := h.names i
      rw [hi] at hnames
      exact h.setCall i (.rejected _) (by rw [hi]; rfl) rfl (hnames _) _
        fun hshut => (h.woken hshut).2
  | @giveUp i r hi =>
      have hnames := h.names i
      rw [hi] at hnames
      exact h.setCall i (.returned r) (by rw [hi]; rfl) (accepted_returned hnames) trivial σ.engine
        fun hshut => (h.woken hshut).2
  | @wait w hw hempty hshut =>
      obtain ⟨hold, hidle⟩ := hw.idle
      refine h.setWorker w .waiting hold (fun i => (hidle i).symm) (fun hx => by cases hx) σ.engine
        fun hraised => ?_
      rw [hraised] at hshut
      cases hshut
  | @exit w hw hempty hshut =>
      obtain ⟨hold, hidle⟩ := hw.idle
      exact h.setWorker w .exited hold (fun i => (hidle i).symm) (fun _ => ⟨hshut, hempty⟩) σ.engine
        fun hraised => (h.woken hraised).1
  | take wakes hw hqueue => exact h.take wakes hw hqueue
  | @execute w item a k hw =>
      exact h.setWorker w (.executing item _) (by rw [hw]; simp) (fun i => by rw [hw]; rfl)
        (fun hx => by cases hx) _
        fun hraised => (h.woken hraised).1
  | finish hw => exact h.finish hw
  | cleanup hc => exact h.setCleaner (.stopping _) trivial σ.engine
  | stop hc => exact h.setCleaner (.stopping _) trivial _
  | stopped hc => exact h.setCleaner .atShutdown trivial σ.engine
  | shutdown hc => exact h.raise
  | @join w hc hw =>
      rw [hc] at hjoined
      refine h.setCleaner (.joining (w + 1)) ⟨hjoined.1, fun v hv => ?_⟩ _
      by_cases hvw : v = w
      · rwa [hvw]
      · have hne : v.val ≠ w.val := fun heq => hvw (Fin.ext heq)
        exact hjoined.2 v (by omega)
  | @joined j hc hj =>
      rw [hc] at hjoined
      have hall := fun w => hjoined.2 w (lt_of_lt_of_le w.isLt hj)
      exact h.setCleaner .leftovers ⟨hjoined.1, hall⟩ σ.engine
  | drop hc hqueue =>
      have hempty := h.leftovers_empty hn hc
      rw [hqueue] at hempty
      cases hempty
  | drained hc hqueue =>
      rw [hc] at hjoined
      exact h.setCleaner (.releasing _) hjoined σ.engine
  | @release a k hc =>
      rw [hc] at hjoined
      exact h.setCleaner (.releasing (k (exec D a σ.engine).1)) hjoined _
  | released hc =>
      rw [hc] at hjoined
      exact h.setCleaner .finished hjoined σ.engine

/-! ### One place for each request -/

theorem accepted_le (c : Submitter) : c.accepted ≤ 1 := by
  unfold Submitter.accepted
  split <;> omega

theorem eq_returned_of_accepted {c : Submitter} (h : c.accepted = 1) : c = .returned .success := by
  unfold Submitter.accepted at h
  split at h
  · rfl
  · cases h

theorem runs_executing {item : WorkItem} {p : M Unit} :
    (Worker.executing item p).runs item.arg.request = 1 := by
  simp [Worker.runs]

theorem runs_le_running (σ : Pool δ n) (i : ℕ) (w : Fin n) : (σ.workers w).runs i ≤ σ.running i :=
  Finset.single_le_sum (f := fun v => (σ.workers v).runs i) (fun _ _ => Nat.zero_le _)
    (Finset.mem_univ w)

theorem runs_add_runs_le_running (σ : Pool δ n) (i : ℕ) {v w : Fin n} (hvw : v ≠ w) :
    (σ.workers v).runs i + (σ.workers w).runs i ≤ σ.running i := by
  have hsub : ({v, w} : Finset (Fin n)) ⊆ Finset.univ := Finset.subset_univ _
  have hsum := Finset.sum_le_sum_of_subset (f := fun v => (σ.workers v).runs i) hsub
  rwa [Finset.sum_pair hvw] at hsum

theorem queued_pos {σ : Pool δ n} {item : WorkItem} (h : item ∈ σ.queue) :
    0 < σ.queued item.arg.request :=
  List.count_pos_iff.mpr (List.mem_map_of_mem h)

/-- No queued item, no worker and no finished execution belongs to the request. -/
structure Absent (σ : Pool δ n) (i : ℕ) : Prop where
  queue : ∀ item ∈ σ.queue, item.arg.request ≠ i
  workers : ∀ w item p, σ.workers w = .executing item p → item.arg.request ≠ i
  finished : i ∉ σ.finished

section places

variable {σ : Pool δ n} (h : σ.Sound req)
include h

/-- A request that was not accepted is nowhere in the pool. -/
theorem Sound.absent {i : ℕ} (hi : (σ.calls i).accepted = 0) : σ.Absent i := by
  have hacc := h.accepted i
  have hexe := h.executed i
  refine ⟨?_, ?_, ?_⟩
  · rintro item hitem rfl
    have := queued_pos hitem
    omega
  · rintro w item p hw rfl
    have := runs_le_running σ item.arg.request w
    rw [hw, runs_executing] at this
    omega
  · intro hfin
    have := List.count_pos_iff.mpr hfin
    omega

/-- A request that is being executed was accepted, and is nowhere else. -/
theorem Sound.sole {w : Fin n} {item : WorkItem} {p : M Unit}
    (hw : σ.workers w = .executing item p) :
    σ.calls item.arg.request = .returned .success ∧
      (∀ item' ∈ σ.queue, item'.arg.request ≠ item.arg.request) ∧
      (∀ v item' p', v ≠ w → σ.workers v = .executing item' p' →
        item'.arg.request ≠ item.arg.request) ∧
      item.arg.request ∉ σ.finished := by
  have hacc := h.accepted item.arg.request
  have hexe := h.executed item.arg.request
  have hle := accepted_le (σ.calls item.arg.request)
  have hrun := runs_le_running σ item.arg.request w
  rw [hw, runs_executing] at hrun
  refine ⟨eq_returned_of_accepted (by omega), ?_, ?_, ?_⟩
  · intro item' hitem' heq
    have := queued_pos hitem'
    rw [heq] at this
    omega
  · intro v item' p' hvw hv heq
    have hsum := runs_add_runs_le_running σ item.arg.request hvw
    have hone : (σ.workers v).runs item.arg.request = 1 := by
      rw [hv, ← heq]
      exact runs_executing
    rw [hw, runs_executing, hone] at hsum
    omega
  · intro hfin
    have := List.count_pos_iff.mpr hfin
    omega

end places

/-! ### Tracking the programs of the requests -/

section tracking

variable {Q : Type} (P : ℕ → Protocol Act Act.Resp Q) (first : ℕ → Q) (done : ℕ → Q → Prop)

/-- A call is in the first phase until its item is queued, unless it fails. -/
def CallInPhase (i : ℕ) (q : Q) : Submitter → Prop
  | .idle => q = first i
  | .preparing p => p.Follows (P i) (fun q r => ∀ item, r = .ok item → q = first i) q
  | .atLock _ => q = first i
  | .waiting _ => q = first i
  | .rejected p => p.Follows (P i) (fun _ _ => True) q
  | .returned _ => True

/-- The cleanup is in the middle of a program that only cleans up. -/
def CleansUp : Cleaner → Prop
  | .stopping p => p.Performs Act.CleansUp
  | .releasing p => p.Performs Act.CleansUp
  | _ => True

/-- Every request follows its protocol from its phase on: it is in the first phase while it is
queued, and `done` when its execution has finished. -/
structure Tracked (σ : Pool δ n) (phase : ℕ → Q) : Prop where
  calls : ∀ i, CallInPhase P first i (phase i) (σ.calls i)
  queued : ∀ item ∈ σ.queue, phase item.arg.request = first item.arg.request
  executing : ∀ w item p, σ.workers w = .executing item p →
    p.Follows (P item.arg.request) (fun q _ => done item.arg.request q) (phase item.arg.request)
  finished : ∀ i ∈ σ.finished, done i (phase i)
  cleaner : CleansUp σ.cleaner

variable {P first done} {σ : Pool δ n} {phase : ℕ → Q} (h : Tracked P first done σ phase)
include h

/-- A call of a request that is nowhere in the pool goes on. -/
theorem Tracked.setCall (i : ℕ) (c : Submitter) {q : Q} (hi : σ.Absent i)
    (hc : CallInPhase P first i q c) (s : State δ) (blocked : CondVar ℕ) :
    Tracked P first done { σ.setCall i c with engine := s, notFull := blocked }
      (Function.update phase i q) where
  calls j := by
    by_cases hj : j = i
    · subst hj
      simpa [Pool.setCall] using hc
    · simpa [Pool.setCall, Function.update_of_ne hj] using h.calls j
  queued item hitem := by
    rw [Function.update_of_ne (hi.queue item hitem)]
    exact h.queued item hitem
  executing w item p hw := by
    rw [Function.update_of_ne (hi.workers w item p hw)]
    exact h.executing w item p hw
  finished j hj := by
    have hji : j ≠ i := by
      rintro rfl
      exact hi.finished hj
    rw [Function.update_of_ne hji]
    exact h.finished j hj
  cleaner := h.cleaner

theorem Tracked.keepCall (i : ℕ) (c : Submitter) (hi : σ.Absent i)
    (hc : CallInPhase P first i (phase i) c) (s : State δ) (blocked : CondVar ℕ) :
    Tracked P first done { σ.setCall i c with engine := s, notFull := blocked } phase := by
  have hset := h.setCall i c hi hc s blocked
  rwa [Function.update_eq_self] at hset

theorem Tracked.atSubmit {i : ℕ} {item : WorkItem} (hi : σ.AtSubmit i item) :
    phase i = first i := by
  have hphase := h.calls i
  rcases hi with hi | ⟨hi, _⟩ <;> rw [hi] at hphase <;> exact hphase

/-- A worker that executes nothing goes on. -/
theorem Tracked.setWorker (w : Fin n) (x : Worker) (hx : ∀ item p, x ≠ .executing item p)
    (s : State δ) (blocked : CondVar (Fin n)) :
    Tracked P first done { σ.setWorker w x with engine := s, notEmpty := blocked } phase where
  calls := h.calls
  queued := h.queued
  executing v item p hv := by
    by_cases hvw : v = w
    · subst hvw
      exact absurd (by simpa [Pool.setWorker] using hv) (hx item p)
    · exact h.executing v item p (by simpa [Pool.setWorker, Function.update_of_ne hvw] using hv)
  finished := h.finished
  cleaner := h.cleaner

theorem Tracked.setCleaner (c : Cleaner) (hc : CleansUp c) (s : State δ) :
    Tracked P first done { σ with engine := s, cleaner := c } phase where
  calls := h.calls
  queued := h.queued
  executing := h.executing
  finished := h.finished
  cleaner := hc

/-- A worker takes an item that follows the protocol of its request. -/
theorem Tracked.take {w : Fin n} {item : WorkItem} {rest : List WorkItem}
    (hqueue : σ.queue = item :: rest)
    (hitem : (executeItem item).Follows (P item.arg.request) (fun q _ => done item.arg.request q)
      (first item.arg.request)) (blocked : CondVar ℕ) (started : List ℕ) :
    Tracked P first done { σ.setWorker w (.executing item (executeItem item)) with
      queue := rest
      notFull := blocked
      started := started } phase where
  calls := h.calls
  queued item' hitem' := h.queued item' (by rw [hqueue]; exact List.mem_cons_of_mem _ hitem')
  executing v item' p hv := by
    by_cases hvw : v = w
    · subst hvw
      obtain ⟨rfl, rfl⟩ : item = item' ∧ executeItem item = p := by
        simpa [Pool.setWorker] using hv
      rw [h.queued item (by rw [hqueue]; exact List.mem_cons_self)]
      exact hitem
    · exact h.executing v item' p (by simpa [Pool.setWorker, Function.update_of_ne hvw] using hv)
  finished := h.finished
  cleaner := h.cleaner

/-- A worker performs an action of its item. -/
theorem Tracked.execute (hsound : σ.Sound req) {w : Fin n} {item : WorkItem} {p p' : M Unit} {q : Q}
    (hw : σ.workers w = .executing item p)
    (hp' : p'.Follows (P item.arg.request) (fun q _ => done item.arg.request q) q) (s : State δ) :
    Tracked P first done { σ.setWorker w (.executing item p') with engine := s }
      (Function.update phase item.arg.request q) := by
  obtain ⟨hcall, hqueue, hothers, hfin⟩ := hsound.sole hw
  refine ⟨fun j => ?_, fun item' hitem' => ?_, fun v item' p₁ hv => ?_, fun j hj => ?_, h.cleaner⟩
  · by_cases hj : j = item.arg.request
    · subst hj
      simp [Pool.setWorker, hcall, CallInPhase]
    · rw [Function.update_of_ne hj]
      exact h.calls j
  · rw [Function.update_of_ne (hqueue item' hitem')]
    exact h.queued item' hitem'
  · by_cases hvw : v = w
    · subst hvw
      obtain ⟨rfl, rfl⟩ : item = item' ∧ p' = p₁ := by simpa [Pool.setWorker] using hv
      rwa [Function.update_self]
    · have hv' : σ.workers v = .executing item' p₁ := by
        simpa [Pool.setWorker, Function.update_of_ne hvw] using hv
      rw [Function.update_of_ne (hothers v item' p₁ hvw hv')]
      exact h.executing v item' p₁ hv'
  · have hji : j ≠ item.arg.request := by
      rintro rfl
      exact hfin hj
    rw [Function.update_of_ne hji]
    exact h.finished j hj

/-- A worker finishes its item. -/
theorem Tracked.finish {w : Fin n} {item : WorkItem} {u : Unit}
    (hw : σ.workers w = .executing item (.ret u)) :
    Tracked P first done
      { σ.setWorker w .atLock with finished := σ.finished ++ [item.arg.request] } phase := by
  have hkeep := h.setWorker w .atLock (fun _ _ => by simp) σ.engine σ.notEmpty
  refine { hkeep with finished := fun j hj => ?_, calls := h.calls, queued := h.queued,
                      executing := hkeep.executing, cleaner := h.cleaner }
  rcases List.mem_append.mp hj with hj | hj
  · exact h.finished j hj
  · obtain rfl : j = item.arg.request := by simpa using hj
    exact h.executing w item _ hw

theorem Tracked.accept (hsound : σ.Sound req) {i : ℕ} {item : WorkItem} (hi : σ.AtSubmit i item)
    (blocked : CondVar (Fin n)) :
    Tracked P first done { σ.setCall i (.returned .success) with
      queue := σ.queue ++ [item]
      notEmpty := blocked } phase where
  calls j := by
    by_cases hj : j = i
    · subst hj
      simp [Pool.setCall, CallInPhase]
    · simpa [Pool.setCall, Function.update_of_ne hj] using h.calls j
  queued item' hitem' := by
    rcases List.mem_append.mp hitem' with hitem' | hitem'
    · exact h.queued item' hitem'
    · obtain rfl : item' = item := by simpa using hitem'
      rw [(hsound.atSubmit hi).2.request]
      exact h.atSubmit hi
  executing := h.executing
  finished := h.finished
  cleaner := h.cleaner

/-- The rule for one transition of the pool: if every program of a request keeps to the protocol
of the request, and every action keeps the invariant and is answered as the protocol says, then
the transition keeps both the invariant and the tracking. -/
theorem Tracked.step {Inv : State δ → (ℕ → Q) → Prop} (hn : 0 < n) (hsound : σ.Sound req)
    (hinv : Inv σ.engine phase) {τ : Pool δ n} (hstep : Step D config req σ τ)
    (hprepare : ∀ i, ((req i).prog i).Follows (P i) (fun q r => ∀ item, r = .ok item → q = first i)
      (first i))
    (hreject : ∀ i item, (req i).Copied i item.arg →
      (asyncRejected item).Follows (P i) (fun _ _ => True) (first i))
    (hexecute : ∀ item ∈ σ.queue, (executeItem item).Follows (P item.arg.request)
      (fun q _ => done item.arg.request q) (first item.arg.request))
    (hact : ∀ i a, (P i).ok (phase i) a → (P i).answers (phase i) a (exec D a σ.engine).1 ∧
      Inv (exec D a σ.engine).2
        (Function.update phase i ((P i).next (phase i) a (exec D a σ.engine).1)))
    (hclean : σ.cleaner ≠ .idle → ∀ a : Act, a.CleansUp → Inv (exec D a σ.engine).2 phase) :
    ∃ phase', Tracked P first done τ phase' ∧ Inv τ.engine phase' := by
  have hcleaner := h.cleaner
  cases hstep with
  | stay => exact ⟨phase, h, hinv⟩
  | spuriousWorker w => exact ⟨phase, { h with }, hinv⟩
  | spuriousCall i => exact ⟨phase, { h with }, hinv⟩
  | @invoke i hi =>
      have hphase := h.calls i
      rw [hi] at hphase
      refine ⟨phase, h.keepCall i (.preparing ((req i).prog i)) (hsound.absent (by rw [hi]; rfl)) ?_
        σ.engine σ.notFull, hinv⟩
      rw [show phase i = first i from hphase]
      exact hprepare i
  | @prepare i a k hi =>
      obtain ⟨hok, hk⟩ : Prog.Follows _ _ (.act a k) (phase i) := by
        have hphase := h.calls i
        rwa [hi] at hphase
      obtain ⟨hans, hinv'⟩ := hact i a hok
      exact ⟨_, h.setCall i (.preparing _) (hsound.absent (by rw [hi]; rfl)) (hk _ hans) _ _, hinv'⟩
  | @refuse i e hi =>
      exact ⟨phase, h.keepCall i (.returned e) (hsound.absent (by rw [hi]; rfl)) trivial σ.engine
        σ.notFull, hinv⟩
  | @arrive i item hi =>
      have hphase := h.calls i
      rw [hi] at hphase
      exact ⟨phase, h.keepCall i (.atLock item) (hsound.absent (by rw [hi]; rfl)) (hphase item rfl)
        σ.engine σ.notFull, hinv⟩
  | @reject i item hi hshut =>
      obtain ⟨hacc, hcopied⟩ := hsound.atSubmit hi
      refine ⟨phase, h.keepCall i (.rejected (asyncRejected item)) (hsound.absent hacc) ?_ σ.engine
        σ.notFull, hinv⟩
      rw [h.atSubmit hi]
      exact hreject i item hcopied
  | @block i item hi hshut hfull =>
      exact ⟨phase, h.keepCall i (.waiting item) (hsound.absent (hsound.atSubmit hi).1)
        (h.atSubmit hi) σ.engine _, hinv⟩
  | accept wakes hi hshut hroom => exact ⟨phase, h.accept hsound hi _, hinv⟩
  | @unwind i a k hi =>
      obtain ⟨hok, hk⟩ : Prog.Follows _ _ (.act a k) (phase i) := by
        have hphase := h.calls i
        rwa [hi] at hphase
      obtain ⟨hans, hinv'⟩ := hact i a hok
      exact ⟨_, h.setCall i (.rejected _) (hsound.absent (by rw [hi]; rfl)) (hk _ hans) _ _, hinv'⟩
  | @giveUp i r hi =>
      exact ⟨phase, h.keepCall i (.returned r) (hsound.absent (by rw [hi]; rfl)) trivial σ.engine
        σ.notFull, hinv⟩
  | @wait w hw hempty hshut =>
      exact ⟨phase, h.setWorker w .waiting (fun _ _ => by simp) σ.engine _, hinv⟩
  | @exit w hw hempty hshut =>
      exact ⟨phase, h.setWorker w .exited (fun _ _ => by simp) σ.engine σ.notEmpty, hinv⟩
  | take wakes hw hqueue =>
      exact ⟨phase, h.take hqueue (hexecute _ (by rw [hqueue]; exact List.mem_cons_self)) _ _, hinv⟩
  | @execute w item a k hw =>
      obtain ⟨hok, hk⟩ := h.executing w item _ hw
      obtain ⟨hans, hinv'⟩ := hact item.arg.request a hok
      exact ⟨_, h.execute hsound hw (hk _ hans) _, hinv'⟩
  | finish hw => exact ⟨phase, h.finish hw, hinv⟩
  | cleanup hc => exact ⟨phase, h.setCleaner (.stopping stopProbe) stopProbe_cleansUp σ.engine, hinv⟩
  | @stop a k hc =>
      rw [hc] at hcleaner
      exact ⟨phase, h.setCleaner (.stopping _) (hcleaner.2 _) _, hclean (by simp [hc]) a hcleaner.1⟩
  | stopped hc => exact ⟨phase, h.setCleaner .atShutdown trivial σ.engine, hinv⟩
  | shutdown hc =>
      exact ⟨phase, { h.setCleaner (.joining 0) trivial σ.engine with }, hinv⟩
  | @join w hc hw =>
      exact ⟨phase, h.setCleaner (.joining _) trivial _, hclean (by simp [hc]) _ trivial⟩
  | joined hc hj => exact ⟨phase, h.setCleaner .leftovers trivial σ.engine, hinv⟩
  | drop hc hqueue =>
      have hempty := hsound.leftovers_empty hn hc
      rw [hqueue] at hempty
      cases hempty
  | drained hc hqueue =>
      have hfree : freeThreadPool.Performs Act.CleansUp :=
        freeThreadPool_performs fun _ => trivial
      exact ⟨phase, h.setCleaner (.releasing (do freeThreadPool; releaseEngine config))
        (hfree.bind fun _ => releaseEngine_cleansUp config) σ.engine, hinv⟩
  | @release a k hc =>
      rw [hc] at hcleaner
      exact ⟨phase, h.setCleaner (.releasing _) (hcleaner.2 _) _,
        hclean (by simp [hc]) a hcleaner.1⟩
  | released hc => exact ⟨phase, h.setCleaner .finished trivial σ.engine, hinv⟩

end tracking

end Pool

/-! ### The programs of a call -/

section programs

variable {Q : Type} {P : Protocol Act Act.Resp Q} {q : Q} {i : ℕ}

theorem asyncFrontEnd_follows {pointers : Bool} {key : Option Bytes}
    {create : Bytes → M (Option AsyncContext)} (hcreate : ∀ k, (create k).Performs Act.Prepares)
    (hprepares : ∀ a : Act, a.Prepares → P.ok q a ∧ ∀ r, P.next q a r = q)
    (hfree : P.ok q (.freeContext i)) :
    (asyncFrontEnd i pointers key create).Follows P (fun q' r => ∀ item, r = .ok item → q' = q)
      q := by
  have hfail (e : KvResult) (q' : Q) :
      (Prog.ret (.error e) : M (Except KvResult WorkItem)).Follows P
        (fun q' r => ∀ item, r = .ok item → q' = q) q' := fun item h => by cases h
  obtain ⟨hinit, hinit'⟩ := hprepares .loadInitialized trivial
  refine ⟨hinit, fun initialized _ => ?_⟩
  rw [hinit']
  cases key with
  | none => exact hfail .invalidParam q
  | some key =>
      show Prog.Follows _ _ (if _ then _ else _) _
      split
      · exact hfail .invalidParam q
      · split
        · exact hfail .invalidParam q
        · obtain ⟨hworkers, hworkers'⟩ := hprepares .loadWorkers trivial
          refine ⟨hworkers, fun workers _ => ?_⟩
          rw [hworkers']
          show Prog.Follows _ _ (if _ then _ else _) _
          split
          · exact hfail .notInitialized q
          · refine ((hcreate key).follows hprepares).bind fun q' ctx hq' => ?_
            subst hq'
            cases ctx with
            | none => exact hfail .noMemory q'
            | some ctx =>
                obtain ⟨halloc, halloc'⟩ := hprepares (.alloc workItemSize) trivial
                refine ⟨halloc, fun item _ => ?_⟩
                rw [halloc']
                cases item with
                | none => exact ⟨hfree, fun _ _ => hfail .io _⟩
                | some item => exact fun _ _ => rfl

/-- A call up to the lock frees its context at most once, and only when it fails. -/
theorem asyncCall_follows (c : AsyncCall)
    (hprepares : ∀ a : Act, a.Prepares → P.ok q a ∧ ∀ r, P.next q a r = q)
    (hfree : P.ok q (.freeContext i)) :
    (c.prog i).Follows P (fun q' r => ∀ item, r = .ok item → q' = q) q := by
  cases c with
  | store key value callback userData overwrite =>
      exact asyncFrontEnd_follows (fun k => asyncContextCreate_prepares _ _ _ _ _ _ _) hprepares hfree
  | retrieve key callback userData =>
      refine asyncFrontEnd_follows (fun k => ?_) hprepares hfree
      exact (asyncContextCreate_prepares _ _ _ _ _ _ _).bind fun _ => trivial
  | delete key callback userData =>
      exact asyncFrontEnd_follows (fun k => asyncContextCreate_prepares _ _ _ _ _ _ _) hprepares hfree

theorem asyncRejected_follows {item : WorkItem} (hitem : item.arg.request = i)
    (hprepares : ∀ a : Act, a.Prepares → P.ok q a ∧ ∀ r, P.next q a r = q)
    (hfree : P.ok q (.freeContext i)) :
    (asyncRejected item).Follows P (fun _ _ => True) q := by
  obtain ⟨hok, hnext⟩ := hprepares (.free item.addr) trivial
  refine ⟨hok, fun _ _ => ?_⟩
  rw [hnext]
  exact ⟨by rwa [hitem], fun _ _ => trivial⟩

end programs

end KvEngine
