import KvEngine.Crew
import Mathlib.Algebra.Order.BigOperators.Group.Finset
import Mathlib.Data.Fintype.Option

/-! # Health snapshots

`kv_engine_get_device_health` loads `consecutive_errors`, `total_errors` and `total_ops` one after
the other, while recorders add to them in the opposite order.  `Ordered` is the invariant: every
error in `total_errors` has been counted in `total_ops`, and the threads that have counted an
operation but not (yet) an error are in reserve; the same one level below.  Since the totals only
grow, what a reader has loaded stays below what it loads next (`Reading`). -/

namespace KvEngine

open Atomic

/-! ### Pending counts -/

/-- One for each addition to `total_ops` of the device. -/
def opsOf (i : ℕ) : Event Act Act.Resp → ℕ
  | ⟨.fetchAddTotalOps j, _⟩ => if j = i then 1 else 0
  | _ => 0

/-- One for each addition to `total_errors` of the device. -/
def errorsOf (i : ℕ) : Event Act Act.Resp → ℕ
  | ⟨.fetchAddTotalErrors j, _⟩ => if j = i then 1 else 0
  | _ => 0

/-- The weight of the latest action. -/
def pending (w : Event Act Act.Resp → ℕ) : Events → ℕ
  | [] => 0
  | e :: _ => w e

theorem pending_cons (w : Event Act Act.Resp → ℕ) (e : Event Act Act.Resp) (ev : Events) :
    pending w (e :: ev) = w e := rfl

theorem Act.Away.opsOf {a : Act} {i : ℕ} (h : a.Away i) (answer : a.Resp) :
    KvEngine.opsOf i ⟨a, answer⟩ = 0 := by
  cases a with
  | fetchAddTotalOps j => exact if_neg h
  | _ => rfl

theorem Act.Away.errorsOf {a : Act} {i : ℕ} (h : a.Away i) (answer : a.Resp) :
    KvEngine.errorsOf i ⟨a, answer⟩ = 0 := by
  cases a with
  | fetchAddTotalErrors j => exact if_neg h
  | _ => rfl

theorem toNat_succ {x : UInt64} (h : x.toNat + 1 < 2 ^ 64) : (x + 1).toNat = x.toNat + 1 := by
  rw [UInt64.toNat_add]
  exact Nat.mod_eq_of_lt h

/-! ### The invariant -/

section snapshots

variable {κ δ : Type} {D : Driver δ} {i : ℕ} {s s' : State δ} {log : History κ δ}

/-- What a thread has loaded is below what it may load next. -/
structure Reading (i : ℕ) (c : DeviceCtx) (ev : Events) : Prop where
  first : ∀ consecutive rest, ev = ⟨.loadConsecutiveErrors i, consecutive⟩ :: rest →
    consecutive ≤ c.totalErrors
  second : ∀ errors consecutive rest,
    ev = ⟨.loadTotalErrors i, errors⟩ :: ⟨.loadConsecutiveErrors i, consecutive⟩ :: rest →
    consecutive ≤ errors ∧ errors ≤ c.totalOps
  complete : ∀ h, Snapshot i ev h →
    h.consecutiveErrors ≤ h.totalErrors ∧ h.totalErrors ≤ h.totalOps

theorem Reading.nil (i : ℕ) (c : DeviceCtx) : Reading i c [] where
  first _ _ h := by cases h
  second _ _ _ h := by cases h
  complete _ h := by
    obtain ⟨later, earlier, heq⟩ := h
    cases later <;> cases heq

theorem Reading.mono {c c' : DeviceCtx} {ev : Events} (h : Reading i c ev)
    (herrors : c.totalErrors ≤ c'.totalErrors) (hops : c.totalOps ≤ c'.totalOps) :
    Reading i c' ev where
  first consecutive rest heq := UInt64.le_trans (h.first consecutive rest heq) herrors
  second errors consecutive rest heq := by
    obtain ⟨h₁, h₂⟩ := h.second errors consecutive rest heq
    exact ⟨h₁, UInt64.le_trans h₂ hops⟩
  complete := h.complete

/-- The thread performs an action; its loads are answered from the slot. -/
theorem Reading.cons {a : Act} {ev : Events} (h : Reading i (s.devices i) ev)
    (herrors : (s.devices i).consecutiveErrors ≤ (s.devices i).totalErrors)
    (hops : (s.devices i).totalErrors ≤ (s.devices i).totalOps) :
    Reading i (s.devices i) (⟨a, (exec D a s).1⟩ :: ev) where
  first consecutive rest heq := by
    injection heq with hevent _
    cases hevent
    exact herrors
  second errors consecutive rest heq := by
    injection heq with hevent hrest
    cases hevent
    exact ⟨h.first consecutive rest hrest, hops⟩
  complete health hsnapshot := by
    obtain ⟨later, earlier, heq⟩ := hsnapshot
    cases later with
    | nil =>
        injection heq with hevent hrest
        have hread := h.second _ _ _ hrest
        cases a with
        | loadTotalOps j =>
            injection hevent with hact hanswer
            injection hact with hj
            subst hj
            rw [← hanswer]
            exact hread
        | _ => injection hevent with hact _; cases hact
    | cons e later =>
        injection heq with _ hrest
        exact h.complete health ⟨later, earlier, hrest⟩

variable [DecidableEq κ] [Fintype κ]

/-- The counters of the device are in order, with room for the counts that are pending. -/
structure Ordered (i : ℕ) (s : State δ) (log : History κ δ) : Prop where
  errors : (s.devices i).totalErrors.toNat + ∑ t, pending (opsOf i) (log.own t) ≤
    (s.devices i).totalOps.toNat
  consecutive : (s.devices i).consecutiveErrors.toNat + ∑ t, pending (errorsOf i) (log.own t) ≤
    (s.devices i).totalErrors.toNat
  reading : ∀ j, Reading i (s.devices i) (log.own (some j))

theorem Ordered.le (h : Ordered i s log) :
    (s.devices i).consecutiveErrors ≤ (s.devices i).totalErrors ∧
      (s.devices i).totalErrors ≤ (s.devices i).totalOps := by
  have herrors := h.errors
  have hconsecutive := h.consecutive
  constructor
  · exact UInt64.le_iff_toNat_le.mpr (by omega)
  · exact UInt64.le_iff_toNat_le.mpr (by omega)

/-- The counters after a step of a client: the totals grow, and only by what is pending. -/
theorem Touch.counters {t : Task} {ev : Events} {a : Act} (h : Touch t ev i a)
    (hops : (s.devices i).totalOps.toNat + opsOf i ⟨a, (exec D a s).1⟩ < 2 ^ 64)
    (herrors : (s.devices i).totalErrors.toNat + pending (opsOf i) ev ≤
      (s.devices i).totalOps.toNat)
    (hconsecutive : (s.devices i).consecutiveErrors.toNat + pending (errorsOf i) ev ≤
      (s.devices i).totalErrors.toNat) :
    ((exec D a s).2.devices i).totalOps.toNat =
        (s.devices i).totalOps.toNat + opsOf i ⟨a, (exec D a s).1⟩ ∧
      ((exec D a s).2.devices i).totalErrors.toNat =
        (s.devices i).totalErrors.toNat + errorsOf i ⟨a, (exec D a s).1⟩ ∧
      errorsOf i ⟨a, (exec D a s).1⟩ ≤ pending (opsOf i) ev ∧
      ((exec D a s).2.devices i).consecutiveErrors.toNat ≤
        (s.devices i).consecutiveErrors.toNat + pending (errorsOf i) ev := by
  cases h with
  | ops =>
      have hone : opsOf i ⟨.fetchAddTotalOps i, (exec D (.fetchAddTotalOps i) s).1⟩ = 1 := if_pos rfl
      rw [hone] at hops ⊢
      refine ⟨?_, ?_, Nat.zero_le _, ?_⟩
      · simpa [exec] using toNat_succ hops
      · simp [exec, errorsOf]
      · simp [exec]
  | errors hev =>
      obtain ⟨answer, rest, rfl⟩ := hev
      have hone : pending (opsOf i) (⟨.fetchAddTotalOps i, answer⟩ :: rest) = 1 := if_pos rfl
      have hone' : errorsOf i ⟨.fetchAddTotalErrors i, (exec D (.fetchAddTotalErrors i) s).1⟩ = 1 :=
        if_pos rfl
      have hlt := (s.devices i).totalOps.toNat_lt
      rw [hone] at herrors
      rw [hone, hone']
      refine ⟨?_, ?_, Nat.le_refl 1, ?_⟩
      · simp [exec, opsOf]
      · have hsucc : (s.devices i).totalErrors.toNat + 1 < 2 ^ 64 := by omega
        simpa [exec] using toNat_succ hsucc
      · simp [exec]
  | consecutive hev =>
      obtain ⟨answer, rest, rfl⟩ := hev
      have hone : pending (errorsOf i) (⟨.fetchAddTotalErrors i, answer⟩ :: rest) = 1 := if_pos rfl
      have hlt := (s.devices i).totalErrors.toNat_lt
      rw [hone] at hconsecutive
      rw [hone]
      refine ⟨?_, ?_, Nat.zero_le _, ?_⟩
      · simp [exec, opsOf]
      · simp [exec, errorsOf]
      · have hsucc : (s.devices i).consecutiveErrors.toNat + 1 < 2 ^ 64 := by omega
        have hadd := toNat_succ hsucc
        simpa [exec] using hadd.le
  | reset => simp [exec, opsOf, errorsOf]
  | condemn _ => simp [exec, opsOf, errorsOf]
  | away haway =>
      rw [(haway.exec s).1, haway.opsOf, haway.errorsOf]
      exact ⟨rfl, rfl, Nat.zero_le _, Nat.le_add_right _ _⟩

theorem pending_le_sum (w : Event Act Act.Resp → ℕ) (log : History κ δ) (who : Option κ) :
    pending w (log.own who) ≤ ∑ t, pending w (log.own t) :=
  Finset.single_le_sum (f := fun t => pending w (log.own t)) (fun _ _ => Nat.zero_le _)
    (Finset.mem_univ who)

/-- A step of a client. -/
theorem Ordered.client {j : κ} {t : Task} {a : Act} (h : Ordered i s log)
    (htouch : Touch t (log.own (some j)) i a)
    (hops : (s.devices i).totalOps.toNat + opsOf i ⟨a, (exec D a s).1⟩ < 2 ^ 64) :
    ((exec D a s).2.devices i).totalOps.toNat =
        (s.devices i).totalOps.toNat + opsOf i ⟨a, (exec D a s).1⟩ ∧
      Ordered i (exec D a s).2 (.acted (some j) s a (exec D a s).1 :: log) := by
  have herrors := h.errors
  have hconsecutive := h.consecutive
  have hle := h.le
  have hops' := pending_le_sum (opsOf i) log (some j)
  have herrors' := pending_le_sum (errorsOf i) log (some j)
  obtain ⟨htotalOps, htotalErrors, hpending, hcons⟩ :=
    htouch.counters (D := D) hops (by omega) (by omega)
  have hsumOps := Log.sum_own_acted (pending (opsOf i)) (some j) s a (exec D a s).1 log
  have hsumErrors := Log.sum_own_acted (pending (errorsOf i)) (some j) s a (exec D a s).1 log
  rw [pending_cons] at hsumOps hsumErrors
  refine ⟨htotalOps, by omega, by omega, fun j' => ?_⟩
  have hmono (ev : Events) (hev : Reading i (s.devices i) ev) :
      Reading i ((exec D a s).2.devices i) ev :=
    hev.mono (UInt64.le_iff_toNat_le.mpr (by omega)) (UInt64.le_iff_toNat_le.mpr (by omega))
  refine hmono _ ?_
  by_cases hj : j = j'
  · subst hj
    rw [Log.own_acted_self]
    exact (h.reading j).cons hle.1 hle.2
  · have hne : (some j : Option κ) ≠ some j' := fun heq => hj (Option.some.inj heq)
    rw [Log.own_acted_of_ne hne]
    exact h.reading j'

/-- An entry that is not an action of a client. -/
theorem Ordered.frame {e : Entry κ δ} (h : Ordered i s log)
    (hslot : (s'.devices i).totalOps = (s.devices i).totalOps ∧
      (s'.devices i).totalErrors = (s.devices i).totalErrors ∧
      (s'.devices i).consecutiveErrors ≤ (s.devices i).consecutiveErrors)
    (hsum : ∀ w, w = opsOf i ∨ w = errorsOf i →
      ∑ t, pending w (Log.own t (e :: log)) ≤ ∑ t, pending w (log.own t))
    (hown : ∀ j, Log.own (some j) (e :: log) = [] ∨
      Log.own (some j) (e :: log) = log.own (some j)) : Ordered i s' (e :: log) := by
  obtain ⟨hops, herrors, hconsecutive⟩ := hslot
  have hle := UInt64.le_iff_toNat_le.mp hconsecutive
  refine ⟨?_, ?_, fun j => ?_⟩
  · rw [hops, herrors]
    exact (Nat.add_le_add_left (hsum _ (.inl rfl)) _).trans h.errors
  · rw [herrors]
    exact (Nat.add_le_add hle (hsum _ (.inr rfl))).trans h.consecutive
  · rcases hown j with hnil | hsame
    · rw [hnil]
      exact .nil i _
    · rw [hsame]
      exact (h.reading j).mono (UInt64.le_of_eq herrors.symm) (UInt64.le_of_eq hops.symm)

/-- The probe adds to no counter. -/
theorem ProbePhase.Ok.counters {q : ProbePhase} {a : Act} (hok : q.Ok a) (s : State δ) :
    ((exec D a s).2.devices i).totalOps = (s.devices i).totalOps ∧
      ((exec D a s).2.devices i).totalErrors = (s.devices i).totalErrors ∧
      ((exec D a s).2.devices i).consecutiveErrors ≤ (s.devices i).consecutiveErrors := by
  by_cases haway : a.Away i
  · rw [(haway.exec s).1]
    exact ⟨rfl, rfl, UInt64.le_refl _⟩
  · cases hok with
    | mark k _ =>
        obtain rfl : k = i := by_contra haway
        simp [exec]
    | clear k _ =>
        obtain rfl : k = i := by_contra haway
        simp [exec]
    | _ => exact absurd trivial haway

/-- A step of the probe. -/
theorem Ordered.probing {q : ProbePhase} {a : Act} (h : Ordered i s log) (hok : q.Ok a) :
    opsOf i ⟨a, (exec D a s).1⟩ = 0 ∧
      ((exec D a s).2.devices i).totalOps = (s.devices i).totalOps ∧
      Ordered i (exec D a s).2 (.acted none s a (exec D a s).1 :: log) := by
  have hweights : opsOf i ⟨a, (exec D a s).1⟩ = 0 ∧ errorsOf i ⟨a, (exec D a s).1⟩ = 0 := by
    cases hok <;> exact ⟨rfl, rfl⟩
  have hslot := hok.counters (D := D) (i := i) s
  refine ⟨hweights.1, hslot.1, h.frame hslot (fun w hw => ?_) fun j => .inr ?_⟩
  · have hsum := Log.sum_own_acted (pending w) none s a (exec D a s).1 log
    have hzero : w ⟨a, (exec D a s).1⟩ = 0 := by
      rcases hw with rfl | rfl
      · exact hweights.1
      · exact hweights.2
    rw [pending_cons, hzero] at hsum
    omega
  · exact Log.own_acted_of_ne (fun heq => by cases heq) ..

/-! ### Snapshots -/

/-- The snapshot of the device that is returned. -/
def History.snapshot (i : ℕ) : Entry κ δ → Option DeviceHealth
  | .ended (some _) (.getDeviceHealth j _) (.health _ (some h)) => if j = i then some h else none
  | _ => none

/-- The snapshots of the device that have been returned, the latest first. -/
def History.snapshots (i : ℕ) (log : History κ δ) : List DeviceHealth :=
  log.filterMap (snapshot i)

/-- A snapshot that the entry returns is consistent. -/
def ConsistentSnapshot (i : ℕ) (e : Entry κ δ) : Prop :=
  ∀ h, History.snapshot i e = some h →
    h.consecutiveErrors ≤ h.totalErrors ∧ h.totalErrors ≤ h.totalOps

theorem Ordered.consistentSnapshot (h : Ordered i s log) {who : Option κ} {t : Task} {o : Outcome}
    (hreturns : Crew.Returns log who t o) :
    ConsistentSnapshot i (.ended who t o : Entry κ δ) := by
  intro health hhealth
  unfold History.snapshot at hhealth
  split at hhealth
  · rename_i j k _ r _ heq
    injection heq with hwho ht ho
    split_ifs at hhealth with hk
    injection hhealth with hhealth
    subst hwho ht ho hk hhealth
    obtain ⟨-, hsnapshot⟩ := hreturns
    exact (h.reading j).complete _ (hsnapshot r _ rfl)
  · cases hhealth

/-- The counters stay in order as long as `total_ops`, which was `start`, does not overflow. -/
def Counting (i start : ℕ) (s : State δ) (log : History κ δ) : Prop :=
  start + log.total (opsOf i) < 2 ^ 64 →
    (s.devices i).totalOps.toNat = start + log.total (opsOf i) ∧ Ordered i s log ∧
      log.Each fun e _ => ConsistentSnapshot i e

theorem Counting.next {n start : ℕ} {σ : Crew κ δ} (hn : 0 < n) (htracked : Crew.Tracked n σ)
    (h : Counting i start σ.shared σ.log) (m : Move (Option κ) Task) :
    Crew.Tracked n (σ.next D m).2 ∧ Counting i start (σ.next D m).2.shared (σ.next D m).2.log := by
  refine htracked.next (Counting i start) hn h m ?_ ?_ ?_ ?_
  · intro who t _ hbound
    obtain ⟨hops, hordered, hsnapshots⟩ := h hbound
    refine ⟨hops, hordered.frame ⟨rfl, rfl, UInt64.le_refl _⟩ (fun w _ => ?_) fun j => ?_,
      hsnapshots.cons fun _ hnone => by cases hnone⟩
    · have hsum := Log.sum_own_began (pending w) who t σ.log
      have hnil : pending w [] = 0 := rfl
      omega
    · exact (Log.own_began (some j) who t σ.log).imp_right And.left
  · intro j t a k _ _ hallowed hbound
    have hbound' : start + (opsOf i ⟨a, (exec D a σ.shared).1⟩ + σ.log.total (opsOf i)) < 2 ^ 64 :=
      hbound
    obtain ⟨hops, hordered, hsnapshots⟩ := h (by omega)
    obtain ⟨hops', hordered'⟩ := hordered.client (D := D) (hallowed.touch i) (by omega)
    refine ⟨?_, hordered', hsnapshots.cons fun _ hnone => by cases hnone⟩
    show _ = start + (opsOf i ⟨a, (exec D a σ.shared).1⟩ + σ.log.total (opsOf i))
    omega
  · intro t a k _ _ hok hbound
    have hbound' : start + (opsOf i ⟨a, (exec D a σ.shared).1⟩ + σ.log.total (opsOf i)) < 2 ^ 64 :=
      hbound
    obtain ⟨hops, hordered, hsnapshots⟩ := h (by omega)
    obtain ⟨hzero, hops', hordered'⟩ := hordered.probing (D := D) hok
    refine ⟨?_, hordered', hsnapshots.cons fun _ hnone => by cases hnone⟩
    show _ = start + (opsOf i ⟨a, (exec D a σ.shared).1⟩ + σ.log.total (opsOf i))
    rw [hops', hzero, Nat.zero_add]
    exact hops
  · intro who t o _ _ hreturns hbound
    obtain ⟨hops, hordered, hsnapshots⟩ := h hbound
    refine ⟨hops, hordered.frame ⟨rfl, rfl, UInt64.le_refl _⟩ (fun w _ => ?_) fun j => ?_,
      hsnapshots.cons ?_⟩
    · have hsum := Log.sum_own_ended (pending w) who t o σ.log
      have hnil : pending w [] = 0 := rfl
      omega
    · exact (Log.own_ended (some j) who t o σ.log).imp_right And.left
    · exact hordered.consistentSnapshot hreturns

theorem Ordered.start (hconsecutive : (s.devices i).consecutiveErrors ≤ (s.devices i).totalErrors)
    (herrors : (s.devices i).totalErrors ≤ (s.devices i).totalOps) :
    Ordered i s ([] : History κ δ) := by
  have hzero (w : Event Act Act.Resp → ℕ) :
      ∑ t : Option κ, pending w (Log.own t ([] : History κ δ)) = 0 :=
    Finset.sum_eq_zero fun _ _ => rfl
  refine ⟨?_, ?_, fun _ => .nil i _⟩
  · rw [hzero]
    exact UInt64.le_iff_toNat_le.mp herrors
  · rw [hzero]
    exact UInt64.le_iff_toNat_le.mp hconsecutive

/-- Every snapshot of a device is consistent, in every interleaving of readers, recorders and the
probe with fewer than 2^64 operations on the device: `consecutive_errors` is at most
`total_errors`, and this at most `total_ops`.  The counters are consistent at the start, as
`kv_engine_open_device` leaves them. -/
theorem health_snapshots_consistent (D : Driver δ) {s : State δ} (hn : 0 < s.numDevices) {i : ℕ}
    (hconsecutive : (s.devices i).consecutiveErrors ≤ (s.devices i).totalErrors)
    (herrors : (s.devices i).totalErrors ≤ (s.devices i).totalOps)
    {moves : List (Move (Option κ) Task)}
    (hbound : (s.devices i).totalOps.toNat +
      (Crew.after D (.start s) moves).log.total (opsOf i) < 2 ^ 64) :
    ∀ h ∈ History.snapshots i (Crew.after D (.start s) moves).log,
      h.consecutiveErrors ≤ h.totalErrors ∧ h.totalErrors ≤ h.totalOps := by
  have hinv : Crew.Tracked s.numDevices (Crew.after D (.start s : Crew κ δ) moves) ∧
      Counting i (s.devices i).totalOps.toNat (Crew.after D (.start s) moves).shared
        (Crew.after D (.start s) moves).log := by
    refine Machine.invariant (fun σ : Crew κ δ => Crew.Tracked s.numDevices σ ∧
      Counting i (s.devices i).totalOps.toNat σ.shared σ.log) ?_ ?_ moves
    · intro σ m hσ
      exact Counting.next hn hσ.1 hσ.2 m
    · exact ⟨Crew.tracked_start hn, fun _ => ⟨rfl, .start hconsecutive herrors, .nil⟩⟩
  obtain ⟨-, -, hsnapshots⟩ := hinv.2 hbound
  intro h hmem
  obtain ⟨e, he, hh⟩ := List.mem_filterMap.mp hmem
  exact hsnapshots.of_mem he h hh

/-- A client loads `consecutive_errors`, an error of another client is counted, and the first one
loads the totals. -/
def slowReader : List (Move (Option (Fin 2)) Task) :=
  deleting 1 12 ++ .invoke (some 0) (.getDeviceHealth 1 true) :: stepping (some 0) 4 ++
    deleting 1 7 ++ stepping (some 0) 6

theorem health_snapshots_consistent_slowReader :
    let log := (Crew.after (failingDeletes .sysIo) (.start freshEngine) slowReader).log
    (History.snapshots 1 log).map (fun h => (h.consecutiveErrors, h.totalErrors, h.totalOps)) =
        [(1, 2, 2)] ∧
      ∀ h ∈ History.snapshots 1 log,
        h.consecutiveErrors ≤ h.totalErrors ∧ h.totalErrors ≤ h.totalOps :=
  ⟨by decide +kernel, health_snapshots_consistent (failingDeletes .sysIo) (by decide +kernel)
    (by decide +kernel) (by decide +kernel) (by decide +kernel)⟩

end snapshots

end KvEngine
