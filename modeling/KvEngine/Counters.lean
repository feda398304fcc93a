import KvEngine.Boot
import KvEngine.Machine
import Mathlib.Data.List.DropRight

/-! # The health counters of a sequential history

What the four health fields of a device say about the results that were recorded on it, one after
the other, since it was opened.  `device_record_result` keeps two counters and the length of the
current run of device errors; the flag is lowered for good by a lost device or by a run as long as
the threshold.

`condemned_concat` is the step: a result condemns a device exactly if it is fatal or completes a
run.  The counters have 64 bits and the threshold has 32.  So the run length can only wrap on a
device that has been condemned long before, and `healthy` is exact for histories of any length. -/

namespace KvEngine

open Atomic

/-! ### Runs at the end of a list -/

section runs

variable {α : Type} {p : α → Bool} {l : List α} {m : ℕ}

theorem length_le_rtakeWhile {run : List α} (hrun : run <:+ l) (hp : ∀ a ∈ run, p a = true) :
    run.length ≤ (l.rtakeWhile p).length := by
  induction l using List.reverseRecOn generalizing run with
  | nil => simp [List.suffix_nil.mp hrun]
  | append_singleton l a ih =>
      rcases List.suffix_concat_iff.mp hrun with rfl | ⟨run', rfl, hrun'⟩
      · exact Nat.zero_le _
      · have ha : p a = true := hp a (by simp)
        have hrest := ih hrun' fun b hb => hp b (by simp [hb])
        rw [List.rtakeWhile_concat_pos p l a ha, List.length_append, List.length_append]
        exact Nat.add_le_add_right hrest _

/-- A list ends with `m` elements in `p` exactly if its longest such end is long enough. -/
theorem suffix_run_iff :
    (∃ run, run <:+ l ∧ run.length = m ∧ ∀ a ∈ run, p a = true) ↔ m ≤ (l.rtakeWhile p).length := by
  constructor
  · rintro ⟨run, hrun, rfl, hp⟩
    exact length_le_rtakeWhile hrun hp
  · intro hm
    refine ⟨(l.rtakeWhile p).drop ((l.rtakeWhile p).length - m), ?_, ?_, fun a ha => ?_⟩
    · exact (List.drop_suffix _ _).trans (List.rtakeWhile_suffix p l)
    · rw [List.length_drop]
      omega
    · exact List.mem_rtakeWhile_imp (List.mem_of_mem_drop ha)

end runs

/-! ### Histories of results -/

/-- A result that condemns the device at once. -/
def Fatal (r : KvsResult) : Prop := r = .devNotExist ∨ r = .devNotOpened

/-- The results contain `m` device errors in a row. -/
def ErrorRun (m : ℕ) (results : List KvsResult) : Prop :=
  ∃ run, run <:+: results ∧ run.length = m ∧ ∀ r ∈ run, isDeviceError r = true

/-- The longest end of the results that consists of device errors. -/
def errorSuffix (results : List KvsResult) : List KvsResult := results.rtakeWhile isDeviceError

/-- The results that condemn a device with the threshold `m`. -/
def Condemned (m : ℕ) (results : List KvsResult) : Prop :=
  (∃ r ∈ results, Fatal r) ∨ ErrorRun m results

theorem errorRun_of_le {m : ℕ} {results : List KvsResult} (h : m ≤ (errorSuffix results).length) :
    ErrorRun m results := by
  obtain ⟨run, hrun, hlength, herrors⟩ := suffix_run_iff.mpr h
  exact ⟨run, hrun.isInfix, hlength, herrors⟩

theorem errorRun_concat {m : ℕ} (results : List KvsResult) (r : KvsResult) :
    ErrorRun m (results ++ [r]) ↔
      ErrorRun m results ∨ m ≤ (errorSuffix (results ++ [r])).length := by
  constructor
  · rintro ⟨run, hrun, hlength, herrors⟩
    rcases List.infix_concat_iff.mp hrun with hend | hbefore
    · exact .inr (suffix_run_iff.mp ⟨run, hend, hlength, herrors⟩)
    · exact .inl ⟨run, hbefore, hlength, herrors⟩
  · rintro (⟨run, hrun, hlength, herrors⟩ | hend)
    · exact ⟨run, hrun.trans (List.prefix_append _ _).isInfix, hlength, herrors⟩
    · exact errorRun_of_le hend

theorem condemned_concat {m : ℕ} (results : List KvsResult) (r : KvsResult) :
    Condemned m (results ++ [r]) ↔
      Condemned m results ∨ Fatal r ∨ m ≤ (errorSuffix (results ++ [r])).length := by
  have hfatal : (∃ r' ∈ results ++ [r], Fatal r') ↔ (∃ r' ∈ results, Fatal r') ∨ Fatal r := by
    simp [or_and_right, exists_or]
  rw [Condemned, Condemned, errorRun_concat, hfatal]
  exact or_or_or_comm

theorem isDeviceError_of_fatal {r : KvsResult} (h : Fatal r) : isDeviceError r = true := by
  rcases h with rfl | rfl <;> rfl

/-! ### The fields of a slot -/

/-- The health fields are those of a device on which the results were recorded. -/
structure DeviceCtx.Counts (m : UInt32) (results : List KvsResult) (c : DeviceCtx) : Prop where
  totalOps : c.totalOps = .ofNat results.length
  totalErrors : c.totalErrors = .ofNat (results.countP isDeviceError)
  consecutiveErrors : c.consecutiveErrors = .ofNat (errorSuffix results).length
  healthy : c.healthy = false ↔ Condemned m.toNat results
  threshold : c.maxConsecutiveErrors = m

/-- The comparison in `device_record_result`, after a run of `k` errors and one more.  If the 64-bit
sum wraps, the run was too long before. -/
theorem threshold_le_iff {m : UInt32} {k : ℕ} :
    m.toNat ≤ k ∨ m.toUInt64 ≤ UInt64.ofNat k + 1 ↔ m.toNat ≤ k ∨ m.toNat ≤ k + 1 := by
  have hm : m.toNat < 2 ^ 32 := m.toNat_lt
  rw [UInt64.le_iff_toNat_le, UInt64.toNat_add, UInt32.toNat_toUInt64, UInt64.toNat_ofNat']
  have hone : (1 : UInt64).toNat = 1 := rfl
  rw [hone]
  omega

namespace DeviceCtx

variable {m : UInt32} {results : List KvsResult} {c : DeviceCtx}

/-- A device error lowers the flag if it is fatal or completes a run. -/
theorem Counts.healthy_error (h : c.Counts m results) {r : KvsResult} (hr : isDeviceError r = true) :
    (c.record r).healthy = false ↔ Condemned m.toNat (results ++ [r]) := by
  have hsuffix : (errorSuffix (results ++ [r])).length = (errorSuffix results).length + 1 := by
    rw [errorSuffix, List.rtakeWhile_concat_pos _ _ _ hr, List.length_append]
    rfl
  have hlong : m.toNat ≤ (errorSuffix results).length → Condemned m.toNat results :=
    fun hle => .inr (errorRun_of_le hle)
  have hiff := threshold_le_iff (m := m) (k := (errorSuffix results).length)
  rw [condemned_concat, hsuffix]
  simp only [record, hr, if_true, h.threshold, h.consecutiveErrors, Bool.and_eq_false_iff, h.healthy,
    Bool.not_eq_false', Bool.or_eq_true, decide_eq_true_eq, Fatal]
  tauto

theorem Counts.record (hm : 0 < m.toNat) (h : c.Counts m results) (r : KvsResult) :
    (c.record r).Counts m (results ++ [r]) := by
  cases hr : isDeviceError r with
  | true =>
      refine ⟨?_, ?_, ?_, h.healthy_error hr, ?_⟩
      all_goals simp only [DeviceCtx.record, hr, if_true]
      · rw [h.totalOps, List.length_append]
        exact (UInt64.ofNat_add _ _).symm
      · rw [h.totalErrors, List.countP_append, List.countP_singleton, hr]
        exact (UInt64.ofNat_add _ _).symm
      · rw [h.consecutiveErrors, errorSuffix, errorSuffix, List.rtakeWhile_concat_pos _ _ _ hr,
          List.length_append]
        exact (UInt64.ofNat_add _ _).symm
      · exact h.threshold
  | false =>
      have hsuffix : errorSuffix (results ++ [r]) = [] :=
        List.rtakeWhile_concat_neg _ _ _ (by simp [hr])
      refine ⟨?_, ?_, ?_, ?_, ?_⟩
      all_goals simp only [DeviceCtx.record, hr, Bool.false_eq_true, if_false]
      · rw [h.totalOps, List.length_append]
        exact (UInt64.ofNat_add _ _).symm
      · rw [h.totalErrors, List.countP_append, List.countP_singleton, hr]
        rfl
      · rw [hsuffix]
        rfl
      · have hfatal : ¬ Fatal r := fun hfatal => by
          rw [isDeviceError_of_fatal hfatal] at hr
          cases hr
        rw [condemned_concat, hsuffix, h.healthy]
        simp [hfatal, Nat.ne_of_gt hm]
      · exact h.threshold

end DeviceCtx

/-- The device `i` after the results were recorded on it, one after the other. -/
def recordAll {δ : Type} (D : Driver δ) (i : ℕ) (s : State δ) (results : List KvsResult) : State δ :=
  Machine.after (fun s r => run D (deviceRecordResult i r) s) s results

/-- The slot that `kv_engine_open_device` leaves, with the threshold `m`. -/
def DeviceCtx.opened (path : String) (i : ℕ) (copy : Option String) (m : UInt32) : DeviceCtx :=
  { DeviceCtx.fresh path i copy with maxConsecutiveErrors := m }

/-- **The meaning of the health counters.**  `total_ops` counts the results and `total_errors` the
device errors among them, `consecutive_errors` is the length of the longest end of device errors,
and the device is unhealthy exactly if one of the results was a lost device or there were `m` device
errors in a row.  The counters are taken modulo `2 ^ 64`. -/
theorem counters_exact {δ : Type} {D : Driver δ} {i : ℕ} {path : String} {copy : Option String}
    {m : UInt32} (hm : 1 ≤ m) {s : State δ} (hs : s.devices i = .opened path i copy m)
    (results : List KvsResult) :
    ((recordAll D i s results).devices i).totalOps = .ofNat results.length ∧
    ((recordAll D i s results).devices i).totalErrors = .ofNat (results.countP isDeviceError) ∧
    ((recordAll D i s results).devices i).consecutiveErrors =
      .ofNat (results.rtakeWhile isDeviceError).length ∧
    (((recordAll D i s results).devices i).healthy = false ↔
      .devNotExist ∈ results ∨ .devNotOpened ∈ results ∨
        ∃ run, run <:+: results ∧ run.length = m.toNat ∧ ∀ r ∈ run, isDeviceError r = true) := by
  have hpos : 0 < m.toNat := UInt32.le_iff_toNat_le.mp hm
  have hcounts : ((recordAll D i s results).devices i).Counts m results := by
    induction results using List.reverseRecOn with
    | nil =>
        have hnone : ¬ Condemned m.toNat [] := by
          rintro (⟨r, hr, _⟩ | ⟨run, hrun, hlength, _⟩)
          · cases hr
          · rw [List.infix_nil.mp hrun] at hlength
            exact absurd hlength (Nat.ne_of_lt hpos)
        rw [recordAll, Machine.after_nil, hs]
        exact ⟨rfl, rfl, rfl, by simp [hnone, DeviceCtx.opened, DeviceCtx.fresh], rfl⟩
    | append_singleton results r ih =>
        have hnext := ih.record hpos r
        have hlast : recordAll D i s (results ++ [r]) =
            (recordAll D i s results).setDevice i (·.record r) := by
          rw [recordAll, Machine.after_append, Machine.after_cons, Machine.after_nil,
            run_deviceRecordResult]
          rfl
        rw [hlast, State.setDevice_devices_self]
        exact hnext
  refine ⟨hcounts.totalOps, hcounts.totalErrors, hcounts.consecutiveErrors, ?_⟩
  rw [hcounts.healthy, Condemned]
  simp only [Fatal, ErrorRun, and_or_left, exists_or, exists_eq_right, or_assoc]

/-- A device with the threshold 3. -/
def threeStrikes : State KeySpace :=
  (State.blank fun _ => .empty).setDevice 0 fun _ => .opened "/dev/nvme0n1" 0 none 3

/-- A miss interrupts the first run of errors; the second one condemns the device. -/
theorem counters_exact_threeStrikes :
    let c := (recordAll keySpaceDriver 0 threeStrikes
      [.sysIo, .sysIo, .keyNotExist, .sysIo, .sysIo, .sysIo]).devices 0
    c.totalOps = 6 ∧ c.totalErrors = 5 ∧ c.consecutiveErrors = 3 ∧ c.healthy = false := by
  have hs : threeStrikes.devices 0 = .opened "/dev/nvme0n1" 0 none 3 := by
    simp [threeStrikes]
  obtain ⟨hops, herrors, hconsecutive, hhealthy⟩ := counters_exact (D := keySpaceDriver)
    (m := 3) (by decide) hs [.sysIo, .sysIo, .keyNotExist, .sysIo, .sysIo, .sysIo]
  refine ⟨hops, herrors, hconsecutive, hhealthy.mpr (.inr (.inr ?_))⟩
  exact ⟨[.sysIo, .sysIo, .sysIo], ⟨[.sysIo, .sysIo, .keyNotExist], [], rfl⟩, rfl, by decide⟩

end KvEngine
