import KvEngine.Crew

/-! # The device table while it grows

`kv_engine_add_device` opens one more device of an initialised engine.  Meanwhile the health probe
sweeps over the devices, and other threads use the engine: nothing stops them.  The system here is
the one of `Tasks.lean` with a thread that adds devices, one call after the other, and every
interleaving of its steps with theirs.

The table is a published prefix.  A call works on the slot behind the last published one and
publishes it by its last step, so each of its failure exits leaves the prefix as it was.

* `Act.Tame` are the actions that leave the handles, the limits and the length of the table alone.
  Everything but the adding thread is tame (`task_tame`, `exec_tame`).
* An `AddPhase` is the place of a call of `kv_engine_add_device` between its failure exits; the
  promise of the probe is that it works below the length it has loaded last (`handDiscipline`).
* `Intact` is the invariant, kept by every move (`Intact.next`).  A successful `kv_engine_init`
  starts it, whatever was there before, so earlier calls that failed are covered. -/

namespace KvEngine

open Atomic

/-! ### The threads -/

/-- A thread of a growing engine: the probe, the one that adds devices, or any other. -/
inductive Hand (κ : Type) where
  | probe
  | adder
  | client (j : κ)
deriving DecidableEq

/-- What a thread is called for. -/
inductive Job where
  | sweep
  | add (devicePath : Option String)
  | task (t : Task)

/-- What a thread runs.  A job that is not the thread's returns at once. -/
def handProg {κ : Type} : Hand κ → Job → Option Outcome → M Outcome
  | .probe, .sweep, last => do return .swept (← probeSweep (recoveryCountsOf last))
  | .adder, .add devicePath, _ => do return .reply ⟨← kvEngineAddDevice devicePath, none, none⟩
  | .client _, .task t, _ => t.prog
  | _, _, _ => return .done

/-- An entry of the log of a growing engine. -/
abbrev Occurrence (κ δ : Type) := Note (Hand κ) Job Act Act.Resp Outcome (State δ)

/-- The log of a growing engine. -/
abbrev Chronicle (κ δ : Type) := Log (Hand κ) Job Act Act.Resp Outcome (State δ)

/-- A growing engine. -/
abbrev Growing (κ δ : Type) := Sessions (Hand κ) Job Act Act.Resp Outcome (State δ)

/-- One move of a thread. -/
abbrev Growing.next {κ δ : Type} [DecidableEq κ] (D : Driver δ) (σ : Growing κ δ)
    (m : Move (Hand κ) Job) : Option Outcome × Growing κ δ := Sessions.next (exec D) handProg σ m

/-- The engine after the moves. -/
abbrev Growing.after {κ δ : Type} [DecidableEq κ] (D : Driver δ) (σ : Growing κ δ)
    (moves : List (Move (Hand κ) Job)) : Growing κ δ := Machine.after (Growing.next D) σ moves

/-! ### The table -/

/-- The slot of the device table an action reads or writes. -/
def Act.slot : Act → Option ℕ
  | .loadHealthy i => some i
  | .storeHealthy i _ => some i
  | .fetchAddTotalOps i => some i
  | .fetchAddTotalErrors i => some i
  | .fetchAddConsecutiveErrors i => some i
  | .storeConsecutiveErrors i _ => some i
  | .loadMaxConsecutiveErrors i => some i
  | .loadConsecutiveErrors i => some i
  | .loadTotalErrors i => some i
  | .loadTotalOps i => some i
  | .loadDevicePath i => some i
  | .kvsStoreKvp i _ _ _ => some i
  | .kvsRetrieveKvp i _ _ _ _ => some i
  | .kvsDeleteKvp i _ _ => some i
  | .kvsExistKvPairs i _ => some i
  | .kvsGetDeviceUtilization i => some i
  | .kvsReadUtilization i => some i
  | .kvsGetDeviceCapacity i => some i
  | .kvsOpenDevice i _ => some i
  | .kvsOpenKeySpace i => some i
  | .kvsCreateKeySpace i => some i
  | .kvsCloseKeySpace i => some i
  | .kvsCloseDevice i => some i
  | .initDeviceCtx i _ => some i
  | .freeDevicePath i => some i
  | _ => none

namespace State

variable {δ : Type} {s t : State δ}

/-- The device of the slot is open and so is its keyspace, and the health fields are set up: the
limit is the last of them that `kv_engine_open_device` writes, and nothing else writes it. -/
structure SlotOpen (s : State δ) (i : ℕ) : Prop where
  handles : ∃ path, (s.devices i).device = some path ∧ (s.devices i).keyspace = some ⟨path, i⟩
  limit : (s.devices i).maxConsecutiveErrors = 10

/-- The states agree on the length of the table and on the first `m` slots, up to the health
counters. -/
structure AlikeBelow (m : ℕ) (s t : State δ) : Prop where
  initialized : t.initialized = s.initialized
  numDevices : t.numDevices = s.numDevices
  device : ∀ i < m, (t.devices i).device = (s.devices i).device
  keyspace : ∀ i < m, (t.devices i).keyspace = (s.devices i).keyspace
  limit : ∀ i < m, (t.devices i).maxConsecutiveErrors = (s.devices i).maxConsecutiveErrors

/-- The whole tables agree, up to the health counters. -/
def Alike (s t : State δ) : Prop := ∀ m, AlikeBelow m s t

theorem AlikeBelow.slotOpen {m i : ℕ} (h : AlikeBelow m s t) (hi : i < m) (hs : s.SlotOpen i) :
    t.SlotOpen i := by
  obtain ⟨path, hdevice, hkeyspace⟩ := hs.handles
  exact ⟨⟨path, (h.device i hi).trans hdevice, (h.keyspace i hi).trans hkeyspace⟩,
    (h.limit i hi).trans hs.limit⟩

theorem alikeBelow_of_eq {m : ℕ} (hinitialized : t.initialized = s.initialized)
    (hnum : t.numDevices = s.numDevices) (hslot : ∀ i < m, t.devices i = s.devices i) :
    AlikeBelow m s t :=
  ⟨hinitialized, hnum, fun i hi => by rw [hslot i hi], fun i hi => by rw [hslot i hi],
    fun i hi => by rw [hslot i hi]⟩

/-- The states have the same table. -/
theorem alike_of_eq (hinitialized : t.initialized = s.initialized)
    (hnum : t.numDevices = s.numDevices) (hdevices : t.devices = s.devices) : Alike s t := fun _ =>
  alikeBelow_of_eq hinitialized hnum fun i _ => congrFun hdevices i

theorem alike_refl (s : State δ) : Alike s s := alike_of_eq rfl rfl rfl

/-- A write to a slot is not seen below it. -/
theorem setDevice_devices_below (s : State δ) {i n : ℕ} (f : DeviceCtx → DeviceCtx) (hi : i < n) :
    (s.setDevice n f).devices i = s.devices i := Function.update_of_ne (Nat.ne_of_lt hi) _ _

/-- A write to the health counters of a slot. -/
theorem alike_setDevice (s : State δ) (j : ℕ) {f : DeviceCtx → DeviceCtx}
    (hf : ∀ c, (f c).device = c.device ∧ (f c).keyspace = c.keyspace ∧
      (f c).maxConsecutiveErrors = c.maxConsecutiveErrors) : Alike s (s.setDevice j f) := by
  intro m
  have hslot (i : ℕ) : (s.setDevice j f).devices i = s.devices i ∨
      (s.setDevice j f).devices i = f (s.devices i) := by
    by_cases hi : i = j
    · subst hi
      exact .inr (Function.update_self _ _ _)
    · exact .inl (Function.update_of_ne hi _ _)
  refine ⟨rfl, rfl, fun i _ => ?_, fun i _ => ?_, fun i _ => ?_⟩
  · rcases hslot i with h | h <;> rw [h]
    exact (hf _).1
  · rcases hslot i with h | h <;> rw [h]
    exact (hf _).2.1
  · rcases hslot i with h | h <;> rw [h]
    exact (hf _).2.2

end State

/-- The actions that leave the handles, the limits and the length of the table alone. -/
def Act.Tame : Act → Prop
  | .storeNumDevices _ => False
  | .memsetEngine => False
  | .setInitialized _ => False
  | .kvsOpenDevice _ _ => False
  | .kvsOpenKeySpace _ => False
  | .kvsCloseKeySpace _ => False
  | .kvsCloseDevice _ => False
  | .initDeviceCtx _ _ => False
  | _ => True

section actions

variable {δ : Type} {D : Driver δ}

theorem exec_tame {a : Act} (ha : a.Tame) (s : State δ) : s.Alike (exec D a s).2 := by
  by_cases hcommand : a.isCommand = true
  · obtain ⟨ssd, heq⟩ := exec_command (D := D) hcommand s
    rw [heq]
    exact State.alike_of_eq rfl rfl rfl
  cases a with
  | storeHealthy | fetchAddTotalOps | fetchAddTotalErrors | fetchAddConsecutiveErrors
  | storeConsecutiveErrors | freeDevicePath =>
      simp only [exec]
      exact s.alike_setDevice _ fun _ => ⟨rfl, rfl, rfl⟩
  | keyTableAdd key =>
      show s.Alike (s.addTableKey key)
      unfold State.addTableKey
      split <;> exact State.alike_of_eq rfl rfl rfl
  | dmaPoolAcquire =>
      simp only [exec]
      split <;> exact State.alike_of_eq rfl rfl rfl
  | _ => first | exact absurd rfl hcommand | exact ha.elim | exact State.alike_of_eq rfl rfl rfl

/-! ### Operations and sweeps are tame -/

theorem Act.Operates.tame {a : Act} (h : a.Operates) : a.Tame := by
  cases a <;> first | exact trivial | exact h.elim

theorem Act.Neutral.tame {a : Act} (h : a.Neutral) : a.Tame := by
  cases a <;> first | exact trivial | exact h.elim

theorem Act.Probes.tame {a : Act} (h : a.Probes) : a.Tame := by
  cases a <;> first | exact trivial | exact h.elim

theorem work_tame (ctx : AsyncContext) : ctx.work.Performs Act.Tame := by
  refine ((call_operates ctx.call).mono fun _ => Act.Operates.tame).bind fun reply => ?_
  refine Prog.Performs.bind ?_ fun _ => ⟨trivial, fun _ => trivial⟩
  unfold complete
  split
  · exact ⟨trivial, fun _ => trivial⟩
  · exact trivial

theorem kvEngineGetDeviceHealth_tame (i : ℕ) (out : Bool) :
    (kvEngineGetDeviceHealth i out).Performs Act.Tame :=
  (kvEngineGetDeviceHealth_examines i out).mono fun a h => by
    cases a <;> first | exact trivial | exact h.elim

/-- No task touches the handles or the length of the table. -/
theorem task_tame (t : Task) : t.prog.Performs Act.Tame := by
  have hneutral {α : Type} {p : M α} (hp : p.Performs Act.Neutral) (f : α → Outcome) :
      Prog.Performs Act.Tame (do return f (← p)) :=
    (hp.mono fun _ => Act.Neutral.tame).bind fun _ => trivial
  cases t with
  | call c => exact ((call_operates c).mono fun _ => Act.Operates.tame).bind fun _ => trivial
  | submit request c =>
      exact hneutral ((asyncCall_submits request c).mono fun _ => Act.Submits.neutral) .prepared
  | reject item =>
      exact hneutral ((asyncRejected_submits item).mono fun _ => Act.Submits.neutral)
        fun r => .reply ⟨r, none, none⟩
  | execute item => exact (work_tame item.arg).bind fun _ => ⟨trivial, fun _ => trivial⟩
  | record i kvsRes =>
      exact ((deviceRecordResult_operates i kvsRes).mono fun _ => Act.Operates.tame).bind
        fun _ => trivial
  | getDeviceHealth i out => exact (kvEngineGetDeviceHealth_tame i out).bind fun _ => trivial
  | healthyDeviceCount =>
      exact hneutral (kvEngineHealthyDeviceCount_looks.mono fun _ => Act.Looks.neutral) .count
  | getStats => exact ⟨trivial, fun _ => trivial⟩
  | resetStats => exact ⟨trivial, fun _ => trivial⟩
  | allocBuffer size => exact hneutral (kvEngineAllocBuffer_neutral size) .buffer
  | freeBuffer buffer => exact hneutral (kvEngineFreeBuffer_neutral buffer) fun _ => .done

end actions

/-! ### The promises of the threads -/

/-- The place of a call of `kv_engine_add_device`: it has not loaded the length of the table, it
has loaded it, the device of the slot behind the last one is open, so is its keyspace, the health
fields are set up as well. -/
inductive AddPhase where
  | idle
  | chosen (n : ℕ)
  | device (n : ℕ)
  | keyspace (n : ℕ)
  | ready (n : ℕ)

namespace AddPhase

/-- The actions of a call of `kv_engine_add_device`. -/
inductive Ok : AddPhase → Act → Prop where
  | initialized : Ok idle .loadInitialized
  | length : Ok idle .loadNumDevices
  | stats {n : ℕ} : Ok (chosen n) .getStats
  | openDevice {n : ℕ} (path : String) : Ok (chosen n) (.kvsOpenDevice n path)
  | openKeySpace {n : ℕ} : Ok (device n) (.kvsOpenKeySpace n)
  | createKeySpace {n : ℕ} : Ok (device n) (.kvsCreateKeySpace n)
  | closeDevice {n : ℕ} : Ok (device n) (.kvsCloseDevice n)
  | copyPath {n : ℕ} : Ok (keyspace n) (.acquire (.devicePath n))
  | setUp {n : ℕ} (path : Option String) : Ok (keyspace n) (.initDeviceCtx n path)
  | publish {n : ℕ} (hn : n < kvMaxDevices) : Ok (ready n) (.storeNumDevices (n + 1))

/-- The phase after an action. -/
def next : AddPhase → (a : Act) → a.Resp → AddPhase
  | _, .loadNumDevices, n => chosen n
  | chosen n, .kvsOpenDevice _ _, r => if r = .success then device n else chosen n
  | device n, .kvsOpenKeySpace _, r => if r = .success then keyspace n else device n
  | device _, .kvsCloseDevice _, _ => idle
  | keyspace n, .initDeviceCtx _ _, _ => ready n
  | ready _, .storeNumDevices _, _ => idle
  | q, _, _ => q

end AddPhase

/-- The phases of the threads: the probe remembers the length it has loaded last. -/
@[reducible] def HandPhase (κ : Type) : Hand κ → Type
  | .probe => ℕ
  | .adder => AddPhase
  | .client _ => Unit

/-- The length of the table the probe has loaded last. -/
def loadedLength (bound : ℕ) : (a : Act) → a.Resp → ℕ
  | .loadNumDevices, n => n
  | _, _ => bound

/-- What the threads promise. -/
def handDiscipline (κ : Type) : Discipline (Hand κ) Job Act Act.Resp Outcome (HandPhase κ) where
  first
    | .probe => (0 : ℕ)
    | .adder => .idle
    | .client _ => ()
  enter
    | .probe, _, _ => (0 : ℕ)
    | .adder, _, _ => .idle
    | .client _, _, _ => ()
  ok
    | .probe, _, bound => fun a => a.Probes ∧ ∀ i, a.slot = some i → i < bound
    | .adder, _, q => q.Ok
    | .client _, _, _ => Act.Tame
  answers _ _ _ _ := True
  next
    | .probe, bound, a, answer => loadedLength bound a answer
    | .adder, q, a, answer => q.next a answer
    | .client _, _, _, _ => ()
  ends _ _ _ _ := True
  leave
    | .probe, _ => (0 : ℕ)
    | .adder, _ => .idle
    | .client _, _ => ()
  rests _ _ _ := True

section programs

variable {κ : Type} {c : Job}

/-- The body of the recovery loop works on one device. -/
theorem probeDevice_slot (counts : ℕ → UInt32) (i : ℕ) :
    (probeDevice counts i).Performs fun a => a.Probes ∧ a.slot = some i := by
  refine ⟨⟨trivial, rfl⟩, fun healthy => ?_⟩
  cases healthy with
  | true => exact trivial
  | false =>
      refine ⟨⟨trivial, rfl⟩, fun r => ?_⟩
      show Prog.Performs _ (if _ then _ else _)
      split
      · split
        · exact ⟨⟨rfl, rfl⟩, fun _ => ⟨⟨trivial, rfl⟩, fun _ => trivial⟩⟩
        · exact trivial
      · exact trivial

/-- The recovery loop works below the length it loads at every turn. -/
theorem probeSweepFrom_bounded (i turns bound : ℕ) (counts : ℕ → UInt32) :
    (probeSweepFrom i turns counts).Follows ((handDiscipline κ).protocol .probe c)
      (fun _ _ => True) (bound : ℕ) := by
  induction turns generalizing i bound counts with
  | zero => exact trivial
  | succ turns ih =>
      refine ⟨⟨trivial, fun j hj => by cases hj⟩, fun n _ => ?_⟩
      show Prog.Follows _ _ (if _ then _ else _) n
      split
      · rename_i hi
        have hdevice : (probeDevice counts i).Follows ((handDiscipline κ).protocol .probe c)
            (fun q _ => q = n) n := by
          refine (probeDevice_slot counts i).follows fun a ha => ?_
          refine ⟨⟨ha.1, fun j hj => ?_⟩, fun r => ?_⟩
          · obtain rfl : i = j := Option.some.inj (ha.2.symm.trans hj)
            exact hi
          · cases a <;> first | rfl | cases ha.2
        exact hdevice.bind fun q counts' _ => ih _ q counts'
      · exact trivial

theorem finishOpenDevice_adds (n : ℕ) (path : String) :
    (finishOpenDevice n path).Follows ((handDiscipline κ).protocol .adder c)
      (fun q r => r = .success ∧ q = .ready n) (AddPhase.keyspace n) :=
  ⟨.copyPath, fun _ _ => ⟨.setUp _, fun _ _ => ⟨rfl, rfl⟩⟩⟩

/-- `kv_engine_open_device` leaves the slot ready or fails. -/
theorem kvEngineOpenDevice_adds (n : ℕ) (path : String) :
    (kvEngineOpenDevice n path).Follows ((handDiscipline κ).protocol .adder c)
      (fun q r => r = .success → q = .ready n) (AddPhase.chosen n) := by
  have hfinish : (finishOpenDevice n path).Follows ((handDiscipline κ).protocol .adder c)
      (fun q r => r = .success → q = .ready n) (AddPhase.keyspace n) :=
    (finishOpenDevice_adds n path).mono fun _ _ h _ => h.2
  refine ⟨.openDevice path, fun r _ => ?_⟩
  show Prog.Follows _ _ (if _ then _ else _) (if r = .success then _ else _)
  by_cases hr : r = .success
  · rw [if_neg (not_not_intro hr), if_pos hr]
    refine ⟨.openKeySpace, fun r _ => ?_⟩
    show Prog.Follows _ _ (if _ then _ else _) (if r = .success then _ else _)
    by_cases hr : r = .success
    · rw [if_pos hr, if_pos hr]
      exact hfinish
    · rw [if_neg hr, if_neg hr]
      refine ⟨.createKeySpace, fun r _ => ?_⟩
      show Prog.Follows _ _ (if _ then _ else _) _
      split
      · exact ⟨.closeDevice, fun _ _ h => by cases h⟩
      · -- the second attempt to open the keyspace
        refine ⟨.openKeySpace, fun r _ => ?_⟩
        show Prog.Follows _ _ (if _ then _ else _) (if r = .success then _ else _)
        by_cases hr : r = .success
        · rw [if_neg (not_not_intro hr), if_pos hr]
          exact hfinish
        · rw [if_pos hr, if_neg hr]
          exact ⟨.closeDevice, fun _ _ h => by cases h⟩
  · rw [if_pos hr, if_neg hr]
    exact fun h => by cases h

/-- `kv_engine_add_device` keeps to its phases. -/
theorem kvEngineAddDevice_adds (devicePath : Option String) :
    (kvEngineAddDevice devicePath).Follows ((handDiscipline κ).protocol .adder c)
      (fun _ _ => True) AddPhase.idle := by
  refine ⟨.initialized, fun initialized _ => ?_⟩
  cases devicePath with
  | none => exact trivial
  | some path =>
      show Prog.Follows _ _ (if _ then _ else _) _
      split
      · exact trivial
      · refine ⟨.length, fun n _ => ?_⟩
        show Prog.Follows _ _ (if _ then _ else _) _
        split
        · exact trivial
        · rename_i hn
          refine ⟨.stats, fun stats _ => ?_⟩
          show Prog.Follows _ _ (if _ then _ else _) _
          split
          · exact trivial
          · refine (kvEngineOpenDevice_adds n path).bind fun q r hq => ?_
            split
            · exact trivial
            · rename_i hr
              rw [hq (not_not.mp hr)]
              exact ⟨.publish (Nat.not_le.mp hn), fun _ _ => trivial⟩

/-- Every thread keeps its promises. -/
theorem handDiscipline_lawful (κ : Type) : (handDiscipline κ).Lawful handProg where
  starts _ := trivial
  follows
    | .probe, .sweep, _, _, _ =>
        (probeSweepFrom_bounded 0 kvMaxDevices 0 _).bind fun _ _ _ => trivial
    | .probe, .add _, _, _, _ => trivial
    | .probe, .task _, _, _, _ => trivial
    | .adder, .add devicePath, _, _, _ =>
        (kvEngineAddDevice_adds devicePath).bind fun _ _ _ => trivial
    | .adder, .sweep, _, _, _ => trivial
    | .adder, .task _, _, _, _ => trivial
    | .client _, .task t, _, _, _ =>
        (task_tame t).follows_of_ok (fun _ _ h => h) (fun _ _ => trivial) _
    | .client _, .sweep, _, _, _ => trivial
    | .client _, .add _, _, _, _ => trivial
  rests _ _ _ _ _ := trivial

end programs

/-! ### The invariant -/

section invariant

variable {κ δ : Type} {D : Driver δ} {start s t : State δ} {log : Chronicle κ δ}

/-- What the phase of a call says about the table. -/
def AddPhase.Holds (s : State δ) : AddPhase → Prop
  | .idle => True
  | .chosen n => s.numDevices = n
  | .device n => s.numDevices = n ∧ ∃ path, (s.devices n).device = some path
  | .keyspace n => s.numDevices = n ∧
      ∃ path, (s.devices n).device = some path ∧ (s.devices n).keyspace = some ⟨path, n⟩
  | .ready n => s.numDevices = n ∧ s.SlotOpen n

theorem AddPhase.Holds.alike {q : AddPhase} (h : q.Holds s) (hst : s.Alike t) : q.Holds t := by
  have hnum := (hst 0).numDevices
  have hdevice (i : ℕ) := (hst (i + 1)).device i (Nat.lt_succ_self i)
  have hkeyspace (i : ℕ) := (hst (i + 1)).keyspace i (Nat.lt_succ_self i)
  cases q with
  | idle => exact trivial
  | chosen n => exact hnum.trans h
  | device n =>
      obtain ⟨hn, path, hpath⟩ := h
      exact ⟨hnum.trans hn, path, (hdevice n).trans hpath⟩
  | keyspace n =>
      obtain ⟨hn, path, hpath, hplace⟩ := h
      exact ⟨hnum.trans hn, path, (hdevice n).trans hpath, (hkeyspace n).trans hplace⟩
  | ready n => exact ⟨hnum.trans h.1, (hst (n + 1)).slotOpen (Nat.lt_succ_self n) h.2⟩

/-- The health fields of the slot were set up: by `kv_engine_init`, or by an action of the thread
that adds devices. -/
def SetUp (start : State δ) (log : Chronicle κ δ) (i : ℕ) : Prop :=
  (i < start.numDevices ∧ ∃ path copy, start.devices i = .fresh path i copy) ∨
    ∃ before path answer, .acted .adder before (.initDeviceCtx i path) answer ∈ log

theorem SetUp.cons {i : ℕ} (h : SetUp start log i) (e : Occurrence κ δ) :
    SetUp start (e :: log) i :=
  h.imp_right fun ⟨before, path, answer, hmem⟩ =>
    ⟨before, path, answer, List.mem_cons_of_mem e hmem⟩

/-- The table is between 1 and 8 slots long, and each of them is open and set up. -/
structure State.Table (start : State δ) (s : State δ) (log : Chronicle κ δ) : Prop where
  initialized : s.initialized = true
  pos : 1 ≤ s.numDevices
  le : s.numDevices ≤ kvMaxDevices
  slot : ∀ i < s.numDevices, s.SlotOpen i
  setUp : ∀ i < s.numDevices, SetUp start log i

theorem State.Table.alike (h : State.Table start s log) (e : Occurrence κ δ)
    (hst : State.AlikeBelow s.numDevices s t) : State.Table start t (e :: log) where
  initialized := hst.initialized.trans h.initialized
  pos := hst.numDevices.symm ▸ h.pos
  le := hst.numDevices.symm ▸ h.le
  slot i hi := by
    rw [hst.numDevices] at hi
    exact hst.slotOpen hi (h.slot i hi)
  setUp i hi := by
    rw [hst.numDevices] at hi
    exact (h.setUp i hi).cons e

/-- The last step of `kv_engine_add_device`: the slot that is ready becomes the last one. -/
theorem State.Table.publish (h : State.Table start s log) (e : Occurrence κ δ) {n : ℕ}
    (hn : n < kvMaxDevices) (hnum : s.numDevices = n) (hopen : s.SlotOpen n)
    (hsetUp : SetUp start log n) :
    State.Table start { s with numDevices := n + 1 } (e :: log) where
  initialized := h.initialized
  pos := Nat.succ_pos n
  le := hn
  slot i hi := by
    rcases Nat.lt_succ_iff_lt_or_eq.mp hi with hlt | rfl
    · exact ⟨(h.slot i (hnum ▸ hlt)).handles, (h.slot i (hnum ▸ hlt)).limit⟩
    · exact ⟨hopen.handles, hopen.limit⟩
  setUp i hi := by
    rcases Nat.lt_succ_iff_lt_or_eq.mp hi with hlt | rfl
    · exact (h.setUp i (hnum ▸ hlt)).cons e
    · exact hsetUp.cons e

/-- The probe has touched open slots of the table only. -/
def ProbeConfined (log : Chronicle κ δ) : Prop :=
  ∀ before a answer i, .acted .probe before a answer ∈ log → a.slot = some i →
    i < before.numDevices ∧ before.SlotOpen i

theorem ProbeConfined.cons (h : ProbeConfined log) {e : Occurrence κ δ}
    (he : ∀ before a answer i, e = .acted .probe before a answer → a.slot = some i →
      i < before.numDevices ∧ before.SlotOpen i) : ProbeConfined (e :: log) := by
  intro before a answer i hmem hi
  rcases List.mem_cons.mp hmem with heq | hmem
  · exact he before a answer i heq.symm hi
  · exact h before a answer i hmem hi

variable [DecidableEq κ]

/-- The invariant of a growing engine. -/
structure Intact (start : State δ) (s : State δ) (log : Chronicle κ δ) : Prop where
  table : State.Table start s log
  bound : (handDiscipline κ).phase .probe log ≤ s.numDevices
  adding : AddPhase.Holds s ((handDiscipline κ).phase .adder log)
  made : ∀ n, (handDiscipline κ).phase .adder log = AddPhase.ready n → SetUp start log n
  confined : ProbeConfined log

/-! ### The moves -/

/-- The action of a call leads to the next phase. -/
theorem AddPhase.Ok.holds {q : AddPhase} {a : Act} (hok : q.Ok a) (h : q.Holds s) :
    (q.next a (exec D a s).1).Holds (exec D a s).2 := by
  cases hok with
  | initialized => exact trivial
  | length => exact rfl
  | stats => exact h
  | @openDevice n path =>
      rw [exec_kvsOpenDevice]
      show AddPhase.Holds _ (if _ then _ else _)
      split
      · refine ⟨h, path, ?_⟩
        simp [State.atSlot]
      · exact h
  | @openKeySpace n =>
      obtain ⟨hn, path, hpath⟩ := h
      show AddPhase.Holds _ (if _ then _ else _)
      simp only [exec, State.deviceCommand, hpath, State.command]
      split
      · refine ⟨hn, path, ?_⟩
        simp [State.setDevice, hpath]
      · exact ⟨hn, path, hpath⟩
  | @createKeySpace n =>
      have htame : (Act.kvsCreateKeySpace n).Tame := trivial
      exact AddPhase.Holds.alike h (exec_tame htame s)
  | closeDevice => exact trivial
  | copyPath => exact AddPhase.Holds.alike h (State.alike_of_eq rfl rfl rfl)
  | @setUp n copy =>
      obtain ⟨hn, path, hpath, hplace⟩ := h
      refine ⟨hn, ⟨path, ?_⟩, ?_⟩
      · simp [exec, hpath, hplace]
      · simp [exec]
  | publish hn => exact trivial

/-- Before it publishes the slot, a call leaves the table alone. -/
theorem AddPhase.Ok.alikeBelow {q : AddPhase} {a : Act} (hok : q.Ok a) (h : q.Holds s) :
    State.AlikeBelow s.numDevices s (exec D a s).2 ∨
      ∃ n, q = .ready n ∧ n < kvMaxDevices ∧ a = .storeNumDevices (n + 1) := by
  cases hok with
  | initialized => exact .inl (s.alike_refl _)
  | length => exact .inl (s.alike_refl _)
  | stats => exact .inl (s.alike_refl _)
  | @openDevice n path =>
      obtain rfl : s.numDevices = n := h
      rw [exec_kvsOpenDevice]
      exact .inl (State.alikeBelow_of_eq rfl rfl fun i hi =>
        Function.update_of_ne (Nat.ne_of_lt hi) _ _)
  | @openKeySpace n =>
      obtain ⟨rfl, _⟩ := h
      obtain ⟨ssd, heq⟩ := s.deviceCommand_frame s.numDevices .paramInvalid D.openKeySpace
      simp only [exec, heq]
      left
      split
      · exact State.alikeBelow_of_eq rfl rfl fun i hi => State.setDevice_devices_below _ _ hi
      · exact State.alikeBelow_of_eq rfl rfl fun i hi => rfl
  | @createKeySpace n =>
      have htame : (Act.kvsCreateKeySpace n).Tame := trivial
      exact .inl (exec_tame htame s _)
  | @closeDevice n =>
      obtain ⟨rfl, _⟩ := h
      obtain ⟨ssd, heq⟩ := s.deviceCommand_frame s.numDevices .paramInvalid D.closeDevice
      simp only [exec, heq]
      exact .inl (State.alikeBelow_of_eq rfl rfl fun i hi => State.setDevice_devices_below _ _ hi)
  | copyPath => exact .inl (State.alikeBelow_of_eq rfl rfl fun i hi => rfl)
  | @setUp n copy =>
      obtain ⟨rfl, _⟩ := h
      simp only [exec]
      exact .inl (State.alikeBelow_of_eq rfl rfl fun i hi => State.setDevice_devices_below _ _ hi)
  | publish hn => exact .inr ⟨_, rfl, hn, rfl⟩

/-- The call sets up the health fields before the slot is ready. -/
theorem AddPhase.Ok.setUp_of_ready {q : AddPhase} {a : Act} (hok : q.Ok a) {answer : a.Resp} {n : ℕ}
    (h : q.next a answer = .ready n) : ∃ path, a = .initDeviceCtx n path := by
  cases hok with
  | @openDevice m path =>
      have hnext : (if answer = .success then device m else chosen m) = .ready n := h
      split_ifs at hnext
  | @openKeySpace m =>
      have hnext : (if answer = .success then keyspace m else device m) = .ready n := h
      split_ifs at hnext
  | @setUp m path =>
      injection h with hm
      exact ⟨path, by rw [hm]⟩
  | _ => cases h

/-- An entry of the log that leaves the table alone. -/
theorem Intact.alike (h : Intact start s log) (hst : s.Alike t) {e : Occurrence κ δ}
    (hbound : (handDiscipline κ).phase .probe (e :: log) ≤ s.numDevices)
    (hadder : (handDiscipline κ).phase .adder (e :: log) = AddPhase.idle ∨
      (handDiscipline κ).phase .adder (e :: log) = (handDiscipline κ).phase .adder log)
    (he : ∀ before a answer i, e = .acted .probe before a answer → a.slot = some i →
      i < before.numDevices ∧ before.SlotOpen i) : Intact start t (e :: log) where
  table := h.table.alike e (hst _)
  bound := by
    rw [(hst 0).numDevices]
    exact hbound
  adding := by
    rcases hadder with heq | heq
    · rw [heq]
      exact trivial
    · rw [heq]
      exact h.adding.alike hst
  made n hn := by
    rcases hadder with heq | heq
    · rw [heq] at hn
      cases hn
    · rw [heq] at hn
      exact (h.made n hn).cons e
  confined := h.confined.cons he

/-- A call starts. -/
theorem Intact.began (h : Intact start s log) (who : Hand κ) (c : Job) :
    Intact start s (.began who c :: log) := by
  refine h.alike s.alike_refl ?_ ?_ fun _ _ _ _ heq => by cases heq
  · cases who with
    | probe => exact Nat.zero_le _
    | _ => exact h.bound
  · cases who with
    | adder => exact .inl rfl
    | _ => exact .inr rfl

/-- A call returns. -/
theorem Intact.ended (h : Intact start s log) (who : Hand κ) (c : Job) (o : Outcome) :
    Intact start s (.ended who c o :: log) := by
  refine h.alike s.alike_refl ?_ ?_ fun _ _ _ _ heq => by cases heq
  · cases who with
    | probe => exact Nat.zero_le _
    | _ => exact h.bound
  · cases who with
    | adder => exact .inl rfl
    | _ => exact .inr rfl

/-- The probe works below the length it has loaded, and the table does not get shorter. -/
theorem Intact.probed (h : Intact start s log) {a : Act} (ha : a.Probes)
    (hslot : ∀ i, a.slot = some i → i < (handDiscipline κ).phase .probe log) :
    Intact start (exec D a s).2 (.acted .probe s a (exec D a s).1 :: log) := by
  refine h.alike (exec_tame ha.tame s) ?_ (.inr rfl) ?_
  · show loadedLength _ a (exec D a s).1 ≤ s.numDevices
    cases a <;> first | exact h.bound | exact Nat.le_refl _
  · intro before a' answer i heq hi
    cases heq
    have hlt : i < s.numDevices := Nat.lt_of_lt_of_le (hslot i hi) h.bound
    exact ⟨hlt, h.table.slot i hlt⟩

/-- A client leaves the table alone. -/
theorem Intact.served (h : Intact start s log) (j : κ) {a : Act} (ha : a.Tame) :
    Intact start (exec D a s).2 (.acted (.client j) s a (exec D a s).1 :: log) :=
  h.alike (exec_tame ha s) h.bound (.inr rfl) fun _ _ _ _ heq => by cases heq

/-- A step of `kv_engine_add_device`. -/
theorem Intact.added (h : Intact start s log) {a : Act}
    (hok : AddPhase.Ok ((handDiscipline κ).phase .adder log) a) :
    Intact start (exec D a s).2 (.acted .adder s a (exec D a s).1 :: log) := by
  have hconfined : ProbeConfined (.acted .adder s a (exec D a s).1 :: log) :=
    h.confined.cons fun _ _ _ _ heq => by cases heq
  have hadding := hok.holds (D := D) h.adding
  rcases hok.alikeBelow (D := D) h.adding with halike | ⟨n, hq, hn, rfl⟩
  · refine ⟨h.table.alike _ halike, ?_, hadding, fun n hready => ?_, hconfined⟩
    · rw [halike.numDevices]
      exact h.bound
    · -- the slot is ready since the health fields are set up
      obtain ⟨path, rfl⟩ := hok.setUp_of_ready hready
      exact .inr ⟨s, path, _, List.mem_cons_self⟩
  · have hready : AddPhase.Holds s (.ready n) := hq ▸ h.adding
    refine ⟨h.table.publish _ hn hready.1 hready.2 (h.made n hq), ?_, hadding, fun m hm => ?_,
      hconfined⟩
    · exact Nat.le_trans h.bound (Nat.le_of_eq hready.1 |>.trans (Nat.le_succ n))
    · have hm' : AddPhase.next ((handDiscipline κ).phase .adder log) (.storeNumDevices (n + 1)) () =
          .ready m := hm
      rw [hq] at hm'
      cases hm'

/-- Every move keeps the invariant. -/
theorem Intact.next {σ : Growing κ δ} (htracked : Sessions.Tracked (handDiscipline κ) σ)
    (h : Intact start σ.shared σ.log) (m : Move (Hand κ) Job) :
    Sessions.Tracked (handDiscipline κ) (σ.next D m).2 ∧
      Intact start (σ.next D m).2.shared (σ.next D m).2.log := by
  refine Sessions.Tracked.next (Intact start) (handDiscipline_lawful κ) htracked h m
    (fun who c _ _ _ => h.began who c) ?_ fun who c o _ _ _ => h.ended who c o
  intro who c a k _ _ hok
  refine ⟨trivial, ?_⟩
  cases who with
  | probe => exact h.probed hok.1 hok.2
  | adder => exact h.added hok
  | client j => exact h.served j hok

end invariant

/-! ### Every run -/

/-- The device loop of a successful `kv_engine_init` has opened and set up the whole table. -/
theorem intact_start {κ δ : Type} [DecidableEq κ] {D : Driver δ} {config : Config} {s : State δ}
    (hinit : (run D (kvEngineInit config) s).1 = .success) :
    Intact (run D (kvEngineInit config) s).2 (run D (kvEngineInit config) s).2
      ([] : Chronicle κ δ) := by
  obtain ⟨paths, hpaths, hbooted⟩ := kvEngineInit_success hinit
  obtain ⟨hpos, hle⟩ := kvEngineResolveDevicePaths_length hpaths
  rw [← hbooted.numDevices] at hpos hle
  have hslot (i : ℕ) (hi : i < (run D (kvEngineInit config) s).2.numDevices) :
      ∃ path copy, (run D (kvEngineInit config) s).2.devices i = .fresh path i copy := by
    rw [hbooted.numDevices] at hi
    obtain ⟨copy, hcopy⟩ := hbooted.slot i _ (List.getElem?_eq_getElem hi)
    exact ⟨_, copy, hcopy⟩
  refine ⟨⟨hbooted.initialized, hpos, hle, fun i hi => ?_, fun i hi => .inl ⟨hi, hslot i hi⟩⟩,
    Nat.zero_le _, trivial, fun n hn => (by cases hn), fun _ _ _ _ hmem => (by cases hmem)⟩
  obtain ⟨path, copy, hfresh⟩ := hslot i hi
  exact ⟨⟨path, by rw [hfresh]; exact ⟨rfl, rfl⟩⟩, by rw [hfresh]; rfl⟩

/-- **Device slots and shard indices are valid.**  After a successful `kv_engine_init`, from any
state before it, and any moves of the probe, of a thread that adds devices and of other threads: the
table has between 1 and 8 slots, each of them has an open device and an open keyspace and was set
up, the probe has only touched such slots, and every key is sharded to one of them. -/
theorem slots_valid {κ δ : Type} [DecidableEq κ] {D : Driver δ} {config : Config} {s : State δ}
    (hinit : (run D (kvEngineInit config) s).1 = .success) (moves : List (Move (Hand κ) Job)) :
    let start := (run D (kvEngineInit config) s).2
    let σ := Growing.after D (.start start) moves
    (1 ≤ σ.shared.numDevices ∧ σ.shared.numDevices ≤ 8) ∧
      (∀ i < σ.shared.numDevices, σ.shared.SlotOpen i ∧ SetUp start σ.log i) ∧
      (∀ before a answer i, .acted .probe before a answer ∈ σ.log → a.slot = some i →
        i < before.numDevices ∧ before.SlotOpen i) ∧
      ∀ key, kvEngineShardForKey key σ.shared.numDevices < σ.shared.numDevices := by
  intro start σ
  have hrun : Sessions.Tracked (handDiscipline κ) σ ∧ Intact start σ.shared σ.log :=
    Machine.invariant (fun σ => Sessions.Tracked (handDiscipline κ) σ ∧ Intact start σ.shared σ.log)
      (fun _ m h => h.2.next h.1 m)
      ⟨Sessions.tracked_start (handDiscipline_lawful κ) start, intact_start hinit⟩ moves
  have htable := hrun.2.table
  exact ⟨⟨htable.pos, htable.le⟩, fun i hi => ⟨htable.slot i hi, htable.setUp i hi⟩,
    hrun.2.confined, fun key => kvEngineShardForKey_lt key htable.pos⟩

/-- A third device is added during a sweep: the slot is set up when the sweep starts and published
when it has looked at two devices. -/
def growingSweep : List (Move (Hand Empty) Job) :=
  ([.invoke .adder (.add (some "/dev/nvme2n1"))] : List (Move (Hand Empty) Job)) ++
    List.replicate 9 (.step .adder : Move (Hand Empty) Job) ++
    ([.invoke .probe .sweep] : List (Move (Hand Empty) Job)) ++
    List.replicate 4 (.step .probe : Move (Hand Empty) Job) ++
    ([.step .adder] : List (Move (Hand Empty) Job)) ++
    List.replicate 2 (.step .probe : Move (Hand Empty) Job)

/-- The sweep reaches the third slot, and finds it open. -/
theorem slots_valid_growingSweep :
    let σ := Growing.after keySpaceDriver (.start freshEngine) growingSweep
    σ.shared.numDevices = 3 ∧ σ.shared.SlotOpen 2 ∧ ∃ before answer,
      .acted .probe before (.loadHealthy 2) answer ∈ σ.log ∧ before.SlotOpen 2 := by
  intro σ
  have hinit : (run keySpaceDriver (kvEngineInit twoDevices)
      (.blank fun _ => .empty)).1 = .success :=
    kvEngineInit_ok keySpaceDriver_faultless twoDevices_paths fun _ => rfl
  obtain ⟨_, hslots, hprobe, _⟩ := slots_valid hinit growingSweep
  have hnum : σ.shared.numDevices = 3 := by decide +kernel
  have hlast : σ.log.head? = some (.acted .probe _ (.loadHealthy 2) _) := rfl
  have hmem := List.mem_of_mem_head? hlast
  exact ⟨hnum, (hslots 2 (hnum ▸ by decide)).1, _, _, hmem, (hprobe _ _ _ 2 hmem rfl).2⟩

end KvEngine
