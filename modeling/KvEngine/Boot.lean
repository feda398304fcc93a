import KvEngine.Runs

/-! # Initialisation and restart

What `kv_engine_init`, `kv_engine_cleanup` and `kv_engine_add_device` leave behind.

* `Manages D d d'`: a device went from `d` to `d'` by commands that touch no pair (open and
  close of the device and the keyspace, creation of the keyspace, utilization queries).
* `run_kvEngineOpenDevice_cases`: one call of `kv_engine_open_device`, with its failure exits.
* `kvEngineInit_success`: whenever `kv_engine_init` returns success, whatever the devices and
  the allocator did on the way, the engine is `Booted`: every slot has an open keyspace and
  fresh health fields, the key table is empty and the statistics are zero.
* `kvEngineInit_ok`: over devices that report no fault and with allocations that succeed, it
  does return success.
* `kvEngineCleanup_managed`: a cleanup only manages the devices. -/

namespace KvEngine

open Atomic

variable {δ : Type} {D : Driver δ}

/-! ### Commands that touch no pair -/

/-- One command that touches no pair. -/
inductive Manage (D : Driver δ) (d : δ) : δ → Prop
  | openDevice : Manage D d (D.openDevice d).2
  | closeDevice : Manage D d (D.closeDevice d).2
  | openKeySpace : Manage D d (D.openKeySpace d).2
  | createKeySpace : Manage D d (D.createKeySpace d).2
  | closeKeySpace : Manage D d (D.closeKeySpace d).2
  | getDeviceUtilization : Manage D d (D.getDeviceUtilization d).2

/-- Any number of commands that touch no pair. -/
abbrev Manages (D : Driver δ) : δ → δ → Prop := Relation.ReflTransGen (Manage D)

/-- Managing a documented device keeps its pairs. -/
theorem Manages.contents_eq {contents : δ → Bytes → Option Bytes} (hD : Documented D contents)
    {d d' : δ} (h : Manages D d d') : contents d' = contents d := by
  induction h with
  | refl => rfl
  | tail _ hstep ih =>
      rw [← ih]
      cases hstep with
      | openDevice => exact hD.openDevice _
      | closeDevice => exact hD.closeDevice _
      | openKeySpace => exact hD.openKeySpace _
      | createKeySpace => exact hD.createKeySpace _
      | closeKeySpace => exact hD.closeKeySpace _
      | getDeviceUtilization => exact hD.getDeviceUtilization _

/-! ### Programs that only use the allocator -/

namespace State

/-- The allocator after `n` calls. -/
def skip (s : State δ) (n : ℕ) : State δ := { s with heap := fun m => s.heap (m + n) }

theorem skip_skip (s : State δ) (n m : ℕ) : (s.skip n).skip m = s.skip (m + n) := by
  simp only [skip, State.mk.injEq, true_and, and_true]
  funext k
  rw [Nat.add_assoc]

end State

/-- The actions that only use the allocator. -/
def Act.Allocates : Act → Prop
  | .alloc _ => True
  | .free _ => True
  | .freeUnwritten => True
  | .acquire _ => True
  | .release _ => True
  | _ => False

theorem exec_allocates {a : Act} (ha : a.Allocates) (s : State δ) :
    ∃ n, (exec D a s).2 = s.skip n := by
  cases a <;> simp only [Act.Allocates] at ha
  case alloc => exact ⟨1, rfl⟩
  case acquire => exact ⟨1, rfl⟩
  all_goals exact ⟨0, rfl⟩

/-- A program that only uses the allocator changes nothing else. -/
theorem run_allocates {α : Type} {p : M α} (hp : p.Performs Act.Allocates) (s : State δ) :
    ∃ n, (run D p s).2 = s.skip n := by
  refine Prog.run_rel (exec D) (R := fun s t => ∃ n, t = s.skip n) (fun s => ⟨0, rfl⟩) ?_ ?_ hp s
  · rintro s t u ⟨n, rfl⟩ ⟨m, rfl⟩
    exact ⟨m + n, s.skip_skip n m⟩
  · intro a s ha
    exact exec_allocates ha s

/-- The two strings of the configuration. -/
def Resource.isString : Resource → Bool
  | .configDevicePath => true
  | .configEmulFile => true
  | _ => false

section performs

variable {Q : Act → Prop}

theorem memoryPoolCreate_performs (hacquire : ∀ r, r.isString = false → Q (.acquire r))
    (hrelease : ∀ r, Q (.release r)) : memoryPoolCreate.Performs Q := by
  refine ⟨hacquire _ rfl, fun pool => ?_⟩
  cases pool with
  | false => trivial
  | true =>
      refine ⟨hacquire _ rfl, fun base => ?_⟩
      cases base with
      | false => exact ⟨hrelease _, fun _ => trivial⟩
      | true => exact ⟨hacquire _ rfl, fun _ => trivial⟩

theorem joinWorkers_performs (hrelease : ∀ r, Q (.release r)) (is : List ℕ) :
    (joinWorkers is).Performs Q := by
  induction is with
  | nil => trivial
  | cons i is ih => exact ⟨hrelease _, fun _ => ih⟩

theorem freeThreadPool_performs (hrelease : ∀ r, Q (.release r)) : freeThreadPool.Performs Q :=
  ⟨hrelease _, fun _ => ⟨hrelease _, fun _ => ⟨hrelease _, fun _ => trivial⟩⟩⟩

theorem threadPoolDestroy_performs (hrelease : ∀ r, Q (.release r)) (n : ℕ) :
    (threadPoolDestroy n).Performs Q :=
  (joinWorkers_performs hrelease _).bind fun _ => freeThreadPool_performs hrelease

theorem startWorkers_performs (hacquire : ∀ r, r.isString = false → Q (.acquire r))
    (hrelease : ∀ r, Q (.release r)) (i n : ℕ) : (startWorkers i n).Performs Q := by
  induction n generalizing i with
  | zero => trivial
  | succ n ih =>
      refine ⟨hacquire _ rfl, fun started => ?_⟩
      cases started with
      | true => exact ih (i + 1)
      | false =>
          exact (joinWorkers_performs hrelease _).bind fun _ =>
            (freeThreadPool_performs hrelease).bind fun _ => trivial

theorem threadPoolCreate_performs (hacquire : ∀ r, r.isString = false → Q (.acquire r))
    (hrelease : ∀ r, Q (.release r)) (n : ℕ) : (threadPoolCreate n).Performs Q := by
  unfold threadPoolCreate
  split
  · trivial
  · refine ⟨hacquire _ rfl, fun pool => ?_⟩
    cases pool with
    | false => trivial
    | true =>
        refine ⟨hacquire _ rfl, fun threads => ?_⟩
        cases threads with
        | false => exact ⟨hrelease _, fun _ => trivial⟩
        | true => exact ⟨hacquire _ rfl, fun _ => startWorkers_performs hacquire hrelease 0 n⟩

theorem dmaPoolDestroy_performs (hfree : ∀ b, Q (.free b)) (hunwritten : Q .freeUnwritten)
    (hrelease : ∀ r, Q (.release r)) (p : DmaPool) : (dmaPoolDestroy p).Performs Q := by
  have hslots (is : List ℕ) : (freeSlots p is).Performs Q := by
    induction is with
    | nil => trivial
    | cons i is ih =>
        refine Prog.Performs.bind ?_ fun _ => ih
        cases p.allBuffers i with
        | none => exact ⟨hunwritten, fun _ => trivial⟩
        | some b => exact ⟨hfree b, fun _ => trivial⟩
  refine (hslots _).bind fun _ => ?_
  exact ⟨hrelease _, fun _ => ⟨hrelease _, fun _ => ⟨hrelease _, fun _ =>
    ⟨hrelease _, fun _ => trivial⟩⟩⟩⟩

theorem closeDevices_performs (hkeyspace : ∀ i, Q (.kvsCloseKeySpace i))
    (hdevice : ∀ i, Q (.kvsCloseDevice i)) (hrelease : ∀ r, Q (.release r))
    (hpath : ∀ i, Q (.freeDevicePath i)) (is : List ℕ) : (closeDevices is).Performs Q := by
  induction is with
  | nil => trivial
  | cons i is ih =>
      refine Prog.Performs.bind ?_ fun _ => ih
      exact ⟨hkeyspace i, fun _ => ⟨hdevice i, fun _ => ⟨hrelease _, fun _ =>
        ⟨hpath i, fun _ => trivial⟩⟩⟩⟩

end performs

theorem memoryPoolCreate_allocates : memoryPoolCreate.Performs Act.Allocates :=
  memoryPoolCreate_performs (fun _ _ => trivial) fun _ => trivial

theorem threadPoolDestroy_allocates (n : ℕ) : (threadPoolDestroy n).Performs Act.Allocates :=
  threadPoolDestroy_performs (fun _ => trivial) n

theorem threadPoolCreate_allocates (n : ℕ) : (threadPoolCreate n).Performs Act.Allocates :=
  threadPoolCreate_performs (fun _ _ => trivial) (fun _ => trivial) n

theorem dmaPoolDestroy_allocates (p : DmaPool) : (dmaPoolDestroy p).Performs Act.Allocates :=
  dmaPoolDestroy_performs (fun _ => trivial) trivial (fun _ => trivial) p

theorem dmaAlloc_allocates (n : ℕ) : (dmaAlloc n).Performs Act.Allocates :=
  dmaAlloc_performs trivial

theorem fillDmaPool_allocates (p : DmaPool) (i n : ℕ) :
    (fillDmaPool p i n).Performs Act.Allocates := by
  induction n generalizing p i with
  | zero => exact ⟨trivial, fun _ => trivial⟩
  | succ n ih =>
      refine (dmaAlloc_allocates _).bind fun buf => ?_
      cases buf with
      | none => exact (dmaPoolDestroy_allocates p).bind fun _ => trivial
      | some b => exact ih _ _

theorem dmaPoolCreate_allocates (size count : ℕ) :
    (dmaPoolCreate size count).Performs Act.Allocates := by
  refine ⟨trivial, fun pool => ?_⟩
  cases pool with
  | false => trivial
  | true =>
      refine ⟨trivial, fun freeList => ?_⟩
      cases freeList with
      | false => exact ⟨trivial, fun _ => trivial⟩
      | true =>
          refine ⟨trivial, fun allBuffers => ?_⟩
          cases allBuffers with
          | false => exact ⟨trivial, fun _ => ⟨trivial, fun _ => trivial⟩⟩
          | true => exact fillDmaPool_allocates _ 0 count

theorem healthProbeCreate_allocates : healthProbeCreate.Performs Act.Allocates := by
  refine ⟨trivial, fun probe => ?_⟩
  cases probe with
  | false => trivial
  | true =>
      refine ⟨trivial, fun _ => ⟨trivial, fun started => ?_⟩⟩
      cases started with
      | false => exact ⟨trivial, fun _ => ⟨trivial, fun _ => trivial⟩⟩
      | true => trivial

theorem copyString_allocates (r : Resource) (t : Option String) :
    (copyString r t).Performs Act.Allocates := by
  cases t with
  | none => trivial
  | some _ => exact ⟨trivial, fun _ => trivial⟩

/-! ### Opening a device -/

/-- The slot `kv_engine_open_device` leaves; `copy` is the outcome of `strdup`. -/
def DeviceCtx.fresh (path : String) (i : ℕ) (copy : Option String) : DeviceCtx :=
  ⟨some path, some ⟨path, i⟩, copy, true, 0, 0, 0, 10⟩

/-- The state after commands that left the keyspace of slot `i` at `d` and the slot at `c`. -/
def State.atSlot (s : State δ) (i : ℕ) (path : String) (d : δ) (c : DeviceCtx) (n : ℕ) : State δ :=
  { s with ssd := Function.update s.ssd ⟨path, i⟩ d
           devices := Function.update s.devices i c
           heap := fun m => s.heap (m + n) }

theorem run_finishOpenDevice {s : State δ} {i : ℕ} {path : String} {d : δ} {c : DeviceCtx}
    (hc : c.device = some path) (hk : c.keyspace = some ⟨path, i⟩) :
    ∃ copy, run D (finishOpenDevice i path) (s.atSlot i path d c 0) =
      (.success, s.atSlot i path d (.fresh path i copy) 1) := by
  refine ⟨if (s.heap 0).isSome then some path else none, ?_⟩
  have hslot : (s.atSlot i path d c 0).devices i = c := by simp [State.atSlot]
  simp only [finishOpenDevice, Prog.perform_bind, Prog.run_act, exec, Prog.pure_eq, Prog.run_ret]
  refine congrArg (Prod.mk _) ?_
  rw [State.setDevice]
  simp only [State.dropAlloc, hslot, hc, hk]
  rw [State.atSlot, State.atSlot]
  simp only [Function.update_idem]
  rfl

theorem exec_kvsOpenDevice (s : State δ) (i : ℕ) (path : String) :
    exec D (.kvsOpenDevice i path) s =
      ((D.openDevice (s.ssd ⟨path, i⟩)).1,
        s.atSlot i path (D.openDevice (s.ssd ⟨path, i⟩)).2
          (if (D.openDevice (s.ssd ⟨path, i⟩)).1 = .success then
            { s.devices i with device := some path } else s.devices i) 0) := by
  by_cases h : (D.openDevice (s.ssd ⟨path, i⟩)).1 = .success <;>
    simp [exec, State.command, State.atSlot, State.setDevice, h]

section atSlot
variable {s : State δ} {i : ℕ} {path : String} {d : δ} {c : DeviceCtx}

theorem deviceCommand_atSlot {α : Type} (hc : c.device = some path) (refused : α)
    (cmd : δ → α × δ) :
    (s.atSlot i path d c 0).deviceCommand i refused cmd =
      ((cmd d).1, s.atSlot i path (cmd d).2 c 0) := by
  simp [State.deviceCommand, State.atSlot, hc, State.command]

theorem exec_kvsOpenKeySpace (hc : c.device = some path) :
    exec D (.kvsOpenKeySpace i) (s.atSlot i path d c 0) =
      ((D.openKeySpace d).1, s.atSlot i path (D.openKeySpace d).2
        (if (D.openKeySpace d).1 = .success then { c with keyspace := some ⟨path, i⟩ } else c) 0) := by
  simp only [exec, deviceCommand_atSlot hc]
  split <;> simp [State.atSlot, State.setDevice, hc]

theorem exec_kvsCloseDevice (hc : c.device = some path) :
    exec D (.kvsCloseDevice i) (s.atSlot i path d c 0) =
      ((), s.atSlot i path (D.closeDevice d).2 { c with device := none } 0) := by
  simp only [exec, deviceCommand_atSlot hc]
  simp [State.atSlot, State.setDevice]

end atSlot

/-- `kv_engine_open_device` fails, or it leaves a slot with an open keyspace and fresh health
fields.  In both cases it touches one slot and manages one device. -/
theorem run_kvEngineOpenDevice_cases (s : State δ) (i : ℕ) (path : String) :
    ∃ r d c n, run D (kvEngineOpenDevice i path) s = (r, s.atSlot i path d c n) ∧
      Manages D (s.ssd ⟨path, i⟩) d ∧
      (r = .deviceOpen ∨ r = .success ∧ ∃ copy, c = .fresh path i copy) := by
  simp only [kvEngineOpenDevice, Prog.perform_bind, Prog.run_act, exec_kvsOpenDevice]
  have h₁ : Manages D (s.ssd ⟨path, i⟩) (D.openDevice (s.ssd ⟨path, i⟩)).2 := .single .openDevice
  generalize D.openDevice (s.ssd ⟨path, i⟩) = first at h₁ ⊢
  obtain ⟨r₁, d₁⟩ := first
  by_cases hr₁ : r₁ = .success
  · simp only [hr₁, ne_eq, not_true_eq_false, if_true, if_false, Prog.run_act]
    have hdev : ({ s.devices i with device := some path } : DeviceCtx).device = some path := rfl
    generalize ({ s.devices i with device := some path } : DeviceCtx) = c at hdev ⊢
    simp only [exec_kvsOpenKeySpace hdev]
    have h₂ := h₁.tail .openKeySpace
    generalize D.openKeySpace d₁ = second at h₂ ⊢
    obtain ⟨r₂, d₂⟩ := second
    by_cases hr₂ : r₂ = .success
    · simp only [hr₂, if_true]
      obtain ⟨copy, hfin⟩ := run_finishOpenDevice (D := D) (s := s) (i := i) (d := d₂)
        (c := { c with keyspace := some ⟨path, i⟩ }) hdev rfl
      exact ⟨_, _, _, _, hfin, h₂, .inr ⟨rfl, copy, rfl⟩⟩
    · simp only [hr₂, if_false, Prog.run_act]
      have hcreate : exec D (.kvsCreateKeySpace i) (s.atSlot i path d₂ c 0) =
          ((D.createKeySpace d₂).1, s.atSlot i path (D.createKeySpace d₂).2 c 0) :=
        deviceCommand_atSlot hdev _ _
      simp only [hcreate]
      have h₃ := h₂.tail .createKeySpace
      generalize D.createKeySpace d₂ = third at h₃ ⊢
      obtain ⟨r₃, d₃⟩ := third
      by_cases hr₃ : r₃ = .success
      · simp only [hr₃, not_true_eq_false, if_false, Prog.run_act, exec_kvsOpenKeySpace hdev]
        have h₄ := h₃.tail .openKeySpace
        generalize D.openKeySpace d₃ = fourth at h₄ ⊢
        obtain ⟨r₄, d₄⟩ := fourth
        by_cases hr₄ : r₄ = .success
        · simp only [hr₄, not_true_eq_false, if_true, if_false]
          obtain ⟨copy, hfin⟩ := run_finishOpenDevice (D := D) (s := s) (i := i) (d := d₄)
            (c := { c with keyspace := some ⟨path, i⟩ }) hdev rfl
          exact ⟨_, _, _, _, hfin, h₄, .inr ⟨rfl, copy, rfl⟩⟩
        · simp only [hr₄, not_false_eq_true, if_true, if_false, Prog.run_act,
            exec_kvsCloseDevice hdev, Prog.pure_eq, Prog.run_ret]
          exact ⟨_, _, _, _, rfl, h₄.tail .closeDevice, .inl rfl⟩
      · simp only [hr₃, not_false_eq_true, if_true, Prog.run_act,
          exec_kvsCloseDevice hdev, Prog.pure_eq, Prog.run_ret]
        exact ⟨_, _, _, _, rfl, h₃.tail .closeDevice, .inl rfl⟩
  · simp only [hr₁, ne_eq, not_false_eq_true, if_true, if_false, Prog.pure_eq, Prog.run_ret]
    exact ⟨_, _, _, _, rfl, h₁, .inl rfl⟩

/-- Over a device that reports no fault it succeeds. -/
theorem run_kvEngineOpenDevice_ok {contents : δ → Bytes → Option Bytes} {created : δ → Bool}
    (hD : Faultless D contents created) (s : State δ) (i : ℕ) (path : String) :
    (run D (kvEngineOpenDevice i path) s).1 = .success := by
  have hfinish (t : State δ) : (run D (finishOpenDevice i path) t).1 = .success := rfl
  simp only [kvEngineOpenDevice, Prog.perform_bind, Prog.run_act, exec_kvsOpenDevice,
    hD.openDevice_ok, ne_eq, not_true_eq_false, if_true, if_false]
  have hdev : ({ s.devices i with device := some path } : DeviceCtx).device = some path := rfl
  generalize ({ s.devices i with device := some path } : DeviceCtx) = c at hdev ⊢
  generalize (D.openDevice (s.ssd ⟨path, i⟩)).2 = d
  simp only [exec_kvsOpenKeySpace hdev]
  by_cases hopen : (D.openKeySpace d).1 = .success
  · simp only [hopen, if_true, hfinish]
  · -- The keyspace does not exist yet: it is created, and then it can be opened.
    have hnew : created (D.openKeySpace d).2 = false := by
      rw [hD.created_openKeySpace]
      have := mt (hD.openKeySpace_ok d).mpr hopen
      simpa using this
    have hcreate : exec D (.kvsCreateKeySpace i) (s.atSlot i path (D.openKeySpace d).2 c 0) =
        ((D.createKeySpace (D.openKeySpace d).2).1,
          s.atSlot i path (D.createKeySpace (D.openKeySpace d).2).2 c 0) :=
      deviceCommand_atSlot hdev _ _
    have hagain : (D.openKeySpace (D.createKeySpace (D.openKeySpace d).2).2).1 = .success :=
      (hD.openKeySpace_ok _).mpr (hD.created_createKeySpace _)
    simp only [hopen, if_false, Prog.run_act, hcreate, hD.createKeySpace_ok _ hnew,
      not_true_eq_false, exec_kvsOpenKeySpace hdev, hagain, if_true, hfinish]

/-! ### Initialisation -/

/-- The slots from `i` on were opened on `paths`; nothing else of the engine matters here. -/
structure Opened (D : Driver δ) (i : ℕ) (paths : List String) (s t : State δ) : Prop where
  numDevices : paths ≠ [] → t.numDevices = i + paths.length
  slot : ∀ j path, paths[j]? = some path → ∃ copy, t.devices (i + j) = .fresh path (i + j) copy
  below : ∀ j < i, t.devices j = s.devices j
  ssd : ∀ p, Manages D (s.ssd p) (t.ssd p)
  heap : ∃ n, t.heap = fun m => s.heap (m + n)

theorem Opened.cons {i : ℕ} {path : String} {paths : List String} {s t : State δ} {d : δ} {n : ℕ}
    {copy : Option String} (hd : Manages D (s.ssd ⟨path, i⟩) d)
    (h : Opened D (i + 1) paths
      { s.atSlot i path d (.fresh path i copy) n with numDevices := i + 1 } t)
    (hnil : paths = [] → t.numDevices = i + 1) : Opened D i (path :: paths) s t where
  numDevices _ := by
    by_cases hp : paths = []
    · simp [hnil hp, hp]
    · rw [h.numDevices hp, List.length_cons]
      omega
  slot j path' hj := by
    cases j with
    | zero =>
        obtain rfl : path = path' := by simpa using hj
        exact ⟨copy, by rw [Nat.add_zero, h.below i (Nat.lt_succ_self i)]; simp [State.atSlot]⟩
    | succ j =>
        obtain ⟨copy', hc⟩ := h.slot j path' (by simpa using hj)
        refine ⟨copy', ?_⟩
        rw [show i + (j + 1) = i + 1 + j by omega]
        exact hc
  below j hj := by
    rw [h.below j (by omega)]
    simp [State.atSlot, Function.update_of_ne (Nat.ne_of_lt hj)]
  ssd p := by
    refine Relation.ReflTransGen.trans ?_ (h.ssd p)
    by_cases hp : p = ⟨path, i⟩
    · subst hp
      simpa [State.atSlot] using hd
    · simp [State.atSlot, Function.update_of_ne hp, Relation.ReflTransGen.refl]
  heap := by
    obtain ⟨m, hm⟩ := h.heap
    refine ⟨m + n, hm.trans ?_⟩
    funext k
    simp [State.atSlot, Nat.add_assoc]

/-- A device loop that succeeds has opened every slot. -/
theorem run_openDevices_success {i : ℕ} {paths : List String} {s : State δ}
    (h : (run D (openDevices i paths) s).1 = .success) :
    Opened D i paths s (run D (openDevices i paths) s).2 := by
  induction paths generalizing i s with
  | nil =>
      exact ⟨fun hne => absurd rfl hne, fun j path hj => by simp at hj, fun _ _ => rfl,
        fun _ => .refl, ⟨0, rfl⟩⟩
  | cons path paths ih =>
      obtain ⟨r, d, c, n, hopen, hd, hcase⟩ := run_kvEngineOpenDevice_cases (D := D) s i path
      have hrun : run D (openDevices i (path :: paths)) s =
          run D (if r ≠ .success then do
              closeDevices (List.range i)
              return r
            else do
              atomically (.storeNumDevices (i + 1))
              openDevices (i + 1) paths) (s.atSlot i path d c n) := by
        simp only [openDevices, Prog.run_bind, hopen]
      rw [hrun] at h ⊢
      rcases hcase with rfl | ⟨rfl, copy, rfl⟩
      · simp [Prog.run_bind] at h
      · simp only [ne_eq, not_true_eq_false, if_false, Prog.perform_bind, Prog.run_act, exec] at h ⊢
        refine Opened.cons hd (ih h) ?_
        rintro rfl
        rfl

theorem run_openDevices_ok {contents : δ → Bytes → Option Bytes} {created : δ → Bool}
    (hD : Faultless D contents created) (i : ℕ) (paths : List String) (s : State δ) :
    (run D (openDevices i paths) s).1 = .success := by
  induction paths generalizing i s with
  | nil => rfl
  | cons path paths ih =>
      simp only [openDevices, Prog.run_bind, run_kvEngineOpenDevice_ok hD s i path, ne_eq,
        not_true_eq_false, if_false, Prog.run_perform]
      exact ih _ _

/-- What an initialised engine starts from: `t` is the state after the call, `s` before. -/
structure Booted (D : Driver δ) (paths : List String) (s t : State δ) : Prop where
  initialized : t.initialized = true
  numDevices : t.numDevices = paths.length
  slot : ∀ i path, paths[i]? = some path → ∃ copy, t.devices i = .fresh path i copy
  ssd : ∀ p, Manages D (s.ssd p) (t.ssd p)
  keyTable : t.keyTable = ∅
  stats : t.stats = .zero
  heap : ∃ n, t.heap = fun m => s.heap (m + n)

/-- What the steps after the device loop do, when they succeed. -/
structure Equipped (s t : State δ) : Prop where
  initialized : t.initialized = true
  numDevices : t.numDevices = s.numDevices
  devices : t.devices = s.devices
  ssd : t.ssd = s.ssd
  keyTable : t.keyTable = ∅
  heap : ∃ n, t.heap = fun m => s.heap (m + n)

/-- The allocator calls and the fields the steps before set are of no concern to `Equipped`. -/
theorem Equipped.of_skip {s s' t : State δ} {n : ℕ} (h : Equipped s' t)
    (hdev : s'.devices = s.devices) (hnum : s'.numDevices = s.numDevices) (hssd : s'.ssd = s.ssd)
    (hheap : s'.heap = fun m => s.heap (m + n)) : Equipped s t where
  initialized := h.initialized
  numDevices := h.numDevices.trans hnum
  devices := h.devices.trans hdev
  ssd := h.ssd.trans hssd
  keyTable := h.keyTable
  heap := by
    obtain ⟨m, hm⟩ := h.heap
    refine ⟨m + n, ?_⟩
    rw [hm, hheap]
    funext k
    simp [Nat.add_assoc]

theorem run_initTable_success {config : Config} {copiedPath copiedEmul : Bool} {s : State δ}
    (h : (run D (initTable config copiedPath copiedEmul) s).1 = .success) :
    Equipped s (run D (initTable config copiedPath copiedEmul) s).2 ∧
      (run D (initTable config copiedPath copiedEmul) s).2.stats = s.stats := by
  simp only [initTable, Prog.perform_bind, Prog.run_act, exec, State.nextAlloc] at h ⊢
  by_cases hlock : (s.heap 0).isSome = true
  · simp only [hlock, Bool.not_true, Bool.false_eq_true, if_false, Prog.run_bind]
    obtain ⟨n, hn⟩ := run_allocates (D := D) healthProbeCreate_allocates
      (State.dropAlloc { s with keyTable := ∅ })
    simp only [hn, Prog.run_act, exec, Prog.pure_eq, Prog.run_ret]
    refine ⟨⟨rfl, rfl, rfl, rfl, rfl, n + 1, ?_⟩, rfl⟩
    funext m
    simp [State.skip, State.dropAlloc, Nat.add_assoc]
  · simp [hlock, Prog.run_bind] at h

theorem run_initBufferPool (config : Config) (s : State δ) :
    ∃ pool n, run D (initBufferPool config) s = ((), { s.skip n with bufferPool := pool }) := by
  unfold initBufferPool
  split
  · obtain ⟨n, hn⟩ := run_allocates (D := D)
      (dmaPoolCreate_allocates kvEngineRetrieveSize config.dmaPoolCount) s
    refine ⟨(run D (dmaPoolCreate kvEngineRetrieveSize config.dmaPoolCount) s).1, n, ?_⟩
    simp only [Prog.run_bind, Prog.run_perform, hn, exec]
  · exact ⟨s.bufferPool, 0, rfl⟩

theorem run_initStats_success {config : Config} {copiedPath copiedEmul : Bool} {s : State δ}
    (h : (run D (initStats config copiedPath copiedEmul) s).1 = .success) :
    Equipped s (run D (initStats config copiedPath copiedEmul) s).2 ∧
      (run D (initStats config copiedPath copiedEmul) s).2.stats = .zero := by
  obtain ⟨pool, n, hpool⟩ := run_initBufferPool (D := D) config { s.dropAlloc with stats := .zero }
  simp only [initStats, Prog.perform_bind, Prog.run_act, exec, Prog.run_bind, hpool] at h ⊢
  obtain ⟨heq, hstats⟩ := run_initTable_success h
  refine ⟨heq.of_skip (n := n + 1) rfl rfl rfl ?_, hstats⟩
  funext m
  simp [State.skip, State.dropAlloc, Nat.add_assoc]

theorem run_initPools_success {config : Config} {copiedPath copiedEmul : Bool} {s : State δ}
    (h : (run D (initPools config copiedPath copiedEmul) s).1 = .success) :
    Equipped s (run D (initPools config copiedPath copiedEmul) s).2 ∧
      (run D (initPools config copiedPath copiedEmul) s).2.stats = .zero := by
  obtain ⟨n, hn⟩ := run_allocates (D := D) memoryPoolCreate_allocates s
  simp only [initPools, Prog.run_bind, hn] at h ⊢
  by_cases hmem : (run D memoryPoolCreate s).1 = true
  · simp only [hmem, Bool.not_true, Bool.false_eq_true, if_false, Prog.perform_bind, Prog.run_act,
      exec] at h ⊢
    by_cases hw : 0 < config.numWorkerThreads
    · obtain ⟨m, hm⟩ := run_allocates (D := D) (threadPoolCreate_allocates config.numWorkerThreads)
        { s.skip n with memPool := true }
      simp only [hw, if_true, Prog.run_bind, hm] at h ⊢
      by_cases hpool : (run D (threadPoolCreate config.numWorkerThreads)
          { s.skip n with memPool := true }).1 = true
      · simp only [hpool, Bool.not_true, Bool.false_eq_true, if_false, Prog.run_act, exec] at h ⊢
        obtain ⟨heq, hstats⟩ := run_initStats_success h
        refine ⟨heq.of_skip (n := m + n) rfl rfl rfl ?_, hstats⟩
        funext k
        simp [State.skip, Nat.add_assoc]
      · simp [hpool, Prog.run_bind] at h
    · simp only [hw, if_false] at h ⊢
      obtain ⟨heq, hstats⟩ := run_initStats_success h
      exact ⟨heq.of_skip (n := n) rfl rfl rfl rfl, hstats⟩
  · simp [hmem, Prog.run_bind] at h

theorem length_of_mapM_eq_some {α β : Type} {f : α → Option β} {l : List α} {l' : List β}
    (h : l.mapM f = some l') : l'.length = l.length := by
  induction l generalizing l' with
  | nil =>
      obtain rfl : [] = l' := by simpa using h
      rfl
  | cons a l ih =>
      simp only [List.mapM_cons, Option.bind_eq_bind, Option.bind_eq_some_iff, Option.pure_def,
        Option.some.injEq] at h
      obtain ⟨b, _, l'', hl'', rfl⟩ := h
      simp [ih hl'']

theorem kvEngineResolveDevicePaths_length {config : Config} {paths : List String}
    (h : kvEngineResolveDevicePaths config = .ok paths) :
    0 < paths.length ∧ paths.length ≤ kvMaxDevices := by
  unfold kvEngineResolveDevicePaths at h
  split at h
  · rename_i hpos
    split at h
    · cases h
    · rename_i hmax
      split at h
      · cases h
      · rename_i ps hps
        cases h
        have hlen := length_of_mapM_eq_some hps
        rw [List.length_range] at hlen
        omega
  · split at h
    · cases h
    · cases h
      exact ⟨Nat.one_pos, Nat.one_le_iff_ne_zero.mpr (by decide)⟩

theorem kvEngineResolveDevicePaths_error {config : Config} {e : KvResult}
    (h : kvEngineResolveDevicePaths config = .error e) : e = .invalidParam := by
  unfold kvEngineResolveDevicePaths at h
  split at h
  · split at h
    · cases h
      rfl
    · split at h <;> cases h
      rfl
  · split at h <;> cases h
    rfl

/-- Whatever the devices and the allocator did: a `kv_engine_init` that returns success leaves
a booted engine. -/
theorem kvEngineInit_success {config : Config} {s : State δ}
    (h : (run D (kvEngineInit config) s).1 = .success) :
    ∃ paths, kvEngineResolveDevicePaths config = .ok paths ∧
      Booted D paths s (run D (kvEngineInit config) s).2 := by
  simp only [kvEngineInit, Prog.perform_bind, Prog.run_act, exec, State.nextAlloc] at h ⊢
  by_cases heng : (s.heap 0).isSome = true
  · simp only [heng, Bool.not_true, Bool.false_eq_true, if_false, Prog.run_act, exec,
      Prog.run_bind] at h ⊢
    obtain ⟨n₁, hn₁⟩ := run_allocates (D := D)
      (copyString_allocates .configDevicePath config.devicePath) s.dropAlloc.memset
    simp only [hn₁] at h ⊢
    obtain ⟨n₂, hn₂⟩ := run_allocates (D := D)
      (copyString_allocates .configEmulFile config.emulConfigFile) (s.dropAlloc.memset.skip n₁)
    simp only [hn₂, State.skip_skip] at h ⊢
    cases hpaths : kvEngineResolveDevicePaths config with
    | error e =>
        -- The error of the path resolution is never success.
        have he : e = .invalidParam := kvEngineResolveDevicePaths_error hpaths
        simp [hpaths, he] at h
    | ok paths =>
        simp only [hpaths, Prog.run_bind] at h ⊢
        by_cases hopen : (run D (openDevices 0 paths) (s.dropAlloc.memset.skip (n₂ + n₁))).1 = .success
        · simp only [hopen, ne_eq, not_true_eq_false, if_false] at h ⊢
          have hslots := run_openDevices_success hopen
          obtain ⟨heq, hstats⟩ := run_initPools_success h
          refine ⟨paths, rfl, ⟨heq.initialized, ?_, fun i path hi => ?_, fun p => ?_, heq.keyTable,
            hstats, ?_⟩⟩
          · have hne : paths ≠ [] := by
              rintro rfl
              exact absurd (kvEngineResolveDevicePaths_length hpaths).1 (by simp)
            rw [heq.numDevices, hslots.numDevices hne, Nat.zero_add]
          · obtain ⟨copy, hcopy⟩ := hslots.slot i path hi
            rw [Nat.zero_add] at hcopy
            exact ⟨copy, by rw [heq.devices, hcopy]⟩
          · rw [heq.ssd]
            exact hslots.ssd p
          · obtain ⟨m₁, hm₁⟩ := hslots.heap
            obtain ⟨m₂, hm₂⟩ := heq.heap
            refine ⟨m₂ + m₁ + (n₂ + n₁) + 1, ?_⟩
            rw [hm₂, hm₁]
            funext k
            simp [State.skip, State.dropAlloc, State.memset, Nat.add_assoc]
        · simp [hopen] at h
  · simp [heng] at h

/-! ### Initialisation without faults -/

theorem State.AllocsSucceed.skip {s : State δ} (h : s.AllocsSucceed) (n : ℕ) :
    (s.skip n).AllocsSucceed := fun m => h (m + n)

theorem Booted.allocsSucceed {paths : List String} {s t : State δ} (h : Booted D paths s t)
    (hs : s.AllocsSucceed) : t.AllocsSucceed := by
  obtain ⟨n, hn⟩ := h.heap
  intro m
  rw [hn]
  exact hs (m + n)

theorem run_memoryPoolCreate_ok {s : State δ} (h : s.AllocsSucceed) :
    (run D memoryPoolCreate s).1 = true := by
  simp [memoryPoolCreate, exec, State.nextAlloc, State.dropAlloc, h 0, h 1]

theorem run_startWorkers_ok {s : State δ} (h : s.AllocsSucceed) (i n : ℕ) :
    (run D (startWorkers i n) s).1 = true := by
  induction n generalizing i s with
  | zero => rfl
  | succ n ih =>
      simp only [startWorkers, Prog.perform_bind, Prog.run_act, exec, State.nextAlloc, h 0,
        Bool.not_true, Bool.false_eq_true, if_false]
      exact ih (fun m => h (m + 1)) (i + 1)

theorem run_threadPoolCreate_ok {s : State δ} (h : s.AllocsSucceed) {n : ℕ} (hn : 0 < n) :
    (run D (threadPoolCreate n) s).1 = true := by
  simp only [threadPoolCreate, Nat.ne_of_gt hn, if_false, Prog.perform_bind, Prog.run_act, exec,
    State.nextAlloc, State.dropAlloc, h 0, h (0 + 1), Bool.not_true, Bool.false_eq_true]
  exact run_startWorkers_ok (fun m => h (m + 1 + 1 + 1)) 0 n

theorem run_initTable_ok {config : Config} {copiedPath copiedEmul : Bool} {s : State δ}
    (h : s.AllocsSucceed) : (run D (initTable config copiedPath copiedEmul) s).1 = .success := by
  simp only [initTable, Prog.perform_bind, Prog.run_act, exec, State.nextAlloc, h 0, Bool.not_true,
    Bool.false_eq_true, if_false, Prog.run_bind, Prog.pure_eq, Prog.run_ret]

theorem run_initStats_ok {config : Config} {copiedPath copiedEmul : Bool} {s : State δ}
    (h : s.AllocsSucceed) : (run D (initStats config copiedPath copiedEmul) s).1 = .success := by
  obtain ⟨pool, n, hpool⟩ := run_initBufferPool (D := D) config { s.dropAlloc with stats := .zero }
  simp only [initStats, Prog.perform_bind, Prog.run_act, exec, Prog.run_bind, hpool]
  exact run_initTable_ok fun m => h (m + n + 1)

theorem run_initPools_ok {config : Config} {copiedPath copiedEmul : Bool} {s : State δ}
    (h : s.AllocsSucceed) : (run D (initPools config copiedPath copiedEmul) s).1 = .success := by
  obtain ⟨n, hn⟩ := run_allocates (D := D) memoryPoolCreate_allocates s
  simp only [initPools, Prog.run_bind, hn, run_memoryPoolCreate_ok h, Bool.not_true,
    Bool.false_eq_true, if_false, Prog.perform_bind, Prog.run_act, exec]
  have h' : (State.AllocsSucceed { s.skip n with memPool := true }) := h.skip n
  by_cases hw : 0 < config.numWorkerThreads
  · obtain ⟨m, hm⟩ := run_allocates (D := D) (threadPoolCreate_allocates config.numWorkerThreads)
      { s.skip n with memPool := true }
    simp only [hw, if_true, Prog.run_bind, hm, run_threadPoolCreate_ok h' hw, Bool.not_true,
      Bool.false_eq_true, if_false, Prog.run_act, exec]
    exact run_initStats_ok fun k => h' (k + m)
  · simp only [hw, if_false]
    exact run_initStats_ok h'

/-- Over devices that report no fault and with allocations that succeed, `kv_engine_init` on
a valid configuration returns success. -/
theorem kvEngineInit_ok {contents : δ → Bytes → Option Bytes} {created : δ → Bool}
    (hD : Faultless D contents created) {config : Config} {paths : List String}
    (hpaths : kvEngineResolveDevicePaths config = .ok paths) {s : State δ} (h : s.AllocsSucceed) :
    (run D (kvEngineInit config) s).1 = .success := by
  obtain ⟨n₁, hn₁⟩ := run_allocates (D := D)
    (copyString_allocates .configDevicePath config.devicePath) s.dropAlloc.memset
  obtain ⟨n₂, hn₂⟩ := run_allocates (D := D)
    (copyString_allocates .configEmulFile config.emulConfigFile) (s.dropAlloc.memset.skip n₁)
  simp only [kvEngineInit, Prog.perform_bind, Prog.run_act, exec, State.nextAlloc, h 0,
    Bool.not_true, Bool.false_eq_true, if_false, Prog.run_bind, hn₁, hn₂, hpaths]
  have hopen := run_openDevices_ok hD 0 paths ((s.dropAlloc.memset.skip n₁).skip n₂)
  obtain ⟨m, hm⟩ := (run_openDevices_success hopen).heap
  simp only [hopen, ne_eq, not_true_eq_false, if_false]
  refine run_initPools_ok fun k => ?_
  rw [hm]
  exact h (k + m + n₂ + n₁ + 1)

/-- The engine is then booted on the paths of its configuration. -/
theorem kvEngineInit_booted {contents : δ → Bytes → Option Bytes} {created : δ → Bool}
    (hD : Faultless D contents created) {config : Config} {paths : List String}
    (hpaths : kvEngineResolveDevicePaths config = .ok paths) {s : State δ} (h : s.AllocsSucceed) :
    Booted D paths s (run D (kvEngineInit config) s).2 := by
  obtain ⟨paths', hpaths', hboot⟩ := kvEngineInit_success (kvEngineInit_ok hD hpaths h)
  rw [hpaths] at hpaths'
  cases hpaths'
  exact hboot

/-! ### Cleanup -/

/-- A cleanup only manages the devices and frees. -/
structure Managed (D : Driver δ) (s t : State δ) : Prop where
  ssd : ∀ p, Manages D (s.ssd p) (t.ssd p)
  heap : ∃ n, t.heap = fun m => s.heap (m + n)

theorem Managed.refl (s : State δ) : Managed D s s := ⟨fun _ => .refl, 0, rfl⟩

theorem Managed.trans {s t u : State δ} (h : Managed D s t) (h' : Managed D t u) :
    Managed D s u := by
  obtain ⟨n, hn⟩ := h.heap
  obtain ⟨m, hm⟩ := h'.heap
  refine ⟨fun p => (h.ssd p).trans (h'.ssd p), m + n, ?_⟩
  rw [hm, hn]
  funext k
  simp [Nat.add_assoc]

/-- The actions of `kv_engine_cleanup`. -/
def Act.CleansUp : Act → Prop
  | .loadNumDevices => True
  | .loadHealthProbe => True
  | .loadWorkers => True
  | .loadMemPool => True
  | .loadBufferPool => True
  | .kvsCloseKeySpace _ => True
  | .kvsCloseDevice _ => True
  | .freeDevicePath _ => True
  | .clearTable => True
  | .memsetEngine => True
  | a => a.Allocates

theorem command_managed {s : State δ} {p : Place} {α : Type} {cmd : δ → α × δ}
    (h : Manage D (s.ssd p) (cmd (s.ssd p)).2) : Managed D s (s.command p cmd).2 := by
  refine ⟨fun q => ?_, 0, rfl⟩
  by_cases hq : q = p
  · subst hq
    simpa [State.command] using Relation.ReflTransGen.single h
  · simp [State.command, Function.update_of_ne hq, Relation.ReflTransGen.refl]

theorem exec_cleansUp {a : Act} (ha : a.CleansUp) (s : State δ) : Managed D s (exec D a s).2 := by
  cases a <;> simp only [Act.CleansUp, Act.Allocates] at ha
  case alloc => exact ⟨fun _ => .refl, 1, rfl⟩
  case acquire => exact ⟨fun _ => .refl, 1, rfl⟩
  case kvsCloseKeySpace i =>
    simp only [exec, State.keyspaceCommand]
    split
    · exact ⟨fun _ => .refl, 0, rfl⟩
    · rename_i p _
      obtain ⟨hssd, hheap⟩ := @command_managed δ D s p _ D.closeKeySpace .closeKeySpace
      exact ⟨hssd, hheap⟩
  case kvsCloseDevice i =>
    simp only [exec, State.deviceCommand]
    split
    · exact ⟨fun _ => .refl, 0, rfl⟩
    · rename_i path _
      obtain ⟨hssd, hheap⟩ := @command_managed δ D s ⟨path, i⟩ _ D.closeDevice .closeDevice
      exact ⟨hssd, hheap⟩
  all_goals exact ⟨fun _ => .refl, 0, rfl⟩

theorem Act.Allocates.cleansUp {a : Act} (h : a.Allocates) : a.CleansUp := by
  cases a <;> first | exact h | exact trivial

theorem ifPresent_cleansUp {b : Bool} {p : M Unit} (hp : p.Performs Act.CleansUp) :
    (ifPresent b p).Performs Act.CleansUp := by
  cases b with
  | false => trivial
  | true => exact hp

theorem release_cleansUp (r : Resource) :
    (atomically (.release r)).Performs Act.CleansUp := ⟨trivial, fun _ => trivial⟩

theorem stopProbe_cleansUp : stopProbe.Performs Act.CleansUp := by
  have hprobe : healthProbeDestroy.Performs Act.CleansUp := by
    simp [healthProbeDestroy, Prog.perform, Act.CleansUp, Act.Allocates]
  exact ⟨trivial, fun probe => ifPresent_cleansUp hprobe⟩

theorem releaseEngine_cleansUp (config : Config) :
    (releaseEngine config).Performs Act.CleansUp := by
  have hmem : memoryPoolDestroy.Performs Act.CleansUp := by
    simp [memoryPoolDestroy, Prog.perform, Act.CleansUp, Act.Allocates]
  have hpool : destroyBufferPool.Performs Act.CleansUp := by
    refine ⟨trivial, fun pool => ?_⟩
    cases pool with
    | none => trivial
    | some p => exact (dmaPoolDestroy_allocates p).mono fun _ => Act.Allocates.cleansUp
  have hclose : closeAllDevices.Performs Act.CleansUp :=
    ⟨trivial, fun n => closeDevices_performs (fun _ => trivial) (fun _ => trivial)
      (fun _ => trivial) (fun _ => trivial) (List.range n)⟩
  refine hpool.bind fun _ => ⟨trivial, fun mem => ?_⟩
  refine (ifPresent_cleansUp hmem).bind fun _ => hclose.bind fun _ => ?_
  refine ⟨trivial, fun _ => ⟨trivial, fun _ => ?_⟩⟩
  refine (ifPresent_cleansUp (release_cleansUp _)).bind fun _ => ?_
  refine (ifPresent_cleansUp (release_cleansUp _)).bind fun _ => ?_
  simp [Prog.perform, Act.CleansUp, Act.Allocates]

theorem kvEngineCleanup_cleansUp (config : Config) :
    (kvEngineCleanup config).Performs Act.CleansUp := by
  have hworkers : (destroyWorkers config).Performs Act.CleansUp :=
    ⟨trivial, fun _ => ifPresent_cleansUp (threadPoolDestroy_performs (fun _ => trivial) _)⟩
  exact stopProbe_cleansUp.bind fun _ => hworkers.bind fun _ => releaseEngine_cleansUp config

/-- A cleanup keeps what is on the devices, up to commands that touch no pair. -/
theorem kvEngineCleanup_managed (config : Config) (s : State δ) :
    Managed D s (run D (kvEngineCleanup config) s).2 :=
  Prog.run_rel (exec D) Managed.refl Managed.trans (fun _ s ha => exec_cleansUp ha s)
    (kvEngineCleanup_cleansUp config) s

end KvEngine
