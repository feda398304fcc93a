import KvEngine.Scripts
import KvEngine.Wakeups

/-! # The schedule makes no difference to requests on distinct keys

Requests on pairwise distinct keys are executed by any number of workers.  Every worker keeps to
the script of its request, and the changes of different requests commute.  So what the engine
will look like when all scripts are done, `outcome`, is the same at every point of every run
(`Steady.total`), and it is what the engine looks like in the end (`settled_observe`).

The value that a request finds on its device is the one from before the run, since no other
request touches its key (`Steady.value`); it is the only thing a script depends on besides the
arguments of the request. -/

namespace KvEngine

open Atomic Cells

variable {δ : Type} {n : ℕ} {D : Driver δ} {config : Config} {req : ℕ → AsyncCall}
  {contents : δ → Bytes → Option Bytes} {created : δ → Bool}

/-! ### The outcome -/

/-- The keyspace that a key of the engine `s` is in. -/
def State.placeOf (s : State δ) (key : Bytes) : Place := s.slot (s.shard key)

/-- A request that has not begun, on the engine `s`. -/
def Progress.first (contents : δ → Bytes → Option Bytes) (s : State δ) (req : ℕ → AsyncCall)
    (i : ℕ) : Progress :=
  let value := s.observe contents (.pair (s.placeOf (req i).key) (req i).key)
  ⟨value, (req i).script (s.placeOf (req i).key) (s.shard (req i).key) i value⟩

/-- What the engine `s` looks like after the requests in `A`. -/
noncomputable def outcome (contents : δ → Bytes → Option Bytes) (s : State δ)
    (req : ℕ → AsyncCall) (A : Finset ℕ) : Observation :=
  Effect.total A.toList (fun i => (Progress.first contents s req i).todo) (s.observe contents)

/-! ### The invariant -/

/-- Requests with different keys. -/
def DistinctKeys (req : ℕ → AsyncCall) (A : Finset ℕ) : Prop :=
  ∀ i ∈ A, ∀ j ∈ A, i ≠ j → (req i).key ≠ (req j).key

/-- The engine serves with the slots of `s₀`, every request in `A` knows the value of its key,
and the changes to come lead to the outcome. -/
structure Steady (contents : δ → Bytes → Option Bytes) (s₀ : State δ) (req : ℕ → AsyncCall)
    (A : Finset ℕ) (s : State δ) (progress : ℕ → Progress) : Prop where
  serving : s.Serving
  slots : State.SameSlots s₀ s
  value : ∀ i ∈ A, s.observe contents (.pair (s₀.placeOf (req i).key) (req i).key) =
    (progress i).value
  todo : ∀ i ∈ A, ∀ e ∈ (progress i).todo, ChangeOf (s₀.placeOf (req i).key) (req i).key i e
  total : Effect.total A.toList (fun i => (progress i).todo) (s.observe contents) =
    outcome contents s₀ req A

/-- The protocols of the requests. -/
abbrev protocols (s₀ : State δ) (req : ℕ → AsyncCall) (A : Finset ℕ) (i : ℕ) :
    Protocol Act Act.Resp Progress := scripted A s₀.numDevices s₀.slot (req i).key i

theorem start_steady {s : State δ} (hs : s.Serving) (A : Finset ℕ) :
    Steady contents s req A s (Progress.first contents s req) where
  serving := hs
  slots := .refl s
  value _ _ := rfl
  todo i _ := script_changes _ _ i _ (req i)
  total := rfl

section act

variable {s₀ s : State δ} {A : Finset ℕ} {progress : ℕ → Progress}

/-- The changes that a request makes leave the pairs of other requests alone. -/
theorem Steady.others (h : Steady contents s₀ req A s progress) (hkeys : DistinctKeys req A)
    {i j : ℕ} (hi : i ∈ A) (hj : j ∈ A) (hji : j ≠ i) {es : List Change}
    (hes : es <+: (progress i).todo) (o : Observation) :
    Effect.perform es o (.pair (s₀.placeOf (req j).key) (req j).key) =
      o (.pair (s₀.placeOf (req j).key) (req j).key) := by
  refine Effect.perform_of_ne (fun e he => ?_) o
  have hkey := hkeys i hi j hj (Ne.symm hji)
  cases h.todo i hi e (hes.subset he) with
  | pair value => simp [hkey]
  | _ => simp

/-- The changes that are left once the request `i` has made all of its but `rest`. -/
theorem update_todo (progress : ℕ → Progress) (i : ℕ) (value : Option Bytes) (rest : List Change) :
    (fun j => (Function.update progress i ⟨value, rest⟩ j).todo) =
      Function.update (fun j => (progress j).todo) i rest := by
  funext j
  exact Function.apply_update (fun _ (q : Progress) => q.todo) progress i ⟨value, rest⟩ j

/-- One action of a request keeps the invariant. -/
theorem Steady.act (hD : Faultless D contents created) (hkeys : DistinctKeys req A)
    (h : Steady contents s₀ req A s progress) (i : ℕ) {a : Act}
    (ha : (protocols s₀ req A i).ok (progress i) a) :
    (protocols s₀ req A i).answers (progress i) a (exec D a s).1 ∧
      Steady contents s₀ req A (exec D a s).2
        (Function.update progress i ((protocols s₀ req A i).next (progress i) a (exec D a s).1)) := by
  rcases ha with hsilent | ⟨⟨hi, hk⟩, hon, hprefix⟩
  · rw [← h.slots.numDevices] at hsilent
    obtain ⟨htold, hbecomes⟩ : a.Told s.numDevices (progress i).value (exec D a s).1 ∧
      Becomes contents s (exec D a s).2 (s.observe contents) := exec_silent h.serving hsilent _
    rw [h.slots.numDevices] at htold hsilent
    rw [scripted_silent hsilent, Function.update_eq_self]
    refine ⟨htold, hbecomes.serving, h.slots.trans hbecomes.slots, ?_, h.todo, ?_⟩
    · rw [hbecomes.observe]
      exact h.value
    · rw [hbecomes.observe]
      exact h.total
  · rw [← h.slots.numDevices] at hon
    obtain ⟨htold, hbecomes⟩ := exec_onKey hD h.serving hk hon
    rw [h.slots.numDevices, h.slots.slot, h.slots.shard] at htold
    have hobserve := hbecomes.observe
    rw [h.slots.slot] at hobserve
    rw [h.slots.numDevices] at hon
    rw [show s.observe contents (.pair (s₀.slot (s₀.shard (req i).key)) (req i).key) = _ from
      h.value i hi] at htold
    have hes := hprefix _ htold
    obtain ⟨rest, hrest⟩ := id hes
    have hnext : (protocols s₀ req A i).next (progress i) a (exec D a s).1 =
        ⟨a.leaves (progress i).value (exec D a s).1, rest⟩ := by
      simp only [scripted, ← hrest, List.drop_left]
    rw [hnext]
    have hslots := h.slots.trans hbecomes.slots
    refine ⟨htold, hbecomes.serving, hslots, fun j hj => ?_, fun j hj => ?_, ?_⟩
    · rw [hobserve]
      by_cases hji : j = i
      · subst hji
        rw [Function.update_self, ← h.value j hj]
        exact perform_effects_pair hk hon _ _
      · rw [Function.update_of_ne hji, h.others hkeys hi hj hji hes]
        exact h.value j hj
    · by_cases hji : j = i
      · subst hji
        rw [Function.update_self]
        intro e he
        exact h.todo j hj e (by rw [← hrest]; exact List.mem_append_right _ he)
      · rw [Function.update_of_ne hji]
        exact h.todo j hj
    · rw [hobserve, update_todo, ← h.total]
      refine Effect.total_perform A.nodup_toList (Finset.mem_toList.mpr hi) hrest.symm ?_ _
      intro j hj hji e he f hf
      have hj := Finset.mem_toList.mp hj
      exact (h.todo i hi e (hes.subset he)).commutes (hkeys i hi j hj (Ne.symm hji)) (Ne.symm hji)
        (h.todo j hj f hf)

end act

/-! ### Runs -/

namespace Pool

/-- A call that has returned stays so. -/
theorem Step.returned {σ τ : Pool δ n} (h : Step D config req σ τ) {j : ℕ} {r : KvResult}
    (hj : σ.calls j = .returned r) : τ.calls j = .returned r := by
  have hset {i : ℕ} {c : Submitter} (hi : ∀ r, σ.calls i ≠ .returned r) :
      Function.update σ.calls i c j = .returned r := by
    have hji : j ≠ i := by
      rintro rfl
      exact hi r hj
    rwa [Function.update_of_ne hji]
  have hsubmit {i : ℕ} {item : WorkItem} (hi : σ.AtSubmit i item) :
      ∀ r, σ.calls i ≠ .returned r := by
    rcases hi with hi | ⟨hi, _⟩ <;> rw [hi] <;> simp
  cases h with
  | invoke hi => exact hset (by rw [hi]; simp)
  | prepare hi => exact hset (by rw [hi]; simp)
  | refuse hi => exact hset (by rw [hi]; simp)
  | arrive hi => exact hset (by rw [hi]; simp)
  | reject hi hshut => exact hset (hsubmit hi)
  | block hi hshut => exact hset (hsubmit hi)
  | accept wakes hi hshut hroom => exact hset (hsubmit hi)
  | unwind hi => exact hset (by rw [hi]; simp)
  | giveUp hi => exact hset (by rw [hi]; simp)
  | _ => exact hj

/-- `kv_engine_cleanup` that has not begun had not begun before. -/
theorem Step.cleaner_idle {σ τ : Pool δ n} (h : Step D config req σ τ) (hτ : τ.cleaner = .idle) :
    σ.cleaner = .idle := by
  cases h <;> first | exact hτ | cases hτ

end Pool

theorem Act.Prepares.silent {a : Act} (h : a.Prepares) (m : ℕ) : a.Silent m := by
  cases a <;> trivial

/-- `kv_engine_cleanup` has begun. -/
def Cleaner.begun : Cleaner → Bool
  | .idle => false
  | _ => true

theorem Cleaner.eq_idle {c : Cleaner} (h : c.begun = false) : c = .idle := by
  cases c <;> first | rfl | cases h

/-- The accepted requests are those in `A`, and `kv_engine_cleanup` has not begun. -/
structure Pool.Accepts (A : Finset ℕ) (σ : Pool δ n) : Prop where
  accepted : ∀ i, σ.calls i = .returned .success ↔ i ∈ A
  cleaner : σ.cleaner.begun = false

/-- What holds along a run that started on the engine `s₀` and accepts requests in `A` only. -/
structure Scheduled (contents : δ → Bytes → Option Bytes) (s₀ : State δ) (req : ℕ → AsyncCall)
    (A : Finset ℕ) (σ : Pool δ n) : Prop where
  sound : σ.Sound req
  roused : σ.Roused
  steady : σ.cleaner = .idle → (∀ i, σ.calls i = .returned .success → i ∈ A) →
    ∃ progress, Pool.Tracked (protocols s₀ req A) (Progress.first contents s₀ req)
      (fun _ q => q.todo = []) σ progress ∧ Steady contents s₀ req A σ.engine progress

theorem start_scheduled {s : State δ} (hs : s.Serving) (A : Finset ℕ) :
    Scheduled contents s req A (Pool.start n s) where
  sound := Pool.start_sound s
  roused := Pool.start_roused s
  steady _ _ := by
    refine ⟨Progress.first contents s req, ⟨fun _ => rfl, ?_, ?_, ?_, trivial⟩, start_steady hs A⟩
    · exact fun item h => by cases h
    · exact fun w item p h => by cases h
    · exact fun i h => by cases h

section run

variable {s₀ : State δ} {A : Finset ℕ}

theorem Scheduled.step (hD : Faultless D contents created) (hs : s₀.Serving)
    (hkeys : DistinctKeys req A) (hvalues : ∀ i ∈ A, (req i).ValueOk) (hn : 0 < n)
    {σ τ : Pool δ n} (h : Scheduled contents s₀ req A σ) (hstep : Pool.Step D config req σ τ) :
    Scheduled contents s₀ req A τ where
  sound := h.sound.step hn hstep
  roused := h.roused.step hn h.sound hstep
  steady hidle haccepted := by
    have hidle' := hstep.cleaner_idle hidle
    have haccepted' (i : ℕ) (hi : σ.calls i = .returned .success) : i ∈ A :=
      haccepted i (hstep.returned hi)
    obtain ⟨progress, htracked, hsteady⟩ := h.steady hidle' haccepted'
    have hprepares (i : ℕ) (q : Progress) (a : Act) (ha : a.Prepares) :
        (protocols s₀ req A i).ok q a ∧ ∀ r, (protocols s₀ req A i).next q a r = q :=
      ⟨.inl (ha.silent _), scripted_silent (ha.silent _)⟩
    refine htracked.step hn h.sound hsteady hstep ?_ ?_ ?_ (fun i a ha => hsteady.act hD hkeys i ha)
      fun hbusy => absurd hidle' hbusy
    · exact fun i => asyncCall_follows (req i) (hprepares i _) (.inl trivial)
    · exact fun i item hcopied => asyncRejected_follows hcopied.request (hprepares i _) (.inl trivial)
    · intro item hitem
      have hpos := Pool.queued_pos hitem
      have hi := haccepted' _ ((h.sound.returned_iff item.arg.request).mpr (by omega))
      exact executeItem_scripted hi hs.pos (h.sound.copied item hitem) (hvalues _ hi) _

/-- The engine at rest looks as the outcome says. -/
theorem Scheduled.observe {σ : Pool δ n} (h : Scheduled contents s₀ req A σ)
    (haccepts : σ.Accepts A) (hrest : σ.Rests) :
    σ.engine.observe contents = outcome contents s₀ req A := by
  obtain ⟨progress, htracked, hsteady⟩ :=
    h.steady (Cleaner.eq_idle haccepts.cleaner) fun i => (haccepts.accepted i).mp
  rw [← hsteady.total]
  refine (Effect.total_of_done (fun i hi => ?_) _).symm
  have hi := (haccepts.accepted i).mpr (Finset.mem_toList.mp hi)
  exact htracked.finished i (h.sound.finished_of_rests hrest hi)

end run

/-- What the callback of a request in `A` is told. -/
theorem outcome_inbox (s : State δ) {A : Finset ℕ} {i : ℕ} (hi : i ∈ A) :
    outcome contents s req A (.inbox i) = s.deliveries i ++
      if (req i).callback then
        [(req i).answer (s.observe contents (.pair (s.placeOf (req i).key) (req i).key))]
      else [] := by
  rw [outcome, Effect.total_at A.nodup_toList (Finset.mem_toList.mpr hi)]
  · exact perform_script_inbox _ _ i _ (req i) _
  · intro j _ hji e he
    cases script_changes _ _ j _ (req j) e he with
    | inbox d => simpa using hji
    | _ => simp

/-- **The schedule makes no difference.**  Requests on distinct keys are executed over devices
that report no fault. -/
theorem schedule_independent (hD : Faultless D contents created) {s : State δ} (hs : s.Serving)
    {A : Finset ℕ} (hkeys : DistinctKeys req A) (hvalues : ∀ i ∈ A, (req i).ValueOk) :
    -- every run that has accepted the requests in `A` can be completed by the workers
    (∀ {n : ℕ} (_ : 0 < n) (config : Config) (moves : List (PoolMove n)),
      ((Pool.start n s).after D config req moves).Accepts A →
      ∃ more, (∀ m ∈ more, PoolMove.Internal m) ∧
        ((Pool.start n s).after D config req (moves ++ more)).Accepts A ∧
        ((Pool.start n s).after D config req (moves ++ more)).Rests) ∧
    -- and completed runs end alike, whatever the number of workers and the interleaving
    ∀ {n₁ n₂ : ℕ} (_ : 0 < n₁) (_ : 0 < n₂) (config₁ config₂ : Config)
      (moves₁ : List (PoolMove n₁)) (moves₂ : List (PoolMove n₂)),
      let σ₁ := (Pool.start n₁ s).after D config₁ req moves₁
      let σ₂ := (Pool.start n₂ s).after D config₂ req moves₂
      σ₁.Accepts A → σ₁.Rests → σ₂.Accepts A → σ₂.Rests →
        (∀ p, contents (σ₁.engine.ssd p) = contents (σ₂.engine.ssd p)) ∧
        σ₁.engine.keyTable = σ₂.engine.keyTable ∧
        σ₁.engine.stats = σ₂.engine.stats ∧
        σ₁.engine.devices = σ₂.engine.devices ∧
        (∀ i, σ₁.engine.deliveries i = σ₂.engine.deliveries i) ∧
        ∀ i ∈ A, σ₁.engine.deliveries i = s.deliveries i ++
          if (req i).callback then [(req i).answer (s.lookup contents (req i).key)] else [] := by
  have hrun {n : ℕ} (hn : 0 < n) (config : Config) (moves : List (PoolMove n)) :
      Scheduled contents s req A ((Pool.start n s).after D config req moves) :=
    Pool.after_invariant (fun _ _ h hstep => h.step hD hs hkeys hvalues hn hstep)
      (start_scheduled hs A) moves
  refine ⟨fun hn config moves haccepts => ?_, ?_⟩
  · obtain ⟨τ, hinward, hrests⟩ := Pool.exists_rested D config req (hrun hn config moves).roused
    obtain ⟨more, hmore, hafter⟩ := hinward.reaches.moves
    refine ⟨more, hmore, ?_⟩
    rw [Pool.after_append, hafter]
    refine ⟨⟨fun i => ?_, by rw [hinward.cleaner]; exact haccepts.cleaner⟩, hrests⟩
    rw [hinward.calls]
    exact haccepts.accepted i
  · intro n₁ n₂ hn₁ hn₂ config₁ config₂ moves₁ moves₂ σ₁ σ₂ haccepts₁ hrests₁ haccepts₂ hrests₂
    have hout := (hrun hn₁ config₁ moves₁).observe haccepts₁ hrests₁
    have hsame := hout.trans ((hrun hn₂ config₂ moves₂).observe haccepts₂ hrests₂).symm
    refine ⟨fun p => ?_, ?_, congrFun hsame .stats, ?_, fun i => congrFun hsame (.inbox i), ?_⟩
    · funext key
      exact congrFun hsame (.pair p key)
    · ext key
      have hkey : decide (key ∈ σ₁.engine.keyTable) = decide (key ∈ σ₂.engine.keyTable) :=
        congrFun hsame (.listed key)
      simpa using hkey
    · funext i
      exact congrFun hsame (.device i)
    · intro i hi
      obtain ⟨path, hp⟩ := hs.place (req i).key
      have hplace : s.placeOf (req i).key = ⟨path, s.shard (req i).key⟩ := by
        rw [State.placeOf, State.slot, hp]
        rfl
      rw [State.lookup_eq contents hp, ← hplace]
      exact (congrFun hout (.inbox i)).trans (outcome_inbox s hi)

/-- A store and a delete. -/
def storeAndDelete : ℕ → AsyncCall
  | 0 => .store (some [107, 101, 121, 49]) (some ⟨4096, [118]⟩) true 0 true
  | _ => .delete (some [107, 101, 121, 50]) true 0

/-- The pool after the moves, on two new devices. -/
abbrev afterMoves {n : ℕ} (moves : List (PoolMove n)) : Pool KeySpace n :=
  (Pool.start n freshEngine).after keySpaceDriver twoDevices storeAndDelete moves

/-- One worker executes the two requests one after the other. -/
def inTurn : List (PoolMove 1) :=
  List.replicate 12 (.call 0 0 : PoolMove 1) ++ List.replicate 12 (.call 1 0 : PoolMove 1) ++
    List.replicate 40 (.worker 0 0 : PoolMove 1)

/-- One of two workers executes the delete while the other has begun the store. -/
def overtaking : List (PoolMove 2) :=
  List.replicate 12 (.call 0 0 : PoolMove 2) ++ List.replicate 12 (.call 1 0 : PoolMove 2) ++
    List.replicate 6 (.worker 0 0 : PoolMove 2) ++ List.replicate 20 (.worker 1 0 : PoolMove 2) ++
    List.replicate 20 (.worker 0 0 : PoolMove 2)

theorem storeAndDelete_accepts {n : ℕ} (hn : 0 < n) (moves : List (PoolMove n))
    (hqueue : (afterMoves moves).queue = []) (hstarted : (afterMoves moves).started = [0, 1])
    (hcleaner : (afterMoves moves).cleaner.begun = false) : (afterMoves moves).Accepts {0, 1} := by
  have hsound : (afterMoves moves).Sound storeAndDelete :=
    Pool.after_invariant (fun _ _ h hstep => h.step hn hstep) (Pool.start_sound freshEngine) moves
  refine ⟨fun i => ?_, hcleaner⟩
  rw [hsound.returned_iff i, Pool.queued, hqueue, hstarted]
  simp [List.count_pos_iff]

theorem schedule_independent_two_orders :
    (afterMoves inTurn).finished = [0, 1] ∧ (afterMoves overtaking).finished = [1, 0] ∧
      (afterMoves inTurn).engine.keyTable = (afterMoves overtaking).engine.keyTable ∧
      (afterMoves inTurn).engine.stats = (afterMoves overtaking).engine.stats ∧
      (afterMoves inTurn).engine.devices = (afterMoves overtaking).engine.devices := by
  have hkeys : DistinctKeys storeAndDelete {0, 1} := by
    unfold DistinctKeys
    decide
  have hvalues : ∀ i ∈ ({0, 1} : Finset ℕ), (storeAndDelete i).ValueOk := by
    intro i hi
    rcases Finset.mem_insert.mp hi with rfl | hi
    · intro v hv
      cases hv
      decide
    · obtain rfl := Finset.mem_singleton.mp hi
      trivial
  have h₁ : (afterMoves inTurn).queue = [] ∧ (afterMoves inTurn).started = [0, 1] ∧
      (afterMoves inTurn).cleaner.begun = false ∧
      (∀ w, ((afterMoves inTurn).workers w).busy = false) ∧
      (afterMoves inTurn).finished = [0, 1] := by decide +kernel
  have h₂ : (afterMoves overtaking).queue = [] ∧ (afterMoves overtaking).started = [0, 1] ∧
      (afterMoves overtaking).cleaner.begun = false ∧
      (∀ w, ((afterMoves overtaking).workers w).busy = false) ∧
      (afterMoves overtaking).finished = [1, 0] := by decide +kernel
  have haccepts₁ := storeAndDelete_accepts (by decide) inTurn h₁.1 h₁.2.1 h₁.2.2.1
  have haccepts₂ := storeAndDelete_accepts (by decide) overtaking h₂.1 h₂.2.1 h₂.2.2.1
  have hrests₁ : (afterMoves inTurn).Rests := ⟨h₁.1, h₁.2.2.2.1⟩
  have hrests₂ : (afterMoves overtaking).Rests := ⟨h₂.1, h₂.2.2.2.1⟩
  obtain ⟨_, htable, hstats, hdevices, _⟩ :=
    (schedule_independent keySpaceDriver_faultless freshEngine_serving hkeys hvalues).2
      (by decide) (by decide) twoDevices twoDevices inTurn overtaking
      haccepts₁ hrests₁ haccepts₂ hrests₂
  exact ⟨h₁.2.2.2.2, h₂.2.2.2.2, by rw [htable], by rw [hstats], by rw [hdevices]⟩

end KvEngine
