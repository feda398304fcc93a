import KvEngine.Linearization
import KvEngine.OneWorker

/-! # The asynchronous interface is linearizable

The application calls `kv_engine_store_async`, `kv_engine_retrieve_async` and
`kv_engine_delete_async`, any number of them at a time.  A call that returns an error is over; any
other one is over when its callback runs.  Between its start and its end lie the copy of the
arguments, the queue, a worker and its device commands, and meanwhile `kv_engine_cleanup` may stop
the probe, raise `shutdown` and join the workers.

What the application sees of a run of the pool (`Pool.history`) is nevertheless a history of the
map that the devices hold, on which each call acts at one moment (`Pool.async_linearizable`).  The
status of each request is kept beside the pool: it is `called` from the start of the call on, until
the device command of the worker fixes the answer, and a callback tells nothing but this answer
(`answering`).  A call that is refused or rejected acts as a failure, just before it returns. -/

namespace KvEngine

open Atomic

variable {δ : Type} {n : ℕ} {D : Driver δ} {contents : δ → Bytes → Option Bytes} {config : Config}
  {req : ℕ → AsyncCall}

/-! ### What the application sees -/

/-- The asynchronous calls as operations on the map. -/
def AsyncSpec (m : Pairs) (c : AsyncCall) (out : Output) (m' : Pairs) : Prop :=
  MapSpec m c.sync out m'

/-- What a callback tells: everything but the address of the buffer. -/
def Callback.output (c : Callback) : Output :=
  ⟨c.result, c.value.map fun v => (v.bytes, v.len), none⟩

/-- The callback that an action invokes. -/
def Act.completion : Act → Option Callback
  | .callback c => some c
  | _ => none

namespace Pool

/-- What the application sees of a move: a call starts, a call returns an error, or a callback
runs. -/
def seenBy (req : ℕ → AsyncCall) (σ : Pool δ n) :
    PoolMove n → Option (Atomic.Occurrence ℕ AsyncCall Output)
  | .call i _ =>
      match σ.calls i with
      | .idle => some (.call i (req i))
      | .preparing (.ret (.error e)) => some (.ret i (req i) ⟨e, none, none⟩)
      | .rejected (.ret r) => some (.ret i (req i) ⟨r, none, none⟩)
      | _ => none
  | .worker w _ =>
      match σ.workers w with
      | .executing _ (.act a _) =>
          a.completion.map fun c => .ret c.request (req c.request) c.output
      | _ => none
  | _ => none

variable (D) (config) (req) in
/-- What the application has seen after the moves, the latest first. -/
def history (seen : List (Atomic.Occurrence ℕ AsyncCall Output)) (σ : Pool δ n) :
    List (PoolMove n) → List (Atomic.Occurrence ℕ AsyncCall Output)
  | [] => seen
  | m :: moves => history ((σ.seenBy req m).toList ++ seen) (σ.next D config req m) moves

end Pool

/-! ### The program of a request -/

/-- The answer is the one that was fixed, or none was fixed and it is a failure. -/
def Due (c : AsyncCall) (out : Output) : Status AsyncCall Output → Prop
  | .idle => False
  | .called o => o = c ∧ ∀ m, AsyncSpec m c out m
  | .answered o v => o = c ∧ v = out

/-- The status after an action that fixes the answer, if it fixes one. -/
def statusAfter (q : Status AsyncCall Output) (fixed : Option Output) : Status AsyncCall Output :=
  match q, fixed with
  | .called o, some v => .answered o v
  | q, _ => q

/-- The protocol of the execution of the request `i`, a call of `c`: device commands until the
answer is fixed, and a callback that tells it. -/
def answering (devices i : ℕ) (c : AsyncCall) :
    Protocol Act Act.Resp (Status AsyncCall Output) where
  ok q a := a.Unseen ∧ (∀ cb ∈ a.completion, cb.request = i ∧ Due c cb.output q) ∨
    q = .called c ∧ a.Commands devices c.sync
  answers _ := Answered devices
  next q a r := if a.completion.isSome then .idle else statusAfter q (fixedAnswer a r)

theorem Act.Operates.completion {a : Act} (h : a.Operates) : a.completion = none := by
  cases a <;> first | rfl | exact h.elim

theorem Act.Commands.completion {devices : ℕ} {c : Call} {a : Act} (h : a.Commands devices c) :
    a.completion = none := by
  cases h <;> rfl

@[simp] theorem statusAfter_none (q : Status AsyncCall Output) : statusAfter q none = q := by
  cases q <;> rfl

/-- Which results are failures depends on the function only. -/
theorem AsyncCall.Copied.fails {c : AsyncCall} {i : ℕ} {ctx : AsyncContext} (h : c.Copied i ctx)
    {r : KvResult} (hr : ctx.call.Fails r) : c.sync.Fails r := by
  cases c with
  | store key value callback userData overwrite =>
      obtain ⟨_, _, _, _, _, _, rfl, _⟩ := h
      exact hr
  | retrieve key callback userData =>
      obtain ⟨_, _, _, rfl⟩ := h
      exact hr
  | delete key callback userData =>
      obtain ⟨_, _, _, rfl⟩ := h
      exact hr

/-- The device commands of the copies are those of the arguments. -/
theorem AsyncCall.Copied.commands {c : AsyncCall} {i devices : ℕ} {ctx : AsyncContext}
    (h : c.Copied i ctx) {a : Act} (ha : a.Commands devices ctx.call) :
    a.Commands devices c.sync := by
  cases c with
  | store key value callback userData overwrite =>
      obtain ⟨k, v, copy, rfl, rfl, hk, rfl, hcopy⟩ := h
      simp only [AsyncContext.call] at ha
      split at hcopy
      · subst hcopy
        cases ha
      · obtain ⟨addr, rfl⟩ := hcopy
        cases ha with
        | store _ _ _ => exact .store hk v overwrite
  | retrieve key callback userData =>
      obtain ⟨k, rfl, _, rfl⟩ := h
      exact ha
  | delete key callback userData =>
      obtain ⟨k, rfl, _, rfl⟩ := h
      exact ha

theorem call_flag (ctx : AsyncContext) : ctx.call.prog.Ensures fun reply => reply.flag = none := by
  unfold AsyncContext.call
  cases ctx.opType <;> exact (Prog.ensures_true _).bind fun _ _ => rfl

/-- The status that belongs to a phase of `untilFixed`. -/
def statusOf (c : AsyncCall) : Option Output → Status AsyncCall Output
  | none => .called c
  | some v => .answered c v

/-- Every action can be answered: some engine has this number of devices. -/
theorem exists_answered (devices : ℕ) (a : Act) : ∃ r, Answered devices a r :=
  ⟨(exec keySpaceDriver a { freshEngine with numDevices := devices }).1, Crew.answered rfl⟩

section programs

variable {devices : ℕ} {c : AsyncCall} {i : ℕ}

/-- The operation on the copies settles the request. -/
theorem call_answering {ctx : AsyncContext} (h : c.Copied i ctx) :
    ctx.call.prog.Follows (answering devices i c)
      (fun q reply => Due c ⟨reply.result, reply.value.map fun v => (v.bytes, v.len), none⟩ q)
      (.called c) := by
  have hop := ctx.call_dataCall
  have hcall := (call_untilFixed (n := devices) ctx.call hop).restrict (call_operates ctx.call)
    (call_flag ctx)
  rw [hop] at hcall
  refine (hcall.transfer (statusOf c) (fun _ => True) ?_ (fun _ _ _ _ => trivial)
    (fun _ a => exists_answered devices a) ?_).2
  · rintro q reply ⟨hdecided, hflag⟩
    refine ⟨trivial, ?_⟩
    have hout : (⟨reply.result, reply.value.map fun v => (v.bytes, v.len), none⟩ : Output) =
        reply.output := by
      rw [Reply.output, hflag]
    rw [hout]
    cases q with
    | some v => exact ⟨rfl, hdecided.symm⟩
    | none =>
        obtain ⟨r, heq, hfails⟩ := hdecided
        refine ⟨rfl, fun m => ?_⟩
        rw [heq]
        exact MapSpec.failed (h.fails hfails)
  · rintro q a ⟨hok, hoperates⟩ _
    have hquiet := hoperates.completion
    refine ⟨?_, fun r hr => ⟨hr, ?_⟩⟩
    · rcases hok with hunseen | ⟨rfl, c', hc', hcommands⟩
      · refine .inl ⟨hunseen, fun cb hcb => ?_⟩
        rw [hquiet] at hcb
        cases hcb
      · cases hc'
        exact .inr ⟨rfl, h.commands hcommands⟩
    · show (if a.completion.isSome then _ else statusAfter (statusOf c q) (fixedAnswer a r)) =
        statusOf c (q.or (fixedAnswer a r))
      rw [hquiet]
      cases q with
      | some v => rfl
      | none => cases fixedAnswer a r <;> rfl

/-- A worker that executes an item settles the request and then tells it. -/
theorem executeItem_answering {item : WorkItem} (h : c.Copied i item.arg) :
    (executeItem item).Follows (answering devices i c) (fun _ _ => True) (.called c) := by
  have hquiet (q : Status AsyncCall Output) {a : Act} (ha : a.Unseen)
      (hnone : a.completion = none) : (answering devices i c).ok q a := by
    refine .inl ⟨ha, fun cb hcb => ?_⟩
    rw [hnone] at hcb
    cases hcb
  have hfree (q : Status AsyncCall Output) :
      Prog.Follows (answering devices i c) (fun _ _ => True) (do
        let _ ← (do atomically (.freeContext item.arg.request); return () : M Unit)
        atomically (.free item.addr)) q :=
    ⟨hquiet q trivial rfl, fun _ _ => ⟨hquiet _ trivial rfl, fun _ _ => trivial⟩⟩
  rw [executeItem, asyncWorkerFunc_eq_work, AsyncContext.work]
  simp only [bind_assoc, pure_bind] at hfree ⊢
  refine (call_answering h).bind fun q reply hdue => ?_
  have hcomplete : (complete item.arg.completion ⟨item.arg.request, item.arg.userData, reply.result,
      reply.value⟩).Follows (answering devices i c) (fun _ _ => True) q := by
    unfold complete
    split
    · refine ⟨.inl ⟨trivial, fun cb hcb => ?_⟩, fun _ _ => trivial⟩
      cases hcb
      exact ⟨h.request, hdue⟩
    · exact trivial
  exact hcomplete.bind fun q' _ _ => hfree q'

end programs

/-- Before the queue a call fails with a result that is no answer of the map. -/
theorem asyncFrontEnd_fails {request : ℕ} {pointers : Bool} {key : Option Bytes}
    {create : Bytes → M (Option AsyncContext)} (c : Call) :
    (asyncFrontEnd request pointers key create).Ensures fun r => ∀ e, r = .error e → c.Fails e := by
  have hfail (e : KvResult)
      (he : e = .invalidParam ∨ e = .notInitialized ∨ e = .noMemory ∨ e = .io) :
      (Prog.ret (.error e) : M (Except KvResult WorkItem)).Ensures
        fun r => ∀ e, r = .error e → c.Fails e := by
    intro e' heq
    cases heq
    rcases he with rfl | rfl | rfl | rfl <;> cases c <;> simp [Call.Fails]
  intro initialized
  cases key with
  | none => exact hfail .invalidParam (by decide)
  | some key =>
      show Prog.Ensures _ (if _ then _ else _)
      split
      · exact hfail .invalidParam (by decide)
      · split
        · exact hfail .invalidParam (by decide)
        · intro workers
          show Prog.Ensures _ (if _ then _ else _)
          split
          · exact hfail .notInitialized (by decide)
          · refine (Prog.ensures_true _).bind fun ctx _ => ?_
            cases ctx with
            | none => exact hfail .noMemory (by decide)
            | some ctx =>
                intro item
                cases item with
                | none => exact fun _ => hfail .io (by decide)
                | some item => exact fun e heq => by cases heq

theorem asyncCall_fails (request : ℕ) (c : AsyncCall) :
    (c.prog request).Ensures fun r => ∀ e, r = .error e → c.sync.Fails e := by
  cases c <;> exact asyncFrontEnd_fails _

/-! ### The requests and their status -/

theorem Act.Stops.exec {a : Act} (h : a.Stops) (s : State δ) : (KvEngine.exec D a s).2 = s := by
  cases a <;> first | rfl | exact h.elim

/-- What the place of a call says about the status of its request.  After its return the request
may be anywhere in the pool. -/
def Submitter.Shows (c : AsyncCall) (x : Status AsyncCall Output) : Submitter → Prop
  | .idle => x = .idle
  | .preparing p => x = .called c ∧ p.Performs Act.Submits ∧
      p.Ensures fun r => ∀ e, r = .error e → c.sync.Fails e
  | .atLock _ => x = .called c
  | .waiting _ => x = .called c
  | .rejected p => x = .called c ∧ p.Performs Act.Submits ∧ p.Ensures c.sync.Fails
  | .returned _ => True

/-- The cleanup only stops the probe before it waits for the workers. -/
def Cleaner.Spares : Cleaner → Prop
  | .stopping p => p.Performs Act.Stops
  | _ => True

namespace Pool

/-- The status of every request fits its place: a request is `called` while it is queued, and a
worker goes on from its status as `answering` says. -/
structure Shown (devices : ℕ) (req : ℕ → AsyncCall) (σ : Pool δ n)
    (status : ℕ → Status AsyncCall Output) : Prop where
  calls : ∀ i, (σ.calls i).Shows (req i) (status i)
  queued : ∀ item ∈ σ.queue, status item.arg.request = .called (req item.arg.request)
  executing : ∀ w item p, σ.workers w = .executing item p →
    p.Follows (answering devices item.arg.request (req item.arg.request)) (fun _ _ => True)
      (status item.arg.request)
  cleaner : σ.cleaner.Spares

section shown

variable {devices : ℕ} {σ : Pool δ n} {status : ℕ → Status AsyncCall Output}
  (h : Shown devices req σ status)
include h

/-- A call of a request that is nowhere in the pool goes on. -/
theorem Shown.setCall (i : ℕ) (c : Submitter) {x : Status AsyncCall Output} (hi : σ.Absent i)
    (hc : c.Shows (req i) x) (s : State δ) (blocked : CondVar ℕ) :
    Shown devices req { σ.setCall i c with engine := s, notFull := blocked }
      (Function.update status i x) where
  calls j := by
    by_cases hj : j = i
    · subst hj
      simpa [Pool.setCall] using hc
    · simpa [Pool.setCall, Function.update_of_ne hj] using h.calls j
  queued item hitem := by
    rw [Function.update_of_ne (hi.queue item hitem)]
    exact h.queued item hitem
  executing w item p hw := by
    rw [Function.update_of_ne (hi.workers w item p hw)]
    exact h.executing w item p hw
  cleaner := h.cleaner

theorem Shown.keepCall (i : ℕ) (c : Submitter) (hi : σ.Absent i) (hc : c.Shows (req i) (status i))
    (s : State δ) (blocked : CondVar ℕ) :
    Shown devices req { σ.setCall i c with engine := s, notFull := blocked } status := by
  have hset := h.setCall i c hi hc s blocked
  rwa [Function.update_eq_self] at hset

theorem Shown.atSubmit {i : ℕ} {item : WorkItem} (hi : σ.AtSubmit i item) :
    status i = .called (req i) := by
  have hcall := h.calls i
  rcases hi with hi | ⟨hi, _⟩ <;> rw [hi] at hcall <;> exact hcall

theorem Shown.accept (hsound : σ.Sound req) {i : ℕ} {item : WorkItem} (hi : σ.AtSubmit i item)
    (blocked : CondVar (Fin n)) :
    Shown devices req { σ.setCall i (.returned .success) with
      queue := σ.queue ++ [item]
      notEmpty := blocked } status where
  calls j := by
    by_cases hj : j = i
    · subst hj
      simp [Pool.setCall, Submitter.Shows]
    · simpa [Pool.setCall, Function.update_of_ne hj] using h.calls j
  queued item' hitem' := by
    rcases List.mem_append.mp hitem' with hitem' | hitem'
    · exact h.queued item' hitem'
    · obtain rfl : item' = item := by simpa using hitem'
      rw [(hsound.atSubmit hi).2.request]
      exact h.atSubmit hi
  executing := h.executing
  cleaner := h.cleaner

/-- A worker that executes nothing goes on. -/
theorem Shown.setWorker (w : Fin n) (x : Worker) (hx : ∀ item p, x ≠ .executing item p)
    (blocked : CondVar (Fin n)) (finished : List ℕ) :
    Shown devices req { σ.setWorker w x with notEmpty := blocked, finished := finished }
      status where
  calls := h.calls
  queued := h.queued
  executing v item p hv := by
    by_cases hvw : v = w
    · subst hvw
      exact absurd (by simpa [Pool.setWorker] using hv) (hx item p)
    · exact h.executing v item p (by simpa [Pool.setWorker, Function.update_of_ne hvw] using hv)
  cleaner := h.cleaner

/-- A worker takes an item. -/
theorem Shown.take {w : Fin n} {item : WorkItem} {rest : List WorkItem}
    (hqueue : σ.queue = item :: rest)
    (hitem : (executeItem item).Follows
      (answering devices item.arg.request (req item.arg.request)) (fun _ _ => True)
      (.called (req item.arg.request))) (blocked : CondVar ℕ) (started : List ℕ) :
    Shown devices req { σ.setWorker w (.executing item (executeItem item)) with
      queue := rest
      notFull := blocked
      started := started } status where
  calls := h.calls
  queued item' hitem' := h.queued item' (by rw [hqueue]; exact List.mem_cons_of_mem _ hitem')
  executing v item' p hv := by
    by_cases hvw : v = w
    · subst hvw
      obtain ⟨rfl, rfl⟩ : item = item' ∧ executeItem item = p := by
        simpa [Pool.setWorker] using hv
      rw [h.queued item (by rw [hqueue]; exact List.mem_cons_self)]
      exact hitem
    · exact h.executing v item' p (by simpa [Pool.setWorker, Function.update_of_ne hvw] using hv)
  cleaner := h.cleaner

/-- A worker performs an action of its item. -/
theorem Shown.execute (hsound : σ.Sound req) {w : Fin n} {item : WorkItem} {p p' : M Unit}
    {x : Status AsyncCall Output} (hw : σ.workers w = .executing item p)
    (hp' : p'.Follows (answering devices item.arg.request (req item.arg.request))
      (fun _ _ => True) x) (s : State δ) :
    Shown devices req { σ.setWorker w (.executing item p') with engine := s }
      (Function.update status item.arg.request x) := by
  obtain ⟨hcall, hqueue, hothers, _⟩ := hsound.sole hw
  refine ⟨fun j => ?_, fun item' hitem' => ?_, fun v item' p₁ hv => ?_, h.cleaner⟩
  · by_cases hj : j = item.arg.request
    · subst hj
      simp [Pool.setWorker, hcall, Submitter.Shows]
    · rw [Function.update_of_ne hj]
      exact h.calls j
  · rw [Function.update_of_ne (hqueue item' hitem')]
    exact h.queued item' hitem'
  · by_cases hvw : v = w
    · subst hvw
      obtain ⟨rfl, rfl⟩ : item = item' ∧ p' = p₁ := by simpa [Pool.setWorker] using hv
      rwa [Function.update_self]
    · have hv' : σ.workers v = .executing item' p₁ := by
        simpa [Pool.setWorker, Function.update_of_ne hvw] using hv
      rw [Function.update_of_ne (hothers v item' p₁ hvw hv')]
      exact h.executing v item' p₁ hv'

theorem Shown.setCleaner (c : Cleaner) (hc : c.Spares) (s : State δ) :
    Shown devices req { σ with engine := s, cleaner := c } status where
  calls := h.calls
  queued := h.queued
  executing := h.executing
  cleaner := hc

end shown

/-! ### The pool as the map -/

/-- What the application has seen is a run of the map, in which every request has the status that
fits its place.  The devices hold the map as long as they are in use. -/
structure Mirrors (contents : δ → Bytes → Option Bytes) (req : ℕ → AsyncCall) (devices : ℕ)
    (m₀ : Pairs) (σ : Pool δ n) (seen : List (Atomic.Occurrence ℕ AsyncCall Output)) (m : Pairs)
    (status : ℕ → Status AsyncCall Output) : Prop where
  run : AtomicRun AsyncSpec m₀ seen m status
  shown : Shown devices req σ status
  serving : σ.cleaner.tearsDown = false →
    σ.engine.Mounted ∧ σ.engine.numDevices = devices ∧ σ.engine.lookup contents = m

section mirrors

variable {devices : ℕ} {m₀ m : Pairs} {σ : Pool δ n}
  {seen : List (Atomic.Occurrence ℕ AsyncCall Output)} {status : ℕ → Status AsyncCall Output}

/-- A worker that has not exited is waited for before the devices are released. -/
theorem Sound.not_tearsDown (hsound : σ.Sound req) {w : Fin n} (hw : σ.workers w ≠ .exited) :
    σ.cleaner.tearsDown = false := by
  by_contra hdown
  rw [Bool.not_eq_false] at hdown
  exact hw (hsound.all_exited hdown w)

variable (h : Mirrors contents req devices m₀ σ seen m status)
include h

/-- A transition that shows nothing and keeps the map. -/
theorem Mirrors.keep {τ : Pool δ n} (hshown : Shown devices req τ status)
    (hengine : τ.cleaner.tearsDown = false → σ.cleaner.tearsDown = false ∧
      State.SameSlots σ.engine τ.engine ∧
      τ.engine.lookup contents = σ.engine.lookup contents) :
    Mirrors contents req devices m₀ τ seen m status where
  run := h.run
  shown := hshown
  serving hserving := by
    obtain ⟨hserved, hslots, hlookup⟩ := hengine hserving
    obtain ⟨hmounted, hdevices, hmap⟩ := h.serving hserved
    exact ⟨hslots.mounted hmounted, hslots.numDevices.trans hdevices, hlookup.trans hmap⟩

/-- A transition of a call or a worker that shows nothing and leaves the engine alone. -/
theorem Mirrors.keepEngine {τ : Pool δ n} (hshown : Shown devices req τ status)
    (hengine : τ.engine = σ.engine) (hcleaner : τ.cleaner = σ.cleaner) :
    Mirrors contents req devices m₀ τ seen m status where
  run := h.run
  shown := hshown
  serving := by
    rw [hengine, hcleaner]
    exact h.serving

/-- A call that fails acts and returns at once. -/
theorem Mirrors.refuse {i : ℕ} {r : KvResult} (hi : σ.Absent i)
    (hstatus : status i = .called (req i)) (hr : (req i).sync.Fails r) :
    Mirrors contents req devices m₀ (σ.setCall i (.returned r))
      (.ret i (req i) ⟨r, none, none⟩ :: seen) m (Function.update status i .idle) where
  run := by
    have hrun := (h.run.effect hstatus (MapSpec.failed hr)).ret (Function.update_self ..)
    rwa [Function.update_idem] at hrun
  shown := h.shown.setCall i (.returned r) hi trivial σ.engine σ.notFull
  serving := h.serving

/-- The section of `thread_pool_submit` shows nothing. -/
theorem Mirrors.submit (hsound : σ.Sound req) {i : ℕ} {item : WorkItem} (hi : σ.AtSubmit i item)
    (wakes : Fin n) :
    Mirrors contents req devices m₀ (σ.submit config i item wakes) seen m status := by
  have habsent := hsound.absent (hsound.atSubmit hi).1
  have hcalled := h.shown.atSubmit hi
  unfold Pool.submit
  split
  · have hfails : (asyncRejected item).Ensures (req i).sync.Fails := fun _ _ => by
      show (req i).sync.Fails .io
      cases req i <;> simp [AsyncCall.sync, Call.Fails]
    exact h.keepEngine (h.shown.keepCall i (.rejected _) habsent
      ⟨hcalled, asyncRejected_submits item, hfails⟩ σ.engine σ.notFull) rfl rfl
  · split
    · exact h.keepEngine (h.shown.keepCall i (.waiting item) habsent hcalled σ.engine _) rfl rfl
    · exact h.keepEngine (h.shown.accept hsound hi _) rfl rfl

variable (hD : Truthful D contents)
include hD

/-- A step of a call. -/
theorem Mirrors.callNext (hsound : σ.Sound req) (i : ℕ) (wakes : Fin n) :
    ∃ m' status', Mirrors contents req devices m₀ (σ.callNext D config req i wakes)
      ((σ.seenBy req (.call i wakes)).toList ++ seen) m' status' := by
  have hcall := h.shown.calls i
  have hunseen {a : Act} (ha : a.Submits) (hserving : σ.cleaner.tearsDown = false) :
      σ.cleaner.tearsDown = false ∧ State.SameSlots σ.engine (exec D a σ.engine).2 ∧
        (exec D a σ.engine).2.lookup contents = σ.engine.lookup contents :=
    ⟨hserving, ha.neutral.unseen.exec hD⟩
  have habsent {x : Submitter} (hi : σ.calls i = x) (hx : x.accepted = 0) : σ.Absent i :=
    hsound.absent (by rw [hi]; exact hx)
  simp only [Pool.callNext, seenBy]
  cases hi : σ.calls i with
  | idle =>
      rw [hi] at hcall
      exact ⟨m, _, h.run.call (req i) hcall,
        h.shown.setCall i (.preparing _) (habsent hi rfl)
          ⟨rfl, asyncCall_submits i (req i), asyncCall_fails i (req i)⟩ σ.engine σ.notFull,
        h.serving⟩
  | preparing p =>
      rw [hi] at hcall
      obtain ⟨hstatus, hsubmits, hfails⟩ := hcall
      cases p with
      | act a k =>
          exact ⟨m, status, h.keep (h.shown.keepCall i (.preparing _) (habsent hi rfl)
            ⟨hstatus, hsubmits.2 _, hfails _⟩ _ σ.notFull) (hunseen hsubmits.1)⟩
      | ret r =>
          cases r with
          | error e => exact ⟨m, _, h.refuse (habsent hi rfl) hstatus (hfails e rfl)⟩
          | ok item =>
              exact ⟨m, status, h.keepEngine (h.shown.keepCall i (.atLock item) (habsent hi rfl)
                hstatus σ.engine σ.notFull) rfl rfl⟩
  | atLock item => exact ⟨m, status, h.submit hsound (.inl hi) wakes⟩
  | waiting item =>
      refine ⟨m, status, ?_⟩
      show Mirrors _ _ _ _ (if _ then _ else _) _ _ _
      split
      · exact h
      · rename_i hwoken
        exact h.submit hsound (.inr ⟨hi, hwoken⟩) wakes
  | rejected p =>
      rw [hi] at hcall
      obtain ⟨hstatus, hsubmits, hfails⟩ := hcall
      cases p with
      | act a k =>
          exact ⟨m, status, h.keep (h.shown.keepCall i (.rejected _) (habsent hi rfl)
            ⟨hstatus, hsubmits.2 _, hfails _⟩ _ σ.notFull) (hunseen hsubmits.1)⟩
      | ret r => exact ⟨m, _, h.refuse (habsent hi rfl) hstatus hfails⟩
  | returned r => exact ⟨m, status, h⟩

/-- A worker performs an action: the answer of its request is fixed, a callback tells it, or
nothing happens to the map. -/
theorem Mirrors.execute (hsound : σ.Sound req) {w : Fin n} {item : WorkItem} {a : Act}
    {k : a.Resp → M Unit} (hw : σ.workers w = .executing item (.act a k)) :
    ∃ m' status', Mirrors contents req devices m₀
      ({ σ with engine := (exec D a σ.engine).2 }.setWorker w
        (.executing item (k (exec D a σ.engine).1)))
      ((a.completion.map fun c =>
        Atomic.Occurrence.ret c.request (req c.request) c.output).toList ++ seen) m' status' := by
  obtain ⟨hmounted, hdevices, hmap⟩ := h.serving (hsound.not_tearsDown (by rw [hw]; simp))
  obtain ⟨hok, hk⟩ := h.shown.executing w item _ hw
  have hshown := h.shown.execute hsound hw (hk (exec D a σ.engine).1 (Crew.answered hdevices))
    (exec D a σ.engine).2
  rcases hok with ⟨hunseen, hcallback⟩ | ⟨hstatus, hcommands⟩
  · obtain ⟨hslots, hlookup⟩ := hunseen.exec hD (s := σ.engine)
    have hengine : (exec D a σ.engine).2.Mounted ∧ (exec D a σ.engine).2.numDevices = devices ∧
        (exec D a σ.engine).2.lookup contents = m :=
      ⟨hslots.mounted hmounted, hslots.numDevices.trans hdevices, hlookup.trans hmap⟩
    cases hcb : a.completion with
    | none =>
        have hnext : (answering devices item.arg.request (req item.arg.request)).next
            (status item.arg.request) a (exec D a σ.engine).1 = status item.arg.request := by
          simp [answering, hcb, hunseen.fixes_nothing]
        rw [hnext, Function.update_eq_self] at hshown
        exact ⟨m, status, h.run, hshown, fun _ => hengine⟩
    | some cb =>
        obtain ⟨hrequest, hdue⟩ := hcallback cb hcb
        have hnext : (answering devices item.arg.request (req item.arg.request)).next
            (status item.arg.request) a (exec D a σ.engine).1 = .idle := by
          simp [answering, hcb]
        rw [hnext] at hshown
        refine ⟨m, _, ?_, hshown, fun _ => hengine⟩
        show AtomicRun AsyncSpec m₀ (.ret cb.request (req cb.request) cb.output :: seen) m _
        rw [hrequest]
        cases hstatus : status item.arg.request with
        | idle =>
            rw [hstatus] at hdue
            exact hdue.elim
        | called o =>
            rw [hstatus] at hdue
            obtain ⟨rfl, hspec⟩ := hdue
            have hrun := (h.run.effect hstatus (hspec m)).ret (Function.update_self ..)
            rwa [Function.update_idem] at hrun
        | answered o v =>
            rw [hstatus] at hdue
            obtain ⟨rfl, rfl⟩ := hdue
            exact h.run.ret hstatus
  · subst hdevices
    obtain ⟨hslots, heffect⟩ := hcommands.exec hD hmounted
    have hquiet := hcommands.completion
    rw [hquiet]
    rcases heffect with ⟨hnone, hlookup⟩ | ⟨out, hout, hspec⟩
    · have hnext : (answering σ.engine.numDevices item.arg.request (req item.arg.request)).next
          (status item.arg.request) a (exec D a σ.engine).1 = status item.arg.request := by
        simp [answering, hquiet, hnone]
      rw [hnext, Function.update_eq_self] at hshown
      exact ⟨m, status, h.run, hshown,
        fun _ => ⟨hslots.mounted hmounted, hslots.numDevices, hlookup.trans hmap⟩⟩
    · have hnext : (answering σ.engine.numDevices item.arg.request (req item.arg.request)).next
          (status item.arg.request) a (exec D a σ.engine).1 =
          .answered (req item.arg.request) out := by
        simp [answering, hquiet, hout, hstatus, statusAfter]
      rw [hnext] at hshown
      rw [hmap] at hspec
      exact ⟨_, _, h.run.effect hstatus hspec, hshown,
        fun _ => ⟨hslots.mounted hmounted, hslots.numDevices, rfl⟩⟩

omit hD in
/-- The section of `thread_pool_worker` shows nothing. -/
theorem Mirrors.dequeue (hsound : σ.Sound req) (w : Fin n) (wakes : ℕ) :
    Mirrors contents req devices m₀ (σ.dequeue w wakes) seen m status := by
  unfold Pool.dequeue
  split
  · split
    · exact h.keepEngine (h.shown.setWorker w .exited (fun _ _ => by simp) σ.notEmpty σ.finished)
        rfl rfl
    · exact h.keepEngine (h.shown.setWorker w .waiting (fun _ _ => by simp) _ σ.finished) rfl rfl
  · rename_i item rest hqueue
    have hcopied := hsound.copied item (by rw [hqueue]; exact List.mem_cons_self)
    exact h.keepEngine (h.shown.take hqueue (executeItem_answering hcopied) _ _) rfl rfl

/-- A step of a worker. -/
theorem Mirrors.workerNext (hsound : σ.Sound req) (w : Fin n) (wakes : ℕ) :
    ∃ m' status', Mirrors contents req devices m₀ (σ.workerNext D w wakes)
      ((σ.seenBy req (.worker w wakes)).toList ++ seen) m' status' := by
  simp only [Pool.workerNext, seenBy]
  cases hw : σ.workers w with
  | atLock => exact ⟨m, status, h.dequeue hsound w wakes⟩
  | waiting =>
      refine ⟨m, status, ?_⟩
      show Mirrors _ _ _ _ (if _ then _ else _) _ _ _
      split
      · exact h
      · exact h.dequeue hsound w wakes
  | executing item p =>
      cases p with
      | act a k => exact h.execute hD hsound hw
      | ret u =>
          exact ⟨m, status, h.keepEngine (h.shown.setWorker w .atLock (fun _ _ => by simp)
            σ.notEmpty _) rfl rfl⟩
  | exited => exact ⟨m, status, h⟩

omit hD in
/-- A step of the cleanup shows nothing. -/
theorem Mirrors.cleanerNext (hn : 0 < n) (hsound : σ.Sound req) :
    Mirrors contents req devices m₀ (σ.cleanerNext D config) seen m status := by
  have hspares := h.shown.cleaner
  have hgo (c : Cleaner) (hc : c.Spares) (hσ : σ.cleaner.tearsDown = false) (s : State δ)
      (hs : s = σ.engine) :
      Mirrors contents req devices m₀ { σ with engine := s, cleaner := c } seen m status := by
    refine h.keep (h.shown.setCleaner c hc s) fun _ => ⟨hσ, ?_⟩
    subst hs
    exact ⟨⟨rfl, rfl, fun _ => rfl⟩, rfl⟩
  have hend (c : Cleaner) (hc : c.Spares) (s : State δ)
      (hdown : c.tearsDown = true) :
      Mirrors contents req devices m₀ { σ with engine := s, cleaner := c } seen m status := by
    refine h.keep (h.shown.setCleaner c hc s) fun hserving => ?_
    rw [show c.tearsDown = false from hserving] at hdown
    cases hdown
  unfold Pool.cleanerNext
  cases hc : σ.cleaner with
  | idle => exact hgo (.stopping stopProbe) stopProbe_stops (by rw [hc]; rfl) σ.engine rfl
  | stopping p =>
      rw [hc] at hspares
      cases p with
      | act a k =>
          exact hgo (.stopping _) (hspares.2 _) (by rw [hc]; rfl) _ (hspares.1.exec _)
      | ret u => exact hgo .atShutdown trivial (by rw [hc]; rfl) σ.engine rfl
  | atShutdown =>
      have hset := hgo (.joining 0) trivial (by rw [hc]; rfl) σ.engine rfl
      exact { hset with shown := { hset.shown with } }
  | joining j =>
      show Mirrors _ _ _ _ (if h : _ then _ else _) _ _ _
      split
      · split
        · exact hgo (.joining (j + 1)) trivial (by rw [hc]; rfl) _ rfl
        · exact h
      · exact hgo .leftovers trivial (by rw [hc]; rfl) σ.engine rfl
  | leftovers =>
      have hempty := hsound.leftovers_empty hn hc
      dsimp only
      split
      · exact hend (.releasing _) trivial σ.engine rfl
      · rename_i hqueue
        rw [hqueue] at hempty
        cases hempty
  | releasing p =>
      cases p with
      | act a k => exact hend (.releasing _) trivial _ rfl
      | ret u => exact hend .finished trivial σ.engine rfl
  | finished => exact h

/-- Every move. -/
theorem Mirrors.next (hn : 0 < n) (hsound : σ.Sound req) (move : PoolMove n) :
    ∃ m' status', Mirrors contents req devices m₀ (σ.next D config req move)
      ((σ.seenBy req move).toList ++ seen) m' status' := by
  cases move with
  | call i wakes => exact h.callNext hD hsound i wakes
  | worker w wakes => exact h.workerNext hD hsound w wakes
  | cleaner => exact ⟨m, status, h.cleanerNext hn hsound⟩
  | spuriousWorker w => exact ⟨m, status, { h with shown := { h.shown with } }⟩
  | spuriousCall i => exact ⟨m, status, { h with shown := { h.shown with } }⟩

/-- Every run. -/
theorem Mirrors.after (hn : 0 < n) (hsound : σ.Sound req) (moves : List (PoolMove n)) :
    ∃ m' status', Mirrors contents req devices m₀ (σ.after D config req moves)
      (history D config req seen σ moves) m' status' := by
  induction moves generalizing σ seen m status with
  | nil => exact ⟨m, status, h⟩
  | cons move moves ih =>
      have hnext : ∃ m' status', Mirrors contents req devices m₀ (σ.next D config req move)
          ((σ.seenBy req move).toList ++ seen) m' status' := h.next hD hn hsound move
      obtain ⟨m', status', h'⟩ := hnext
      exact ih h' (hsound.step hn (next_step σ move))

end mirrors

end Pool

end KvEngine
