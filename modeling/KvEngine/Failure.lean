import KvEngine.Refinement
import KvEngine.Api

/-! # Failed calls

Is a call that returns an error invisible to later reads?  What a reader can see of a key is
its `lookup` (what `kv_engine_retrieve` returns) and `reports` (what `kv_engine_exists` says);
`responsive_answers` connects the two to the calls on healthy engines over devices that report
no fault.

Nothing is assumed about the devices but that a command which does not succeed leaves the
pairs alone (`FailSafe`), and nothing about the allocator.

`kv_engine_retrieve` drops a key from the table only after the device deleted it, but
`kv_engine_delete` drops it whatever the device answered, and `kv_engine_store` adds it before
the device is asked.  `Harmless` lists the calls that these two do not expose, and
`failed_calls_unobservable_iff` shows that it is the exact condition, over every history of an
initialised engine. -/

namespace KvEngine

open Atomic

variable {δ : Type} {D : Driver δ} {contents : δ → Bytes → Option Bytes}

/-- A command that does not succeed leaves the pairs alone. -/
structure FailSafe (D : Driver δ) (contents : δ → Bytes → Option Bytes) : Prop where
  store : ∀ d k v t, (D.storeKvp d k v t).1 ≠ .success →
    contents (D.storeKvp d k v t).2 = contents d
  retrieve : ∀ d k v del, (D.retrieveKvp d k v del).1.1 ≠ .success →
    contents (D.retrieveKvp d k v del).2 = contents d
  delete : ∀ d k e, (D.deleteKvp d k e).1 ≠ .success →
    contents (D.deleteKvp d k e).2 = contents d

theorem Documented.failSafe (h : Documented D contents) : FailSafe D contents :=
  ⟨h.store_failed, h.retrieve_failed, h.delete_failed⟩

/-! ### What a reader sees -/

/-- What `kv_engine_exists` says about a key when the device answers. -/
def State.reports (contents : δ → Bytes → Option Bytes) (s : State δ) (key : Bytes) : Bool :=
  (s.lookup contents key).isSome && key ∈ s.keyTable

/-- The two functions are the answers of the calls, on any healthy engine over devices that
report no fault and that holds the same pairs and the same table. -/
theorem responsive_answers {ε : Type} {E : Driver ε} {held : ε → Bytes → Option Bytes}
    {created : ε → Bool} (hE : Faultless E held created) {u : State ε} (hu : u.Serving)
    {s : State δ} (hlookup : u.lookup held = s.lookup contents) (htable : u.keyTable = s.keyTable)
    {key : Bytes} (hk : KeyOk key) :
    (run E (kvEngineExists (some key) true) u).1 = (.success, some (s.reports contents key)) ∧
      (run E (kvEngineRetrieve (some key) true false) u).1.2.map (fun v => (v.bytes, v.len)) =
        (s.lookup contents key).map fun v => (v, v.length) := by
  obtain ⟨t, hrun, _⟩ := serving_exists hE hu hk
  obtain ⟨b, t', hrun', _⟩ := serving_retrieve hE hu hk false
  rw [hrun, hrun', hlookup, htable]
  refine ⟨rfl, ?_⟩
  cases s.lookup contents key <;> rfl

/-- No reader can tell the two states apart. -/
structure SameAnswers (contents : δ → Bytes → Option Bytes) (s t : State δ) : Prop where
  retrieve : ∀ key, KeyOk key → t.lookup contents key = s.lookup contents key
  exist : ∀ key, KeyOk key → t.reports contents key = s.reports contents key

/-- Only the presence of the keys that have a value can be told from the table. -/
theorem SameAnswers.of_found {s t : State δ} (hlookup : t.lookup contents = s.lookup contents)
    (htable : ∀ key, (s.lookup contents key).isSome → (key ∈ t.keyTable ↔ key ∈ s.keyTable)) :
    SameAnswers contents s t := by
  refine ⟨fun key _ => by rw [hlookup], fun key _ => ?_⟩
  rw [State.reports, State.reports, hlookup]
  cases hsome : (s.lookup contents key).isSome with
  | false => rfl
  | true => simp [htable key hsome]

theorem SameAnswers.of_eq {s t : State δ} (hlookup : t.lookup contents = s.lookup contents)
    (htable : t.keyTable = s.keyTable) : SameAnswers contents s t :=
  .of_found hlookup fun key _ => by rw [htable]

/-! ### The condition -/

/-- If the store, retrieve or delete call fails, no reader can tell. -/
def Call.Unobservable (D : Driver δ) (contents : δ → Bytes → Option Bytes) (s : State δ) :
    Call → Prop
  | .exists _ _ => True
  | c => (run D c.prog s).1.result ≠ .success → SameAnswers contents s (run D c.prog s).2

/-- The call is not one of the two that a failing device exposes: a delete of a key that is on
its device and in the table, or a store, with memory for its table entry, of a key that is on
its device and not in the table. -/
def Call.Harmless (D : Driver δ) (contents : δ → Bytes → Option Bytes) (s : State δ) : Call → Prop
  | .delete key => ∀ k i p, s.admission true key = .ok (k, i) → (s.devices i).keyspace = some p →
      (D.deleteKvp (s.ssd p) (kvsKeyOf k) false).1 ≠ .success →
      (s.lookup contents k).isSome → k ∉ s.keyTable
  | .store key (some value) overwrite => ∀ k i p, s.admission true key = .ok (k, i) →
      (s.devices i).keyspace = some p →
      (s.bounce value).1 = true → (s.bounce value).2.nextAlloc.isSome →
      (storeOutcome D (s.ssd p) k value.bytes overwrite).1 ≠ .success →
      (s.lookup contents k).isSome → k ∈ s.keyTable
  | _ => True

/-- A failed store keeps the lookup and may add its key to the table. -/
theorem sameAnswers_afterStore_iff {s : State δ} (value : Buf) {k : Bytes} (hk : KeyOk k) (i : ℕ)
    {p : Place} {o : KvsResult × δ} (ho : contents o.2 = contents (s.ssd p)) :
    SameAnswers contents s ((s.bounce value).2.afterStore i p k value.bytes o) ↔
      ((s.bounce value).2.nextAlloc.isSome → (s.lookup contents k).isSome → k ∈ s.keyTable) := by
  have hlookup : ((s.bounce value).2.afterStore i p k value.bytes o).lookup contents =
      s.lookup contents := by
    rw [State.lookup_afterStore, State.lookup_setSsd_same _ (by rw [State.bounce_ssd, ho])]
    exact (s.sameSlots_bounce value).lookup (s.bounce_ssd value)
  have htable : ((s.bounce value).2.afterStore i p k value.bytes o).keyTable =
      if (s.bounce value).2.nextAlloc.isSome then insert k s.keyTable else s.keyTable := by
    simp [State.afterStore, State.addTableKey_keyTable _ _ hk.accepts]
  constructor
  · intro h halloc hsome
    have hexist := h.exist k hk
    rw [State.reports, State.reports, hlookup, htable, if_pos halloc, hsome] at hexist
    simpa using hexist
  · intro h
    cases halloc : (s.bounce value).2.nextAlloc.isSome with
    | false =>
        rw [halloc] at htable
        exact .of_eq hlookup htable
    | true =>
        rw [halloc] at htable h
        refine .of_found hlookup fun key hsome => ?_
        rw [htable, if_pos rfl, Finset.mem_insert]
        constructor
        · rintro (rfl | hmem)
          · exact h rfl hsome
          · exact hmem
        · exact .inr

/-- A failed delete keeps the lookup and drops its key from the table. -/
theorem sameAnswers_afterDelete_iff {s : State δ} {k : Bytes} (hk : KeyOk k) (i : ℕ) {p : Place}
    {o : KvsResult × δ} (ho : contents o.2 = contents (s.ssd p)) :
    SameAnswers contents s (s.afterDelete i p k o) ↔
      ((s.lookup contents k).isSome → k ∉ s.keyTable) := by
  have hlookup : (s.afterDelete i p k o).lookup contents = s.lookup contents := by
    rw [State.lookup_afterDelete, State.lookup_setSsd_same _ ho]
  have htable : (s.afterDelete i p k o).keyTable = s.keyTable.erase k := by
    simp [State.afterDelete, deleteKey, hk.accepts]
  constructor
  · intro h hsome
    have hexist := h.exist k hk
    rw [State.reports, State.reports, hlookup, htable, hsome] at hexist
    simpa using hexist.symm
  · intro h
    refine .of_found hlookup fun key hsome => ?_
    rw [htable, Finset.mem_erase]
    constructor
    · exact And.right
    · intro hmem
      refine ⟨?_, hmem⟩
      rintro rfl
      exact h hsome hmem

/-- A retrieve that does not succeed leaves the pairs alone, second attempt or not. -/
theorem Attempts.contents_eq (hD : FailSafe D contents) {d d' : δ} {k : Bytes} {del : Bool}
    {o : Option (KvsResult × KvsValue)} (h : Attempts D d k del o d')
    (ho : ∀ r, o = some r → r.1 ≠ .success) : contents d' = contents d := by
  cases h with
  | first h hr =>
      have hkeep := hD.retrieve d (kvsKeyOf k) retrieveRequest del (by rw [h]; exact ho _ rfl)
      rwa [h] at hkeep
  | noMemory h =>
      have hkeep := hD.retrieve d (kvsKeyOf k) retrieveRequest del (by rw [h]; simp)
      rwa [h] at hkeep
  | @second v d₁ _ r h h' =>
      have hfirst := hD.retrieve d (kvsKeyOf k) retrieveRequest del (by rw [h]; simp)
      have hsecond := hD.retrieve d₁ (kvsKeyOf k) (secondRequest v) del
        (by rw [h']; exact ho _ rfl)
      rw [h] at hfirst
      rw [h'] at hsecond
      exact hsecond.trans hfirst

theorem retrieveAnswer_eq_success {b : Addr} {o : Option (KvsResult × KvsValue)} :
    (retrieveAnswer b o).1 = .success ↔ ∃ r, o = some r ∧ r.1 = .success := by
  cases o with
  | none => simp [retrieveAnswer]
  | some r =>
      by_cases hr : r.1 = .success
      · simp [retrieveAnswer, hr]
      · simp [retrieveAnswer, hr, mapKvsResult_eq_success]

/-- A failed retrieve leaves no trace. -/
theorem sameAnswers_of_failed_retrieve (hD : FailSafe D contents) {s : State δ} {i : ℕ} {p : Place}
    {k : Bytes} {del : Bool} {o : Option (KvsResult × KvsValue)} {d' : δ} {b : Addr}
    (ho : Attempts D (s.ssd p) k del o d') (hfail : (retrieveAnswer b o).1 ≠ .success)
    (pool : Option DmaPool) (heap : ℕ → Option Addr) :
    SameAnswers contents s (((s.setSsd p d').afterRetrieve i k del o).withBuffers pool heap) := by
  have hno : ∀ r, o = some r → r.1 ≠ .success :=
    fun r hr hs => hfail (retrieveAnswer_eq_success.mpr ⟨r, hr, hs⟩)
  refine .of_eq ?_ ?_
  · rw [State.lookup_withBuffers, State.lookup_afterRetrieve]
    exact s.lookup_setSsd_same (ho.contents_eq hD hno)
  · cases o with
    | none => rfl
    | some r => simp [State.afterRetrieve, State.forget, hno r rfl]

/-- One call: a failure is invisible exactly when the call is harmless. -/
theorem Call.unobservable_iff (hD : FailSafe D contents) {s : State δ} (hs : s.Mounted) (c : Call) :
    c.Unobservable D contents s ↔ c.Harmless D contents s := by
  have hrun : CallRun D s c (run D c.prog s).1 (run D c.prog s).2 := run_call hs c
  cases c with
  | «exists» key outs => exact ⟨fun _ => trivial, fun _ => trivial⟩
  | retrieve key outs del =>
      refine ⟨fun _ => trivial, fun _ => ?_⟩
      show (run D (Call.prog (.retrieve key outs del)) s).1.result ≠ .success → _
      generalize run D (Call.prog (.retrieve key outs del)) s = out at hrun ⊢
      obtain ⟨r, t⟩ := out
      intro hfail
      cases hrun with
      | refused h => exact .of_eq rfl rfl
      | retrieveNoMemory hk hheap => exact .of_eq rfl rfl
      | retrieved hk hp ho hheap => exact sameAnswers_of_failed_retrieve hD ho hfail _ _
  | delete key =>
      show ((run D (Call.prog (.delete key)) s).1.result ≠ .success → _) ↔ _
      generalize run D (Call.prog (.delete key)) s = out at hrun ⊢
      obtain ⟨r, t⟩ := out
      cases hrun with
      | refused h =>
          refine ⟨fun _ k i p hk => ?_, fun _ _ => .of_eq rfl rfl⟩
          cases h.symm.trans hk
      | deleted hk hp =>
          simp only [Call.Harmless, ne_eq, mapKvsResult_eq_success]
          obtain ⟨_, _, hok, _⟩ := admission_ok hk
          constructor
          · intro h k' i' p' hk' hp' hfail
            obtain ⟨rfl, rfl⟩ : _ = k' ∧ _ = i' := by simpa [hk] using hk'
            obtain rfl : _ = p' := by simpa [hp] using hp'
            exact (sameAnswers_afterDelete_iff hok _ (hD.delete _ _ _ hfail)).mp (h hfail)
          · intro h hfail
            exact (sameAnswers_afterDelete_iff hok _ (hD.delete _ _ _ hfail)).mpr
              (h _ _ _ hk hp hfail)
  | store key value overwrite =>
      show ((run D (Call.prog (.store key value overwrite)) s).1.result ≠ .success → _) ↔ _
      generalize run D (Call.prog (.store key value overwrite)) s = out at hrun ⊢
      obtain ⟨r, t⟩ := out
      cases hrun with
      | refused h =>
          refine ⟨fun _ => ?_, fun _ _ => .of_eq rfl rfl⟩
          cases value with
          | none => trivial
          | some value =>
              intro k i p hk
              cases h.symm.trans hk
      | @storeNoMemory _ _ _ value _ hk hb =>
          refine ⟨fun _ k i p _ _ hb' => ?_, fun _ _ => .of_eq ?_ (s.bounce_keyTable value)⟩
          · rw [hb] at hb'
            cases hb'
          · exact (s.sameSlots_bounce value).lookup (s.bounce_ssd value)
      | @stored _ k i p value _ hk hp hb =>
          simp only [Call.Harmless, ne_eq, mapKvsResult_eq_success]
          obtain ⟨_, _, hok, _⟩ := admission_ok hk
          constructor
          · intro h k' i' p' hk' hp' _ halloc hfail
            obtain ⟨rfl, rfl⟩ : k = k' ∧ i = i' := by simpa [hk] using hk'
            obtain rfl : p = p' := by simpa [hp] using hp'
            exact (sameAnswers_afterStore_iff value hok _ (hD.store _ _ _ _ hfail)).mp (h hfail) halloc
          · intro h hfail
            exact (sameAnswers_afterStore_iff value hok _ (hD.store _ _ _ _ hfail)).mpr
              fun halloc => h k i p hk hp hb halloc hfail

/-! ### Histories -/

/-- The call of an event, if it is one, satisfies `P`. -/
def ApiEvent.OnCall (P : Call → Prop) : ApiEvent → Prop
  | .call c => P c
  | _ => True

/-- **Failed calls.**  Over every history of an initialised engine, with arbitrary device
answers and allocation failures: no failed store, retrieve or delete changes what
`kv_engine_exists` and `kv_engine_retrieve` answer, if and only if every call of the history is
harmless where it is made. -/
theorem failed_calls_unobservable_iff (hD : FailSafe D contents) {config : Config} {s₀ : State δ}
    (hinit : (run D (kvEngineInit config) s₀).1 = .success) (es : List ApiEvent) :
    Machine.Always (fun σ e => e.OnCall (Call.Unobservable D contents σ.engine)) (System.step D)
        (System.boot D config s₀) es ↔
      Machine.Always (fun σ e => e.OnCall (Call.Harmless D contents σ.engine)) (System.step D)
        (System.boot D config s₀) es := by
  refine Machine.always_congr (fun σ : System δ => σ.engine.Mounted)
    (fun σ e h => System.step_mounted h e) (fun σ e h => ?_) (System.boot_mounted hinit) es
  cases e with
  | call c => exact Call.unobservable_iff hD h c
  | getStats => exact Iff.rfl
  | resetStats => exact Iff.rfl
  | addDevice path => exact Iff.rfl
  | sweep => exact Iff.rfl

/-! ### A device that cannot delete -/

/-- The documented device, but every delete command fails with an I/O error. -/
def deleteFails : Driver KeySpace := { keySpaceDriver with deleteKvp := fun d _ _ => (.sysIo, d) }

theorem deleteFails_failSafe : FailSafe deleteFails KeySpace.pairs :=
  { keySpaceDriver_documented.failSafe with delete := fun _ _ _ _ => rfl }

/-- The two devices of `twoDevices`, new. -/
def newDevices : System KeySpace := .boot deleteFails twoDevices (.blank fun _ => .empty)

/-- A failed delete of a key that was never stored is harmless, and so it is invisible. -/
theorem failed_calls_unobservable_iff_absent :
    Machine.Always (fun σ e => e.OnCall (Call.Unobservable deleteFails KeySpace.pairs σ.engine))
      (System.step deleteFails) newDevices [.call (.delete (some someKey.1))] := by
  refine (failed_calls_unobservable_iff deleteFails_failSafe (by decide +kernel) _).mpr ⟨?_, trivial⟩
  intro k i p hk hp hfail hsome
  obtain ⟨hkey, _⟩ := admission_ok hk
  cases hkey
  exact absurd hsome (by decide +kernel)

/-- A history in which the failure shows: the delete fails and the key stays on its device, yet
`kv_engine_exists` denies it from then on; the store that is refused as a duplicate makes it
appear again. -/
theorem failed_delete_hides_key :
    let stored := newDevices.step deleteFails (.call (.store (some someKey.1) (some someValue.buf) true))
    let deleted := stored.2.step deleteFails (.call (.delete (some someKey.1)))
    let again := deleted.2.step deleteFails
      (.call (.store (some someKey.1) (some someValue.buf) false))
    (run deleteFails (kvEngineDelete (some someKey.1)) stored.2.engine).1 = .io ∧
    (run deleteFails (kvEngineStore (some someKey.1) (some someValue.buf) false) deleted.2.engine).1 =
      .keyAlreadyExists ∧
    [stored, deleted, again].map (fun o => o.2.engine.lookup KeySpace.pairs someKey.1) =
      [some [118, 49], some [118, 49], some [118, 49]] ∧
    [stored, deleted, again].map (fun o => o.2.engine.reports KeySpace.pairs someKey.1) =
      [true, false, true] := by
  decide +kernel

end KvEngine
