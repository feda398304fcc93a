import KvEngine.Refinement

/-! # Restarts

Histories that mix calls with restarts (`kv_engine_cleanup` followed by `kv_engine_init` on the
same configuration).  The devices keep their pairs, but `kv_engine_init` builds the key table
anew and empty, while `kv_engine_exists` answers with the conjunction of device and table.

`Dict.lifeStep` is one finite map that survives the restarts.  `Ledger` adds to it, as a ghost,
the keys that were the subject of a store since the last initialisation.
`restart_transparent_iff` states exactly which histories the engine answers as the map does:
those in which every exists call asks for a key that is absent or was stored since the last
initialisation. -/

namespace KvEngine

open Atomic

/-- A call, or a restart of the engine. -/
inductive LifeEvent where
  | call (op : Op)
  | restart

section engine

variable {δ : Type} (D : Driver δ) (config : Config)

/-- `kv_engine_cleanup` and then `kv_engine_init`. -/
def restart : M KvResult := do
  kvEngineCleanup config
  kvEngineInit config

/-- The engine under calls and restarts; a restart answers with the code of `kv_engine_init`. -/
def lifeStep (s : State δ) : LifeEvent → Output × State δ
  | .call op => engineStep D s op
  | .restart => (⟨(run D (restart config) s).1, none, none⟩, (run D (restart config) s).2)

end engine

/-- One finite map that survives restarts. -/
def Dict.lifeStep (m : Dict) : LifeEvent → Output × Dict
  | .call op => m.step op
  | .restart => (⟨.success, none, none⟩, m)

/-- A map and the keys that were the subject of a store since the last initialisation. -/
structure Ledger where
  pairs : Dict
  stored : KeyTable

namespace Ledger

/-- The keys stored so far. -/
def storedAfter (l : Ledger) : LifeEvent → KeyTable
  | .call (.store key _ _) => insert key.1 l.stored
  | .call _ => l.stored
  | .restart => ∅

/-- The map, with the stored keys as a ghost. -/
def step (l : Ledger) (e : LifeEvent) : Output × Ledger :=
  ((l.pairs.lifeStep e).1, ⟨(l.pairs.lifeStep e).2, l.storedAfter e⟩)

/-- An exists call asks for an absent key or for one stored since the last initialisation. -/
def Remembers (l : Ledger) : LifeEvent → Prop
  | .call (.exists key) => (l.pairs.lookup key.1).isSome → key.1 ∈ l.stored
  | _ => True

/-- The ghost has no influence on the answers. -/
theorem answers_eq (l : Ledger) (es : List LifeEvent) :
    Machine.answers step l es = Machine.answers Dict.lifeStep l.pairs es := by
  refine Machine.answers_eq (R := fun (l : Ledger) m => l.pairs = m) ?_ rfl es
  rintro l _ e rfl
  exact ⟨rfl, rfl⟩

end Ledger

variable {δ : Type} {D : Driver δ} {contents : δ → Bytes → Option Bytes} {created : δ → Bool}
  {config : Config} {paths : List String}

/-- A restart keeps the map and empties the table. -/
theorem run_restart (hD : Faultless D contents created)
    (hpaths : kvEngineResolveDevicePaths config = .ok paths) {s : State δ} {σ : Shadow}
    (h : Represents contents paths s σ) :
    (run D (restart config) s).1 = .success ∧
      Represents contents paths (run D (restart config) s).2 ⟨σ.pairs, ∅⟩ := by
  obtain ⟨hssd, n, hheap⟩ := kvEngineCleanup_managed (D := D) config s
  simp only [restart, Prog.run_bind]
  generalize (run D (kvEngineCleanup config) s).2 = s' at hssd hheap ⊢
  have halloc : s'.AllocsSucceed := by
    intro m
    rw [hheap]
    exact h.serving.allocs (m + n)
  have hboot := kvEngineInit_booted hD hpaths halloc
  refine ⟨kvEngineInit_ok hD hpaths halloc, ?_⟩
  refine hboot.represents hD.toDocumented (paths_ne_nil hpaths) halloc fun key => ?_
  rw [(hssd _).contents_eq hD.toDocumented, ← State.lookup_eq contents (h.place key), h.lookup]

/-- The engine state represents the ledger: the table remembers exactly the present keys that
were stored since the last initialisation. -/
def Tracks (contents : δ → Bytes → Option Bytes) (paths : List String) (s : State δ) (l : Ledger) :
    Prop :=
  ∃ table, Represents contents paths s ⟨l.pairs, table⟩ ∧
    ∀ key, (l.pairs.lookup key).isSome → (key ∈ table ↔ key ∈ l.stored)

/-- The table and the stored keys move together on the keys that are present after a call. -/
theorem table_iff_stored {l : Ledger} {table : KeyTable}
    (h : ∀ key, (l.pairs.lookup key).isSome → (key ∈ table ↔ key ∈ l.stored)) (op : Op) (key : Bytes)
    (hkey : ((l.pairs.step op).2.lookup key).isSome) :
    key ∈ ((Shadow.mk l.pairs table).step op).2.table ↔ key ∈ l.storedAfter (.call op) := by
  -- A key that is present after an erasure is another key, present before.
  have herase {k : Bytes} (hk : ((l.pairs.erase k).lookup key).isSome) :
      key ≠ k ∧ (l.pairs.lookup key).isSome := by
    by_cases hne : key = k
    · subst hne
      simp [Finmap.lookup_erase] at hk
    · rw [Finmap.lookup_erase_ne hne] at hk
      exact ⟨hne, hk⟩
  cases op with
  | store k value overwrite =>
      simp only [Shadow.step, Ledger.storedAfter, Finset.mem_insert]
      by_cases hne : key = k.1
      · simp [hne]
      · have hbefore : (l.pairs.lookup key).isSome := by
          simp only [Dict.step, Dict.store] at hkey
          split at hkey
          · exact hkey
          · rwa [Finmap.lookup_insert_of_ne _ hne] at hkey
        simp [hne, h key hbefore]
  | retrieve k del =>
      cases del with
      | false => exact h key hkey
      | true =>
          obtain ⟨hne, hbefore⟩ := herase hkey
          simp only [Shadow.step, Ledger.storedAfter, Bool.true_and]
          rw [← h key hbefore]
          split
          · simp [hne]
          · rfl
  | delete k =>
      obtain ⟨hne, hbefore⟩ := herase hkey
      simp only [Shadow.step, Ledger.storedAfter, Finset.mem_erase]
      rw [← h key hbefore]
      simp [hne]
  | «exists» k => exact h key hkey

theorem Shadow.step_pairs (σ : Shadow) (op : Op) : (σ.step op).2.pairs = (σ.pairs.step op).2 := by
  cases op <;> rfl

theorem lifeStep_tracks (hD : Faultless D contents created)
    (hpaths : kvEngineResolveDevicePaths config = .ok paths) {s : State δ} {l : Ledger}
    (h : Tracks contents paths s l) (e : LifeEvent) :
    Tracks contents paths (lifeStep D config s e).2 (l.step e).2 := by
  obtain ⟨table, hrep, htable⟩ := h
  cases e with
  | call op =>
      obtain ⟨_, hnext⟩ := engineStep_represents hD hrep op
      refine ⟨((Shadow.mk l.pairs table).step op).2.table, ?_, table_iff_stored htable op⟩
      have hpairs : ((Shadow.mk l.pairs table).step op).2 =
          ⟨(l.pairs.step op).2, ((Shadow.mk l.pairs table).step op).2.table⟩ := by
        rw [← (Shadow.mk l.pairs table).step_pairs op]
      rw [hpairs] at hnext
      exact hnext
  | restart =>
      obtain ⟨_, hnext⟩ := run_restart hD hpaths hrep
      exact ⟨∅, hnext, fun key _ => by simp [Ledger.step, Ledger.storedAfter]⟩

/-- On related states the answers agree exactly when the ledger remembers. -/
theorem lifeStep_answer_iff (hD : Faultless D contents created)
    (hpaths : kvEngineResolveDevicePaths config = .ok paths) {s : State δ} {l : Ledger}
    (h : Tracks contents paths s l) (e : LifeEvent) :
    (lifeStep D config s e).1 = (l.step e).1 ↔ l.Remembers e := by
  obtain ⟨table, hrep, htable⟩ := h
  cases e with
  | call op =>
      have hans : (lifeStep D config s (.call op)).1 = ((Shadow.mk l.pairs table).step op).1 :=
        (engineStep_represents hD hrep op).1
      rw [hans]
      cases op with
      | «exists» key =>
          simp only [Shadow.step, Ledger.step, Dict.lifeStep, Dict.step, Ledger.Remembers,
            Output.mk.injEq, true_and, Option.some.injEq]
          cases hkey : (l.pairs.lookup key.1).isSome with
          | false => simp
          | true => simp [htable _ hkey]
      | store key value overwrite => simp [Shadow.step, Ledger.step, Dict.lifeStep, Dict.step,
          Ledger.Remembers]
      | retrieve key del => simp [Shadow.step, Ledger.step, Dict.lifeStep, Dict.step,
          Ledger.Remembers]
      | delete key => simp [Shadow.step, Ledger.step, Dict.lifeStep, Dict.step, Ledger.Remembers]
  | restart =>
      simp [lifeStep, Ledger.step, Dict.lifeStep, Ledger.Remembers, (run_restart hD hpaths hrep).1]

/-- **Restarts are transparent to everything but `kv_engine_exists`.**  An engine initialised
on devices that hold `m` answers a history of calls and restarts as one surviving map does, if
and only if every exists call asks for a key that is absent or was stored since the last
initialisation. -/
theorem restart_transparent_iff (hD : Faultless D contents created)
    (hpaths : kvEngineResolveDevicePaths config = .ok paths) {s₀ : State δ}
    (halloc : s₀.AllocsSucceed) {m : Dict}
    (hm : ∀ key, contents (s₀.ssd (placeOn paths key)) key = m.lookup key) (es : List LifeEvent) :
    Machine.answers (lifeStep D config) (run D (kvEngineInit config) s₀).2 es =
        Machine.answers Dict.lifeStep m es ↔
      Machine.Always Ledger.Remembers Ledger.step ⟨m, ∅⟩ es := by
  have hboot := kvEngineInit_booted hD hpaths halloc
  have hrep := hboot.represents hD.toDocumented (paths_ne_nil hpaths) halloc hm
  rw [← Ledger.answers_eq ⟨m, ∅⟩ es]
  refine Machine.answers_eq_iff (R := Tracks contents paths)
    (fun s l e h => lifeStep_tracks hD hpaths h e)
    (fun s l e h => lifeStep_answer_iff hD hpaths h e) ⟨∅, hrep, ?_⟩ es
  exact fun key _ => Iff.rfl

/-- A history that meets the condition: the key is stored again after the restart. -/
theorem restart_transparent_iff_stored_again :
    Machine.answers (lifeStep keySpaceDriver twoDevices)
        (run keySpaceDriver (kvEngineInit twoDevices) (.blank fun _ => .empty)).2
        [.call (.store someKey someValue false), .restart, .call (.retrieve someKey false),
          .call (.store someKey someValue true), .call (.exists someKey)] =
      [⟨.success, none, none⟩, ⟨.success, none, none⟩, ⟨.success, some ([118, 49], 2), none⟩,
        ⟨.success, none, none⟩, ⟨.success, none, some true⟩] := by
  refine ((restart_transparent_iff keySpaceDriver_faultless twoDevices_paths (fun _ => rfl)
    (m := ∅) (fun _ => rfl) _).mpr ?_).trans (by decide)
  simp [Machine.Always, Ledger.Remembers, Ledger.step, Ledger.storedAfter]

/-- After a restart `kv_engine_exists` denies a key that `kv_engine_retrieve` still returns. -/
theorem restart_hides_stored_key :
    Machine.answers (lifeStep keySpaceDriver twoDevices)
        (run keySpaceDriver (kvEngineInit twoDevices) (.blank fun _ => .empty)).2
        [.call (.store someKey someValue false), .restart, .call (.exists someKey),
          .call (.retrieve someKey false)] =
      [⟨.success, none, none⟩, ⟨.success, none, none⟩, ⟨.success, none, some false⟩,
        ⟨.success, some ([118, 49], 2), none⟩] ∧
    Machine.answers Dict.lifeStep ∅
        [.call (.store someKey someValue false), .restart, .call (.exists someKey),
          .call (.retrieve someKey false)] =
      [⟨.success, none, none⟩, ⟨.success, none, none⟩, ⟨.success, none, some true⟩,
        ⟨.success, some ([118, 49], 2), none⟩] := by
  decide +kernel

end KvEngine
