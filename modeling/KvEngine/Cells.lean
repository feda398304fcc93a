import Mathlib.Logic.Function.Basic
import Mathlib.Logic.Function.Conjugate
import Mathlib.Tactic.Common

/-! # Scripts of effects on cells

A state is a family of cells: the cell `c : ι` holds a value of type `β c`.  An `Effect`
changes the value of one cell.  Effects on different cells commute, and so do effects on one
cell whose functions commute.

A script is a list of effects.  Any number of threads each have a script that they still have
to perform; `Effect.total` is the state that results when the threads perform all that is left,
one thread after another.  If the effects of different threads commute, it does not matter that
they in fact take turns: when a thread performs the beginning of its script, the total stays the
same (`total_perform`).  So the state in which all scripts are done is the same for every
interleaving. -/

namespace Cells

variable {ι κ : Type} [DecidableEq ι] {β : ι → Type}

/-- A change of one cell. -/
structure Effect (β : ι → Type) where
  cell : ι
  fn : β cell → β cell

namespace Effect

/-- The state after an effect. -/
def apply (e : Effect β) (o : (c : ι) → β c) : (c : ι) → β c :=
  Function.update o e.cell (e.fn (o e.cell))

/-- A state that differs in one cell only. -/
theorem eq_apply {e : Effect β} {o o' : (c : ι) → β c} (hcell : o' e.cell = e.fn (o e.cell))
    (hrest : ∀ c, c ≠ e.cell → o' c = o c) : o' = e.apply o := by
  funext c
  by_cases hc : c = e.cell
  · subst hc
    rw [apply, Function.update_self, hcell]
  · rw [apply, Function.update_of_ne hc, hrest c hc]

/-- The order of the two effects makes no difference. -/
def Commutes (e f : Effect β) : Prop := Function.Commute e.apply f.apply

theorem commutes_of_ne {e f : Effect β} (h : e.cell ≠ f.cell) : e.Commutes f := by
  intro o
  simp only [apply]
  rw [Function.update_of_ne h, Function.update_of_ne h.symm, Function.update_comm h]

theorem commutes_of_fn {c : ι} {f g : β c → β c} (h : Function.Commute f g) :
    Commutes (⟨c, f⟩ : Effect β) ⟨c, g⟩ := by
  intro o
  simp only [apply, Function.update_self, Function.update_idem]
  rw [h (o c)]

/-! ### Scripts -/

/-- The state after a script. -/
def perform (es : List (Effect β)) (o : (c : ι) → β c) : (c : ι) → β c :=
  es.foldl (fun o e => e.apply o) o

@[simp] theorem perform_nil (o : (c : ι) → β c) : perform [] o = o := rfl

@[simp] theorem perform_cons (e : Effect β) (es : List (Effect β)) (o : (c : ι) → β c) :
    perform (e :: es) o = perform es (e.apply o) := rfl

theorem perform_append (es fs : List (Effect β)) (o : (c : ι) → β c) :
    perform (es ++ fs) o = perform fs (perform es o) := List.foldl_append

/-- A script leaves the cells alone that none of its effects is about. -/
theorem perform_of_ne {es : List (Effect β)} {c : ι} (h : ∀ e ∈ es, e.cell ≠ c)
    (o : (c : ι) → β c) : perform es o c = o c := by
  induction es generalizing o with
  | nil => rfl
  | cons e es ih =>
      rw [perform_cons, ih fun f hf => h f (List.mem_cons_of_mem e hf)]
      exact Function.update_of_ne (h e List.mem_cons_self).symm _ _

/-- What a script leaves in a cell depends on that cell only. -/
theorem perform_at {o o' : (c : ι) → β c} {c : ι} (h : o c = o' c) (es : List (Effect β)) :
    perform es o c = perform es o' c := by
  induction es generalizing o o' with
  | nil => exact h
  | cons e es ih =>
      refine ih ?_
      by_cases hc : c = e.cell
      · subst hc
        simp only [apply, Function.update_self, h]
      · simp only [apply, Function.update_of_ne hc, h]

theorem apply_perform {e : Effect β} {es : List (Effect β)} (h : ∀ f ∈ es, e.Commutes f)
    (o : (c : ι) → β c) : e.apply (perform es o) = perform es (e.apply o) := by
  induction es generalizing o with
  | nil => rfl
  | cons f es ih =>
      have hswap : e.apply (f.apply o) = f.apply (e.apply o) := h f List.mem_cons_self o
      rw [perform_cons, perform_cons, ih fun g hg => h g (List.mem_cons_of_mem f hg), hswap]

theorem perform_comm {es fs : List (Effect β)} (h : ∀ e ∈ es, ∀ f ∈ fs, e.Commutes f)
    (o : (c : ι) → β c) : perform es (perform fs o) = perform fs (perform es o) := by
  induction es generalizing o with
  | nil => rfl
  | cons e es ih =>
      rw [perform_cons, perform_cons, apply_perform (h e List.mem_cons_self),
        ih fun g hg => h g (List.mem_cons_of_mem e hg)]

/-! ### The scripts of several threads -/

/-- The state after the scripts of all threads, one after another. -/
def total (threads : List κ) (todo : κ → List (Effect β)) (o : (c : ι) → β c) : (c : ι) → β c :=
  threads.foldl (fun o i => perform (todo i) o) o

@[simp] theorem total_cons (i : κ) (threads : List κ) (todo : κ → List (Effect β))
    (o : (c : ι) → β c) : total (i :: threads) todo o = total threads todo (perform (todo i) o) :=
  rfl

theorem total_congr {threads : List κ} {todo todo' : κ → List (Effect β)}
    (h : ∀ i ∈ threads, todo i = todo' i) (o : (c : ι) → β c) :
    total threads todo o = total threads todo' o := by
  induction threads generalizing o with
  | nil => rfl
  | cons i threads ih =>
      rw [total_cons, total_cons, h i List.mem_cons_self,
        ih fun j hj => h j (List.mem_cons_of_mem i hj)]

theorem total_of_ne {threads : List κ} {todo : κ → List (Effect β)} {c : ι}
    (h : ∀ i ∈ threads, ∀ e ∈ todo i, e.cell ≠ c) (o : (c : ι) → β c) :
    total threads todo o c = o c := by
  induction threads generalizing o with
  | nil => rfl
  | cons i threads ih =>
      rw [total_cons, ih fun j hj => h j (List.mem_cons_of_mem i hj),
        perform_of_ne (h i List.mem_cons_self)]

theorem total_of_done {threads : List κ} {todo : κ → List (Effect β)}
    (h : ∀ i ∈ threads, todo i = []) (o : (c : ι) → β c) : total threads todo o = o := by
  induction threads with
  | nil => rfl
  | cons i threads ih =>
      rw [total_cons, h i List.mem_cons_self, perform_nil,
        ih fun j hj => h j (List.mem_cons_of_mem i hj)]

/-- A cell that only one thread changes holds what the script of that thread leaves in it. -/
theorem total_at [DecidableEq κ] {threads : List κ} (hnodup : threads.Nodup)
    {todo : κ → List (Effect β)} {i : κ} (hi : i ∈ threads) {c : ι}
    (hothers : ∀ j ∈ threads, j ≠ i → ∀ e ∈ todo j, e.cell ≠ c) (o : (c : ι) → β c) :
    total threads todo o c = perform (todo i) o c := by
  induction threads generalizing o with
  | nil => cases hi
  | cons j threads ih =>
      obtain ⟨hj, hnodup⟩ := List.nodup_cons.mp hnodup
      rw [total_cons]
      by_cases hji : j = i
      · subst hji
        have hrest : ∀ k ∈ threads, ∀ e ∈ todo k, e.cell ≠ c := by
          intro k hk
          refine hothers k (List.mem_cons_of_mem j hk) ?_
          rintro rfl
          exact hj hk
        exact total_of_ne hrest _
      · rw [ih hnodup ((List.mem_cons.mp hi).resolve_left (Ne.symm hji))
          fun k hk => hothers k (List.mem_cons_of_mem j hk)]
        exact perform_at (perform_of_ne (hothers j List.mem_cons_self hji) o) _

/-- A thread that performs the beginning of its script does not change the total. -/
theorem total_perform [DecidableEq κ] {threads : List κ} (hnodup : threads.Nodup)
    {todo : κ → List (Effect β)}
    {i : κ} (hi : i ∈ threads) {es rest : List (Effect β)} (htodo : todo i = es ++ rest)
    (hcomm : ∀ j ∈ threads, j ≠ i → ∀ e ∈ es, ∀ f ∈ todo j, e.Commutes f) (o : (c : ι) → β c) :
    total threads (Function.update todo i rest) (perform es o) = total threads todo o := by
  induction threads generalizing o with
  | nil => cases hi
  | cons j threads ih =>
      obtain ⟨hj, hnodup⟩ := List.nodup_cons.mp hnodup
      rw [total_cons, total_cons]
      by_cases hji : j = i
      · -- it is the turn of the thread, and the scripts that follow are the same
        subst hji
        rw [Function.update_self, htodo, perform_append]
        refine total_congr (fun k hk => ?_) _
        have hkj : k ≠ j := by
          rintro rfl
          exact hj hk
        rw [Function.update_of_ne hkj]
      · have hswap : perform (todo j) (perform es o) = perform es (perform (todo j) o) :=
          (perform_comm (hcomm j List.mem_cons_self hji) o).symm
        rw [Function.update_of_ne hji, hswap]
        exact ih hnodup ((List.mem_cons.mp hi).resolve_left (Ne.symm hji))
          (fun k hk => hcomm k (List.mem_cons_of_mem j hk)) _

end Effect

end Cells
