/-
Finite runs of a partial step function.  A step is `none` when the modelled
code has undefined behaviour there, so "the run is defined" is a safety fact.

An admission condition is read in the state before each step.  The rules below
are the only inductions over runs: what an admitted step keeps, an admitted run
keeps in every state it reaches.
-/

import Mathlib.Data.List.Infix

namespace Purple.PartialRun

variable {State Action : Type*}

def run (step : State → Action → Option State) : State → List Action → Option State
  | state, [] => some state
  | state, action :: rest => (step state action).bind fun next => run step next rest

def Admitted (step : State → Action → Option State) (admits : State → Action → Prop) :
    State → List Action → Prop
  | _, [] => True
  | state, action :: rest =>
    admits state action ∧ ∀ next, step state action = some next → Admitted step admits next rest

variable {step : State → Action → Option State} {admits : State → Action → Prop}

variable {state : State} {actions : List Action}

@[simp] theorem run_nil (state : State) : run step state [] = some state := rfl

theorem run_cons (state : State) (action : Action) (rest : List Action) :
    run step state (action :: rest) =
      (step state action).bind fun next => run step next rest := rfl

theorem run_append (state : State) (first second : List Action) :
    run step state (first ++ second) =
      (run step state first).bind fun middle => run step middle second := by
  induction first generalizing state with
  | nil => rfl
  | cons action rest ih =>
    simp only [List.cons_append, run_cons]
    cases step state action with
    | none => rfl
    | some next => exact ih next

theorem admitted_of_prefix {first whole : List Action} (initial : first <+: whole)
    (admitted : Admitted step admits state whole) : Admitted step admits state first := by
  induction first generalizing state whole with
  | nil => trivial
  | cons action rest ih =>
    obtain ⟨after, rfl⟩ := initial
    exact ⟨admitted.1, fun next stepped =>
      ih (List.prefix_append rest after) (admitted.2 next stepped)⟩

theorem admitted_of_forall (holds : ∀ action ∈ actions, ∀ state, admits state action) :
    Admitted step admits state actions := by
  induction actions generalizing state with
  | nil => trivial
  | cons action rest ih =>
    exact ⟨holds action List.mem_cons_self state, fun _ _ =>
      ih fun other member => holds other (List.mem_cons_of_mem _ member)⟩

theorem admitted_always (actions : List Action) :
    Admitted step (fun _ _ => True) state actions := by
  induction actions generalizing state with
  | nil => trivial
  | cons action rest ih => exact ⟨trivial, fun _ _ => ih⟩

/-- An invariant that every admitted step reaches a successor of holds, and the
run is defined, after every prefix of an admitted run. -/
theorem reached (invariant : State → Prop)
    (preserved : ∀ state action, invariant state → admits state action →
      ∃ next, step state action = some next ∧ invariant next) (start : invariant state)
    (admitted : Admitted step admits state actions) {done : List Action}
    (initial : done <+: actions) : ∃ last, run step state done = some last ∧ invariant last := by
  have reachedAdmitted := admitted_of_prefix initial admitted
  clear admitted initial
  induction done generalizing state with
  | nil => exact ⟨state, rfl, start⟩
  | cons action rest ih =>
    obtain ⟨next, stepped, kept⟩ := preserved state action start reachedAdmitted.1
    obtain ⟨last, ran, holds⟩ := ih kept (reachedAdmitted.2 next stepped)
    exact ⟨last, by rw [run_cons, stepped]; exact ran, holds⟩

theorem reached_of_run (invariant : State → Prop)
    (preserved : ∀ state action next, invariant state → admits state action →
      step state action = some next → invariant next) {last : State} (start : invariant state)
    (admitted : Admitted step admits state actions) (ran : run step state actions = some last) :
    invariant last := by
  induction actions generalizing state with
  | nil =>
    cases ran
    exact start
  | cons action rest ih =>
    obtain ⟨next, stepped, ran⟩ := Option.bind_eq_some_iff.mp ran
    exact ih (preserved state action next start admitted.1 stepped) (admitted.2 next stepped) ran

/-- A run is defined exactly when every step of it is admitted, if a step is. -/
theorem run_isSome_iff (steps : ∀ state action, (step state action).isSome ↔ admits state action) :
    (run step state actions).isSome ↔ Admitted step admits state actions := by
  induction actions generalizing state with
  | nil => exact iff_of_true rfl trivial
  | cons action rest ih =>
    rw [run_cons, Admitted, ← steps]
    cases stepped : step state action with
    | none => exact iff_of_false Bool.false_ne_true fun both => Bool.false_ne_true both.1
    | some next =>
      rw [Option.bind_some, ih]
      exact ⟨fun later => ⟨rfl, fun _ same => Option.some_inj.mp same ▸ later⟩,
        fun both => both.2 next rfl⟩

end Purple.PartialRun
