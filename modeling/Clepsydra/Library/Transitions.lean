import Mathlib

/-!
Owns: systems that take one action after another, where an action may be impossible in a state:
runs, and the rule that what each step of a kind keeps holds at the end of each run of such steps.
-/

namespace Clepsydra.Library.Transitions

variable {σ α : Type}

def run (step : σ → α → Option σ) : σ → List α → Option σ
  | state, [] => some state
  | state, action :: rest => (step state action).bind fun next => run step next rest

def Throughout (step : σ → α → Option σ) (condition : σ → α → Prop) : σ → List α → Prop
  | _, [] => True
  | state, action :: rest =>
    condition state action ∧ ∀ next, step state action = some next →
      Throughout step condition next rest

/-- A decidable condition can be checked along a list of actions. -/
instance decidableThroughout (step : σ → α → Option σ) (condition : σ → α → Prop)
    [∀ state action, Decidable (condition state action)] :
    (state : σ) → (actions : List α) → Decidable (Throughout step condition state actions)
  | _, [] => isTrue trivial
  | state, action :: rest =>
    match stepped : step state action with
    | none =>
      decidable_of_iff (condition state action)
        ⟨fun holds => ⟨holds, fun _ steps => nomatch stepped.symm.trans steps⟩, And.left⟩
    | some next =>
      have := decidableThroughout step condition next rest
      decidable_of_iff (condition state action ∧ Throughout step condition next rest)
        ⟨fun holds => ⟨holds.1, fun _ steps =>
            Option.some.inj (stepped.symm.trans steps) ▸ holds.2⟩,
          fun holds => ⟨holds.1, holds.2 next stepped⟩⟩

section Runs

variable {step : σ → α → Option σ}

theorem run_cons {state final : σ} {action : α} {rest : List α}
    (runs : run step state (action :: rest) = some final) :
    ∃ next, step state action = some next ∧ run step next rest = some final := by
  simpa only [run, Option.bind_eq_some_iff] using runs

variable {condition : σ → α → Prop}

theorem throughout_append {first second : List α} :
    ∀ {state : σ}, Throughout step condition state first →
      (∀ next, run step state first = some next → Throughout step condition next second) →
      Throughout step condition state (first ++ second) := by
  induction first with
  | nil => exact fun _ holds => holds _ rfl
  | cons action rest ih =>
    intro state conditions holds
    refine ⟨conditions.1, fun next steps => ?_⟩
    apply ih (conditions.2 next steps)
    intro final runs
    apply holds
    simp only [run, steps, Option.bind_some]
    exact runs

/-- A condition throughout two lists of actions holds throughout the second. -/
theorem throughout_of_append {first second : List α} :
    ∀ {state next : σ}, Throughout step condition state (first ++ second) →
      run step state first = some next → Throughout step condition next second := by
  induction first with
  | nil =>
    intro state next holds runs
    rw [← Option.some.inj runs]
    exact holds
  | cons action rest ih =>
    intro state next holds runs
    have ⟨middle, steps, runsOn⟩ := run_cons runs
    exact ih (holds.2 middle steps) runsOn

theorem throughout_of_append_left {first second : List α} :
    ∀ {state : σ}, Throughout step condition state (first ++ second) →
      Throughout step condition state first := by
  induction first with
  | nil => exact fun _ => trivial
  | cons action rest ih =>
    intro state holds
    exact ⟨holds.1, fun next steps => ih (holds.2 next steps)⟩

variable {actions : List α}

theorem throughout_of_forall {condition : α → Prop} (holds : ∀ action ∈ actions, condition action) :
    ∀ {state : σ}, Throughout step (fun _ action => condition action) state actions := by
  induction actions with
  | nil => exact fun {_} => trivial
  | cons action rest ih =>
    intro state
    rw [List.forall_mem_cons] at holds
    exact ⟨holds.1, fun next _ => ih holds.2⟩

theorem throughout_mono {first second : σ → α → Prop}
    (implies : ∀ state action, first state action → second state action) :
    ∀ {state : σ}, Throughout step first state actions → Throughout step second state actions := by
  induction actions with
  | nil => exact fun _ => trivial
  | cons action rest ih =>
    intro state holds
    exact ⟨implies state action holds.1, fun next steps =>
      ih (holds.2 next steps)⟩

theorem throughout_and {first second : σ → α → Prop} :
    ∀ {state : σ}, Throughout step first state actions → Throughout step second state actions →
      Throughout step (fun current action => first current action ∧ second current action) state
        actions := by
  induction actions with
  | nil => exact fun _ _ => trivial
  | cons action rest ih =>
    intro state holdsFirst holdsSecond
    refine ⟨⟨holdsFirst.1, holdsSecond.1⟩, fun next steps => ?_⟩
    exact ih (holdsFirst.2 next steps) (holdsSecond.2 next steps)

theorem invariant_of_throughout {invariant : σ → Prop}
    (keeps : ∀ state action next, invariant state → condition state action →
      step state action = some next → invariant next) :
    ∀ {state final : σ}, invariant state → Throughout step condition state actions →
      run step state actions = some final → invariant final := by
  induction actions with
  | nil =>
    intro state final holds _ runs
    rw [← Option.some.inj runs]
    exact holds
  | cons action rest ih =>
    intro state final holds conditions runs
    have ⟨next, steps, runsOn⟩ := run_cons runs
    have kept := keeps state action next holds conditions.1 steps
    exact ih kept (conditions.2 next steps) runsOn

theorem invariant_of_run {invariant : σ → Prop}
    (keeps : ∀ state action next, invariant state → step state action = some next → invariant next)
    {state final : σ} (holds : invariant state) (runs : run step state actions = some final) :
    invariant final := by
  have always : ∀ {current : σ} {rest : List α}, Throughout step (fun _ _ => True) current rest := by
    intro current rest
    induction rest generalizing current with
    | nil => trivial
    | cons action rest ih => exact ⟨trivial, fun _ _ => ih⟩
  exact invariant_of_throughout (fun state action next holds _ => keeps state action next holds) holds
    always runs

end Runs

end Clepsydra.Library.Transitions
