import Mathlib

/-!
Owns: programs made of primitive steps on a shared state, run under a script of faults, which may
let a step proceed, make it fail, or stop the run; and triples of every outcome.

A run without faults is the run under the empty script.
-/

namespace Clepsydra.Library.Faulty

open List

inductive Fault (φ : Type) where
  | proceed
  | fail (detail : φ)
  | crash
deriving DecidableEq

inductive Outcome (ε α : Type) where
  | ok (value : α)
  | error (failure : ε)
  | crashed
deriving DecidableEq

def Outcome.isOk {ε α : Type} : Outcome ε α → Bool
  | .ok _ => true
  | .error _ => false
  | .crashed => false

/-- Its outcome, the unused script, the state, and the states around each performed step. -/
structure Run (φ σ ε α : Type) where
  outcome : Outcome ε α
  script : List (Fault φ)
  state : σ
  trace : List (σ × σ)

/-- The script may still stop the run after its last step, before it returns. -/
def Run.returned {φ σ ε α : Type} (run : Run φ σ ε α) : Outcome ε α :=
  match run.script with
  | .crash :: _ => .crashed
  | _ => run.outcome

def Program (φ σ ε α : Type) := List (Fault φ) → σ → Run φ σ ε α

namespace Program

variable {φ σ ε α β : Type}

def done (value : α) : Program φ σ ε α := fun script state => ⟨.ok value, script, state, []⟩

def fail (failure : ε) : Program φ σ ε α := fun script state => ⟨.error failure, script, state, []⟩

def halt : Program φ σ ε α := fun script state => ⟨.crashed, script, state, []⟩

def observe (read : σ → α) : Program φ σ ε α :=
  fun script state => ⟨.ok (read state), script, state, []⟩

def branch (choose : σ → Program φ σ ε α) : Program φ σ ε α :=
  fun script state => choose state script state

def andThen (first : Program φ σ ε α) (next : α → Program φ σ ε β) : Program φ σ ε β :=
  fun script state =>
    let run := first script state
    match run.outcome with
    | .ok value =>
      let rest := next value run.script run.state
      ⟨rest.outcome, rest.script, rest.state, run.trace ++ rest.trace⟩
    | .error failure => ⟨.error failure, run.script, run.state, run.trace⟩
    | .crashed => ⟨.crashed, run.script, run.state, run.trace⟩

def attempt (body : Program φ σ ε α) : Program φ σ ε (Except ε α) := fun script state =>
    let run := body script state
    match run.outcome with
    | .ok value => ⟨.ok (.ok value), run.script, run.state, run.trace⟩
    | .error failure => ⟨.ok (.error failure), run.script, run.state, run.trace⟩
    | .crashed => ⟨.crashed, run.script, run.state, run.trace⟩

def step (perform : σ → Except ε α × σ) (broken : φ → σ → ε × σ) : Program φ σ ε α :=
  fun script state =>
    match script with
    | .crash :: script => ⟨.crashed, script, state, []⟩
    | .fail detail :: script =>
      let after := broken detail state
      ⟨.error after.1, script, after.2, [(state, after.2)]⟩
    | _ =>
      let after := perform state
      match after.1 with
      | .ok value => ⟨.ok value, script.tail, after.2, [(state, after.2)]⟩
      | .error failure => ⟨.error failure, script.tail, after.2, [(state, after.2)]⟩

instance : Monad (Program φ σ ε) where
  pure := done
  bind := andThen

def forEach (body : β → Program φ σ ε Unit) : List β → Program φ σ ε Unit
  | [] => done ()
  | head :: tail => andThen (body head) fun _ => forEach body tail

def collect (body : β → Program φ σ ε (Option α)) : List β → Program φ σ ε (List α)
  | [] => done []
  | head :: tail =>
    andThen (body head) fun first =>
      andThen (collect body tail) fun rest => done (first.toList ++ rest)

theorem forEach_map {γ : Type} (body : β → Program φ σ ε Unit) (convert : γ → β) (items : List γ) :
    forEach body (items.map convert) = forEach (fun item => body (convert item)) items := by
  induction items with
  | nil => rfl
  | cons head tail ih => simp only [map_cons, forEach, ih]

@[simp] theorem pure_eq_done (value : α) : (pure value : Program φ σ ε α) = done value := rfl

@[simp] theorem bind_eq_andThen (first : Program φ σ ε α) (next : α → Program φ σ ε β) :
    first >>= next = andThen first next := rfl

end Program

/-! ### Triples -/

section Triples

variable {φ σ ε α β : Type}

def Run.Meets (run : Run φ σ ε α) (ok : α → σ → Prop) (error : ε → σ → Prop)
    (crashed : σ → Prop) : Prop :=
  match run.outcome with
  | .ok value => ok value run.state
  | .error failure => error failure run.state
  | .crashed => crashed run.state

/-- Every run from a state that meets `before` ends as required and performs only allowed steps. -/
def Triple (permits : Fault φ → Prop) (allowed : σ → σ → Prop) (before : σ → Prop)
    (program : Program φ σ ε α) (ok : α → σ → Prop) (error : ε → σ → Prop)
    (crashed : σ → Prop) : Prop :=
  ∀ script, (∀ fault ∈ script, permits fault) → ∀ state, before state →
    (program script state).Meets ok error crashed
      ∧ (∀ pair ∈ (program script state).trace, allowed pair.1 pair.2)
      ∧ ∀ fault ∈ (program script state).script, permits fault

variable {permits : Fault φ → Prop} {allowed : σ → σ → Prop} {before : σ → Prop}
  {error : ε → σ → Prop} {crashed : σ → Prop} {ok : α → σ → Prop}

theorem triple_done {value : α} (post : ∀ state, before state → ok value state) :
    Triple permits allowed before (Program.done value : Program φ σ ε α) ok error crashed :=
  fun _ permitted state pre =>
    ⟨post state pre, fun _ member => absurd member not_mem_nil, permitted⟩

theorem triple_fail {failure : ε} (post : ∀ state, before state → error failure state) :
    Triple permits allowed before (Program.fail failure : Program φ σ ε α) ok error crashed :=
  fun _ permitted state pre =>
    ⟨post state pre, fun _ member => absurd member not_mem_nil, permitted⟩

theorem triple_halt (post : ∀ state, before state → crashed state) :
    Triple permits allowed before (Program.halt : Program φ σ ε α) ok error crashed :=
  fun _ permitted state pre =>
    ⟨post state pre, fun _ member => absurd member not_mem_nil, permitted⟩

theorem triple_observe {read : σ → α} (post : ∀ state, before state → ok (read state) state) :
    Triple permits allowed before (Program.observe read : Program φ σ ε α) ok error crashed :=
  fun _ permitted state pre =>
    ⟨post state pre, fun _ member => absurd member not_mem_nil, permitted⟩

theorem triple_branch {choose : σ → Program φ σ ε α} (each : ∀ state, before state →
      Triple permits allowed (fun current => current = state) (choose state) ok error crashed) :
    Triple permits allowed before (Program.branch choose) ok error crashed :=
  fun script permitted state pre => each state pre script permitted state rfl

theorem triple_step {perform : σ → Except ε α × σ} {broken : φ → σ → ε × σ}
    (performed : ∀ state, before state → allowed state (perform state).2
        ∧ (∀ value, (perform state).1 = .ok value → ok value (perform state).2)
        ∧ ∀ failure, (perform state).1 = .error failure → error failure (perform state).2)
    (failed : ∀ detail state, permits (.fail detail) → before state →
      allowed state (broken detail state).2 ∧ error (broken detail state).1 (broken detail state).2)
    (stopped : ∀ state, permits .crash → before state → crashed state) :
    Triple permits allowed before (Program.step perform broken) ok error crashed := by
  intro script permitted state pre
  have proceeds : ∀ rest : List (Fault φ), (∀ fault ∈ rest, permits fault) →
      Run.Meets (match (perform state).1 with
          | .ok value => ⟨.ok value, rest, (perform state).2, [(state, (perform state).2)]⟩
          | .error failure =>
            ⟨.error failure, rest, (perform state).2, [(state, (perform state).2)]⟩ :
          Run φ σ ε α) ok error crashed
        ∧ (∀ pair ∈ (match (perform state).1 with
          | .ok value => ⟨.ok value, rest, (perform state).2, [(state, (perform state).2)]⟩
          | .error failure =>
            ⟨.error failure, rest, (perform state).2, [(state, (perform state).2)]⟩ :
          Run φ σ ε α).trace, allowed pair.1 pair.2)
        ∧ ∀ fault ∈ (match (perform state).1 with
          | .ok value => ⟨.ok value, rest, (perform state).2, [(state, (perform state).2)]⟩
          | .error failure =>
            ⟨.error failure, rest, (perform state).2, [(state, (perform state).2)]⟩ :
          Run φ σ ε α).script, permits fault := by
    intro rest restPermitted
    have ⟨keeps, succeeds, fails⟩ := performed state pre
    cases result : (perform state).1 with
    | ok value => exact ⟨succeeds value result, by simpa using keeps, restPermitted⟩
    | error failure => exact ⟨fails failure result, by simpa using keeps, restPermitted⟩
  cases script with
  | nil => exact proceeds [] permitted
  | cons fault script =>
    have restPermitted : ∀ other ∈ script, permits other :=
      fun other member => permitted other (mem_cons_of_mem _ member)
    have firstPermitted : permits fault := permitted fault mem_cons_self
    cases fault with
    | proceed => exact proceeds script restPermitted
    | fail detail =>
      have ⟨keeps, post⟩ := failed detail state firstPermitted pre
      exact ⟨post, by simpa [Program.step] using keeps, restPermitted⟩
    | crash =>
      exact ⟨stopped state firstPermitted pre, fun _ member => absurd member not_mem_nil,
        restPermitted⟩

theorem triple_andThen {first : Program φ σ ε α} {next : α → Program φ σ ε β}
    {between : α → σ → Prop} {ok : β → σ → Prop}
    (leading : Triple permits allowed before first between error crashed)
    (trailing : ∀ value, Triple permits allowed (between value) (next value) ok error crashed) :
    Triple permits allowed before (Program.andThen first next) ok error crashed := by
  intro script permitted state pre
  have ⟨meets, steps, left⟩ := leading script permitted state pre
  unfold Program.andThen
  unfold Run.Meets at meets ⊢
  cases result : (first script state).outcome with
  | ok value =>
    simp only [result] at meets ⊢
    have ⟨meetsRest, stepsRest, leftRest⟩ :=
      trailing value (first script state).script left (first script state).state meets
    refine ⟨meetsRest, fun pair member => ?_, leftRest⟩
    rcases mem_append.1 member with inFirst | inRest
    · exact steps pair inFirst
    · exact stepsRest pair inRest
  | error | crashed =>
    simp only [result] at meets ⊢
    exact ⟨meets, steps, left⟩

def handling (ok : α → σ → Prop) (handled : ε → σ → Prop) : Except ε α → σ → Prop
  | .ok value => ok value
  | .error failure => handled failure

theorem triple_attempt {body : Program φ σ ε α} {handled : ε → σ → Prop}
    (inner : Triple permits allowed before body ok handled crashed) :
    Triple permits allowed before (Program.attempt body) (handling ok handled) error crashed := by
  intro script permitted state pre
  have ⟨meets, steps, left⟩ := inner script permitted state pre
  unfold Program.attempt
  unfold Run.Meets at meets ⊢
  cases result : (body script state).outcome <;> simp only [result] at meets ⊢ <;>
    exact ⟨meets, steps, left⟩

variable {program : Program φ σ ε α}

theorem Triple.mono {ok' : α → σ → Prop} {before' : σ → Prop} {error' : ε → σ → Prop}
    {crashed' : σ → Prop} (triple : Triple permits allowed before program ok error crashed)
    (pre : ∀ state, before' state → before state)
    (succeeds : ∀ value state, ok value state → ok' value state)
    (fails : ∀ failure state, error failure state → error' failure state)
    (stops : ∀ state, crashed state → crashed' state) :
    Triple permits allowed before' program ok' error' crashed' := by
  intro script permitted state holds
  have ⟨meets, rest⟩ := triple script permitted state (pre state holds)
  refine ⟨?_, rest⟩
  unfold Run.Meets at meets ⊢
  cases result : (program script state).outcome <;> simp only [result] at meets ⊢
  · exact succeeds _ _ meets
  · exact fails _ _ meets
  · exact stops _ meets

theorem triple_forEach {body : β → Program φ σ ε Unit} {invariant : List β → σ → Prop}
    (each : ∀ head tail, Triple permits allowed (invariant (head :: tail)) (body head)
      (fun _ => invariant tail) error crashed) :
    ∀ items : List β,
      Triple permits allowed (invariant items) (Program.forEach body items) (fun _ => invariant [])
        error crashed
  | [] => triple_done fun _ holds => holds
  | head :: tail => triple_andThen (each head tail) fun _ => triple_forEach each tail

theorem triple_collect {body : β → Program φ σ ε (Option α)} {invariant : List β → σ → Prop}
    (each : ∀ head tail, Triple permits allowed (invariant (head :: tail)) (body head)
      (fun _ => invariant tail) error crashed) :
    ∀ items : List β,
      Triple permits allowed (invariant items) (Program.collect body items) (fun _ => invariant [])
        error crashed
  | [] => triple_done fun _ holds => holds
  | head :: tail =>
    triple_andThen (each head tail) fun _ =>
      triple_andThen (triple_collect each tail) fun _ => triple_done fun _ holds => holds

theorem Run.outcome_of_returned {run : Run φ σ ε α} {value : α} (returned : run.returned = .ok value) :
    run.outcome = .ok value := by
  unfold Run.returned at returned
  split at returned
  · cases returned
  · exact returned

theorem Triple.always {property : σ → Prop}
    (triple : Triple permits allowed before program ok (fun _ => property) property)
    (succeeds : ∀ value state, ok value state → property state) {state : σ} (pre : before state)
    {script : List (Fault φ)} (permitted : ∀ fault ∈ script, permits fault) :
    property (program script state).state := by
  have meets := (triple script permitted state pre).1
  unfold Run.Meets at meets
  cases result : (program script state).outcome with
  | ok value =>
    simp only [result] at meets
    exact succeeds value _ meets
  | error | crashed =>
    simp only [result] at meets
    exact meets

theorem Triple.ok_of_outcome (triple : Triple permits allowed before program ok error crashed)
    {state : σ} (pre : before state) {script : List (Fault φ)}
    (permitted : ∀ fault ∈ script, permits fault) {value : α}
    (result : (program script state).outcome = .ok value) :
    ok value (program script state).state := by
  have meets := (triple script permitted state pre).1
  unfold Run.Meets at meets
  simpa only [result] using meets

theorem Triple.succeeds
    (triple : Triple permits allowed before program ok (fun _ _ => False) (fun _ => False))
    {state : σ} (pre : before state) {script : List (Fault φ)}
    (permitted : ∀ fault ∈ script, permits fault) :
    ∃ value, (program script state).outcome = .ok value
      ∧ ok value (program script state).state := by
  have meets := (triple script permitted state pre).1
  unfold Run.Meets at meets
  cases result : (program script state).outcome with
  | ok value =>
    simp only [result] at meets
    exact ⟨value, rfl, meets⟩
  | error | crashed => simp only [result] at meets

end Triples

end Clepsydra.Library.Faulty
