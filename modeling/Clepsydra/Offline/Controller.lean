import Clepsydra.Offline.Sync

/-!
Owns: when the passes of `OfflineSyncController` run.
-/

namespace Clepsydra.Offline.Controller

open Library.Transitions Sync List Option

/-- A call of `runFullSync` or of `runDeltaSync`. -/
inductive Pass where
  | full
  | delta (window : Window)
deriving DecidableEq

structure State where
  running : Bool
  pendingFull : Bool
  pendingDelta : Option Window
  timer : Option Nat
  timerDueAt : Option Int
  disposed : Bool
  /-- The handles of the timers that `setTimeout` has armed. -/
  armed : List Nat
  /-- The next handle that `setTimeout` returns. -/
  fresh : Nat
  /-- The passes that are awaited. -/
  passes : List Pass

def State.initial : State where
  running := false
  pendingFull := false
  pendingDelta := none
  timer := none
  timerDueAt := none
  disposed := false
  armed := []
  fresh := 1
  passes := []

/-- `DELTA_COALESCE_MS`. -/
def deltaCoalesceMs : Int := 2000

def State.clearTimeout (state : State) (handle : Nat) : State :=
  { state with armed := state.armed.erase handle }

def State.arm (state : State) (dueAt : Int) : State := { state with
    timerDueAt := some dueAt
    timer := some state.fresh
    armed := state.fresh :: state.armed
    fresh := state.fresh + 1 }

def State.schedule (state : State) (now delay : Int) : State :=
  if state.disposed then state
  else
    match state.timer with
    | none => state.arm (now + delay)
    | some handle =>
      if state.timerDueAt.any fun due => due ≤ now + delay then state
      else { state.clearTimeout handle with timer := none }.arm (now + delay)

def State.requestFull (state : State) (now : Int) : State :=
  { state with pendingFull := true }.schedule now 0

def State.requestDelta (state : State) (now : Int) (upserted removed : List String) : State :=
  let window := state.pendingDelta.getD ⟨[], []⟩
  { state with
    pendingDelta := some ⟨insertAll window.upserted upserted, insertAll window.removed removed⟩
  }.schedule now deltaCoalesceMs

def State.dispose (state : State) : State := { state.timer.elim state state.clearTimeout with
    disposed := true
    timer := none
    timerDueAt := none }

/-- The loop of `drain`, up to the next `await` or to its end. -/
def State.proceed (state : State) : State :=
  if state.disposed then { state with running := false }
  else if state.pendingFull then
    { state with pendingFull := false, pendingDelta := none, passes := .full :: state.passes }
  else
    match state.pendingDelta with
    | some window => { state with pendingDelta := none, passes := .delta window :: state.passes }
    | none => { state with running := false }

def State.drain (state : State) : State :=
  if state.running || state.disposed then state else { state with running := true }.proceed

inductive Event where
  | requestFull (now : Int)
  | requestDelta (now : Int) (upserted removed : List String)
  | fire (handle : Nat)
  | resolve (pass : Pass)
  | reject (pass : Pass)
  | dispose

/-- One event. A timer fires when it is armed, and a pass ends when it is awaited. -/
def step (state : State) : Event → Option State
  | .requestFull now => some (state.requestFull now)
  | .requestDelta now upserted removed => some (state.requestDelta now upserted removed)
  | .fire handle =>
    if handle ∈ state.armed then
      some { state.clearTimeout handle with timer := none, timerDueAt := none }.drain
    else none
  | .resolve pass =>
    if pass ∈ state.passes then
      some { state with passes := state.passes.erase pass }.proceed
    else none
  | .reject pass =>
    if pass ∈ state.passes then
      some { state with passes := state.passes.erase pass, running := false }
    else none
  | .dispose => some state.dispose

def State.Waits (state : State) : Prop := state.pendingFull = true ∨ state.pendingDelta ≠ none

/-- A request waits, and nothing will take it up. -/
def State.Stranded (state : State) : Prop :=
  state.disposed = false ∧ state.passes = [] ∧ state.armed = [] ∧ state.Waits

/-- No pass rejects while a request waits whose timer has fired. -/
def Careful (state : State) : Event → Prop
  | .reject pass =>
    pass ∈ state.passes → state.disposed = true ∨ state.armed ≠ [] ∨ ¬state.Waits
  | _ => True

/-! ### One event -/

variable {state next : State}

/-- The fields are true to the environment. -/
structure State.Sound (state : State) : Prop where
  timer : state.armed = state.timer.toList
  passes : state.passes.length = state.running.toNat

theorem sound_initial : State.initial.Sound := ⟨rfl, rfl⟩

theorem armed_erase (sound : state.Sound) {handle : Nat} (armed : state.timer = some handle) :
    state.armed.erase handle = [] := by
  rw [sound.timer, armed]
  simp

/-- After a request a timer is armed, if the controller is not disposed. -/
theorem schedule_spec (sound : state.Sound) {now delay : Int} :
    (state.schedule now delay).Sound ∧ ¬(state.schedule now delay).Stranded := by
  have armed := sound.timer
  unfold State.schedule
  split
  next ended =>
    refine ⟨sound, fun stranded => ?_⟩
    exact absurd ended (by rw [stranded.1]; exact Bool.false_ne_true)
  · split
    next absent =>
      rw [absent] at armed
      refine ⟨⟨by simp [State.arm, armed], sound.passes⟩, fun stranded => ?_⟩
      exact cons_ne_nil _ _ stranded.2.2.1
    next handle present =>
      split
      · refine ⟨sound, fun stranded => ?_⟩
        rw [stranded.2.2.1, present] at armed
        exact cons_ne_nil _ _ armed.symm
      · have cleared := armed_erase sound present
        refine ⟨⟨by simp [State.arm, State.clearTimeout, cleared], sound.passes⟩, ?_⟩
        exact fun stranded => cons_ne_nil _ _ stranded.2.2.1

theorem sound_proceed (timer : state.armed = state.timer.toList) (passes : state.passes = [])
    (running : state.running = true) : state.proceed.Sound := by
  unfold State.proceed
  split_ifs
  · exact ⟨timer, by simp [passes]⟩
  · exact ⟨timer, by simp [passes, running]⟩
  · split
    · exact ⟨timer, by simp [passes, running]⟩
    · exact ⟨timer, by simp [passes]⟩

theorem not_stranded_proceed : ¬state.proceed.Stranded := by
  unfold State.proceed
  split_ifs with ended full
  · exact fun stranded => absurd ended (by rw [stranded.1]; exact Bool.false_ne_true)
  · exact fun stranded => cons_ne_nil _ _ stranded.2.1
  · split
    next => exact fun stranded => cons_ne_nil _ _ stranded.2.1
    next absent =>
      rintro ⟨-, -, -, waits | waits⟩
      · exact full waits
      · exact waits absent

theorem drain_spec (sound : state.Sound) : state.drain.Sound ∧ ¬state.drain.Stranded := by
  have awaited := sound.passes
  unfold State.drain
  split
  next occupied =>
    refine ⟨sound, fun stranded => ?_⟩
    rw [stranded.2.1] at awaited
    rw [Bool.toNat_eq_zero.1 awaited.symm, stranded.1] at occupied
    contradiction
  next vacant =>
    rw [Bool.or_eq_true, not_or, Bool.not_eq_true] at vacant
    rw [vacant.1] at awaited
    exact ⟨sound_proceed sound.timer (length_eq_zero_iff.1 awaited) rfl, not_stranded_proceed⟩

theorem awaited_only (sound : state.Sound) {pass : Pass} (awaited : pass ∈ state.passes) :
    state.passes.erase pass = [] ∧ state.running = true := by
  have one := sound.passes
  have some := length_pos_of_mem awaited
  have atMost := Bool.toNat_le state.running
  refine ⟨?_, ?_⟩
  · apply length_eq_zero_iff.1
    rw [length_erase_of_mem awaited]
    omega
  · rw [← Bool.toNat_eq_one]
    omega

theorem careful_of_impossible {event : Event} (steps : step state event = none) :
    Careful state event := by
  cases event with
  | reject pass =>
    intro awaited
    rw [step, if_pos awaited] at steps
    contradiction
  | _ => trivial

/-- What an event keeps, and when it leaves a request stranded. -/
theorem step_cases {event : Event} (sound : state.Sound) (steps : step state event = some next) :
    next.Sound ∧ (¬next.Stranded ↔ Careful state event) := by
  cases event with
  | requestFull now =>
    rw [← some.inj steps]
    have spec := @schedule_spec { state with pendingFull := true } ⟨sound.timer, sound.passes⟩ now 0
    exact ⟨spec.1, iff_of_true spec.2 trivial⟩
  | requestDelta now upserted removed =>
    rw [← some.inj steps]
    unfold State.requestDelta
    have spec := fun window => @schedule_spec { state with pendingDelta := some window }
      ⟨sound.timer, sound.passes⟩ now deltaCoalesceMs
    exact ⟨(spec _).1, iff_of_true (spec _).2 trivial⟩
  | fire handle =>
    have ⟨armed, fired⟩ := ite_none_right_eq_some.1 steps
    rw [← some.inj fired]
    rw [sound.timer] at armed
    have spec := @drain_spec { state.clearTimeout handle with timer := none, timerDueAt := none }
      ⟨armed_erase sound (mem_toList.1 armed), sound.passes⟩
    exact ⟨spec.1, iff_of_true spec.2 trivial⟩
  | resolve pass =>
    have ⟨awaited, resolved⟩ := ite_none_right_eq_some.1 steps
    have ⟨only, running⟩ := awaited_only sound awaited
    rw [← some.inj resolved]
    exact ⟨sound_proceed sound.timer only running, iff_of_true not_stranded_proceed trivial⟩
  | reject pass =>
    have ⟨awaited, rejected⟩ := ite_none_right_eq_some.1 steps
    obtain ⟨only, -⟩ := awaited_only sound awaited
    rw [← some.inj rejected]
    refine ⟨⟨sound.timer, by simp [only]⟩, ?_⟩
    simp only [State.Stranded, Careful, awaited, only, true_implies, true_and, State.Waits]
    rw [not_and_or, not_and_or, Bool.not_eq_false]
  | dispose =>
    rw [← some.inj steps]
    refine ⟨?_, iff_of_true (fun stranded => Bool.false_ne_true stranded.1.symm) trivial⟩
    unfold State.dispose
    cases armed : state.timer with
    | none => exact ⟨by rw [elim_none, sound.timer, armed], sound.passes⟩
    | some handle => exact ⟨armed_erase sound armed, sound.passes⟩

/-! ### Runs -/

/-- No request is stranded in any state that the events reach exactly when every event is careful. -/
theorem free_iff_throughout {events : List Event} (sound : state.Sound) (free : ¬state.Stranded) :
    (∀ before reached, before <+: events → run step state before = some reached →
      ¬reached.Stranded) ↔ Throughout step Careful state events := by
  induction events generalizing state with
  | nil =>
    refine iff_of_true (fun before reached begins runs => ?_) trivial
    rw [prefix_nil.1 begins] at runs
    rw [← some.inj runs]
    exact free
  | cons event rest ih =>
    constructor
    · intro always
      have careful : Careful state event := by
        cases steps : step state event with
        | none => exact careful_of_impossible steps
        | some next =>
          apply (step_cases sound steps).2.1
          apply always [event] next (prefix_append [event] rest)
          rw [run, steps]
          rfl
      refine ⟨careful, fun next steps => ?_⟩
      obtain ⟨kept, free⟩ := step_cases sound steps
      apply (ih kept (free.2 careful)).1
      intro before reached begins runs
      apply always (event :: before) reached ((prefix_cons_inj event).2 begins)
      rw [run, steps]
      exact runs
    · rintro ⟨careful, afterwards⟩ before reached begins runs
      cases before with
      | nil =>
        rw [← some.inj runs]
        exact free
      | cons first others =>
        obtain ⟨rfl, continues⟩ := cons_prefix_cons.1 begins
        obtain ⟨next, steps, runsOn⟩ := run_cons runs
        obtain ⟨kept, free⟩ := step_cases sound steps
        exact (ih kept (free.2 careful)).2 (afterwards next steps) others reached continues runsOn

/-- **One pass runs at a time, and no request is stranded exactly when no pass rejects while one
waits whose timer has fired.** -/
theorem strands_no_request_iff (events : List Event) :
    (∀ state, run step State.initial events = some state → state.passes.length ≤ 1) ∧
    ((∀ before state, before <+: events → run step State.initial before = some state →
      ¬state.Stranded) ↔ Throughout step Careful State.initial events) := by
  have free : ¬State.initial.Stranded := by
    rintro ⟨-, -, -, waits | waits⟩
    · exact Bool.false_ne_true waits
    · exact waits rfl
  refine ⟨fun state runs => ?_, free_iff_throughout sound_initial free⟩
  have sound : state.Sound :=
    invariant_of_run (fun current event next sound steps => (step_cases sound steps).1) sound_initial
      runs
  rw [sound.passes]
  exact Bool.toNat_le state.running

/-- A delta whose timer fires during a full pass is stranded when the pass rejects. -/
theorem strands_delta : ∃ state, run step State.initial
      [.requestFull 0, .fire 1, .requestDelta 10 ["a.md"] [], .fire 2, .reject .full] = some state ∧
      state.Stranded :=
  ⟨_, rfl, rfl, rfl, rfl, Or.inr (some_ne_none _)⟩

end Clepsydra.Offline.Controller
