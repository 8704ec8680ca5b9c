import Clepsydra.Bases.IndexedHistory

/-!
Owns: the burndown of a cycle, `get_cycle_burndown`.

Proves: the points are there exactly when a dated event is in the cycle and the scope, and each
counts the open tasks of its day. A date is the number of its day.
-/

namespace Clepsydra.Board.Burndown

open Bases Vault List Option

/-- The instants of the crate. A text is not read again where the year has not four digits. -/
structure Clock (Time : Type) [LinearOrder Time] where
  toRfc3339 : Time → String
  parse : String → Option Time
  dateNaive : Time → Int
  parse_toRfc3339 : ∀ instant other, parse (toRfc3339 instant) = some other → other = instant
  dateNaive_mono : ∀ instant other, instant ≤ other → dateNaive instant ≤ dateNaive other

/-- The cycle and the scope of a request. -/
structure Scope where
  cycle : String
  project : Option String
  unfiled : Bool
  knownProjects : List String

structure CycleBurndownPoint where
  date : Int
  remaining : Nat
deriving DecidableEq

section Histories

variable {Time : Type} [LinearOrder Time] (clock : Clock Time)

/-! ### Histories -/

def timestamp (event : TaskHistoryEvent) : WithBot Time := clock.parse event.moment

def Earlier (event other : TaskHistoryEvent) : Prop := timestamp clock event ≤ timestamp clock other

instance : DecidableRel (Earlier clock) := fun event other =>
  inferInstanceAs (Decidable (timestamp clock event ≤ timestamp clock other))

def normalize (events : List TaskHistoryEvent) : List TaskHistoryEvent :=
  ((events.filter fun event => (clock.parse event.moment).isSome).insertionSort
    (Earlier clock)).destutter KeptAfter

def legacyHistory (createdAt updatedAt : Option Time) (current : TaskHistoryEvent) :
    List TaskHistoryEvent :=
  match createdAt.or updatedAt with
  | none => []
  | some firstAt =>
    if current.status = "SEALED" ∧ updatedAt.any (fun updated => decide (firstAt < updated)) then
      [{ current with moment := clock.toRfc3339 firstAt, status := defaultStatus }, current]
    else
      [{ current with moment := clock.toRfc3339 firstAt }]

/-- `Value::get`. -/
def member (page : JsonValue) (key : String) : Option JsonValue :=
  match page with
  | .object entries => entries.lookup key
  | _ => none

def effectiveIndexedHistory (page : JsonValue) : List TaskHistoryEvent :=
  let text := fun key => (member page key).bind textOfJson
  let createdAt := (text "created_at").bind clock.parse
  let updatedAt := (text "updated_at").bind clock.parse
  let events := (((member page taskHistoryKey).bind readJsonHistory).map (normalize clock)).getD []
  match updatedAt.or createdAt with
  | none => events
  | some currentAt =>
    let current : TaskHistoryEvent :=
      { moment := clock.toRfc3339 currentAt
        status := (text "status").getD defaultStatus
        cycle := text "cycle"
        project := text "project" }
    if events.isEmpty then legacyHistory clock createdAt updatedAt current
    else normalize clock (pushChange events current)

/-! ### Events -/

def matchesProjectScope (eventProject project : Option String) (unfiled : Bool)
    (knownProjects : List String) : Bool :=
  match project with
  | some project => eventProject == some project
  | none => if unfiled then eventProject.all fun value => !knownProjects.contains value else true

/-- The event is in the cycle and the scope. -/
def Scope.holds (scope : Scope) (event : TaskHistoryEvent) : Bool :=
  event.cycle == some scope.cycle &&
    matchesProjectScope event.project scope.project scope.unfiled scope.knownProjects

/-- The event leaves its task to be done. -/
def Scope.includes (scope : Scope) (event : TaskHistoryEvent) : Bool :=
  scope.holds event && event.status != "SEALED"

def date (event : TaskHistoryEvent) : Option Int := (clock.parse event.moment).map clock.dateNaive

/-! ### The burndown -/

structure Telemetry where
  baseline : Int
  deltas : Int → Int
  hasCycleHistory : Bool

variable (scope : Scope) (start fin : Int)

/-- A round of the first loop over a history. -/
def visit (state : Bool × Bool) (event : TaskHistoryEvent) : Bool × Bool :=
  match date clock event with
  | none => state
  | some date =>
    (if date < start then scope.includes event else state.1, state.2 || scope.holds event)

/-- The second loop over a history. -/
def collectDeltas : Bool → (Int → Int) → List TaskHistoryEvent → Int → Int
  | _, deltas, [] => deltas
  | included, deltas, event :: rest =>
    match date clock event with
    | none => collectDeltas included deltas rest
    | some date =>
      if date < start then collectDeltas included deltas rest
      else if fin < date then deltas
      else
        let next := scope.includes event
        if next != included then
          collectDeltas next
            (fun day => if day = date then deltas day + (if next then 1 else -1) else deltas day) rest
        else collectDeltas included deltas rest

def collectTask (telemetry : Telemetry) (page : JsonValue) : Telemetry :=
  let history := effectiveIndexedHistory clock page
  let visited := history.foldl (visit clock scope start) (false, telemetry.hasCycleHistory)
  { baseline := if visited.1 then telemetry.baseline + 1 else telemetry.baseline
    deltas := collectDeltas clock scope start fin visited.1 telemetry.deltas history
    hasCycleHistory := visited.2 }

def telemetry (tasks : List JsonValue) : Telemetry :=
  tasks.foldl (collectTask clock scope start fin) ⟨0, fun _ => 0, false⟩

/-- The days from one on, each with the running total. -/
def runningTotals (deltas : Int → Int) : Nat → Int → Int → List (Int × Int)
  | 0, _, _ => []
  | days + 1, day, remaining =>
    (day, remaining + deltas day) :: runningTotals deltas days (day + 1) (remaining + deltas day)

/-- The total is clamped to what a `u32` holds. -/
def point (total : Int × Int) : CycleBurndownPoint :=
  ⟨total.1, min (max total.2 0).toNat (2 ^ 32 - 1)⟩

def getCycleBurndown (declaredEnd today : Int) (tasks : List JsonValue) :
    Except String (List CycleBurndownPoint) :=
  if scope.unfiled && scope.project.isSome then
    .error "project and unfiled cannot be requested together"
  else if declaredEnd < start then .error "cycle end date must not precede its start date"
  else
    let fin := min declaredEnd today
    if fin < start then .ok []
    else if 366 < fin - start + 1 then .error "cycle burndown is limited to 366 days"
    else
      let collected := telemetry clock scope start fin tasks
      if collected.hasCycleHistory then
        .ok ((runningTotals collected.deltas (fin - start + 1).toNat start collected.baseline).map point)
      else .ok []

/-- The last event of a task that is dated on or before a day leaves it to be done. -/
def openOn (day : Int) (page : JsonValue) : Bool :=
  (((effectiveIndexedHistory clock page).filter fun event =>
    (date clock event).any fun dated => dated ≤ day).getLast?).any scope.includes

/-! ### Histories are sorted -/

/-- No event is dated before an earlier one. -/
def Sorted (events : List TaskHistoryEvent) : Prop := events.Pairwise fun first second =>
    ∀ before ∈ date clock first, ∀ after ∈ date clock second, before ≤ after

variable {clock}

theorem date_le {first second : TaskHistoryEvent} (earlier : Earlier clock first second) :
    ∀ before ∈ date clock first, ∀ after ∈ date clock second, before ≤ after := by
  intro before isBefore after isAfter
  obtain ⟨instant, parsed, rfl⟩ := map_eq_some_iff.1 isBefore
  obtain ⟨other, parsedOther, rfl⟩ := map_eq_some_iff.1 isAfter
  apply clock.dateNaive_mono
  rw [Earlier, timestamp, timestamp, parsed, parsedOther] at earlier
  exact WithBot.coe_le_coe.1 earlier

theorem sorted_normalize (events : List TaskHistoryEvent) :
    Sorted clock (normalize clock events) := by
  have total : Std.Total (Earlier clock) := ⟨fun first second => le_total _ _⟩
  have trans : IsTrans TaskHistoryEvent (Earlier clock) := ⟨fun _ _ _ => le_trans⟩
  have sorted := pairwise_insertionSort (Earlier clock)
    (events.filter fun event => (clock.parse event.moment).isSome)
  exact (sorted.sublist (destutter_sublist _ _)).imp fun earlier => date_le earlier

variable {event : TaskHistoryEvent} {day : Int}

theorem date_of_written {instant : Time} (written : event.moment = clock.toRfc3339 instant)
    (dated : day ∈ date clock event) :
    day = clock.dateNaive instant := by
  obtain ⟨other, parsed, rfl⟩ := map_eq_some_iff.1 dated
  rw [written] at parsed
  rw [clock.parse_toRfc3339 instant other parsed]

theorem sorted_legacyHistory {createdAt updatedAt : Option Time} {current : TaskHistoryEvent}
    (isCurrent : ∀ instant ∈ updatedAt, current.moment = clock.toRfc3339 instant) :
    Sorted clock (legacyHistory clock createdAt updatedAt current) := by
  unfold legacyHistory
  split
  · exact List.Pairwise.nil
  next firstAt _ =>
    split
    next sealed =>
      have ⟨updated, isUpdated, later⟩ := (Option.any_eq_true _ _).1 sealed.2
      apply pairwise_pair.2
      intro before isBefore after isAfter
      rw [date_of_written rfl isBefore, date_of_written (isCurrent updated isUpdated) isAfter]
      exact clock.dateNaive_mono _ _ (of_decide_eq_true later).le
    · exact pairwise_singleton _ _

theorem sorted_effectiveIndexedHistory (page : JsonValue) :
    Sorted clock (effectiveIndexedHistory clock page) := by
  unfold effectiveIndexedHistory
  simp only
  split
  · cases ((member page taskHistoryKey).bind readJsonHistory) with
    | none => exact List.Pairwise.nil
    | some events => exact sorted_normalize events
  next currentAt isCurrent =>
    split
    · apply sorted_legacyHistory
      intro instant isUpdated
      rw [isUpdated, some_or] at isCurrent
      rw [some.inj isCurrent]
    · exact sorted_normalize _

/-! ### The last event of a day -/

variable {scope : Scope} {start fin : Int}

/-- What the last event with a date of a kind leaves, if there is one. -/
def latest (clock : Clock Time) (scope : Scope) (dated : Int → Bool) (included : Bool)
    (events : List TaskHistoryEvent) : Bool :=
  events.foldl (fun included event =>
    if (date clock event).any dated then scope.includes event else included) included

variable {dated : Int → Bool} {included : Bool} {rest : List TaskHistoryEvent}

theorem latest_cons :
    latest clock scope dated included (event :: rest) = latest clock scope dated
        (if (date clock event).any dated then scope.includes event else included) rest := rfl

variable {events : List TaskHistoryEvent}

theorem latest_of_none (none : ∀ event ∈ events, ∀ day ∈ date clock event, dated day = false) :
    latest clock scope dated included events = included := by
  induction events with
  | nil => rfl
  | cons event rest ih =>
    rw [forall_mem_cons] at none
    have skipped : (date clock event).any dated = false := by
      rw [Option.any_eq_false]
      intro day isDay
      rw [none.1 day isDay]
    rw [latest_cons, skipped]
    exact ih none.2

theorem latest_eq_getLast :
    latest clock scope dated included events =
      ((events.filter fun event => (date clock event).any dated).getLast?.map
        scope.includes).getD included := by
  induction events generalizing included with
  | nil => rfl
  | cons event rest ih =>
    rw [latest_cons, ih, filter_cons]
    split
    · rw [getLast?_cons]
      cases (rest.filter fun event => (date clock event).any dated).getLast? <;> rfl
    · rfl

/-- The events of a sorted history behind one that is dated are not dated before it. -/
theorem later (sorted : Sorted clock (event :: rest)) (dated : date clock event = some day) :
    ∀ other ∈ rest, ∀ after ∈ date clock other, day ≤ after :=
  fun other otherIn => (pairwise_cons.1 sorted).1 other otherIn day dated

/-- What the last event from the start to a day leaves, if there is one. -/
def upTo (clock : Clock Time) (scope : Scope) (start day : Int) : Bool → List TaskHistoryEvent → Bool :=
  latest clock scope fun dated => start ≤ dated && dated ≤ day

theorem upTo_cons {first : Int} (dated : date clock event = some first) :
    upTo clock scope start day included (event :: rest) = upTo clock scope start day
        (if start ≤ first ∧ first ≤ day then scope.includes event else included) rest := by
  rw [upTo, latest_cons, dated]
  simp only [any_some, Bool.and_eq_true, decide_eq_true_eq]

theorem upTo_of_later {first : Int}
    (later : ∀ event ∈ events, ∀ after ∈ date clock event, first ≤ after) (before : day < first) :
    upTo clock scope start day included events = included := by
  apply latest_of_none
  intro event eventIn after isAfter
  have behind := later event eventIn after isAfter
  rw [Bool.and_eq_false_iff]
  exact Or.inr (decide_eq_false (by omega))

/-- The events before the start, and then those from the start on. -/
theorem latest_split (sorted : Sorted clock events) (reaches : start - 1 ≤ day) :
    latest clock scope (fun dated => dated ≤ day) included events =
      upTo clock scope start day (latest clock scope (fun dated => dated < start) included events)
        events := by
  induction events generalizing included with
  | nil => rfl
  | cons event rest ih =>
    rw [latest_cons, latest_cons, ih (pairwise_cons.1 sorted).2]
    cases dated : date clock event with
    | none => rw [upTo, latest_cons, dated]; rfl
    | some first =>
      rw [upTo_cons dated]
      simp only [any_some, decide_eq_true_eq]
      by_cases early : first < start
      · rw [if_pos early, if_pos (by omega), if_neg (by omega)]
      · have none : ∀ other ∈ rest, ∀ after ∈ date clock other, decide (after < start) = false := by
          intro other otherIn after isAfter
          have behind := later sorted dated other otherIn after isAfter
          exact decide_eq_false (by omega)
        rw [latest_of_none none, latest_of_none none, if_neg early]
        have from_ : start ≤ first := by omega
        simp only [from_, true_and]

def count (included : Bool) : Int := if included then 1 else 0

/-- A day's change is the difference between that day and the one before. -/
theorem collectDeltas_apply {deltas : Int → Int} (sorted : Sorted clock events)
    (begins : start ≤ day) (ends : day ≤ fin) :
    collectDeltas clock scope start fin included deltas events day =
      deltas day + count (upTo clock scope start day included events)
        - count (upTo clock scope start (day - 1) included events) := by
  induction events generalizing included deltas with
  | nil => simp only [collectDeltas, upTo, latest, foldl_nil]; omega
  | cons event rest ih =>
    have sortedRest := (pairwise_cons.1 sorted).2
    rw [collectDeltas]
    cases dated : date clock event with
    | none =>
      have skips : ∀ limit, upTo clock scope start limit included (event :: rest) =
          upTo clock scope start limit included rest := by
        intro limit
        rw [upTo, latest_cons, dated]
        rfl
      rw [skips, skips]
      exact ih sortedRest
    | some first =>
      have behind := later sorted dated
      rw [upTo_cons dated, upTo_cons dated]
      simp only
      by_cases early : first < start
      · rw [if_pos early, if_neg (by omega), if_neg (by omega)]
        exact ih sortedRest
      rw [if_neg early]
      by_cases late : fin < first
      · rw [if_pos late, if_neg (by omega), if_neg (by omega), upTo_of_later behind (by omega),
          upTo_of_later behind (by omega)]
        omega
      rw [if_neg late]
      -- The change of the event itself, and then what the rest adds.
      have collected : (if (scope.includes event != included) = true then
            collectDeltas clock scope start fin (scope.includes event)
              (fun day => if day = first then deltas day + (if scope.includes event then 1 else -1)
                else deltas day) rest
          else collectDeltas clock scope start fin included deltas rest) day =
          deltas day + (if day = first then count (scope.includes event) - count included else 0)
            + count (upTo clock scope start day (scope.includes event) rest)
            - count (upTo clock scope start (day - 1) (scope.includes event) rest) := by
        split
        next changes =>
          have change : (if scope.includes event then 1 else -1) =
              count (scope.includes event) - count included := by
            revert changes
            cases scope.includes event <;> cases included <;> decide
          rw [ih sortedRest, change]
          split <;> omega
        next stays =>
          have same : scope.includes event = included := by simpa using stays
          rw [ih sortedRest, same]
          split <;> omega
      rw [collected]
      obtain before | rfl | after := lt_trichotomy first day
      · rw [if_neg (by omega), if_pos (by omega), if_pos (by omega)]
        omega
      · have quiet : ∀ left, upTo clock scope start (first - 1) left rest = left :=
          fun left => upTo_of_later behind (by omega)
        rw [if_pos rfl, if_pos (by omega), if_neg (by omega), quiet, quiet]
        omega
      · rw [if_neg (by omega), if_neg (by omega), if_neg (by omega),
          upTo_of_later behind (by omega), upTo_of_later behind (by omega),
          upTo_of_later behind (by omega), upTo_of_later behind (by omega)]
        omega

theorem visit_foldl {known : Bool} :
    events.foldl (visit clock scope start) (included, known) =
      (latest clock scope (fun dated => dated < start) included events,
        known || events.any fun event => (date clock event).isSome && scope.holds event) := by
  induction events generalizing included known with
  | nil => rw [foldl_nil, any_nil, Bool.or_false]; rfl
  | cons event rest ih =>
    rw [foldl_cons, latest_cons, any_cons, visit]
    cases dated : date clock event with
    | none => exact ih
    | some first =>
      simp only [any_some, isSome_some, Bool.true_and, decide_eq_true_eq]
      rw [ih, Bool.or_assoc]

theorem openOn_eq (day : Int) (page : JsonValue) : openOn clock scope day page =
      latest clock scope (fun dated => dated ≤ day) false (effectiveIndexedHistory clock page) := by
  rw [latest_eq_getLast, openOn]
  cases (List.filter _ (effectiveIndexedHistory clock page)).getLast? <;> rfl

/-! ### All tasks -/

/-- The history has a dated event in the cycle and the scope. -/
def takesPart (clock : Clock Time) (scope : Scope) (page : JsonValue) : Bool :=
  (effectiveIndexedHistory clock page).any fun event =>
    (date clock event).isSome && scope.holds event

/-- The number of tasks that are open on a day. -/
def openCount (clock : Clock Time) (scope : Scope) (tasks : List JsonValue) (day : Int) : Int :=
  tasks.countP (openOn clock scope day)

theorem openCount_cons {page : JsonValue} {rest : List JsonValue} :
    openCount clock scope (page :: rest) day =
      openCount clock scope rest day + count (openOn clock scope day page) := by
  rw [openCount, openCount, countP_cons, count]
  split <;> rfl

/-- What one task adds. -/
theorem collectTask_spec {collected : Telemetry} {page : JsonValue} :
    let next := collectTask clock scope start fin collected page
    next.baseline = collected.baseline + count (openOn clock scope (start - 1) page) ∧
    (∀ day, start ≤ day → day ≤ fin → next.deltas day = collected.deltas day
      + count (openOn clock scope day page) - count (openOn clock scope (day - 1) page)) ∧
    next.hasCycleHistory = (collected.hasCycleHistory || takesPart clock scope page) := by
  have sorted := @sorted_effectiveIndexedHistory Time _ clock page
  have divides : ∀ day, start - 1 ≤ day → openOn clock scope day page = upTo clock scope start day
        (latest clock scope (fun dated => dated < start) false (effectiveIndexedHistory clock page))
        (effectiveIndexedHistory clock page) :=
    fun day reaches => (openOn_eq day page).trans (latest_split sorted reaches)
  simp only [collectTask, visit_foldl]
  refine ⟨?_, fun day begins ends => ?_, rfl⟩
  · have before : (fun dated : Int => decide (dated ≤ start - 1)) = fun dated => dated < start :=
      funext fun dated => by simp only [Int.le_sub_one_iff]
    rw [openOn_eq, before, count]
    split <;> omega
  · rw [collectDeltas_apply sorted begins ends, divides day (by omega),
      divides (day - 1) (by omega)]

theorem telemetry_spec {tasks : List JsonValue} {collected : Telemetry} :
    let final := tasks.foldl (collectTask clock scope start fin) collected
    final.baseline = collected.baseline + openCount clock scope tasks (start - 1) ∧
    (∀ day, start ≤ day → day ≤ fin → final.deltas day = collected.deltas day
      + openCount clock scope tasks day - openCount clock scope tasks (day - 1)) ∧
    final.hasCycleHistory = (collected.hasCycleHistory || tasks.any (takesPart clock scope)) := by
  induction tasks generalizing collected with
  | nil => simp [openCount]
  | cons page rest ih =>
    have ⟨baseline, deltas, known⟩ := @collectTask_spec Time _ clock scope start fin collected page
    have ⟨restBaseline, restDeltas, restKnown⟩ :=
      @ih (collectTask clock scope start fin collected page)
    simp only [foldl_cons, any_cons, openCount_cons]
    refine ⟨?_, fun day begins ends => ?_, ?_⟩
    · rw [restBaseline, baseline]
      omega
    · rw [restDeltas day begins ends, deltas day begins ends]
      omega
    · rw [restKnown, known, Bool.or_assoc]

/-- The running total of each day is the number that a level has, where it changes as the level. -/
theorem runningTotals_eq {deltas level : Int → Int} {days : Nat}
    (changes : ∀ offset < days, deltas (day + offset) =
      level (day + offset) - level (day + offset - 1)) :
    runningTotals deltas days day (level (day - 1)) =
      (List.range days).map fun offset : Nat => (day + offset, level (day + offset)) := by
  induction days generalizing day with
  | zero => rfl
  | succ days ih =>
    have first := changes 0 days.succ_pos
    rw [Nat.cast_zero, add_zero] at first
    have total : level (day - 1) + deltas day = level day := by omega
    have rest := @ih (day + 1) fun offset isLt => by
      have change := changes (offset + 1) (Nat.succ_lt_succ isLt)
      rw [Nat.cast_succ, add_comm (offset : Int), ← add_assoc] at change
      exact change
    rw [add_sub_cancel_right] at rest
    rw [runningTotals, total, rest, range_succ_eq_map, map_cons, List.map_map]
    simp only [Function.comp_def, Nat.cast_zero, add_zero, Nat.cast_succ, add_assoc,
      add_comm (1 : Int)]

/-- **Each point counts the tasks that are open on its day**, and there are points exactly when a
dated event is in the cycle and the scope. -/
theorem burndown_exact {today : Int} {tasks : List JsonValue}
    (accepted : scope.unfiled = true → scope.project = none) (ordered : start ≤ fin)
    (past : fin ≤ today) (bounded : fin - start + 1 ≤ 366) (few : tasks.length < 2 ^ 32) :
    getCycleBurndown clock scope start fin today tasks =
      .ok (if ∃ page ∈ tasks, takesPart clock scope page = true then
        (List.range (fin - start + 1).toNat).map fun offset : Nat =>
          ⟨start + offset, tasks.countP (openOn clock scope (start + offset))⟩
        else []) ∧
    ∀ total ∈ runningTotals (telemetry clock scope start fin tasks).deltas
      (fin - start + 1).toNat start (telemetry clock scope start fin tasks).baseline,
      0 ≤ total.2 := by
  have ⟨baseline, deltas, known⟩ :=
    @telemetry_spec Time _ clock scope start fin tasks ⟨0, fun _ => 0, false⟩
  have totals : runningTotals (telemetry clock scope start fin tasks).deltas
      (fin - start + 1).toNat start (telemetry clock scope start fin tasks).baseline =
      (List.range (fin - start + 1).toNat).map fun offset : Nat =>
        (start + offset, openCount clock scope tasks (start + offset)) := by
    rw [telemetry, baseline, zero_add]
    apply runningTotals_eq
    intro offset isLt
    rw [deltas _ (by omega) (by omega), zero_add]
  refine ⟨?_, fun total totalIn => ?_⟩
  · have takesPart_iff : (telemetry clock scope start fin tasks).hasCycleHistory = true ↔
        ∃ page ∈ tasks, takesPart clock scope page = true := by
      rw [telemetry, known, Bool.false_or, List.any_eq_true]
    have allowed : (scope.unfiled && scope.project.isSome) = false := by
      cases unfiled : scope.unfiled with
      | false => rfl
      | true => rw [accepted unfiled]; rfl
    have fitting : ∀ day, point (day, openCount clock scope tasks day) =
        ⟨day, tasks.countP (openOn clock scope day)⟩ := by
      intro day
      have atMost := @countP_le_length _ (openOn clock scope day) tasks
      simp only [point, openCount, CycleBurndownPoint.mk.injEq, true_and]
      omega
    rw [getCycleBurndown, allowed, if_neg Bool.false_ne_true, if_neg (by omega), min_eq_left past]
    simp only
    rw [if_neg (by omega), if_neg (by omega), totals, List.map_map]
    simp only [Function.comp_def, fitting, takesPart_iff]
    split <;> rfl
  · rw [totals] at totalIn
    obtain ⟨offset, -, rfl⟩ := List.mem_map.1 totalIn
    exact Int.natCast_nonneg _

end Histories

/-! ### A task of the year 9999 -/

def exampleClock : Clock Nat where
  toRfc3339 instant :=
    if instant = 20454 then "2026-01-01T00:00:00+00:00" else "+10000-01-01T11:59:59+00:00"
  parse text :=
    if text = "2026-01-01T00:00:00+00:00" then some 20454
    else if text = "9999-12-31T23:59:59-12:00" then some 2932897 else none
  dateNaive instant := instant
  parse_toRfc3339 instant other := by
    by_cases first : instant = 20454
    · rw [if_pos first, if_pos rfl, first]
      exact fun same => (some.inj same).symm
    · rw [if_neg first, if_neg (by decide), if_neg (by decide)]
      exact fun same => nomatch same
  dateNaive_mono _ _ := Int.ofNat_le.2

def exampleScope : Scope := ⟨"C-01", none, false, []⟩

def exampleTask (createdAt : String) : JsonValue :=
  .object [("created_at", .string createdAt), ("cycle", .string "C-01")]

theorem burndown_exact_exampleTask : getCycleBurndown exampleClock exampleScope 20454 20455 20455
      [exampleTask "2026-01-01T00:00:00+00:00"] = .ok [⟨20454, 1⟩, ⟨20455, 1⟩] := by
  rw [(@burndown_exact Nat _ exampleClock exampleScope 20454 20455 20455 _ (fun _ => rfl) (by decide)
    (by decide) (by decide) (by decide)).1]
  decide

/-- An instant carried past the year 9999 is not read: there are no points. -/
theorem undated_event_has_no_points : getCycleBurndown exampleClock exampleScope 20454 20455 20455
      [exampleTask "9999-12-31T23:59:59-12:00"] = .ok [] ∧
    ∃ event ∈ effectiveIndexedHistory exampleClock (exampleTask "9999-12-31T23:59:59-12:00"),
      exampleScope.holds event = true := by
  decide

end Clepsydra.Board.Burndown
