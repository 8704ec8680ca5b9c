import Clepsydra.Board.Blockers
import Clepsydra.Library.Transitions
import Clepsydra.Vault.PageMeta
import Clepsydra.Vault.Path

/-!
Owns: the history of a task's state that is stored in its frontmatter.

Proves: over every run the stored history only grows, is sorted by time and changes state at every
event; what a reader is given ends in the page's state.
-/

namespace Clepsydra.Vault

open Library Library.Transitions List Option

/-! ### Events -/

structure Rfc3339 (Time : Type) where
  toRfc3339 : Time → String
  parse : String → Option Time
  parse_toRfc3339 : ∀ instant, parse (toRfc3339 instant) = some instant

structure TaskHistoryEvent where
  moment : String
  status : String
  cycle : Option String
  project : Option String
deriving DecidableEq

def taskHistoryKey : String := "task_history"

namespace TaskHistoryEvent

def timestamp {Time : Type} (clock : Rfc3339 Time) (event : TaskHistoryEvent) : WithBot Time :=
  clock.parse event.moment

def state (event : TaskHistoryEvent) : String × Option String × Option String :=
  (event.status, event.cycle, event.project)

def sameState (event other : TaskHistoryEvent) : Bool :=
  event.status == other.status && event.cycle == other.cycle && event.project == other.project

theorem sameState_iff {event other : TaskHistoryEvent} :
    event.sameState other = true ↔ event.state = other.state := by
  simp only [sameState, state, Bool.and_eq_true, beq_iff_eq, Prod.mk.injEq, and_assoc]

end TaskHistoryEvent

/-! ### Storage -/

def eventValue (event : TaskHistoryEvent) : TomlValue := .table <|
    [("at", .string event.moment), ("status", .string event.status)]
      ++ (event.cycle.map fun cycle => ("cycle", TomlValue.string cycle)).toList
      ++ (event.project.map fun project => ("project", TomlValue.string project)).toList

def historyValue (events : List TaskHistoryEvent) : TomlValue := .array (events.map eventValue)

def optionalText : Option TomlValue → Option (Option String)
  | none => some none
  | some value => value.asStr.map some

/-- One event as `serde` reads it: a table, or its fields in order. -/
def readEvent : TomlValue → Option TaskHistoryEvent
  | .table entries => do
      let moment ← (TomlValue.field entries "at").bind TomlValue.asStr
      let status ← (TomlValue.field entries "status").bind TomlValue.asStr
      let cycle ← optionalText (TomlValue.field entries "cycle")
      let project ← optionalText (TomlValue.field entries "project")
      pure { moment, status, cycle, project }
  | .array items => do
      let moment ← items[0]?.bind TomlValue.asStr
      let status ← items[1]?.bind TomlValue.asStr
      let cycle ← optionalText items[2]?
      let project ← optionalText items[3]?
      if items.length ≤ 4 then pure { moment, status, cycle, project } else none
  | _ => none

/-- `try_into::<Vec<TaskHistoryEvent>>`: one element that cannot be read fails the whole. -/
def readHistory : TomlValue → Option (List TaskHistoryEvent)
  | .array items => items.mapM readEvent
  | _ => none

theorem readEvent_eventValue (event : TaskHistoryEvent) :
    readEvent (eventValue event) = some event := by
  have ⟨moment, status, cycle, project⟩ := event
  cases cycle <;> cases project <;>
    simp [eventValue, readEvent, TomlValue.field, optionalText, TomlValue.asStr]

theorem readHistory_historyValue (events : List TaskHistoryEvent) :
    readHistory (historyValue events) = some events := by
  show (events.map eventValue).mapM readEvent = some events
  induction events with
  | nil => rfl
  | cons event rest ih =>
    rw [map_cons, mapM_cons, readEvent_eventValue, ih]
    rfl

section History

variable {Time : Type} [LinearOrder Time] (clock : Rfc3339 Time)

/-! ### The functions of the source -/

abbrev TaskMeta (Time : Type) := PageMeta Time TomlValue

def extraString (page : TaskMeta Time) (key : String) : Option String :=
  (page.extra.value key).bind TomlValue.asStr

def snapshot (page : TaskMeta Time) (moment : Time) : TaskHistoryEvent where
  moment := clock.toRfc3339 moment
  status := (extraString page "status").getD Board.defaultStatus
  cycle := extraString page "cycle"
  project := page.project

def legacyHistory (createdAt updatedAt : Option Time) (current : TaskHistoryEvent) :
    List TaskHistoryEvent :=
  match createdAt.or updatedAt with
  | none => []
  | some firstAt =>
    if current.status = "SEALED" ∧ updatedAt.any (fun updated => decide (firstAt < updated)) then
      [{ current with moment := clock.toRfc3339 firstAt, status := Board.defaultStatus }, current]
    else
      [{ current with moment := clock.toRfc3339 firstAt }]

def Earlier (event other : TaskHistoryEvent) : Prop := event.timestamp clock ≤ other.timestamp clock

instance : DecidableRel (Earlier clock) := fun event other =>
  inferInstanceAs (Decidable (event.timestamp clock ≤ other.timestamp clock))

def KeptAfter (earlier later : TaskHistoryEvent) : Prop :=
  ¬(later.moment = earlier.moment ∧ later.sameState earlier)

instance : DecidableRel KeptAfter := fun earlier later =>
  inferInstanceAs (Decidable (¬(later.moment = earlier.moment ∧ later.sameState earlier)))

def normalize (events : List TaskHistoryEvent) : List TaskHistoryEvent :=
  ((events.filter fun event => (clock.parse event.moment).isSome).insertionSort
    (Earlier clock)).destutter KeptAfter

def storedHistory (page : TaskMeta Time) : List TaskHistoryEvent :=
  ((page.extra.value taskHistoryKey).bind readHistory).getD []

def parsedPageHistory (page : TaskMeta Time) : List TaskHistoryEvent :=
  (((page.extra.value taskHistoryKey).bind readHistory).map (normalize clock)).getD []

/-- `if events.last().is_none_or(|last| !last.same_state(&next)) { events.push(next) }` -/
def pushChange (events : List TaskHistoryEvent) (next : TaskHistoryEvent) : List TaskHistoryEvent :=
  if events.getLast?.all fun last => !last.sameState next then events ++ [next] else events

def effectivePageHistory (page : TaskMeta Time) : List TaskHistoryEvent :=
  match page.updatedAt.or page.createdAt with
  | none => parsedPageHistory clock page
  | some currentAt =>
    let current := snapshot clock page currentAt
    let events := parsedPageHistory clock page
    if events.isEmpty then legacyHistory clock page.createdAt page.updatedAt current
    else normalize clock (pushChange events current)

def withHistory (page : TaskMeta Time) (events : List TaskHistoryEvent) : TaskMeta Time :=
  { page with extra := page.extra.insert taskHistoryKey (historyValue events) }

def initializeTaskHistory (page : TaskMeta Time) : TaskMeta Time :=
  withHistory page (effectivePageHistory clock page)

def recordTaskTransition (old new : TaskMeta Time) (moment : Time) : TaskMeta Time :=
  withHistory new
    (normalize clock (pushChange (effectivePageHistory clock old) (snapshot clock new moment)))

def pathIsTask (path : VaultPath) : Bool :=
  match path.components with
  | folder :: _ :: _ => folder == "tasks"
  | _ => false

/-- `old` is the metadata of the expected content, if it can be read. -/
def healTaskUpdate (path : VaultPath) (old : Option (TaskMeta Time)) (new : TaskMeta Time)
    (now : Time) : TaskMeta Time :=
  match old with
  | none => new
  | some old =>
    if old.kind ≠ some .task ∧ new.kind ≠ some .task ∧ pathIsTask path = false then new
    else
      let moment := (((new.updatedAt.or old.updatedAt).or new.createdAt).or old.createdAt).getD now
      recordTaskTransition clock old new moment

/-! ### Chronicles -/

structure Chronicle (bound : Time) (events : List TaskHistoryEvent) : Prop where
  dated : ∀ event ∈ events, ∃ moment, clock.parse event.moment = some moment ∧ moment ≤ bound
  sorted : events.Pairwise (Earlier clock)
  changes : events.IsChain fun earlier later => earlier.state ≠ later.state

variable {clock} {bound : Time} {events : List TaskHistoryEvent}

theorem Chronicle.normalize_eq (chronicle : Chronicle clock bound events) :
    normalize clock events = events := by
  have allDated : (events.filter fun event => (clock.parse event.moment).isSome) = events := by
    apply filter_eq_self.2
    intro event member
    obtain ⟨moment, parses, -⟩ := chronicle.dated event member
    rw [parses]
    rfl
  have kept : events.IsChain KeptAfter := by
    apply chronicle.changes.imp
    intro earlier later differ same
    exact differ (TaskHistoryEvent.sameState_iff.1 same.2).symm
  unfold normalize
  rw [allDated, chronicle.sorted.insertionSort_eq, destutter_of_isChain _ _ kept]

theorem Chronicle.mono {later : Time} (chronicle : Chronicle clock bound events)
    (order : bound ≤ later) :
    Chronicle clock later events where
  dated := fun event member => by
    have ⟨moment, parses, before⟩ := chronicle.dated event member
    exact ⟨moment, parses, before.trans order⟩
  sorted := chronicle.sorted
  changes := chronicle.changes

theorem pushChange_of_same {last next : TaskHistoryEvent} (ends : events.getLast? = some last)
    (same : last.state = next.state) :
    pushChange events next = events := by
  unfold pushChange
  rw [ends, all_some, TaskHistoryEvent.sameState_iff.2 same]
  rfl

theorem pushChange_of_changed {next : TaskHistoryEvent}
    (changed : ∀ last ∈ events.getLast?, last.state ≠ next.state) :
    pushChange events next = events ++ [next] := by
  unfold pushChange
  apply if_pos
  rw [Option.all_eq_true]
  intro last ends
  rw [Bool.not_eq_true', Bool.eq_false_iff]
  exact fun same => changed last ends (TaskHistoryEvent.sameState_iff.1 same)

theorem pushChange_cases (events : List TaskHistoryEvent) (next : TaskHistoryEvent) :
    (∃ last, events.getLast? = some last ∧ last.state = next.state ∧
        pushChange events next = events) ∨
      ((∀ last ∈ events.getLast?, last.state ≠ next.state) ∧
        pushChange events next = events ++ [next]) := by
  by_cases same : ∃ last, events.getLast? = some last ∧ last.state = next.state
  · have ⟨last, ends, agree⟩ := same
    exact Or.inl ⟨last, ends, agree, pushChange_of_same ends agree⟩
  · have changed : ∀ last ∈ events.getLast?, last.state ≠ next.state :=
      fun last ends agree => same ⟨last, ends, agree⟩
    exact Or.inr ⟨changed, pushChange_of_changed changed⟩

theorem prefix_pushChange (events : List TaskHistoryEvent) (next : TaskHistoryEvent) :
    events <+: pushChange events next := by
  rcases pushChange_cases events next with ⟨_, -, -, unchanged⟩ | ⟨-, pushed⟩
  · simp [unchanged]
  · simp [pushed]

def EndsIn (events : List TaskHistoryEvent) (state : String × Option String × Option String) :
    Prop :=
  events.getLast?.map TaskHistoryEvent.state = some state

instance (events : List TaskHistoryEvent) (state : String × Option String × Option String) :
    Decidable (EndsIn events state) :=
  inferInstanceAs (Decidable (events.getLast?.map TaskHistoryEvent.state = some state))

theorem endsIn_pushChange (events : List TaskHistoryEvent) (next : TaskHistoryEvent) :
    EndsIn (pushChange events next) next.state := by
  unfold EndsIn
  rcases pushChange_cases events next with ⟨last, ends, agree, unchanged⟩ | ⟨-, pushed⟩
  · rw [unchanged, ends, map_some, agree]
  · rw [pushed, getLast?_concat, map_some]

theorem Chronicle.pushChange {next : TaskHistoryEvent} (chronicle : Chronicle clock bound events)
    (stamped : next.moment = clock.toRfc3339 bound) :
    Chronicle clock bound (pushChange events next) := by
  have nextAt : clock.parse next.moment = some bound := by
    rw [stamped, clock.parse_toRfc3339]
  rcases pushChange_cases events next with ⟨last, ends, agree, unchanged⟩ | ⟨changed, pushed⟩
  · rw [unchanged]
    exact chronicle
  · rw [pushed]
    constructor
    · intro event member
      rcases mem_append.1 member with old | new
      · exact chronicle.dated event old
      · rw [mem_singleton.1 new]
        exact ⟨bound, nextAt, le_rfl⟩
    · rw [pairwise_append]
      refine ⟨chronicle.sorted, pairwise_singleton _ _, ?_⟩
      intro event member other new
      have ⟨moment, parses, before⟩ := chronicle.dated event member
      rw [mem_singleton.1 new]
      unfold Earlier TaskHistoryEvent.timestamp
      rw [parses, nextAt]
      exact WithBot.coe_le_coe.2 before
    · apply chronicle.changes.append (isChain_singleton next)
      intro last ends other head
      rw [← some.inj head]
      exact changed last ends

/-! ### Pages -/

variable {page : TaskMeta Time}

def currentState (page : TaskMeta Time) : String × Option String × Option String :=
  ((extraString page "status").getD Board.defaultStatus, extraString page "cycle", page.project)

omit [LinearOrder Time] in
theorem state_snapshot (page : TaskMeta Time) (moment : Time) :
    (snapshot clock page moment).state = currentState page := rfl

omit [LinearOrder Time] in
theorem storedHistory_of_value
    (holds : page.extra.value taskHistoryKey = some (historyValue events)) :
    storedHistory page = events := by
  rw [storedHistory, holds, bind_some, readHistory_historyValue, getD_some]

theorem parsedPageHistory_of_value
    (holds : page.extra.value taskHistoryKey = some (historyValue events)) :
    parsedPageHistory clock page = normalize clock events := by
  rw [parsedPageHistory, holds, bind_some, readHistory_historyValue, map_some, getD_some]

omit [LinearOrder Time] in
theorem value_withHistory (page : TaskMeta Time) (events : List TaskHistoryEvent) :
    (withHistory page events).extra.value taskHistoryKey = some (historyValue events) := by
  rw [withHistory, ExtraMap.value_insert, if_pos rfl]

omit [LinearOrder Time] in
theorem currentState_withHistory (page : TaskMeta Time) (events : List TaskHistoryEvent) :
    currentState (withHistory page events) = currentState page := by
  have other : ∀ key, key ≠ taskHistoryKey →
      extraString (withHistory page events) key = extraString page key := by
    intro key differs
    rw [extraString, withHistory, ExtraMap.value_insert, if_neg differs]
    rfl
  unfold currentState
  rw [other "status" (by decide), other "cycle" (by decide)]
  rfl

def stamp (page : TaskMeta Time) : Option Time := page.updatedAt.or page.createdAt

/-- It has a moment, it was not updated before it was made, and its history is one. -/
structure Opens (clock : Rfc3339 Time) (page : TaskMeta Time) : Prop where
  ordered : ∀ created ∈ page.createdAt, ∀ updated ∈ page.updatedAt, created ≤ updated
  chronicle : ∃ bound, stamp page = some bound ∧
    Chronicle clock bound (parsedPageHistory clock page)

structure Keeps (clock : Rfc3339 Time) (page : TaskMeta Time) (bound : Time)
    (events : List TaskHistoryEvent) : Prop where
  stamped : stamp page = some bound
  holds : page.extra.value taskHistoryKey = some (historyValue events)
  begun : events ≠ []
  chronicle : Chronicle clock bound events

def Kept (clock : Rfc3339 Time) (page : TaskMeta Time) : Prop :=
  ∃ bound events, Keeps clock page bound events

theorem legacyHistory_chronicle {createdAt updatedAt : Option Time} {current : TaskHistoryEvent}
    (ordered : ∀ created ∈ createdAt, ∀ updated ∈ updatedAt, created ≤ updated)
    (stamped : updatedAt.or createdAt = some bound)
    (moment : current.moment = clock.toRfc3339 bound) :
    Chronicle clock bound (legacyHistory clock createdAt updatedAt current) ∧
      EndsIn (legacyHistory clock createdAt updatedAt current) current.state := by
  obtain ⟨firstAt, first, early⟩ : ∃ firstAt, createdAt.or updatedAt = some firstAt ∧
      firstAt ≤ bound := by
    cases createdAt with
    | none => exact ⟨bound, by simpa using stamped, le_rfl⟩
    | some created =>
      refine ⟨created, rfl, ?_⟩
      cases updatedAt with
      | none => exact (some.inj stamped).le
      | some updated => exact (ordered created rfl updated rfl).trans (some.inj stamped).le
  -- an event of the first moment is a chronicle by itself
  have initial : ∀ event : TaskHistoryEvent, event.moment = clock.toRfc3339 firstAt →
      Chronicle clock bound [event] := by
    intro event dated
    have parses : clock.parse event.moment = some firstAt := by rw [dated, clock.parse_toRfc3339]
    refine ⟨fun other member => ?_, pairwise_singleton _ _, isChain_singleton _⟩
    rw [mem_singleton.1 member]
    exact ⟨firstAt, parses, early⟩
  unfold legacyHistory
  rw [first]
  by_cases isSealed : current.status = "SEALED" ∧
      updatedAt.any (fun updated => decide (firstAt < updated))
  · simp only [if_pos isSealed]
    have changed : pushChange
        [{ current with moment := clock.toRfc3339 firstAt, status := Board.defaultStatus }] current =
        [{ current with moment := clock.toRfc3339 firstAt, status := Board.defaultStatus },
          current] := by
      apply pushChange_of_changed
      intro last ends same
      rw [← some.inj ends] at same
      have reopened : Board.defaultStatus = current.status := congrArg Prod.fst same
      rw [isSealed.1] at reopened
      exact absurd reopened (by decide)
    rw [← changed]
    exact ⟨(initial _ rfl).pushChange moment, endsIn_pushChange _ _⟩
  · simp only [if_neg isSealed]
    exact ⟨initial _ rfl, rfl⟩

theorem Keeps.effectivePageHistory_eq (keeps : Keeps clock page bound events) :
    effectivePageHistory clock page = pushChange events (snapshot clock page bound) := by
  have parsed : parsedPageHistory clock page = events := by
    rw [parsedPageHistory_of_value keeps.holds, keeps.chronicle.normalize_eq]
  have nonempty : ¬events.isEmpty = true := by
    rw [List.isEmpty_iff]
    exact keeps.begun
  have stamped : page.updatedAt.or page.createdAt = some bound := keeps.stamped
  unfold effectivePageHistory
  simp only [stamped, parsed, if_neg nonempty]
  exact (keeps.chronicle.pushChange rfl).normalize_eq

theorem Opens.effectivePageHistory_chronicle (opens : Opens clock page)
    (stamped : stamp page = some bound) :
    Chronicle clock bound (effectivePageHistory clock page) ∧
      EndsIn (effectivePageHistory clock page) (currentState page) := by
  have ⟨moment, same, chronicle⟩ := opens.chronicle
  obtain rfl := some.inj (stamped.symm.trans same)
  have dated : page.updatedAt.or page.createdAt = some bound := stamped
  unfold effectivePageHistory
  simp only [dated]
  by_cases empty : (parsedPageHistory clock page).isEmpty
  · rw [if_pos empty]
    exact legacyHistory_chronicle opens.ordered stamped rfl
  · have pushed : Chronicle clock bound
        (pushChange (parsedPageHistory clock page) (snapshot clock page bound)) :=
      chronicle.pushChange rfl
    rw [if_neg empty, pushed.normalize_eq]
    exact ⟨pushed, endsIn_pushChange _ _⟩

/-! ### Runs -/

/-- What happens to a task: the board writes new metadata at a moment, or the file is edited by
hand. -/
inductive Change (Time : Type) where
  | update (new : TaskMeta Time) (moment : Time)
  | external (edited : TaskMeta Time)

variable (clock)

def changed (page : TaskMeta Time) : Change Time → Option (TaskMeta Time)
  | .update new moment =>
    some { recordTaskTransition clock page new moment with updatedAt := some moment }
  | .external edited => some edited

variable {clock}

structure OnlyState (page edited : TaskMeta Time) : Prop where
  sameFields : edited = { page with project := edited.project, extra := edited.extra }
  sameExtra : ∀ key, key ≠ "status" → key ≠ "cycle" → edited.extra.value key = page.extra.value key

def Orderly (page : TaskMeta Time) : Change Time → Prop
  | .update _ moment => ∀ bound ∈ stamp page, bound ≤ moment
  | .external edited => OnlyState page edited

theorem Keeps.update {new : TaskMeta Time} {moment : Time} (keeps : Keeps clock page bound events)
    (order : bound ≤ moment) :
    Keeps clock { recordTaskTransition clock page new moment with updatedAt := some moment } moment
      (pushChange (pushChange events (snapshot clock page bound)) (snapshot clock new moment)) := by
  have healed : Chronicle clock bound (pushChange events (snapshot clock page bound)) :=
    keeps.chronicle.pushChange rfl
  have extended : Chronicle clock moment
      (pushChange (pushChange events (snapshot clock page bound)) (snapshot clock new moment)) :=
    (healed.mono order).pushChange rfl
  refine ⟨rfl, ?_, ?_, extended⟩
  · show (recordTaskTransition clock page new moment).extra.value taskHistoryKey = _
    rw [recordTaskTransition, value_withHistory, keeps.effectivePageHistory_eq,
      extended.normalize_eq]
  · intro empty
    have ends := endsIn_pushChange (pushChange events (snapshot clock page bound))
      (snapshot clock new moment)
    rw [empty] at ends
    exact nomatch ends

theorem Keeps.external {edited : TaskMeta Time} (keeps : Keeps clock page bound events)
    (only : OnlyState page edited) : Keeps clock edited bound events where
  stamped := by
    rw [only.sameFields]
    exact keeps.stamped
  holds := by
    rw [only.sameExtra taskHistoryKey (by decide) (by decide)]
    exact keeps.holds
  begun := keeps.begun
  chronicle := keeps.chronicle

theorem Keeps.changed {next : TaskMeta Time} {change : Change Time}
    (keeps : Keeps clock page bound events) (orderly : Orderly page change)
    (steps : changed clock page change = some next) :
    ∃ later grown, Keeps clock next later grown ∧ events <+: grown ∧
      ∀ new moment, change = .update new moment → EndsIn grown (currentState next) := by
  cases change with
  | update new moment =>
    obtain rfl := some.inj steps
    refine ⟨moment, _, keeps.update (orderly bound keeps.stamped), ?_, ?_⟩
    · exact (prefix_pushChange _ _).trans (prefix_pushChange _ _)
    · intro _ _ _
      have ends := endsIn_pushChange (pushChange events (snapshot clock page bound))
        (snapshot clock new moment)
      rw [state_snapshot, ← currentState_withHistory new] at ends
      exact ends
  | external edited =>
    obtain rfl := some.inj steps
    exact ⟨bound, events, keeps.external orderly, prefix_rfl, fun _ _ other => nomatch other⟩

theorem Opens.keeps {start : TaskMeta Time} (opens : Opens clock start) :
    ∃ bound events, Keeps clock (initializeTaskHistory clock start) bound events ∧
      EndsIn events (currentState (initializeTaskHistory clock start)) := by
  obtain ⟨bound, stamped, -⟩ := opens.chronicle
  have ⟨chronicle, ends⟩ := opens.effectivePageHistory_chronicle stamped
  refine ⟨bound, effectivePageHistory clock start,
    ⟨stamped, value_withHistory _ _, ?_, chronicle⟩, ?_⟩
  · intro empty
    rw [empty] at ends
    exact nomatch ends
  · rw [initializeTaskHistory, currentState_withHistory]
    exact ends

structure IsLog (clock : Rfc3339 Time) (events : List TaskHistoryEvent) : Prop where
  sorted : events.Pairwise (Earlier clock)
  changes : events.IsChain fun earlier later => earlier.state ≠ later.state

/-- The stored history is a log that the next change extends, and ends in the page's state after
each write of the board; a reader is given that state always. -/
theorem task_history_only_grows {start page : TaskMeta Time} {changes : List (Change Time)}
    (opens : Opens clock start)
    (orderly : Throughout (changed clock) Orderly (initializeTaskHistory clock start) changes)
    (reached : run (changed clock) (initializeTaskHistory clock start) changes = some page) :
    IsLog clock (storedHistory page) ∧ EndsIn (storedHistory (initializeTaskHistory clock start))
        (currentState (initializeTaskHistory clock start)) ∧
      IsLog clock (effectivePageHistory clock page) ∧
      storedHistory page <+: effectivePageHistory clock page ∧
      EndsIn (effectivePageHistory clock page) (currentState page) ∧
      ∀ change next, Orderly page change → changed clock page change = some next →
        storedHistory page <+: storedHistory next ∧
        ∀ new moment, change = .update new moment →
          EndsIn (storedHistory next) (currentState next) := by
  have ⟨first, opening, keepsFirst, endsFirst⟩ := opens.keeps
  have begins : Kept clock (initializeTaskHistory clock start) := ⟨first, opening, keepsFirst⟩
  have kept : Kept clock page := by
    refine invariant_of_throughout ?_ begins orderly reached
    rintro current change next ⟨bound, events, keeps⟩ ordered steps
    obtain ⟨later, grown, keepsOn, -, -⟩ := keeps.changed ordered steps
    exact ⟨later, grown, keepsOn⟩
  have ⟨bound, events, keeps⟩ := kept
  have stored : storedHistory page = events := storedHistory_of_value keeps.holds
  have effective := keeps.effectivePageHistory_eq
  have healed : Chronicle clock bound (pushChange events (snapshot clock page bound)) :=
    keeps.chronicle.pushChange rfl
  rw [stored, effective, storedHistory_of_value keepsFirst.holds]
  refine ⟨⟨keeps.chronicle.sorted, keeps.chronicle.changes⟩, endsFirst,
    ⟨healed.sorted, healed.changes⟩, prefix_pushChange _ _, endsIn_pushChange _ _, ?_⟩
  intro change next ordered steps
  have ⟨later, grown, keepsOn, grows, ends⟩ := keeps.changed ordered steps
  rw [storedHistory_of_value keepsOn.holds]
  exact ⟨grows, ends⟩

end History

/-! ### A morning of one task -/

theorem find?_text {Time : Type} {text : Time → String} {times : List Time} {time : Time}
    (member : time ∈ times) (injective : ∀ other ∈ times, text other = text time → other = time) :
    times.find? (fun other => text other == text time) = some time := by
  have found : (times.find? fun other => text other == text time).isSome = true :=
    find?_isSome.2 ⟨time, member, beq_self_eq_true _⟩
  obtain ⟨other, isOther⟩ := Option.isSome_iff_exists.1 found
  have chosen := find?_some isOther
  rwa [injective other (mem_of_find?_eq_some isOther) (eq_of_beq chosen)] at isOther

theorem append_between_inj {before after first second first' second' : String}
    (same : before ++ first ++ second ++ after = before ++ first' ++ second' ++ after) :
    first ++ second = first' ++ second' := by
  rwa [String.append_left_inj, String.append_assoc, String.append_assoc, String.append_right_inj]
    at same

def sampleClock : Rfc3339 (Fin 60) where
  toRfc3339 second :=
    "2026-08-01T09:00:" ++ toString (second.val / 10) ++ toString (second.val % 10) ++ "+00:00"
  parse text := (List.finRange 60).find? fun second =>
    "2026-08-01T09:00:" ++ toString (second.val / 10) ++ toString (second.val % 10) ++ "+00:00"
      == text
  parse_toRfc3339 second := by
    have distinct : ((finRange 60).map fun second =>
        toString (second.val / 10) ++ toString (second.val % 10)).Nodup := by decide
    exact find?_text (mem_finRange second) fun other _ same =>
      inj_on_of_nodup_map distinct (mem_finRange other) (mem_finRange second)
        (append_between_inj same)

def sampleTask : TaskMeta (Fin 60) where
  id := .repeated 0
  title := none
  tags := []
  aliases := []
  kind := some .task
  project := none
  createdAt := some 1
  updatedAt := some 1
  encryption := none
  readonly := none
  extra := Table.empty

def withStatus (page : TaskMeta (Fin 60)) (status : String) : TaskMeta (Fin 60) :=
  { page with extra := page.extra.insert "status" (.string status) }

theorem onlyState_withStatus (page : TaskMeta (Fin 60)) (status : String) :
    OnlyState page (withStatus page status) where
  sameFields := rfl
  sameExtra := fun key notStatus _ => by
    rw [withStatus, ExtraMap.value_insert, if_neg notStatus]

def openedTask : TaskMeta (Fin 60) :=
  { recordTaskTransition sampleClock (initializeTaskHistory sampleClock sampleTask)
      (withStatus sampleTask "OPEN") 5 with updatedAt := some 5 }

def sampleChanges : List (Change (Fin 60)) :=
  [.update (withStatus sampleTask "OPEN") 5, .external (withStatus openedTask "SEALED"),
    .update (withStatus sampleTask "OPEN") 9]

/-- The edit by hand is stored by the next update. -/
theorem task_history_only_grows_reopened :
    ∃ page, run (changed sampleClock) (initializeTaskHistory sampleClock sampleTask) sampleChanges
        = some page ∧
      (storedHistory page).map TaskHistoryEvent.status = ["INTAKE", "OPEN", "SEALED", "OPEN"] ∧
      IsLog sampleClock (storedHistory page) ∧
      EndsIn (effectivePageHistory sampleClock page) (currentState page) := by
  have reached : (run (changed sampleClock) (initializeTaskHistory sampleClock sampleTask)
      sampleChanges).map (fun page => (storedHistory page).map TaskHistoryEvent.status) =
      some ["INTAKE", "OPEN", "SEALED", "OPEN"] := by decide
  have ⟨page, runs, statuses⟩ := map_eq_some_iff.1 reached
  have opens : Opens sampleClock sampleTask := by
    refine ⟨by decide, 1, rfl, ?_⟩
    have none : parsedPageHistory sampleClock sampleTask = [] := rfl
    rw [none]
    exact ⟨fun _ member => (nomatch member), List.Pairwise.nil, isChain_nil⟩
  have orderly : Throughout (changed sampleClock) Orderly
      (initializeTaskHistory sampleClock sampleTask) sampleChanges := by
    have opensLater : ∀ bound ∈ stamp (initializeTaskHistory sampleClock sampleTask),
        bound ≤ 5 := by decide
    have reopensLater : ∀ bound ∈ stamp (withStatus openedTask "SEALED"), bound ≤ 9 := by
      decide
    refine ⟨opensLater, fun opened first => ?_⟩
    obtain rfl := some.inj first
    refine ⟨onlyState_withStatus openedTask "SEALED", fun edited second => ?_⟩
    obtain rfl := some.inj second
    exact ⟨reopensLater, fun _ _ => trivial⟩
  obtain ⟨log, -, -, -, ends, -⟩ := task_history_only_grows opens orderly runs
  exact ⟨page, runs, statuses, log, ends⟩

def repeatingTask : TaskMeta (Fin 60) :=
  withHistory sampleTask [snapshot sampleClock sampleTask 0, snapshot sampleClock sampleTask 1]

/-- An edit by hand is not stored until the next update. A page without a moment gets no event,
and an update may come before the first event. -/
theorem edit_by_hand_not_stored : (OnlyState (initializeTaskHistory sampleClock sampleTask)
        (withStatus (initializeTaskHistory sampleClock sampleTask) "SEALED") ∧
      ¬EndsIn (storedHistory (withStatus (initializeTaskHistory sampleClock sampleTask) "SEALED"))
        (currentState (withStatus (initializeTaskHistory sampleClock sampleTask) "SEALED"))) ∧
      storedHistory (initializeTaskHistory sampleClock
        { sampleTask with createdAt := none, updatedAt := none }) = [] ∧
      (storedHistory (initializeTaskHistory sampleClock repeatingTask)).map TaskHistoryEvent.state =
        [("INTAKE", none, none), ("INTAKE", none, none)] ∧
      ¬storedHistory (initializeTaskHistory sampleClock { sampleTask with createdAt := some 7 }) <+:
        storedHistory (recordTaskTransition sampleClock
          (initializeTaskHistory sampleClock { sampleTask with createdAt := some 7 })
          (withStatus sampleTask "OPEN") 5) := by
  refine ⟨⟨onlyState_withStatus _ _, ?_⟩, ?_, ?_, ?_⟩ <;> decide

end Clepsydra.Vault
