import Clepsydra.Library.Transitions
import Clepsydra.Mutate.Disk

/-!
Owns: the index beside the vault watcher and the full sync window. A paused watcher drops what it is
delivered, and the watch loop indexes what was queued.

Proves: when the window rebuilds after what it dropped, and no batch stops, the index holds the disk
whenever nothing is pending.
-/

namespace Clepsydra.Sync

open Library.Transitions Vault List Function
open Option (some.inj)
open Mutate (ChangeEvent)

/-! ### The machine -/

abbrev Pages := VaultPath → Option Bytes

/-- How `full_sync` ends. -/
inductive SyncOutcome where
  | report (treeChanged : Bool)
  | operationInProgress
  | failed
  | panicked

/-- Whether `run_full_sync_window` rebuilds the index. -/
def SyncOutcome.rebuilds : SyncOutcome → Bool
  | .report treeChanged => treeChanged
  | .operationInProgress => false
  | .failed => true
  | .panicked => false

/-- Where an open window is. -/
inductive WindowPhase where
  | syncing (dropped : List VaultPath)
  | rebuilding (dropped : List VaultPath)
  | closing

/-- `observed` holds the edits not delivered yet, `queue` what was sent to the watch loop. -/
structure State where
  disk : Pages
  index : Pages
  observed : List VaultPath
  queue : List ChangeEvent
  window : Option WindowPhase

inductive Action where
  | edit (path : VaultPath) (content : Option Bytes)
  | deliver (path : VaultPath)
  | process
  | openWindow
  | finish (outcome : SyncOutcome)
  | rebuild
  | close

/-- `map_debounced_event` on a page file. -/
def mapDebouncedEvent (disk : Pages) (path : VaultPath) : ChangeEvent :=
  if (disk path).isSome then .upsert path else .remove path

/-- One event of `process_events`; indexing a page whose file is gone is an error. -/
def processEvent (disk index : Pages) : ChangeEvent → Option Pages
  | .upsert path => (disk path).map fun content => update index path (some content)
  | .remove path => some (update index path none)
  | .baseChanged => some disk

/-- `process_events`: an error ends the batch. -/
def processEvents (disk : Pages) : Pages → List ChangeEvent → Pages
  | index, [] => index
  | index, event :: rest =>
    match processEvent disk index event with
    | none => index
    | some next => processEvents disk next rest

def State.deliver (state : State) (path : VaultPath) : State :=
  let rest := state.observed.erase path
  match state.window with
  | none =>
    { state with observed := rest, queue := state.queue ++ [mapDebouncedEvent state.disk path] }
  | some (.syncing dropped) =>
    { state with observed := rest, window := some (.syncing (path :: dropped)) }
  | some (.rebuilding dropped) =>
    { state with observed := rest, window := some (.rebuilding (path :: dropped)) }
  | some .closing => { state with observed := rest }

def step (state : State) : Action → Option State
  | .edit path content =>
    some { state with
        disk := update state.disk path content
        observed := path :: state.observed }
  | .deliver path => if path ∈ state.observed then some (state.deliver path) else none
  | .process =>
    some { state with index := processEvents state.disk state.index state.queue, queue := [] }
  | .openWindow =>
    match state.window with
    | none => some { state with window := some (.syncing []) }
    | some _ => none
  | .finish outcome =>
    match state.window with
    | some (.syncing dropped) =>
      some { state with
          window := some (if outcome.rebuilds then .rebuilding dropped else .closing) }
    | _ => none
  | .rebuild =>
    match state.window with
    | some (.rebuilding _) => some { state with index := state.disk, window := some .closing }
    | _ => none
  | .close =>
    match state.window with
    | some .closing => some { state with window := none }
    | _ => none

def State.start (disk : Pages) : State := ⟨disk, disk, [], [], none⟩

def State.Quiet (state : State) : Prop :=
  state.observed = [] ∧ state.queue = [] ∧ state.window = none

/-! ### What the queue leads to -/

variable {queue : List ChangeEvent} {path : VaultPath}

def settle (disk : Pages) : Pages → List ChangeEvent → Pages
  | index, [] => index
  | index, .upsert path :: rest => settle disk (update index path (disk path)) rest
  | index, .remove path :: rest => settle disk (update index path none) rest
  | _, .baseChanged :: rest => settle disk disk rest

theorem processEvents_eq_settle {disk : Pages}
    (present : ∀ path, .upsert path ∈ queue → disk path ≠ none) :
    ∀ index, processEvents disk index queue = settle disk index queue := by
  induction queue with
  | nil => exact fun _ => rfl
  | cons event rest ih =>
    intro index
    have presentRest := fun path member => present path (mem_cons_of_mem event member)
    cases event with
    | upsert path =>
      have ⟨content, found⟩ := Option.ne_none_iff_exists'.1 (present path mem_cons_self)
      simp only [processEvents, processEvent, settle, found, Option.map_some]
      exact ih presentRest _
    | remove | baseChanged => exact ih presentRest _

theorem settle_congr {disk disk' : Pages} (sameDisk : disk path = disk' path) :
    ∀ {index index' : Pages}, index path = index' path →
      settle disk index queue path = settle disk' index' queue path := by
  induction queue with
  | nil => exact fun same => same
  | cons event rest ih =>
    intro index index' same
    cases event with
    | upsert other =>
      apply ih
      by_cases isPath : path = other
      · rw [← isPath, update_self, update_self, sameDisk]
      · rw [update_of_ne isPath, update_of_ne isPath, same]
    | remove other =>
      apply ih
      by_cases isPath : path = other
      · rw [← isPath, update_self, update_self]
      · rw [update_of_ne isPath, update_of_ne isPath, same]
    | baseChanged => exact ih sameDisk

theorem settle_decides (disk : Pages) (queue : List ChangeEvent) (path : VaultPath) :
    (∀ index index', settle disk index queue path = settle disk index' queue path)
      ∨ ∀ index, settle disk index queue path = index path := by
  induction queue with
  | nil => exact .inr fun _ => rfl
  | cons event rest ih =>
    rcases ih with decided | left
    · cases event with
      | upsert | remove => exact .inl fun _ _ => decided _ _
      | baseChanged => exact .inl fun _ _ => rfl
    · cases event with
      | upsert other | remove other =>
        by_cases isPath : path = other
        · refine .inl fun index index' => ?_
          simp only [settle, left, ← isPath, update_self]
        · refine .inr fun index => ?_
          simp only [settle, left, update_of_ne isPath]
      | baseChanged => exact .inl fun _ _ => rfl

theorem settle_append (disk : Pages) (event : ChangeEvent) :
    ∀ index, settle disk index (queue ++ [event])
      = settle disk (settle disk index queue) [event] := by
  induction queue with
  | nil => exact fun _ => rfl
  | cons first rest ih =>
    intro index
    cases first with
    | upsert | remove | baseChanged => exact ih _

/-! ### Runs that lose no event -/

def State.Covered (state : State) (path : VaultPath) : Prop :=
  path ∈ state.observed ∨ settle state.disk state.index state.queue path = state.disk path

/-- No event is dropped that a rebuild does not make up for, and no batch stops at a page that is
gone. -/
def Caught (state : State) : Action → Prop
  | .deliver path => state.window = some .closing → (state.deliver path).Covered path
  | .process => ∀ path, .upsert path ∈ state.queue → state.disk path ≠ none
  | .finish outcome =>
    outcome.rebuilds = false → ∀ dropped, state.window = some (.syncing dropped) →
      ∀ path ∈ dropped, state.Covered path
  | .rebuild =>
    ∀ dropped, state.window = some (.rebuilding dropped) → ∀ path ∈ dropped,
      path ∈ state.observed ∨ settle state.disk state.disk state.queue path = state.disk path
  | _ => True

def State.Kept (state : State) : Prop := ∀ path, state.Covered path ∨ ∃ dropped, path ∈ dropped
      ∧ (state.window = some (.syncing dropped) ∨ state.window = some (.rebuilding dropped))

variable {state : State}

theorem kept_edit {edited : VaultPath} {content : Option Bytes} (kept : state.Kept) : State.Kept
      { state with
        disk := update state.disk edited content
        observed := edited :: state.observed } := by
  intro path
  rcases kept path with (observed | settled) | lost
  · exact .inl (.inl (mem_cons_of_mem _ observed))
  · by_cases isEdited : path = edited
    · rw [isEdited]
      exact .inl (.inl mem_cons_self)
    · have sameDisk : update state.disk edited content path = state.disk path :=
        update_of_ne isEdited _ _
      refine .inl (.inr ?_)
      show settle (update state.disk edited content) state.index state.queue path
        = update state.disk edited content path
      rw [settle_congr sameDisk rfl, settled, sameDisk]
  · exact .inr lost

theorem covered_deliver {delivered : VaultPath} (other : path ≠ delivered)
    (covered : state.Covered path) : (state.deliver delivered).Covered path := by
  unfold State.deliver
  rcases covered with observed | settled
  · have stays : path ∈ state.observed.erase delivered := (mem_erase_of_ne other).2 observed
    cases state.window with
    | none => exact .inl stays
    | some phase => cases phase <;> exact .inl stays
  · cases state.window with
    | none =>
      right
      show settle state.disk state.index (state.queue ++ [mapDebouncedEvent state.disk delivered])
        path = state.disk path
      rw [settle_append, ← settled]
      unfold mapDebouncedEvent
      split_ifs <;> exact update_of_ne other _ _
    | some phase => cases phase <;> exact .inr settled

theorem covered_queued (notPaused : state.window = none) : (state.deliver path).Covered path := by
  unfold State.deliver
  rw [notPaused]
  right
  show settle state.disk state.index (state.queue ++ [mapDebouncedEvent state.disk path]) path
    = state.disk path
  rw [settle_append]
  unfold mapDebouncedEvent
  split_ifs with present
  · exact update_self _ _ _
  · have absent : state.disk path = none := by simpa using present
    rw [absent]
    exact update_self _ _ _

theorem kept_deliver {delivered : VaultPath} (kept : state.Kept)
    (caught : Caught state (.deliver delivered)) : (state.deliver delivered).Kept := by
  intro path
  by_cases isDelivered : path = delivered
  · rw [isDelivered]
    cases window : state.window with
    | none => exact .inl (covered_queued window)
    | some phase =>
      cases phase with
      | syncing dropped =>
        refine .inr ⟨delivered :: dropped, mem_cons_self, .inl ?_⟩
        simp only [State.deliver, window]
      | rebuilding dropped =>
        refine .inr ⟨delivered :: dropped, mem_cons_self, .inr ?_⟩
        simp only [State.deliver, window]
      | closing => exact .inl (caught window)
  · rcases kept path with covered | ⟨dropped, member, syncing | rebuilding⟩
    · exact .inl (covered_deliver isDelivered covered)
    · refine .inr ⟨delivered :: dropped, mem_cons_of_mem _ member, .inl ?_⟩
      simp only [State.deliver, syncing]
    · refine .inr ⟨delivered :: dropped, mem_cons_of_mem _ member, .inr ?_⟩
      simp only [State.deliver, rebuilding]

theorem kept_process (kept : state.Kept) (caught : Caught state .process) : State.Kept
      { state with index := processEvents state.disk state.index state.queue, queue := [] } := by
  intro path
  rcases kept path with (observed | settled) | lost
  · exact .inl (.inl observed)
  · refine .inl (.inr ?_)
    show processEvents state.disk state.index state.queue path = state.disk path
    rw [processEvents_eq_settle caught]
    exact settled
  · exact .inr lost

theorem kept_closing {dropped : List VaultPath} (kept : state.Kept)
    (syncing : state.window = some (.syncing dropped))
    (covered : ∀ path ∈ dropped, state.Covered path) :
    State.Kept { state with window := some .closing } := by
  intro path
  left
  rcases kept path with stays | ⟨others, member, inSync | inRebuild⟩
  · exact stays
  · rw [syncing] at inSync
    cases inSync
    exact covered path member
  · rw [syncing] at inRebuild
    cases inRebuild

theorem kept_rebuild {dropped : List VaultPath} (kept : state.Kept)
    (rebuilding : state.window = some (.rebuilding dropped))
    (caught : ∀ path ∈ dropped,
      path ∈ state.observed ∨ settle state.disk state.disk state.queue path = state.disk path) :
    State.Kept { state with index := state.disk, window := some .closing } := by
  intro path
  left
  rcases kept path with (observed | settled) | ⟨others, member, inSync | inRebuild⟩
  · exact .inl observed
  · right
    show settle state.disk state.disk state.queue path = state.disk path
    rcases settle_decides state.disk state.queue path with decided | left
    · rw [decided state.disk state.index]
      exact settled
    · exact left state.disk
  · rw [rebuilding] at inSync
    cases inSync
  · rw [rebuilding] at inRebuild
    cases inRebuild
    exact caught path member

theorem kept_step (state : State) (action : Action) (next : State) (kept : state.Kept)
    (caught : Caught state action) (steps : step state action = some next) : next.Kept := by
  cases action with
  | edit path content =>
    rw [← some.inj steps]
    exact kept_edit kept
  | deliver path =>
    simp only [step] at steps
    split_ifs at steps
    rw [← some.inj steps]
    exact kept_deliver kept caught
  | process =>
    rw [← some.inj steps]
    exact kept_process kept caught
  | openWindow =>
    simp only [step] at steps
    split at steps
    · rename_i noWindow
      rw [← some.inj steps]
      intro path
      rcases kept path with covered | ⟨dropped, _, inSync | inRebuild⟩
      · exact .inl covered
      · rw [noWindow] at inSync
        cases inSync
      · rw [noWindow] at inRebuild
        cases inRebuild
    · cases steps
  | finish outcome =>
    simp only [step] at steps
    split at steps
    · rename_i dropped syncing
      rw [← some.inj steps]
      cases rebuilds : outcome.rebuilds with
      | false => exact kept_closing kept syncing (caught rebuilds dropped syncing)
      | true =>
        intro path
        rcases kept path with covered | ⟨others, member, inSync | inRebuild⟩
        · exact .inl covered
        · rw [syncing] at inSync
          cases inSync
          exact .inr ⟨dropped, member, .inr rfl⟩
        · rw [syncing] at inRebuild
          cases inRebuild
    · cases steps
  | rebuild =>
    simp only [step] at steps
    split at steps
    · rename_i dropped rebuilding
      rw [← some.inj steps]
      exact kept_rebuild kept rebuilding (caught dropped rebuilding)
    · cases steps
  | close =>
    simp only [step] at steps
    split at steps
    · rename_i closing
      rw [← some.inj steps]
      intro path
      rcases kept path with covered | ⟨dropped, _, inSync | inRebuild⟩
      · exact .inl covered
      · rw [closing] at inSync
        cases inSync
      · rw [closing] at inRebuild
        cases inRebuild
    · cases steps

theorem kept_start (disk : Pages) : (State.start disk).Kept := fun _ => .inl (.inr rfl)

/-- In a run that loses no event, the index holds the disk whenever nothing is pending. -/
theorem index_holds_disk {disk : Pages} {actions : List Action} {final : State}
    (caught : Throughout step Caught (State.start disk) actions)
    (runs : run step (State.start disk) actions = some final) (quiet : final.Quiet) :
    final.index = final.disk := by
  have kept := invariant_of_throughout kept_step (kept_start disk) caught runs
  have ⟨nothingObserved, nothingQueued, noWindow⟩ := quiet
  funext path
  rcases kept path with (observed | settled) | ⟨dropped, _, inSync | inRebuild⟩
  · rw [nothingObserved] at observed
    exact absurd observed not_mem_nil
  · rw [nothingQueued] at settled
    exact settled
  · rw [noWindow] at inSync
    cases inSync
  · rw [noWindow] at inRebuild
    cases inRebuild

/-! ### Two windows -/

theorem isComponent_editedPage : IsComponent "a.md" :=
  ⟨by decide, by decide, by decide, by decide⟩

def editedPage : VaultPath := .single "a.md" isComponent_editedPage

def emptyVault : Pages := fun _ => none

def windowed (outcome : SyncOutcome) : List Action :=
  [.edit editedPage (some []), .openWindow, .deliver editedPage, .finish outcome]

def afterWindow (index : Pages) : State where
  disk := update emptyVault editedPage (some [])
  index := index
  observed := []
  queue := []
  window := none

theorem index_holds_disk_rebuilt :
    let final := afterWindow (update emptyVault editedPage (some []))
    run step (State.start emptyVault) (windowed (.report true) ++ [.rebuild, .close]) = some final
      ∧ final.index = final.disk := by
  have runs : run step (State.start emptyVault) (windowed (.report true) ++ [.rebuild, .close])
      = some (afterWindow (update emptyVault editedPage (some []))) := by
    simp [run, windowed, step, State.start, State.deliver, SyncOutcome.rebuilds, afterWindow]
  refine ⟨runs, index_holds_disk ?_ runs ⟨rfl, rfl, rfl⟩⟩
  simp [Throughout, windowed, step, State.start, State.deliver, SyncOutcome.rebuilds, Caught, settle]

/-- A sync that changed nothing ends the window without a rebuild: the page stays out of the
index. -/
theorem dropped_event_not_indexed : ¬∀ (disk : Pages) (actions : List Action) (final : State),
      run step (State.start disk) actions = some final → final.Quiet → final.index = final.disk := by
  intro always
  have runs : run step (State.start emptyVault) (windowed (.report false) ++ [.close])
      = some (afterWindow emptyVault) := by
    simp [run, windowed, step, State.start, State.deliver, SyncOutcome.rebuilds, afterWindow]
  have same := congrFun (always _ _ _ runs ⟨rfl, rfl, rfl⟩) editedPage
  simp [afterWindow, emptyVault] at same

end Clepsydra.Sync
