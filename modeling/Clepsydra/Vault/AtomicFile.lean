import Clepsydra.Library.Transitions

/-!
Owns: the conditional replacement of a file, `atomic_replace_if_unchanged`, among other writers.

Proves: it succeeds only on the file it compared, leaves what others left, and overwrites nothing.
-/

namespace Clepsydra.Vault.AtomicFile

open Library.Transitions

abbrev Bytes := List UInt8

/-! ### Directories -/

inductive File where
  | foreign (inode : Nat)
  | candidate
deriving DecidableEq

inductive Name where
  | destination
  | claim (sequence : Nat)
  | temporary (sequence : Nat)
  | outside (name : String)
deriving DecidableEq

def Name.isPrivate : Name → Bool
  | .claim _ | .temporary _ => true
  | .destination | .outside _ => false

abbrev Directory := Name → Option File

def Directory.put (directory : Directory) (name : Name) (file : Option File) : Directory :=
  Function.update directory name file

/-- `rename`: what is at the target is replaced. -/
def Directory.rename (directory : Directory) (source target : Name) : Directory :=
  (directory.put source none).put target (directory source)

@[simp] theorem Directory.put_same (directory : Directory) (name : Name) (file : Option File) :
    directory.put name file name = file := by
  simp only [put, Function.update_self]

@[simp] theorem Directory.put_of_ne {name other : Name} (different : other ≠ name)
    (directory : Directory) (file : Option File) :
    directory.put name file other = directory other := by
  rw [put, Function.update_of_ne different]

@[simp] theorem Directory.rename_target (directory : Directory) (source target : Name) :
    directory.rename source target target = directory source :=
  put_same _ target _

theorem Directory.rename_of_ne {source target name : Name} (notSource : name ≠ source)
    (notTarget : name ≠ target) (directory : Directory) :
    directory.rename source target name = directory name := by
  rw [rename, put_of_ne notTarget, put_of_ne notSource]

theorem Directory.ne_of_put {directory : Directory} {file : File}
    (absent : ∀ name, directory name ≠ some file) (removed name : Name) :
    directory.put removed none name ≠ some file := by
  by_cases same : name = removed
  · rw [same, put_same]
    exact nofun
  · rw [put_of_ne same]
    exact absent name

theorem Directory.ne_of_rename {directory : Directory} {file : File}
    (absent : ∀ name, directory name ≠ some file) (source target name : Name) :
    directory.rename source target name ≠ some file := by
  by_cases atTarget : name = target
  · rw [atTarget, rename_target]
    exact absent source
  · rw [rename, put_of_ne atTarget]
    exact ne_of_put absent source name

/-! ### The call -/

inductive Result where
  | ok
  | stale
  | notPublished
  | publishedButNotDurable

/-- The primitive that comes next. A claim is restored after a stale attempt, or before a failure is
returned. -/
inductive Stage where
  | opening
  | inspecting (observed : File)
  | reading (observed : File)
  | claiming (observed : File)
  | inspectingClaim (observed : File) (claim : Nat)
  | readingClaim (claim : Nat)
  | creating (claim : Nat)
  | permitting (claim temporary : Nat)
  | writing (claim temporary : Nat)
  | publishing (claim temporary : Nat)
  | cleaning (claim temporary : Nat) (occupied : Bool)
  | droppingClaim (claim : Nat)
  | restoring (claim : Nat) (failure : Option Result)
  | syncingRestored (failure : Option Result)
  | syncing (claim : Nat)
  | removingClaim (claim : Nat)
  | syncingRemoval
  | returned (result : Result)

inductive Rename where
  | claimed (file : File)
  | published
  | restored

structure State where
  directory : Directory
  /-- What is in the file the call creates. -/
  candidate : Bytes
  /-- `TEMP_FILE_SEQUENCE`. -/
  sequence : Nat
  stage : Stage
  observed : Option File
  renames : List Rename
  /-- What the other writers have left, and where. -/
  left : Directory

section Call

variable (bytes : Nat → Bytes) (expected content : Bytes)

def State.read (state : State) : File → Bytes
  | .foreign inode => bytes inode
  | .candidate => state.candidate

/-- What `atomic_replace_if_unchanged` starts from. -/
def State.initial (entries : Name → Option Nat) : State where
  directory := fun name => (entries name).map .foreign
  candidate := []
  sequence := 0
  stage := .opening
  observed := none
  renames := []
  left := fun name => (entries name).map .foreign

def State.goto (state : State) (stage : Stage) : State := { state with stage }

def State.return (state : State) (result : Result) : State := state.goto (.returned result)

/-- `claim_destination`, one round of its loop. -/
def State.claim (state : State) (observed : File) : State :=
  match state.directory .destination with
  | none => state.return .stale
  | some file =>
    match state.directory (.claim state.sequence) with
    | some _ => { state with sequence := state.sequence + 1 }
    | none =>
      { state with
        directory := state.directory.rename .destination (.claim state.sequence)
        sequence := state.sequence + 1
        stage := .inspectingClaim observed state.sequence
        renames := state.renames ++ [.claimed file] }

/-- `create_temporary_file`, one round of its loop. -/
def State.create (state : State) (claim : Nat) : State :=
  match state.directory (.temporary state.sequence) with
  | some _ => { state with sequence := state.sequence + 1 }
  | none =>
    { state with
      directory := state.directory.put (.temporary state.sequence) (some .candidate)
      candidate := []
      sequence := state.sequence + 1
      stage := .permitting claim state.sequence }

/-- `restore_claim` failed. -/
def State.notRestored (state : State) (failure : Option Result) : State :=
  state.return (failure.getD .notPublished)

/-- One primitive of the call; `succeeds` says whether the system carries it out. -/
def State.call (state : State) (succeeds : Bool) : Option State :=
  match state.stage with
  | .opening =>
    match state.directory .destination, succeeds with
    | none, _ => some (state.return .stale)
    | some _, false => some (state.return .notPublished)
    | some file, true => some { state.goto (.inspecting file) with observed := some file }
  | .inspecting observed =>
    some (if succeeds then state.goto (.reading observed) else state.return .notPublished)
  | .reading observed =>
    some (
      if !succeeds then state.return .notPublished
      else if state.read bytes observed ≠ expected then state.return .stale
      else state.goto (.claiming observed))
  | .claiming observed =>
    some (if succeeds then state.claim observed else state.return .notPublished)
  | .inspectingClaim observed claim =>
    some (
      if !succeeds then state.goto (.restoring claim (some .notPublished))
      else if state.directory (.claim claim) ≠ some observed then
        state.goto (.restoring claim none)
      else state.goto (.readingClaim claim))
  | .readingClaim claim =>
    some (
      if !succeeds then state.goto (.restoring claim (some .notPublished))
      else if (state.directory (.claim claim)).map (state.read bytes) ≠ some expected then
        state.goto (.restoring claim none)
      else state.goto (.creating claim))
  | .creating claim =>
    some (
      if succeeds then state.create claim
      else state.goto (.restoring claim (some .notPublished)))
  | .permitting claim temporary =>
    some (
      if succeeds then state.goto (.writing claim temporary)
      else state.goto (.cleaning claim temporary false))
  | .writing claim temporary =>
    some (
      if succeeds then { state.goto (.publishing claim temporary) with candidate := content }
      else state.goto (.cleaning claim temporary false))
  | .publishing claim temporary =>
    -- `install_noreplace`
    match state.directory .destination, succeeds with
    | some _, _ => some (state.goto (.cleaning claim temporary true))
    | none, false => some (state.goto (.cleaning claim temporary false))
    | none, true =>
      some { state.goto (.syncing claim) with
        directory := state.directory.rename (.temporary temporary) .destination
        renames := state.renames ++ [.published] }
  | .cleaning claim temporary occupied =>
    let cleaned :=
      if succeeds then
        { state with directory := state.directory.put (.temporary temporary) none }
      else state
    some (
      if occupied then cleaned.goto (.droppingClaim claim)
      else cleaned.goto (.restoring claim (some .notPublished)))
  | .droppingClaim claim =>
    let dropped :=
      if succeeds then { state with directory := state.directory.put (.claim claim) none }
      else state
    some (dropped.return .stale)
  | .restoring claim failure =>
    match state.directory .destination, succeeds with
    | none, true =>
      some { state.goto (.syncingRestored failure) with
        directory := state.directory.rename (.claim claim) .destination
        renames := state.renames ++ [.restored] }
    | _, _ => some (state.notRestored failure)
  | .syncingRestored failure =>
    some (
      if succeeds then state.return (failure.getD .stale)
      else state.return (failure.getD .publishedButNotDurable))
  | .syncing claim =>
    some (
      if succeeds then state.goto (.removingClaim claim)
      else state.goto (.restoring claim (some .publishedButNotDurable)))
  | .removingClaim claim =>
    some (
      if succeeds then
        { state.goto .syncingRemoval with
          directory := state.directory.put (.claim claim) none }
      else state.return .publishedButNotDurable)
  | .syncingRemoval =>
    some (if succeeds then state.return .ok else state.return .publishedButNotDurable)
  | .returned _ => none

/-! ### Other writers -/

inductive Foreign where
  | replace (source : String)
  | moveAway (target : String)
  | remove

def State.foreign (state : State) : Foreign → Option State
  | .replace source =>
    (state.directory (.outside source)).map fun file =>
      { state with
        directory := state.directory.rename (.outside source) .destination
        left := (state.left.put (.outside source) none).put .destination (some file) }
  | .moveAway target =>
    (state.directory .destination).map fun file =>
      { state with
        directory := state.directory.rename .destination (.outside target)
        left := (state.left.put .destination none).put (.outside target) (some file) }
  | .remove =>
    (state.directory .destination).map fun _ =>
      { state with
        directory := state.directory.put .destination none
        left := state.left.put .destination none }

inductive Action where
  | call (succeeds : Bool)
  | foreign (writer : Foreign)

def step (state : State) : Action → Option State
  | .call succeeds => state.call bytes expected content succeeds
  | .foreign writer => state.foreign writer

/-! ### What each stage may rely on -/

namespace State

variable (state next : State)

def Untouched : Prop := state.left .destination = state.directory .destination

def Unclaimed : Prop := state.Untouched ∧ state.renames = []

def Kept : Prop :=
  ∀ file, state.left .destination = some file → state.directory .destination = some file

def Aside (claim : Nat) : Prop :=
  ∃ file, state.directory (.claim claim) = some file ∧ state.renames = [.claimed file] ∧
    (state.left .destination = some file ∧ state.directory .destination = none ∨ state.Untouched)

def Opened (observed : File) : Prop :=
  state.observed = some observed ∧ ∃ inode, observed = .foreign inode

def Matching (observed : File) : Prop :=
  ∃ inode, observed = .foreign inode ∧ state.observed = some observed ∧ bytes inode = expected

def Compared (later : List Rename) : Prop :=
  ∃ inode, state.observed = some (.foreign inode) ∧ bytes inode = expected ∧
    state.renames = .claimed (.foreign inode) :: later

end State

def Result.IsFailure (result : Result) : Prop :=
  result = .notPublished ∨ result = .publishedButNotDurable

def State.StageHolds (state : State) : Stage → Prop
  | .opening => state.Unclaimed ∧ ∀ name, state.directory name ≠ some .candidate
  | .inspecting observed | .reading observed => state.Unclaimed ∧ state.Opened observed
  | .claiming observed => state.Unclaimed ∧ state.Matching bytes expected observed
  | .inspectingClaim observed claim =>
    state.Aside claim ∧ state.Matching bytes expected observed
  | .readingClaim claim | .creating claim | .permitting claim _ | .writing claim _
  | .publishing claim _ => state.Aside claim ∧ state.Compared bytes expected []
  | .cleaning _ _ true | .droppingClaim _ | .syncingRestored none | .returned .stale => state.Kept
  | .restoring claim none => state.Aside claim
  | .restoring _ (some result) | .syncingRestored (some result) => result.IsFailure
  | .syncing _ | .removingClaim _ | .syncingRemoval | .returned .ok =>
    state.Compared bytes expected [.published]
  | .cleaning _ _ false | .returned _ => True

def State.Sound (state : State) : Prop :=
  (∀ name, state.left (.outside name) = state.directory (.outside name)) ∧
    state.StageHolds bytes expected state.stage

/-! ### What other writers keep -/

structure State.Visited (state next : State) : Prop where
  stage : next.stage = state.stage
  observed : next.observed = state.observed
  renames : next.renames = state.renames
  claims : ∀ claim, next.directory (.claim claim) = state.directory (.claim claim)
  path : next.Untouched
  outside : ∀ name, next.left (.outside name) = next.directory (.outside name)
  nothingNew : (∀ name, state.directory name ≠ some .candidate) →
    ∀ name, next.directory name ≠ some .candidate

theorem Directory.put_congr {left directory : Directory} {name : Name}
    (agree : left name = directory name) (changed : Name) (file : Option File) :
    left.put changed file name = directory.put changed file name := by
  by_cases same : name = changed
  · rw [same, put_same, put_same]
  · rw [put_of_ne same, put_of_ne same, agree]

theorem visited_of_foreign {state next : State} {writer : Foreign}
    (outside : ∀ name, state.left (.outside name) = state.directory (.outside name))
    (steps : state.foreign writer = some next) : state.Visited next := by
  cases writer with
  | replace source =>
    simp only [State.foreign, Option.map_eq_some_iff] at steps
    obtain ⟨file, found, rfl⟩ := steps
    refine ⟨rfl, rfl, rfl, ?_, ?_, fun name => ?_, fun absent => ?_⟩
    · simp [Directory.rename]
    · simp [State.Untouched, found]
    · simp only [Directory.rename, found]
      exact Directory.put_congr (Directory.put_congr (outside name) _ _) _ _
    · exact Directory.ne_of_rename absent _ _
  | moveAway target =>
    simp only [State.foreign, Option.map_eq_some_iff] at steps
    obtain ⟨file, found, rfl⟩ := steps
    refine ⟨rfl, rfl, rfl, ?_, ?_, fun name => ?_, fun absent => ?_⟩
    · simp [Directory.rename]
    · simp [State.Untouched, Directory.rename]
    · simp only [Directory.rename, found]
      exact Directory.put_congr (Directory.put_congr (outside name) _ _) _ _
    · exact Directory.ne_of_rename absent _ _
  | remove =>
    simp only [State.foreign, Option.map_eq_some_iff] at steps
    obtain ⟨file, found, rfl⟩ := steps
    refine ⟨rfl, rfl, rfl, ?_, ?_, fun name => ?_, fun absent name => ?_⟩
    · simp
    · simp [State.Untouched]
    · exact Directory.put_congr (outside name) .destination none
    · exact Directory.ne_of_put absent _ name

section Visits

variable {bytes expected} {state next : State} (visited : state.Visited next)
include visited

theorem unclaimed_of_visited (unclaimed : state.Unclaimed) : next.Unclaimed := by
  refine ⟨visited.path, ?_⟩
  rw [visited.renames]
  exact unclaimed.2

theorem aside_of_visited {claim : Nat} (aside : state.Aside claim) : next.Aside claim := by
  obtain ⟨file, found, claimed, -⟩ := aside
  refine ⟨file, ?_, ?_, Or.inr visited.path⟩
  · rw [visited.claims, found]
  · rw [visited.renames, claimed]

theorem kept_of_visited : next.Kept := by
  intro file placed
  rw [← visited.path, placed]

theorem opened_of_visited {observed : File} (opened : state.Opened observed) :
    next.Opened observed := by
  rw [State.Opened, visited.observed]
  exact opened

theorem matching_of_visited {observed : File} (matching : state.Matching bytes expected observed) :
    next.Matching bytes expected observed := by
  rw [State.Matching, visited.observed]
  exact matching

theorem compared_of_visited {later : List Rename}
    (compared : state.Compared bytes expected later) : next.Compared bytes expected later := by
  rw [State.Compared, visited.observed, visited.renames]
  exact compared

theorem stageHolds_of_visited {stage : Stage} (holds : state.StageHolds bytes expected stage) :
    next.StageHolds bytes expected stage := by
  cases stage with
  | opening => exact ⟨unclaimed_of_visited visited holds.1, visited.nothingNew holds.2⟩
  | inspecting | reading =>
    exact ⟨unclaimed_of_visited visited holds.1, opened_of_visited visited holds.2⟩
  | claiming =>
    exact ⟨unclaimed_of_visited visited holds.1, matching_of_visited visited holds.2⟩
  | inspectingClaim =>
    exact ⟨aside_of_visited visited holds.1, matching_of_visited visited holds.2⟩
  | readingClaim | creating | permitting | writing | publishing =>
    exact ⟨aside_of_visited visited holds.1, compared_of_visited visited holds.2⟩
  | cleaning _ _ occupied =>
    cases occupied with
    | true => exact kept_of_visited visited
    | false => trivial
  | droppingClaim => exact kept_of_visited visited
  | restoring _ failure =>
    cases failure with
    | none => exact aside_of_visited visited holds
    | some => exact holds
  | syncingRestored failure =>
    cases failure with
    | none => exact kept_of_visited visited
    | some => exact holds
  | syncing | removingClaim | syncingRemoval => exact compared_of_visited visited holds
  | returned result =>
    cases result with
    | ok => exact compared_of_visited visited holds
    | stale => exact kept_of_visited visited
    | notPublished | publishedButNotDurable => trivial

theorem sound_of_visited (sound : state.Sound bytes expected) : next.Sound bytes expected := by
  refine ⟨visited.outside, ?_⟩
  rw [visited.stage]
  exact stageHolds_of_visited visited sound.2

end Visits

/-! ### What the call keeps -/

section Calls

-- every lemma of this section is about one stage of a call
attribute [local simp] State.call

variable {bytes expected content} {state next : State} {succeeds : Bool}

theorem kept_of_untouched (untouched : state.Untouched) : state.Kept := by
  intro file placed
  rw [← untouched, placed]

variable {claim : Nat}

theorem kept_of_aside {file : File} (aside : state.Aside claim)
    (taken : state.directory .destination = some file) : state.Kept := by
  obtain ⟨_, _, _, absent | untouched⟩ := aside
  · rw [absent.2] at taken
    contradiction
  · exact kept_of_untouched untouched

variable (sound : state.Sound bytes expected)

include sound

theorem sound_goto {stage : Stage} (holds : state.StageHolds bytes expected stage) :
    (state.goto stage).Sound bytes expected := by
  refine ⟨sound.1, ?_⟩
  show (state.goto stage).StageHolds bytes expected stage
  cases stage with
  | returned result => cases result <;> exact holds
  | restoring _ failure | syncingRestored failure => cases failure <;> exact holds
  | cleaning _ _ occupied => cases occupied <;> exact holds
  | _ => exact holds

theorem sound_claim {observed : File} (unclaimed : state.Unclaimed)
    (matching : state.Matching bytes expected observed)
    (claiming : state.stage = .claiming observed) :
    (state.claim observed).Sound bytes expected := by
  unfold State.claim
  split
  · exact sound_goto sound (kept_of_untouched unclaimed.1)
  · rename_i file found
    split
    · refine ⟨sound.1, ?_⟩
      rw [claiming]
      exact ⟨unclaimed, matching⟩
    · refine ⟨fun name => ?_, ⟨file, ?_, ?_, Or.inl ⟨?_, ?_⟩⟩, matching⟩
      · simp [Directory.rename, sound.1 name]
      · simp [found]
      · simp [unclaimed.2]
      · rw [← found]
        exact unclaimed.1
      · simp [Directory.rename]

theorem sound_create (aside : state.Aside claim) (compared : state.Compared bytes expected [])
    (creating : state.stage = .creating claim) :
    (state.create claim).Sound bytes expected := by
  unfold State.create
  split
  · refine ⟨sound.1, ?_⟩
    rw [creating]
    exact ⟨aside, compared⟩
  · have ⟨file, found, claimed, place⟩ := aside
    refine ⟨fun name => ?_, ⟨file, ?_, claimed, ?_⟩, compared⟩
    · simp [sound.1 name]
    · simp [found]
    · simpa [State.Untouched] using place

theorem sound_return_failure {result : Result} (failure : result.IsFailure) :
    (state.return result).Sound bytes expected := by
  obtain rfl | rfl := failure
  · exact sound_goto sound trivial
  · exact sound_goto sound trivial

variable (steps : state.call bytes expected content succeeds = some next)

include steps

theorem sound_opening (opening : state.stage = .opening) :
    next.Sound bytes expected := by
  have holds := sound.2
  rw [opening] at holds
  simp only [State.call, opening] at steps
  split at steps
  · cases steps
    exact sound_goto sound (kept_of_untouched holds.1.1)
  · cases steps
    exact sound_goto sound trivial
  · rename_i file found
    cases steps
    cases file with
    | foreign inode => exact ⟨sound.1, holds.1, rfl, inode, rfl⟩
    | candidate => exact absurd found (holds.2 _)

theorem sound_reading {observed : File} (reading : state.stage = .reading observed) :
    next.Sound bytes expected := by
  have holds := sound.2
  rw [reading] at holds
  obtain ⟨unclaimed, opened, inode, rfl⟩ := holds
  simp only [State.call, reading, Option.some.injEq] at steps
  rw [← steps]
  split_ifs with failed differs
  · exact sound_goto sound trivial
  · exact sound_goto sound (kept_of_untouched unclaimed.1)
  · exact sound_goto sound ⟨unclaimed, inode, rfl, opened, not_not.1 differs⟩

/-- The claimed file is private, so it cannot be exchanged any more. -/
theorem sound_inspectingClaim {observed : File}
    (inspecting : state.stage = .inspectingClaim observed claim) :
    next.Sound bytes expected := by
  have holds := sound.2
  rw [inspecting] at holds
  simp only [State.call, inspecting, Option.some.injEq] at steps
  rw [← steps]
  split_ifs with failed differs
  · exact sound_goto sound (Or.inl rfl)
  · exact sound_goto sound holds.1
  · refine sound_goto sound ⟨holds.1, ?_⟩
    obtain ⟨⟨file, found, claimed, -⟩, inode, rfl, opened, equal⟩ := holds
    rw [not_not, found] at differs
    rw [Option.some.inj differs] at claimed
    exact ⟨inode, opened, equal, claimed⟩

theorem sound_publishing {temporary : Nat} (publishing : state.stage = .publishing claim temporary) :
    next.Sound bytes expected := by
  have holds := sound.2
  rw [publishing] at holds
  simp only [State.call, publishing] at steps
  split at steps
  · rename_i taken
    cases steps
    exact sound_goto sound (kept_of_aside holds.1 taken)
  · cases steps
    exact sound_goto sound trivial
  · cases steps
    refine ⟨fun name => ?_, holds.2.imp fun inode facts => ⟨facts.1, facts.2.1, ?_⟩⟩
    · simp [Directory.rename, sound.1 name, State.goto]
    · show state.renames ++ [.published] = _
      rw [facts.2.2]
      rfl

theorem sound_cleaning {temporary : Nat} {occupied : Bool}
    (cleaning : state.stage = .cleaning claim temporary occupied) :
    next.Sound bytes expected := by
  have holds := sound.2
  rw [cleaning] at holds
  simp only [State.call, cleaning, Option.some.injEq] at steps
  rw [← steps]
  have outside : ∀ name, state.left (.outside name) =
      state.directory.put (.temporary temporary) none (.outside name) := by
    simp [sound.1]
  cases occupied with
  | true =>
    cases succeeds with
    | true =>
      refine ⟨outside, fun file placed => ?_⟩
      simpa [State.goto] using holds file placed
    | false => exact ⟨sound.1, holds⟩
  | false =>
    cases succeeds with
    | true => exact ⟨outside, Or.inl rfl⟩
    | false => exact ⟨sound.1, Or.inl rfl⟩

theorem sound_droppingClaim (dropping : state.stage = .droppingClaim claim) :
    next.Sound bytes expected := by
  have holds := sound.2
  rw [dropping] at holds
  simp only [State.call, dropping, Option.some.injEq] at steps
  rw [← steps]
  cases succeeds with
  | true =>
    refine ⟨fun name => ?_, fun file placed => ?_⟩
    · simp [State.return, State.goto, sound.1]
    · simpa [State.return, State.goto] using holds file placed
  | false => exact ⟨sound.1, holds⟩

theorem sound_restoring {failure : Option Result}
    (restoring : state.stage = .restoring claim failure) :
    next.Sound bytes expected := by
  have holds := sound.2
  rw [restoring] at holds
  simp only [State.call, restoring] at steps
  split at steps
  · rename_i absent
    cases steps
    refine ⟨fun name => ?_, ?_⟩
    · simp [Directory.rename, State.goto, sound.1]
    · cases failure with
      | some => exact holds
      | none =>
        -- nothing but the claimed file can have been left at the empty path
        obtain ⟨file, found, -, aside | untouched⟩ := holds
        · intro other placed
          rw [← found] at aside
          simpa [State.goto, ← aside.1] using placed
        · intro other placed
          rw [State.Untouched, absent] at untouched
          exact absurd (untouched.symm.trans placed) nofun
  · cases steps
    cases failure with
    | some => exact sound_return_failure sound holds
    | none => exact sound_goto sound trivial

theorem sound_syncingRestored {failure : Option Result}
    (syncing : state.stage = .syncingRestored failure) :
    next.Sound bytes expected := by
  have holds := sound.2
  rw [syncing] at holds
  simp only [State.call, syncing, Option.some.injEq] at steps
  rw [← steps]
  cases failure with
  | none =>
    split
    · exact sound_goto sound holds
    · exact sound_goto sound trivial
  | some => split <;> exact sound_return_failure sound holds

theorem sound_removingClaim (removing : state.stage = .removingClaim claim) :
    next.Sound bytes expected := by
  have holds := sound.2
  rw [removing] at holds
  simp only [State.call, removing, Option.some.injEq] at steps
  rw [← steps]
  split
  · refine ⟨fun name => ?_, holds⟩
    simp [State.goto, sound.1]
  · exact sound_goto sound trivial

theorem sound_of_call : next.Sound bytes expected := by
  have holds := sound.2
  cases atStage : state.stage
  case opening => exact sound_opening sound steps atStage
  case reading => exact sound_reading sound steps atStage
  case inspectingClaim => exact sound_inspectingClaim sound steps atStage
  case publishing => exact sound_publishing sound steps atStage
  case cleaning => exact sound_cleaning sound steps atStage
  case droppingClaim => exact sound_droppingClaim sound steps atStage
  case restoring => exact sound_restoring sound steps atStage
  case syncingRestored => exact sound_syncingRestored sound steps atStage
  case removingClaim => exact sound_removingClaim sound steps atStage
  all_goals
    rw [atStage] at holds
    simp only [State.call, atStage, Option.some.injEq, reduceCtorEq] at steps
  all_goals rw [← steps]
  case claiming =>
    split
    · exact sound_claim sound holds.1 holds.2 atStage
    · exact sound_goto sound trivial
  case creating =>
    split
    · exact sound_create sound holds.1 holds.2 atStage
    · exact sound_goto sound (Or.inl rfl)
  case readingClaim =>
    split_ifs
    · exact sound_goto sound (Or.inl rfl)
    · exact sound_goto sound holds.1
    · exact sound_goto sound holds
  case inspecting | permitting | syncingRemoval =>
    split
    · exact sound_goto sound holds
    · exact sound_goto sound trivial
  case writing =>
    split
    · exact ⟨sound.1, holds⟩
    · exact sound_goto sound trivial
  case syncing =>
    split
    · exact sound_goto sound holds
    · exact sound_goto sound (Or.inr rfl)

omit sound steps

/-- Nothing, a move of the path's file to a free private name, a change of a private name, or a
private file brought to the empty path. -/
def Directory.Changes (before after : Directory) : Prop := after = before ∨
  (∃ claim, before (.claim claim) = none ∧ after = before.rename .destination (.claim claim)) ∨
  (∃ name file, name.isPrivate = true ∧ after = before.put name file) ∨
  (∃ name, name.isPrivate = true ∧ before .destination = none ∧
    after = before.rename name .destination)

theorem changes_claim (observed : File) :
    state.directory.Changes (state.claim observed).directory := by
  unfold State.claim
  split
  · exact Or.inl rfl
  · split
    · exact Or.inl rfl
    · rename_i isFree
      exact Or.inr (Or.inl ⟨_, isFree, rfl⟩)

theorem changes_create (claim : Nat) : state.directory.Changes (state.create claim).directory := by
  unfold State.create
  split
  · exact Or.inl rfl
  · exact Or.inr (Or.inr (Or.inl ⟨_, _, rfl, rfl⟩))

theorem changes_of_call (steps : state.call bytes expected content succeeds = some next) :
    state.directory.Changes next.directory := by
  cases atStage : state.stage
  all_goals simp only [State.call, atStage, Option.some.injEq, reduceCtorEq] at steps
  case opening => split at steps <;> cases steps <;> exact Or.inl rfl
  case publishing =>
    split at steps
    · cases steps
      exact Or.inl rfl
    · cases steps
      exact Or.inl rfl
    · rename_i absent
      cases steps
      exact Or.inr (Or.inr (Or.inr ⟨_, rfl, absent, rfl⟩))
  case restoring =>
    split at steps
    · rename_i absent
      cases steps
      exact Or.inr (Or.inr (Or.inr ⟨_, rfl, absent, rfl⟩))
    · cases steps
      exact Or.inl rfl
  all_goals rw [← steps]
  case claiming =>
    split
    · exact changes_claim _
    · exact Or.inl rfl
  case creating =>
    split
    · exact changes_create _
    · exact Or.inl rfl
  case cleaning _ _ occupied =>
    cases succeeds with
    | true => cases occupied <;> exact Or.inr (Or.inr (Or.inl ⟨_, none, rfl, rfl⟩))
    | false => cases occupied <;> exact Or.inl rfl
  case droppingClaim | removingClaim =>
    cases succeeds with
    | true => exact Or.inr (Or.inr (Or.inl ⟨_, none, rfl, rfl⟩))
    | false => exact Or.inl rfl
  all_goals split_ifs <;> exact Or.inl rfl

theorem kept_of_changes {before after : Directory} (changes : before.Changes after) {name : Name}
    {file : File} (isPublic : name.isPrivate = false) (found : before name = some file) :
    after name = some file ∨
    name = .destination ∧ ∃ claim, before (.claim claim) = none ∧
      after = before.rename .destination (.claim claim) := by
  have differs : ∀ other, other.isPrivate = true → name ≠ other := by
    intro other isPrivate same
    rw [same, isPrivate] at isPublic
    contradiction
  obtain rfl | ⟨claim, isFree, rfl⟩ | ⟨other, placed, isPrivate, rfl⟩ |
    ⟨other, isPrivate, absent, rfl⟩ := changes
  · exact Or.inl found
  · by_cases same : name = .destination
    · exact Or.inr ⟨same, claim, isFree, rfl⟩
    · rw [Directory.rename_of_ne same (differs _ rfl)]
      exact Or.inl found
  · rw [Directory.put_of_ne (differs other isPrivate)]
    exact Or.inl found
  · have elsewhere : name ≠ .destination := by
      intro same
      rw [same, absent] at found
      contradiction
    rw [Directory.rename_of_ne (differs other isPrivate) elsewhere]
    exact Or.inl found

end Calls

theorem sound_of_run {bytes expected content} {entries : Name → Option Nat}
    {actions : List Action} {state : State}
    (runs : run (step bytes expected content) (State.initial entries) actions = some state) :
    state.Sound bytes expected := by
  refine invariant_of_run (fun current action next sound steps => ?_) ?_ runs
  · cases action with
    | call succeeds => exact sound_of_call sound steps
    | foreign writer => exact sound_of_visited (visited_of_foreign sound.1 steps) sound
  · refine ⟨fun _ => rfl, ⟨rfl, rfl⟩, fun name => ?_⟩
    simp [State.initial]

/-- The call succeeds only if the file it claimed is the one it had opened, with the expected
bytes; no primitive replaces a file. -/
theorem replace_loses_nothing (entries : Name → Option Nat) (actions : List Action) (state : State)
    (runs : run (step bytes expected content) (State.initial entries) actions = some state) :
    (state.stage = .returned .ok →
      ∃ inode, state.observed = some (.foreign inode) ∧ bytes inode = expected ∧
        state.renames = [.claimed (.foreign inode), .published]) ∧
    (state.stage = .returned .stale → ∀ name file, name.isPrivate = false →
      state.left name = some file → state.directory name = some file) ∧
    ∀ succeeds next name file, state.call bytes expected content succeeds = some next →
      name.isPrivate = false → state.directory name = some file →
        next.directory name = some file ∨
        name = .destination ∧ ∃ claim, state.directory (.claim claim) = none ∧
          next.directory = state.directory.rename .destination (.claim claim) := by
  have sound := sound_of_run runs
  refine ⟨fun returned => ?_, fun returned name file isPublic placed => ?_,
    fun succeeds next name file steps isPublic found => ?_⟩
  · have holds := sound.2
    rw [returned] at holds
    exact holds
  · have holds := sound.2
    rw [returned] at holds
    cases name with
    | destination => exact holds file placed
    | outside name => rw [← sound.1 name, placed]
    | claim | temporary => contradiction
  · exact kept_of_changes (changes_of_call steps) isPublic found

end Call

def stagedEntries : Name → Option Nat
  | .destination => some 0
  | .outside "staged" => some 1
  | _ => none

/-- A file with the same bytes is renamed onto the path: the call gives it back as stale. -/
theorem replace_loses_nothing_answer :
    ∃ state, run (step (fun _ => [1]) [1] [2]) (State.initial stagedEntries)
        [.call true, .call true, .call true, .foreign (.replace "staged"), .call true, .call true,
          .call true, .call true] = some state ∧
      state.stage = .returned .stale ∧ state.directory .destination = some (.foreign 1) ∧
      ∀ name file, name.isPrivate = false → state.left name = some file →
        state.directory name = some file :=
  ⟨_, rfl, rfl, rfl, (replace_loses_nothing (fun _ => [1]) [1] [2] stagedEntries
    [.call true, .call true, .call true, .foreign (.replace "staged"), .call true, .call true,
      .call true, .call true] _ rfl).2.1 rfl⟩

end Clepsydra.Vault.AtomicFile
