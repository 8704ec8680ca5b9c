import Clepsydra.Board.Blockers
import Clepsydra.Library.Fallible

/-!
Owns: the rules of a task patch, which is checked against a snapshot of the board.

Proves: which blockers the changed page has.
-/

namespace Clepsydra.Board

open Library Library.Fallible Vault

/-! ### Patches -/

structure Characters extends Unicode where
  toUppercase : String → String
  isAlphanumeric : Char → Bool

inductive FieldChange where
  | keep
  | clear
  | set (value : String)

structure TaskPatch where
  title : Option String
  tags : Option (List String)
  status : Option String
  priority : Option String
  project : FieldChange
  cycle : FieldChange
  assignee : FieldChange
  estimate : FieldChange
  taskType : FieldChange
  due : FieldChange
  start : FieldChange
  hold : FieldChange
  link : FieldChange
  blockedBy : Option (List String)

def TaskPatch.unchanged : TaskPatch :=
  ⟨none, none, none, none, .keep, .keep, .keep, .keep, .keep, .keep, .keep, .keep, .keep, none⟩

structure BoardLookups where
  cycleStems : List String
  projectSlugs : List String
  tasks : TaskNodes

inductive CodeLookup where
  | found (code : String)
  | notFound
  | ambiguous (candidates : List String)

inductive CycleRefError where
  | unknown (input : String)
  | ambiguous (input : String) (candidates : List String)

inductive SlugError where
  | empty
  | emptySegment
  | dotSegment
  | paddedSegment
  | illegalCharacter

inductive TaskPatchError where
  | unknownStatus (status : String)
  | unknownPriority (priority : String)
  | unknownTaskType (taskType : String)
  | cycle (error : CycleRefError)
  | invalidProjectSlug (slug : String) (reason : SlugError)
  | unknownProject (slug : String)
  | unknownBlocker (input : String)
  | ambiguousBlocker (input : String) (candidates : List String)
  | selfBlocker (code : String)
  | blockerCycle (path : List String)

inductive ProjectAssignment where
  | unchanged
  | set (project : String)
  | clear

structure Applied where
  project : ProjectAssignment
  reconcile : Bool

/-! ### Rules -/

def columns : List String := [defaultStatus, "TRIAGE", "FIELD", "REVIEW", "SEALED"]

def priorities : List String := ["P0", "P1", "P2", "P3"]

def taskTypes : List String := ["FEATURE", "FIX", "TASK", "STORY", "SPIKE"]

def backlog : String := "BACKLOG"

/-- `str::to_ascii_lowercase`. -/
def asciiLowercase (text : String) : String := String.ofList (text.toList.map Char.toLower)

/-- `resolve_prefix`. -/
def resolvePrefix (candidates : List String) (input : String) : CodeLookup :=
  let needle := asciiLowercase (trim input)
  if needle = "" then .notFound
  else
    match candidates.find? fun candidate => asciiLowercase candidate = needle with
    | some exact => .found exact
    | none =>
      match candidates.filter fun candidate =>
          needle.toList.isPrefixOf (asciiLowercase candidate).toList with
      | [] => .notFound
      | [code] => .found code
      | several => .ambiguous several

def checkVocabulary (valid : List String) (failure : String → TaskPatchError) :
    Option String → Except TaskPatchError Unit
  | none => .ok ()
  | some value => if value ∈ valid then .ok () else .error (failure value)

def resolveTaskType (characters : Characters) : FieldChange → Except TaskPatchError FieldChange
  | .set input =>
    let upper := characters.toUppercase (trim input)
    if upper ∈ taskTypes then .ok (.set upper) else .error (.unknownTaskType input)
  | other => .ok other

/-- `BoardLookups::resolve_cycle`, where `BACKLOG` clears. -/
def resolveCycle (lookups : BoardLookups) : FieldChange → Except TaskPatchError FieldChange
  | .set input =>
    if input = backlog then .ok .clear
    else
      match resolvePrefix lookups.cycleStems input with
      | .found code => .ok (.set code)
      | .notFound => .error (.cycle (.unknown input))
      | .ambiguous candidates => .error (.cycle (.ambiguous input candidates))
  | other => .ok other

def validateSegment (characters : Characters) (segment : List Char) : Except SlugError Unit :=
  if segment = [] then .error .emptySegment
  else if segment = ['.'] ∨ segment = ['.', '.'] then .error .dotSegment
  else if segment.head? = some ' ' ∨ segment.getLast? = some ' ' then .error .paddedSegment
  else if segment.any fun character => !(characters.isAlphanumeric character || character == '-'
      || character == '_' || character == ' ') then .error .illegalCharacter
  else .ok ()

/-- `validate_slug`. -/
def validateSlug (characters : Characters) (slug : String) : Except SlugError Unit :=
  if slug = "" then .error .empty
  else (slug.toList.splitOn '/').forM (validateSegment characters)

def resolveProject (characters : Characters) (lookups : BoardLookups) :
    FieldChange → Except TaskPatchError Applied
  | .keep => .ok ⟨.unchanged, false⟩
  | .clear => .ok ⟨.clear, true⟩
  | .set slug =>
    match validateSlug characters slug with
    | .error reason => .error (.invalidProjectSlug slug reason)
    | .ok () =>
      if slug ∈ lookups.projectSlugs then .ok ⟨.set slug, true⟩ else .error (.unknownProject slug)

/-- One reference of `resolve_blockers`, beside those resolved before it. -/
def resolveReference (code : Option String) (codes resolved : List String) (input : String) :
    Except TaskPatchError (List String) :=
  match blockerTarget input with
  | none => .ok resolved
  | some target =>
    match resolvePrefix codes target with
    | .notFound => .error (.unknownBlocker input)
    | .ambiguous candidates => .error (.ambiguousBlocker input candidates)
    | .found canonical =>
      if code = some canonical then .error (.selfBlocker canonical)
      else if canonical ∈ resolved then .ok resolved
      else .ok (resolved ++ [canonical])

/-- `resolve_blockers`. -/
def resolveBlockers (inputs : List String) (code : Option String) (tasks : TaskNodes) :
    Except TaskPatchError (List String) := do
  let resolved ← inputs.foldlM (resolveReference code (tasks.rows.map TaskNode.code)) []
  match code.bind fun task => findCycle tasks task resolved with
  | some path => .error (.blockerCycle path)
  | none => .ok resolved

def resolveBlockedBy (code : Option String) (tasks : TaskNodes) :
    Option (List String) → Except TaskPatchError (Option (List String))
  | none => .ok none
  | some inputs => (resolveBlockers inputs code tasks).map some

/-! ### Changing the page -/

def setField (extra : Extra) (key value : String) : Extra := extra.insert key (.text value)

def applyField (extra : Extra) (key : String) : FieldChange → Extra
  | .keep => extra
  | .clear => extra.remove key
  | .set value => setField extra key value

def applyOptional (extra : Extra) (key : String) : Option String → Extra
  | none => extra
  | some value => setField extra key value

def applyFields (extra : Extra) (patch : TaskPatch) (cycle taskType : FieldChange) : Extra :=
  let extra := applyOptional extra "status" patch.status
  let extra := applyOptional extra "priority" patch.priority
  let extra := applyField extra "cycle" cycle
  let extra := applyField extra "assignee" patch.assignee
  let extra := applyField extra "estimate" patch.estimate
  let extra := applyField extra "task_type" taskType
  let extra := applyField extra "due" patch.due
  let extra := applyField extra "start" patch.start
  let extra := applyField extra "hold" patch.hold
  applyField extra "link" patch.link

def applyBlockedBy (extra : Extra) : Option (List String) → Extra
  | none => extra
  | some [] => extra.remove blockedByKey
  | some codes => extra.insert blockedByKey (.texts (codes.map wikilink))

def ProjectAssignment.apply (project : Option String) : ProjectAssignment → Option String
  | .unchanged => project
  | .clear => none
  | .set slug => some slug

/-- `apply_task_patch`. -/
def applyTaskPatch (characters : Characters) (page : TaskPage) (code : Option String)
    (patch : TaskPatch) (lookups : BoardLookups) (now : Nat) :
    Except TaskPatchError (TaskPage × Applied) := do
  checkVocabulary columns .unknownStatus patch.status
  checkVocabulary priorities .unknownPriority patch.priority
  let taskType ← resolveTaskType characters patch.taskType
  let cycle ← resolveCycle lookups patch.cycle
  let applied ← resolveProject characters lookups patch.project
  let blockedBy ← resolveBlockedBy code lookups.tasks patch.blockedBy
  .ok ({ page with
        title := patch.title.or page.title
        tags := patch.tags.getD page.tags
        project := applied.project.apply page.project
        extra := applyBlockedBy (applyFields page.extra patch cycle taskType) blockedBy
        updatedAt := now },
      applied)

/-- `UpdatePageCommand`: the page as read guards the write. -/
structure UpdatePageCommand where
  expected : TaskPage
  page : TaskPage
  project : ProjectAssignment
  reconcile : Bool

/-- `plan_task_patch`. -/
def planTaskPatch (characters : Characters) (page : TaskPage) (patch : TaskPatch)
    (lookups : BoardLookups) (now : Nat) : Except TaskPatchError UpdatePageCommand := do
  let changed ← applyTaskPatch characters page (some page.code) patch lookups now
  .ok ⟨page, changed.1, changed.2.project, changed.2.reconcile⟩

/-! ### The blockers of the changed page -/

theorem get_applyField {extra : Extra} {key : String} (change : FieldChange)
    (other : blockedByKey ≠ key) :
    (applyField extra key change).get blockedByKey = extra.get blockedByKey := by
  cases change with
  | keep => rfl
  | clear => rw [applyField, Extra.get_remove, if_neg other]
  | set value => rw [applyField, setField, Extra.get_insert, if_neg other]

theorem get_applyOptional {extra : Extra} {key : String} (value : Option String)
    (other : blockedByKey ≠ key) :
    (applyOptional extra key value).get blockedByKey = extra.get blockedByKey := by
  cases value with
  | none => rfl
  | some value => rw [applyOptional, setField, Extra.get_insert, if_neg other]

theorem get_applyFields (extra : Extra) (patch : TaskPatch) (cycle taskType : FieldChange) :
    (applyFields extra patch cycle taskType).get blockedByKey = extra.get blockedByKey := by
  unfold applyFields
  rw [get_applyField _ (by decide), get_applyField _ (by decide), get_applyField _ (by decide),
    get_applyField _ (by decide), get_applyField _ (by decide), get_applyField _ (by decide),
    get_applyField _ (by decide), get_applyField _ (by decide), get_applyOptional _ (by decide),
    get_applyOptional _ (by decide)]

def storedBlockers (extra : Extra) : List String :=
  match extra.get blockedByKey with
  | some (.texts values) => values
  | some (.text value) => [value]
  | _ => []

theorem storedBlockers_applyBlockedBy (extra : Extra) (codes : List String) :
    storedBlockers (applyBlockedBy extra (some codes)) = codes.map wikilink := by
  cases codes with
  | nil =>
    unfold storedBlockers applyBlockedBy
    rw [Extra.get_remove, if_pos rfl]
    rfl
  | cons first rest =>
    unfold storedBlockers applyBlockedBy
    rw [Extra.get_insert, if_pos rfl]

theorem resolveBlockers_ok {inputs resolved : List String} {code : String} {tasks : TaskNodes}
    (ends : resolveBlockers inputs (some code) tasks = .ok resolved) :
    ∀ blocker ∈ resolved, ¬Relation.ReflTransGen tasks.Blocked blocker code := by
  have ⟨references, _, rest⟩ := of_bind_ok ends
  simp only [Option.bind_some] at rest
  split at rest
  · cases rest
  · rename_i noCycle
    rw [← Except.ok.inj rest]
    exact not_reaches_of_findCycle noCycle

theorem blockers_of_plan {characters : Characters} {page : TaskPage} {patch : TaskPatch}
    {lookups : BoardLookups} {now : Nat} {command : UpdatePageCommand}
    (planned : planTaskPatch characters page patch lookups now = .ok command) :
    command.expected = page ∧ command.page.code = page.code
      ∧ (blockedByTargets command.page.extra = blockedByTargets page.extra
        ∨ ∃ resolved : List String, storedBlockers command.page.extra = resolved.map wikilink
              ∧ ∀ blocker ∈ resolved,
                ¬Relation.ReflTransGen lookups.tasks.Blocked blocker page.code) := by
  have ⟨changed, applies, ends⟩ := of_bind_ok planned
  rw [← Except.ok.inj ends]
  have ⟨_, _, rest⟩ := of_bind_ok applies
  have ⟨_, _, rest⟩ := of_bind_ok rest
  have ⟨taskType, _, rest⟩ := of_bind_ok rest
  have ⟨cycle, _, rest⟩ := of_bind_ok rest
  have ⟨applied, _, rest⟩ := of_bind_ok rest
  have ⟨blockedBy, resolves, rest⟩ := of_bind_ok rest
  rw [← Except.ok.inj rest]
  refine ⟨rfl, rfl, ?_⟩
  cases asked : patch.blockedBy with
  | none =>
    rw [asked] at resolves
    rw [← Except.ok.inj resolves]
    left
    show blockedByTargets (applyFields page.extra patch cycle taskType) = _
    unfold blockedByTargets
    rw [get_applyFields]
  | some inputs =>
    rw [asked] at resolves
    simp only [resolveBlockedBy] at resolves
    cases resolution : resolveBlockers inputs (some page.code) lookups.tasks with
    | error failure =>
      rw [resolution] at resolves
      cases resolves
    | ok resolved =>
      rw [resolution] at resolves
      rw [← Except.ok.inj resolves]
      have facts := resolveBlockers_ok resolution
      exact .inr ⟨resolved, storedBlockers_applyBlockedBy _ resolved, facts⟩

end Clepsydra.Board
