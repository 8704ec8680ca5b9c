import Clepsydra.Sync.ConflictCopy

/-!
Owns: the repository a sync works on, as its working tree and its index with the stages
of unmerged paths, the git commands the engine runs on it, and `resolve_unmerged`.
-/

namespace Clepsydra.Sync

open Library Vault

/-! ### The index -/

structure Stages where
  base : Option Bytes
  ours : Option Bytes
  theirs : Option Bytes
deriving DecidableEq

inductive Side where
  | ours
  | theirs

def Stages.side (stages : Stages) : Side → Option Bytes
  | .ours => stages.ours
  | .theirs => stages.theirs

inductive Staging where
  | merged (blob : Bytes)
  | unmerged (stages : Stages)

structure IndexEntry where
  path : String
  staging : Staging

abbrev Index := Table String IndexEntry IndexEntry.path

def Index.stage (index : Index) (path : String) (blob : Bytes) : Index := Table.insertOrIgnore
    (index.modify path (fun entry => { entry with staging := .merged blob }) fun _ => rfl)
    ⟨path, .merged blob⟩

/-! ### The repository -/

structure ConflictCopy where
  original : String
  copy : String
deriving DecidableEq

inductive SyncError where
  | gitFailed (command path : String)
  | gitOperationInProgress (operation : String)
  | mergeFailed (reference : String) (status : Nat)

/-- What is outside the repository: conversion of blobs, decoding for markers, and naming and
writing copies. -/
structure Tools where
  smudge : String → Bytes → Bytes
  clean : String → Bytes → Bytes
  decode : Bytes → String
  ids : ShortIds
  format : PageFormat

/-- `written` records the Conflict Copies so far; `operation` is one that owns the repository. -/
structure Repository where
  worktree : String → Option Bytes
  index : Index
  head : Option Nat
  mergeHead : Option Nat
  operation : Option String
  written : List ConflictCopy

/-- One path of `git ls-files -u`; a blob stands for its object id. -/
structure UnmergedEntry where
  path : String
  stages : Stages
deriving DecidableEq

namespace Repository

def staging (repository : Repository) (path : String) : Option Staging :=
  (repository.index.get path).map IndexEntry.staging

/-- `Git::unmerged`. -/
def unmerged (repository : Repository) : List UnmergedEntry :=
  repository.index.rows.filterMap fun entry =>
    match entry.staging with
    | .merged _ => none
    | .unmerged stages => some ⟨entry.path, stages⟩

def writeFile (repository : Repository) (path : String) (content : Bytes) : Repository :=
  { repository with worktree := Function.update repository.worktree path (some content) }

/-- `Git::show_stage`. -/
def showStage (repository : Repository) (side : Side) (path : String) : Except SyncError Bytes :=
  match repository.staging path with
  | some (.unmerged stages) =>
    match stages.side side with
    | some blob => .ok blob
    | none => .error (.gitFailed "show" path)
  | _ => .error (.gitFailed "show" path)

/-- `Git::checkout_side`. -/
def checkoutSide (tools : Tools) (repository : Repository) (side : Side) (path : String) :
    Except SyncError Repository :=
  match repository.staging path with
  | none => .error (.gitFailed "checkout" path)
  | some (.merged blob) =>
    if (repository.worktree path).map (tools.clean path) = some blob then .ok repository
    else .ok (repository.writeFile path (tools.smudge path blob))
  | some (.unmerged stages) =>
    match stages.side side with
    | some blob => .ok (repository.writeFile path (tools.smudge path blob))
    | none => .error (.gitFailed "checkout" path)

/-- `Git::add` of one path. -/
def add (tools : Tools) (repository : Repository) (path : String) : Except SyncError Repository :=
  match repository.worktree path with
  | none => .error (.gitFailed "add" path)
  | some content =>
    .ok { repository with index := repository.index.stage path (tools.clean path content) }

/-- `Git::add_including_removals` of one path. -/
def addIncludingRemovals (tools : Tools) (repository : Repository) (path : String) : Repository :=
  match repository.worktree path with
  | none => { repository with index := repository.index.erase path }
  | some content =>
    { repository with index := repository.index.stage path (tools.clean path content) }

/-- `write_conflict_copy`: a file already at the copy's path is kept. -/
def writeConflictCopy (tools : Tools) (repository : Repository) (original : String)
    (theirs : Bytes) : Repository × ConflictCopy :=
  let short := tools.ids.shortId theirs
  let copy : ConflictCopy := ⟨original, conflictCopyPath original short⟩
  match repository.worktree copy.copy with
  | some _ => (repository, copy)
  | none =>
    ({ repository.writeFile copy.copy (conflictCopyContent tools.format original theirs short) with
        written := repository.written ++ [copy] },
      copy)

end Repository

/-! ### Resolving conflicts -/

/-- `worktree_is_ours`. -/
def worktreeIsOurs (tools : Tools) (path : String) (content ours : Bytes) : Bool :=
  tools.clean path content = ours

def handResolved (tools : Tools) (worktree : String → Option Bytes) (path : String)
    (ours oid : Bytes) : Bool :=
  match worktree path with
  | none => false
  | some content =>
    content ≠ ours && !hasConflictMarkers (tools.decode content)
      && !worktreeIsOurs tools path content oid

def lfsWarning (path : String) : String :=
  "both sides changed " ++ path ++ ", but the incoming side is a git-LFS pointer; "
    ++ "kept ours and wrote no conflict copy"

def baseOnlyWarning (path : String) : String :=
  "unmerged path " ++ path ++ " has neither an \"ours\" nor a \"theirs\" stage; "
    ++ "taking the working tree as it stands"

structure Resolution where
  repository : Repository
  copies : List ConflictCopy
  warnings : List String

def resolveBoth (tools : Tools) (repository : Repository) (path : String) (oid : Bytes) :
    Except SyncError Resolution := do
  let ours ← repository.showStage .ours path
  let theirs ← repository.showStage .theirs path
  match handResolved tools repository.worktree path ours oid with
  | true => do
      let added ← repository.add tools path
      .ok ⟨added, [], []⟩
  | false => do
      let restored ← repository.checkoutSide tools .ours path
      if ours = theirs then do
        let added ← restored.add tools path
        .ok ⟨added, [], []⟩
      else if isLfsPointer theirs then do
        let added ← restored.add tools path
        .ok ⟨added, [], [lfsWarning path]⟩
      else do
        let written := restored.writeConflictCopy tools path theirs
        let added ← written.1.add tools path
        let staged ← added.add tools written.2.copy
        .ok ⟨staged, [written.2], []⟩

def resolveOne (tools : Tools) (repository : Repository) (side : Side) (path : String) :
    Except SyncError Resolution := do
  let restored ← repository.checkoutSide tools side path
  let added ← restored.add tools path
  .ok ⟨added, [], []⟩

/-- One path of `resolve_unmerged`. -/
def resolveEntry (tools : Tools) (repository : Repository) (entry : UnmergedEntry) :
    Except SyncError Resolution :=
  match entry.stages.ours, entry.stages.theirs with
  | some oid, some _ => resolveBoth tools repository entry.path oid
  | some _, none => resolveOne tools repository .ours entry.path
  | none, some _ => resolveOne tools repository .theirs entry.path
  | none, none =>
    .ok ⟨repository.addIncludingRemovals tools entry.path, [], [baseOnlyWarning entry.path]⟩

/-- The loop of `resolve_unmerged`. -/
def resolveEntries (tools : Tools) : Resolution → List UnmergedEntry → Except SyncError Resolution
  | resolution, [] => .ok resolution
  | resolution, entry :: rest => do
      let next ← resolveEntry tools resolution.repository entry
      resolveEntries tools
        ⟨next.repository, resolution.copies ++ next.copies, resolution.warnings ++ next.warnings⟩ rest

/-- `resolve_unmerged`. -/
def resolveUnmerged (tools : Tools) (repository : Repository) : Except SyncError Resolution :=
  resolveEntries tools ⟨repository, [], []⟩ repository.unmerged

/-! ### Reading the index -/

theorem Index.get_stage (index : Index) (path other : String) (blob : Bytes) :
    (index.stage path blob).get other
      = if other = path then some ⟨path, .merged blob⟩ else index.get other := by
  unfold stage
  rw [Table.get_insertOrIgnore, Table.get_modify]
  by_cases here : other = path
  · rw [if_pos here, if_pos here]
    cases found : index.get other with
    | none => simp [here]
    | some entry =>
      have isPath : entry.path = path := (Table.key_of_get found).trans here
      simp [← isPath]
  · rw [if_neg here, if_neg here, if_neg fun both => here both.1.symm]

section Reading

variable {tools : Tools} {repository added : Repository} {path : String}

theorem staging_add (adds : repository.add tools path = .ok added) (other : String) :
    added.staging other = if other = path then (repository.worktree path).map fun content =>
          .merged (tools.clean path content)
        else repository.staging other := by
  unfold Repository.add at adds
  cases found : repository.worktree path with
  | none =>
    rw [found] at adds
    cases adds
  | some content =>
    rw [found] at adds
    rw [← Except.ok.inj adds]
    simp only [Repository.staging, Index.get_stage]
    split_ifs <;> rfl

theorem worktree_add (adds : repository.add tools path = .ok added) :
    added.worktree = repository.worktree ∧ added.written = repository.written := by
  unfold Repository.add at adds
  split at adds
  · cases adds
  · rw [← Except.ok.inj adds]
    exact ⟨rfl, rfl⟩

theorem staging_addIncludingRemovals (other : String) :
    (repository.addIncludingRemovals tools path).staging other
      = if other = path then (repository.worktree path).map fun content =>
          .merged (tools.clean path content)
        else repository.staging other := by
  unfold Repository.addIncludingRemovals
  cases repository.worktree path with
  | none =>
    simp only [Repository.staging, Table.get_erase]
    split_ifs <;> rfl
  | some content =>
    simp only [Repository.staging, Index.get_stage]
    split_ifs <;> rfl

theorem worktree_addIncludingRemovals :
    (repository.addIncludingRemovals tools path).worktree = repository.worktree := by
  unfold Repository.addIncludingRemovals
  split <;> rfl

end Reading

/-! ### The unmerged paths -/

theorem staging_of_mem_unmerged {repository : Repository} {entry : UnmergedEntry}
    (member : entry ∈ repository.unmerged) :
    repository.staging entry.path = some (.unmerged entry.stages) := by
  have ⟨row, inIndex, isEntry⟩ := List.mem_filterMap.1 member
  split at isEntry
  · cases isEntry
  · rename_i stages isUnmerged
    rw [← Option.some.inj isEntry]
    simp only [Repository.staging, Table.get_of_mem inIndex, Option.map_some, isUnmerged]

theorem mem_unmerged_of_staging {repository : Repository} {path : String} {stages : Stages}
    (isUnmerged : repository.staging path = some (.unmerged stages)) :
    ⟨path, stages⟩ ∈ repository.unmerged := by
  have ⟨row, found, isStaging⟩ := Option.map_eq_some_iff.1 isUnmerged
  refine List.mem_filterMap.2 ⟨row, Table.mem_of_get found, ?_⟩
  rw [isStaging, show row.path = path from Table.key_of_get found]

theorem nodup_unmerged (repository : Repository) :
    (repository.unmerged.map UnmergedEntry.path).Nodup := by
  have sublist : ∀ rows : List IndexEntry, ((rows.filterMap fun entry => match entry.staging with
        | .merged _ => none
        | .unmerged stages => some (⟨entry.path, stages⟩ : UnmergedEntry)).map
          UnmergedEntry.path).Sublist (rows.map IndexEntry.path) := by
    intro rows
    induction rows with
    | nil => exact List.Sublist.slnil
    | cons row rest ih =>
      rw [List.filterMap_cons]
      cases row.staging with
      | merged blob => exact ih.cons _
      | unmerged stages => exact ih.cons_cons _
  exact repository.index.distinct.sublist (sublist _)

end Clepsydra.Sync
