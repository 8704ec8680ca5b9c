import Clepsydra.Library.Faulty
import Clepsydra.Vault.Rubbish

/-!
Owns: the state batch mutations work on, and its primitive steps, each of which may fail before or
after it took effect. `.clepsydra` and the roots are always there.
-/

namespace Clepsydra.Mutate

open Library Library.Faulty Vault

/-! ### Manifests -/

abbrev Hash := Bytes

inductive ManifestIntent where
  | write (path : VaultPath) (beforeHash : Option Hash) (afterHash : Hash)
  | move (source destination : VaultPath) (sourceHash : Hash) (destinationWasMissing : Bool)
  | delete (path : VaultPath) (beforeHash : Hash)
  | archivePage (path : VaultPath) (pageHash : Hash) (manifest : RubbishManifest)
  | restorePage (destination : VaultPath) (pageHash : Hash) (manifest : RubbishManifest)

inductive ChangeEvent where
  | upsert (path : VaultPath)
  | remove (path : VaultPath)
  | baseChanged
deriving DecidableEq

inductive TransactionPhase where
  | prepared
  | committing
  | filesystemCommitted
deriving DecidableEq

structure TransactionManifest where
  removeDirectories : List VaultPath
  phase : TransactionPhase
  createDirectories : List VaultPath
  createdDirectories : List VaultPath
  intents : List ManifestIntent
  indexEvents : List ChangeEvent
  movedPages : List (VaultPath × VaultPath)

/-! ### Transaction directories -/

inductive Slot where
  | staged (index : Nat)
  | rollback (index : Nat)
deriving DecidableEq

structure Workspace where
  manifest : Option TransactionManifest
  entries : Slot → Option ItemNode
  created : Nat → Bool

def Workspace.empty : Workspace := ⟨none, fun _ => none, fun _ => false⟩

structure Transaction where
  id : Uuid
  workspace : Workspace

def Transaction.change (change : Workspace → Workspace) (transaction : Transaction) : Transaction :=
  { transaction with workspace := change transaction.workspace }

theorem Transaction.id_change (change : Workspace → Workspace) (transaction : Transaction) :
    (transaction.change change).id = transaction.id := rfl

structure Disk where
  pages : Tree
  rubbish : Uuid → Option ItemNode
  transactions : Table Uuid Transaction Transaction.id

namespace Disk

def workspace (disk : Disk) (id : Uuid) : Option Workspace :=
  (disk.transactions.get id).map Transaction.workspace

def update (disk : Disk) (id : Uuid) (change : Workspace → Workspace) : Disk := { disk with
    transactions := disk.transactions.modify id (Transaction.change change)
      (Transaction.id_change change) }

def entry (disk : Disk) (id : Uuid) (slot : Slot) : Option ItemNode :=
  (disk.workspace id).bind fun workspace => workspace.entries slot

theorem workspace_update (disk : Disk) (id : Uuid) (change : Workspace → Workspace) (other : Uuid) :
    (disk.update id change).workspace other
      = if other = id then (disk.workspace id).map change else disk.workspace other := by
  unfold workspace update
  rw [Table.get_modify]
  split_ifs with isId
  · rw [isId, Option.map_map, Option.map_map]
    rfl
  · rfl

end Disk

/-! ### Primitive steps -/

inductive Location where
  | page (path : VaultPath)
  | entry (slot : Slot)
  | created (index : Nat)
  | manifest
  | directory
deriving DecidableEq

inductive IntentValidationError where
  | emptyCommand
  | duplicateFinalDestination (destination : VaultPath)
  | duplicateFinalItem (item : Uuid)
  | unchangedMove (path : VaultPath)
  | conflictingSource (source : VaultPath)
  | conflictingSourceItem (item : Uuid)
  | invalidManifest (error : RubbishItemValidationError)
  | originalPathMismatch (original path : VaultPath)
deriving DecidableEq

inductive BatchMutationError where
  | validation (error : IntentValidationError)
  | stale (path : VaultPath)
  | pageNotFound (path : VaultPath)
  | rubbishItemNotFound (item : Uuid)
  | pageBytesChanged (path : VaultPath)
  | rubbishItemExists (item : Uuid)
  | restoreDestinationOccupied (path : VaultPath)
  | rubbishItemChanged (item : Uuid)
  | rubbish (operation : String) (item : Uuid) (source : RubbishStoreError)
  | recoveryConflict (path : VaultPath)
  | invalidPhase (expected : String) (actual : TransactionPhase)
  | uncertainPhase
  | invalidManifest (message : String)
  | corruptWorkspace (location : Location)
  | filesystem (operation : String) (location : Location) (source : IoError)
  | publication (location : Location) (source : IoError)
  | preparationCleanup (retained : Bool) (source cleanup : BatchMutationError)
deriving DecidableEq

/-- `PreparedBatch`: what the process remembers of its transaction. -/
structure PreparedBatch where
  manifest : TransactionManifest
  phaseUncertain : Bool

structure Machine where
  disk : Disk
  prepared : PreparedBatch

abbrev Batch (α : Type) := Program Bool Machine BatchMutationError α

def Machine.apply (machine : Machine) (change : Disk → Except IoError Disk) : Machine :=
  match change machine.disk with
  | .ok disk => { machine with disk := disk }
  | .error _ => machine

def perform (failure : IoError → BatchMutationError) (change : Disk → Except IoError Disk) :
    Batch Unit :=
  Program.step (fun machine =>
      match change machine.disk with
      | .ok _ => (.ok (), machine.apply change)
      | .error source => (.error (failure source), machine))
    (fun applied machine => (failure .device, if applied then machine.apply change else machine))

def onPages (change : Tree → Except IoError Tree) (disk : Disk) : Except IoError Disk :=
  (change disk.pages).map fun pages => { disk with pages := pages }

def createEntry (id : Uuid) (slot : Slot) (node : ItemNode) (disk : Disk) : Except IoError Disk :=
  match disk.workspace id with
  | none => .error .notFound
  | some workspace =>
    match workspace.entries slot with
    | some _ => .error .alreadyExists
    | none =>
      .ok (disk.update id fun workspace =>
        { workspace with entries := Function.update workspace.entries slot (some node) })

def fillEntry (id : Uuid) (slot : Slot) (fill : ItemNode → ItemNode) (disk : Disk) :
    Except IoError Disk :=
  match disk.entry id slot with
  | none => .error .notFound
  | some node =>
    .ok (disk.update id fun workspace =>
      { workspace with entries := Function.update workspace.entries slot (some (fill node)) })

def createTransaction (id : Uuid) (disk : Disk) : Except IoError Disk :=
  match disk.workspace id with
  | some _ => .error .alreadyExists
  | none =>
    .ok { disk with transactions := disk.transactions.insertOrIgnore ⟨id, Workspace.empty⟩ }

def createCreated (id : Uuid) (index : Nat) (disk : Disk) : Except IoError Disk :=
  match disk.workspace id with
  | none => .error .notFound
  | some workspace =>
    if workspace.created index then .error .alreadyExists
    else
      .ok (disk.update id fun workspace =>
        { workspace with created := Function.update workspace.created index true })

/-- `write_manifest`, which replaces the whole file at once. -/
def putManifest (id : Uuid) (manifest : TransactionManifest) (disk : Disk) : Except IoError Disk :=
  match disk.workspace id with
  | none => .error .notFound
  | some _ =>
    .ok (disk.update id fun workspace => { workspace with manifest := some manifest })

def installCreated (id : Uuid) (index : Nat) (path : VaultPath) (disk : Disk) :
    Except IoError Disk :=
  match disk.workspace id with
  | none => .error .notFound
  | some workspace =>
    if workspace.created index then
      (disk.pages.create path .folder).map fun pages =>
        { disk with pages := pages }.update id fun workspace =>
          { workspace with created := Function.update workspace.created index false }
    else .error .notFound

/-- Moves an entry of the transaction into the rubbish store, unless an item is there. -/
def installItem (id : Uuid) (slot : Slot) (item : Uuid) (disk : Disk) : Except IoError Disk :=
  match disk.entry id slot, disk.rubbish item with
  | none, _ => .error .notFound
  | some _, some _ => .error .alreadyExists
  | some node, none =>
    .ok ({ disk with rubbish := Function.update disk.rubbish item (some node) }.update id
      fun workspace => { workspace with entries := Function.update workspace.entries slot none })

def withdrawItem (id : Uuid) (slot : Slot) (item : Uuid) (disk : Disk) : Except IoError Disk :=
  match disk.rubbish item, disk.entry id slot with
  | none, _ => .error .notFound
  | some _, some _ => .error .directoryNotEmpty
  | some node, none =>
    .ok ({ disk with rubbish := Function.update disk.rubbish item none }.update id fun workspace =>
        { workspace with entries := Function.update workspace.entries slot (some node) })

/-! ### Removing a transaction directory -/

/-- What `remove_dir_all` deletes, one at a time. -/
inductive WorkName where
  | manifest
  | entry (slot : Slot)
  | page (slot : Slot)
  | itemManifest (slot : Slot)
  | created (index : Nat)
deriving DecidableEq

def ItemNode.unlinked : ItemNode → Option ItemNode
  | .file _ => none
  | .directory none none => none
  | node => some node

def ItemNode.withoutPage : ItemNode → ItemNode
  | .directory manifest _ => .directory manifest none
  | node => node

def ItemNode.withoutManifest : ItemNode → ItemNode
  | .directory _ page => .directory none page
  | node => node

def Workspace.unlink (name : WorkName) (workspace : Workspace) : Workspace :=
  match name with
  | .manifest => { workspace with manifest := none }
  | .entry slot =>
    { workspace with
      entries := Function.update workspace.entries slot
        ((workspace.entries slot).bind ItemNode.unlinked) }
  | .page slot =>
    { workspace with
      entries := Function.update workspace.entries slot
        ((workspace.entries slot).map ItemNode.withoutPage) }
  | .itemManifest slot =>
    { workspace with
      entries := Function.update workspace.entries slot
        ((workspace.entries slot).map ItemNode.withoutManifest) }
  | .created index => { workspace with created := Function.update workspace.created index false }

def removalFailure (source : IoError) : BatchMutationError :=
  .filesystem "remove transaction workspace" .directory source

/-- `remove_workspace`: deletes entries in some order, and the directory with what is left. -/
def removeWorkspace (id : Uuid) (order : List WorkName) : Batch Unit := do
  Program.forEach
    (fun name => perform removalFailure fun disk => .ok (disk.update id (Workspace.unlink name)))
    order
  perform removalFailure fun disk => .ok { disk with transactions := disk.transactions.erase id }

end Clepsydra.Mutate
