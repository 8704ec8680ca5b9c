import Clepsydra.Mutate.Keeps

/-!
Owns: the states from which a transaction can be rolled back: everything a command touches is as
before or as after it, and the transaction directory holds what the undo needs.

Proves: the rollback of a manifest leads from such a state back to the first one.
-/

namespace Clepsydra.Mutate

open Library Library.Faulty Vault List Function

/-! ### What an undo needs -/

def BatchPathIntent.undoEntry (index : Nat) : BatchPathIntent → Option (Slot × Bytes)
  | .write _ .missing _ => none
  | .write _ (.bytes expected) _ => some (.rollback index, expected)
  | .move _ _ expectedSource => some (.rollback index, expectedSource)
  | .delete _ expected => some (.rollback index, expected)
  | .archivePage _ expectedSource _ => some (.rollback index, expectedSource)
  | .restorePage _ item => some (.staged index, item.bytes)

def BatchPathIntent.itemSlot (index : Nat) : BatchPathIntent → Option (Slot × RubbishItem)
  | .archivePage _ expectedSource manifest => some (.staged index, ⟨manifest, expectedSource⟩)
  | .restorePage _ item => some (.rollback index, item)
  | _ => none

def Slot.index : Slot → Nat
  | .staged index => index
  | .rollback index => index

variable {intent : BatchPathIntent} {slot : Slot} {index : Nat}

theorem index_of_undoEntry {content : Bytes}
    (isEntry : intent.undoEntry index = some (slot, content)) : slot.index = index := by
  cases intent with
  | write path expected content =>
    cases expected with
    | missing => cases isEntry
    | bytes bytes => cases isEntry; rfl
  | move | delete | archivePage | restorePage => cases isEntry; rfl

variable {item : RubbishItem}

theorem index_of_itemSlot (isSlot : intent.itemSlot index = some (slot, item)) :
    slot.index = index := by
  cases intent with
  | write | move | delete => cases isSlot
  | archivePage | restorePage => cases isSlot; rfl

theorem undoEntry_ne_itemSlot {other : Slot} {content : Bytes}
    (isEntry : intent.undoEntry index = some (slot, content))
    (isSlot : intent.itemSlot index = some (other, item)) : slot ≠ other := by
  cases intent with
  | write | move | delete => cases isSlot
  | archivePage | restorePage =>
    cases isEntry
    cases isSlot
    simp

theorem item_of_itemSlot (isSlot : intent.itemSlot index = some (slot, item)) :
    intent.item = some item.manifest.itemId := by
  cases intent with
  | write | move | delete => cases isSlot
  | archivePage | restorePage => cases isSlot; rfl

theorem eq_of_mem_zipIdx {command : BatchMutationCommand} {left right : BatchPathIntent × Nat}
    (inLeft : left ∈ command.intents.zipIdx) (inRight : right ∈ command.intents.zipIdx)
    (same : left.2 = right.2) : left = right := by
  have ⟨leftIntent, leftIndex⟩ := left
  have ⟨rightIntent, rightIndex⟩ := right
  simp only at same
  subst same
  have leftAt := mem_zipIdx_iff_getElem?.1 inLeft
  have rightAt := mem_zipIdx_iff_getElem?.1 inRight
  simp only at leftAt rightAt
  rw [leftAt] at rightAt
  rw [Option.some.inj rightAt]

/-! ### States that can be undone -/

def Disk.OthersQuiet (disk : Disk) (id : Uuid) : Prop :=
  ∀ other, other ≠ id → ∀ manifest, (disk.workspace other).bind Workspace.manifest = some manifest →
    manifest.phase ≠ .committing

/-- Every page and folder is as it was or changed by what remains, and what the undo needs is there. -/
structure Undoable (origin : Disk) (command : BatchMutationCommand) (id : Uuid)
    (manifest : TransactionManifest) (remaining : List (BatchPathIntent × Nat))
    (created removed : List VaultPath) (disk : Disk) : Prop where
  pages : ∀ path, disk.pages.nodeAt path = origin.pages.nodeAt path
    ∨ (∃ entry ∈ remaining, (path, disk.pages.nodeAt path) ∈ entry.1.pageAfter)
    ∨ (path ∈ created ∧ disk.pages.nodeAt path = some .folder)
    ∨ (path ∈ removed ∧ disk.pages.nodeAt path = none)
  rubbish : ∀ item, disk.rubbish item = origin.rubbish item
    ∨ ∃ entry ∈ remaining, entry.1.item = some item
  remainingListed : ∀ entry ∈ remaining, entry ∈ command.intents.zipIdx
  createdListed : ∀ path ∈ created, path ∈ command.createDirectories
  removedListed : ∀ path ∈ removed, path ∈ command.removeDirectories
  files : ∀ entry ∈ command.intents.zipIdx, ∀ slot content,
    entry.1.undoEntry entry.2 = some (slot, content) → disk.entry id slot = some (.file content)
  items : ∀ entry ∈ command.intents.zipIdx, ∀ slot item,
    entry.1.itemSlot entry.2 = some (slot, item) →
      (disk.rubbish item.manifest.itemId = none ∧ disk.entry id slot = some item.toNode)
        ∨ (disk.rubbish item.manifest.itemId = some item.toNode ∧ disk.entry id slot = none)
  installed : ∀ path ∈ created, disk.pages.nodeAt path = some .folder →
    ∀ index, command.createDirectories.findIdx? (· = path) = some index →
      (disk.workspace id).any (fun workspace => workspace.created index) = false
  createdOrder : ∀ upper lower : VaultPath, upper ∈ lower.ancestors → upper ∈ created →
    lower ∈ created → disk.pages.nodeAt upper = some .folder →
    disk.pages.nodeAt lower = some .folder → [lower, upper].Sublist created
  removedOrder : ∀ upper lower : VaultPath, upper ∈ lower.ancestors → upper ∈ removed →
    lower ∈ removed → disk.pages.nodeAt upper = none → disk.pages.nodeAt lower = none →
    [upper, lower].Sublist removed
  recorded : (disk.workspace id).bind Workspace.manifest = some manifest
  othersQuiet : disk.OthersQuiet id

namespace Undoable

variable {origin : Disk} {command : BatchMutationCommand} {id : Uuid}
  {manifest : TransactionManifest} {remaining : List (BatchPathIntent × Nat)}
  {created removed : List VaultPath} {disk : Disk} {path : VaultPath}

theorem mem_paths {intent : BatchPathIntent} {node : Option Node}
    (change : (path, node) ∈ intent.pageAfter) : path ∈ intent.paths :=
  mem_map_of_mem change

theorem folder_not_after {intent : BatchPathIntent}
    (change : (path, some Node.folder) ∈ intent.pageAfter) : False := by
  cases intent <;> simp [BatchPathIntent.pageAfter] at change

variable {entry : BatchPathIntent × Nat}

theorem between (undoable : Undoable origin command id manifest remaining created removed disk)
    (accepted : Accepted origin command) (member : entry ∈ command.intents.zipIdx)
    (isPath : path ∈ entry.1.paths) :
    disk.pages.nodeAt path = origin.pages.nodeAt path
      ∨ (path, disk.pages.nodeAt path) ∈ entry.1.pageAfter := by
  have inCommand := Accepted.mem_intents member
  rcases undoable.pages path with same | ⟨other, inRemaining, change⟩ | ⟨inCreated, _⟩ | ⟨inRemoved, _⟩
  · exact .inl same
  · have inOther := undoable.remainingListed other inRemaining
    by_cases isEntry : entry = other
    · rw [isEntry]
      exact .inr change
    · have apart := accepted.entries_apart member inOther isEntry path isPath path (mem_paths change)
      exact absurd rfl apart.1
  · exact absurd (undoable.createdListed path inCreated) (accepted.path_not_created inCommand isPath)
  · exact absurd (undoable.removedListed path inRemoved) (accepted.path_not_removed inCommand isPath)

theorem inFolders (undoable : Undoable origin command id manifest remaining created [] disk)
    (accepted : Accepted origin command) {node : Node}
    (existed : origin.pages.nodeAt path = some node) :
    ∀ ancestor ∈ path.ancestors, disk.pages.nodeAt ancestor = some .folder := by
  intro ancestor above
  have wasFolder := Tree.nodeAt_ancestor existed above
  rcases undoable.pages ancestor with same | ⟨entry, inRemaining, change⟩ | ⟨_, isFolder⟩ | ⟨inRemoved, _⟩
  · exact same.trans wasFolder
  · have inCommand := Accepted.mem_intents (undoable.remainingListed entry inRemaining)
    exact absurd wasFolder (accepted.not_folder inCommand (mem_paths change))
  · exact isFolder
  · exact absurd inRemoved not_mem_nil

theorem own_path_not_above (accepted : Accepted origin command) {intent : BatchPathIntent}
    (member : intent ∈ command.intents) {ancestor : VaultPath} (isPath : path ∈ intent.paths)
    (isOther : ancestor ∈ intent.paths) : ancestor ∉ path.ancestors := by
  intro above
  have observed := accepted.observed intent member
  have single : ∀ target, intent.paths = [target] → False := by
    intro target only
    rw [only, mem_singleton] at isPath isOther
    rw [isPath, isOther] at above
    exact VaultPath.not_mem_ancestors_self _ above
  cases intent with
  | write target expected content | delete target expected
  | archivePage target expectedSource manifest => exact single target rfl
  | restorePage destination item => exact single destination rfl
  | move source destination expectedSource =>
    have paths : ∀ target, target ∈ (BatchPathIntent.move source destination expectedSource).paths →
        target = destination ∨ target = source := by
      intro target inPaths
      simpa [BatchPathIntent.paths, BatchPathIntent.pageAfter] using inPaths
    obtain ⟨sourceFile, destinationAbsent, destinationOpen⟩ := observed
    rcases paths path isPath with isDestination | isSource
    · rcases paths ancestor isOther with otherDestination | otherSource
      · rw [isDestination, otherDestination] at above
        exact VaultPath.not_mem_ancestors_self _ above
      · rw [isDestination, otherSource] at above
        exact destinationOpen source above expectedSource sourceFile
    · rcases paths ancestor isOther with otherDestination | otherSource
      · rw [isSource, otherDestination] at above
        have isFolder := Tree.nodeAt_ancestor sourceFile above
        rw [destinationAbsent] at isFolder
        cases isFolder
      · rw [isSource, otherSource] at above
        exact VaultPath.not_mem_ancestors_self _ above

variable (undoable : Undoable origin command id manifest remaining created removed disk)

include undoable

theorem isOpen (accepted : Accepted origin command) (member : entry ∈ command.intents.zipIdx)
    (isPath : path ∈ entry.1.paths) (wasOpen : origin.pages.Open path) : disk.pages.Open path := by
  intro ancestor above content isFile
  rcases undoable.pages ancestor with same | ⟨other, inRemaining, change⟩ | ⟨_, isFolder⟩ | ⟨_, isNone⟩
  · rw [same] at isFile
    exact wasOpen ancestor above content isFile
  · have inOther := undoable.remainingListed other inRemaining
    by_cases isEntry : entry = other
    · rw [← isEntry] at change
      exact own_path_not_above accepted (Accepted.mem_intents member) isPath (mem_paths change) above
    · have apart := accepted.entries_apart member inOther isEntry path isPath ancestor (mem_paths change)
      exact apart.2.2 above
  · rw [isFile] at isFolder
    cases isFolder
  · rw [isFile] at isNone
    cases isNone

/-! ### Steps stay among them -/

theorem setPage (accepted : Accepted origin command) (member : entry ∈ remaining)
    {node : Option Node} {pages : Tree} (isPath : path ∈ entry.1.paths)
    (isOne : node = origin.pages.nodeAt path ∨ (path, node) ∈ entry.1.pageAfter)
    (lookup : pages.nodeAt = update disk.pages.nodeAt path node) :
    Undoable origin command id manifest remaining created removed { disk with pages := pages } := by
  have inCommand := Accepted.mem_intents (undoable.remainingListed entry member)
  have notCreated : path ∉ created := fun inCreated =>
    accepted.path_not_created inCommand isPath (undoable.createdListed path inCreated)
  have notRemoved : path ∉ removed := fun inRemoved =>
    accepted.path_not_removed inCommand isPath (undoable.removedListed path inRemoved)
  have elsewhere : ∀ other, other ≠ path → pages.nodeAt other = disk.pages.nodeAt other := by
    intro other different
    rw [lookup, update_of_ne different]
  have createdSame : ∀ other ∈ created, pages.nodeAt other = disk.pages.nodeAt other :=
    fun other inCreated => elsewhere other fun same => notCreated (same ▸ inCreated)
  have removedSame : ∀ other ∈ removed, pages.nodeAt other = disk.pages.nodeAt other :=
    fun other inRemoved => elsewhere other fun same => notRemoved (same ▸ inRemoved)
  refine { undoable with
    pages := ?_
    installed := ?_
    createdOrder := ?_
    removedOrder := ?_ }
  · intro other
    show pages.nodeAt other = _ ∨ _
    by_cases isHere : other = path
    · have here : pages.nodeAt path = node := by rw [lookup, update_self]
      rw [isHere]
      rcases isOne with before | after
      · exact .inl (here.trans before)
      · refine .inr (.inl ⟨entry, member, ?_⟩)
        show (path, pages.nodeAt path) ∈ _
        rw [here]
        exact after
    · have same := elsewhere other isHere
      simp only [same]
      exact undoable.pages other
  · intro other inCreated isFolder
    exact undoable.installed other inCreated ((createdSame other inCreated).symm.trans isFolder)
  · intro upper lower above inUpper inLower upperFolder lowerFolder
    exact undoable.createdOrder upper lower above inUpper inLower
      ((createdSame upper inUpper).symm.trans upperFolder)
      ((createdSame lower inLower).symm.trans lowerFolder)
  · intro upper lower above inUpper inLower upperNone lowerNone
    exact undoable.removedOrder upper lower above inUpper inLower
      ((removedSame upper inUpper).symm.trans upperNone)
      ((removedSame lower inLower).symm.trans lowerNone)

omit undoable

theorem discharge
    (undoable : Undoable origin command id manifest (entry :: remaining) created removed disk)
    (pagesBack : ∀ path ∈ entry.1.paths, disk.pages.nodeAt path = origin.pages.nodeAt path)
    (itemBack : ∀ item, entry.1.item = some item → disk.rubbish item = origin.rubbish item) :
    Undoable origin command id manifest remaining created removed disk := by
  refine { undoable with
    pages := ?_
    rubbish := ?_
    remainingListed := ?_ }
  · intro path
    rcases undoable.pages path with same | ⟨other, inRemaining, change⟩ | rest
    · exact .inl same
    · rcases mem_cons.1 inRemaining with isEntry | inRest
      · rw [isEntry] at change
        exact .inl (pagesBack path (mem_paths change))
      · exact .inr (.inl ⟨other, inRest, change⟩)
    · exact .inr (.inr rest)
  · intro item
    rcases undoable.rubbish item with same | ⟨other, inRemaining, isItem⟩
    · exact .inl same
    · rcases mem_cons.1 inRemaining with isEntry | inRest
      · rw [isEntry] at isItem
        exact .inl (itemBack item isItem)
      · exact .inr ⟨other, inRest, isItem⟩
  · exact fun other inRest => undoable.remainingListed other (mem_cons_of_mem _ inRest)

variable (undoable : Undoable origin command id manifest remaining created removed disk)

include undoable

theorem workspace_eq :
    ∃ workspace, disk.workspace id = some workspace ∧ workspace.manifest = some manifest :=
  Option.bind_eq_some_iff.1 undoable.recorded

variable (accepted : Accepted origin command)

include accepted

theorem moveItem (member : entry ∈ remaining) {slot : Slot} {item : RubbishItem}
    (isSlot : entry.1.itemSlot entry.2 = some (slot, item)) {next : Disk}
    {inStore inSlot : Option ItemNode} (samePages : next.pages = disk.pages)
    (rubbish : next.rubbish = update disk.rubbish item.manifest.itemId inStore)
    (workspaces : ∀ other, next.workspace other
      = if other = id then (disk.workspace id).map fun workspace =>
          { workspace with entries := update workspace.entries slot inSlot }
        else disk.workspace other) (placed : (inStore = none ∧ inSlot = some item.toNode)
      ∨ (inStore = some item.toNode ∧ inSlot = none)) :
    Undoable origin command id manifest remaining created removed next := by
  have ⟨workspace, found, isManifest⟩ := undoable.workspace_eq
  have inCommand := undoable.remainingListed entry member
  have here : next.workspace id
      = some { workspace with entries := update workspace.entries slot inSlot } := by
    rw [workspaces, if_pos rfl, found]
    rfl
  have entryHere : next.entry id slot = inSlot := by
    simp [Disk.entry, here]
  have entryElse : ∀ other, other ≠ slot → next.entry id other = disk.entry id other := by
    intro other different
    simp [Disk.entry, here, found, update_of_ne different]
  have flags : ∀ index, (next.workspace id).any (fun workspace => workspace.created index)
      = (disk.workspace id).any fun workspace => workspace.created index := by
    intro index
    rw [here, found]
    rfl
  -- The slots of another intent carry another number.
  have otherIndex : ∀ other ∈ command.intents.zipIdx, other ≠ entry → ∀ otherSlot : Slot,
      otherSlot.index = other.2 → otherSlot ≠ slot := by
    intro other inOther different otherSlot isIndex same
    rw [same, index_of_itemSlot isSlot] at isIndex
    exact different (eq_of_mem_zipIdx inOther inCommand isIndex.symm)
  refine { undoable with
    pages := ?_
    rubbish := ?_
    files := ?_
    items := ?_
    installed := ?_
    createdOrder := ?_
    removedOrder := ?_
    recorded := ?_
    othersQuiet := ?_ }
  · rw [samePages]
    exact undoable.pages
  · intro other
    by_cases isItem : other = item.manifest.itemId
    · rw [isItem]
      exact .inr ⟨entry, member, item_of_itemSlot isSlot⟩
    · rw [rubbish, update_of_ne isItem]
      exact undoable.rubbish other
  · intro other inOther otherSlot content isEntry
    have different : otherSlot ≠ slot := by
      by_cases isEntryItself : other = entry
      · rw [isEntryItself] at isEntry
        exact undoEntry_ne_itemSlot isEntry isSlot
      · exact otherIndex other inOther isEntryItself otherSlot (index_of_undoEntry isEntry)
    rw [entryElse otherSlot different]
    exact undoable.files other inOther otherSlot content isEntry
  · intro other inOther otherSlot otherItem otherIs
    by_cases isEntryItself : other = entry
    · rw [isEntryItself, isSlot] at otherIs
      have parts := Prod.mk.inj (Option.some.inj otherIs)
      rw [← parts.1, ← parts.2, rubbish, update_self, entryHere]
      rcases placed with outside | inside
      · exact .inl outside
      · exact .inr inside
    · have differentItem : otherItem.manifest.itemId ≠ item.manifest.itemId := by
        intro same
        have otherHas := item_of_itemSlot otherIs
        rw [same] at otherHas
        exact accepted.entries_items inCommand inOther (Ne.symm isEntryItself)
          (item_of_itemSlot isSlot) otherHas
      have differentSlot := otherIndex other inOther isEntryItself otherSlot (index_of_itemSlot otherIs)
      rw [rubbish, update_of_ne differentItem, entryElse otherSlot differentSlot]
      exact undoable.items other inOther otherSlot otherItem otherIs
  · intro path inCreated isFolder index isIndex
    rw [samePages] at isFolder
    rw [flags]
    exact undoable.installed path inCreated isFolder index isIndex
  · rw [samePages]
    exact undoable.createdOrder
  · rw [samePages]
    exact undoable.removedOrder
  · rw [here]
    exact isManifest
  · intro other different
    rw [workspaces, if_neg different]
    exact undoable.othersQuiet other different

theorem mono {remaining' : List (BatchPathIntent × Nat)} {created' removed' : List VaultPath}
    (moreRemaining : ∀ entry ∈ remaining, entry ∈ remaining')
    (remainingListed : ∀ entry ∈ remaining', entry ∈ command.intents.zipIdx)
    (moreCreated : created.Sublist created')
    (createdListed : ∀ path ∈ created', path ∈ command.createDirectories)
    (moreRemoved : removed.Sublist removed')
    (removedListed : ∀ path ∈ removed', path ∈ command.removeDirectories) :
    Undoable origin command id manifest remaining' created' removed' disk := by
  have stillCreated : ∀ path ∈ created', disk.pages.nodeAt path = some .folder → path ∈ created := by
    intro path inCreated isFolder
    have wasAbsent := (accepted.create path (createdListed path inCreated)).1
    rcases undoable.pages path with same | ⟨entry, inRemaining, change⟩ | ⟨member, _⟩ | ⟨_, isNone⟩
    · rw [isFolder, wasAbsent] at same
      cases same
    · rw [isFolder] at change
      exact absurd change folder_not_after
    · exact member
    · rw [isFolder] at isNone
      cases isNone
  have stillRemoved : ∀ path ∈ removed', disk.pages.nodeAt path = none → path ∈ removed := by
    intro path inRemoved isNone
    have wasFolder := accepted.remove path (removedListed path inRemoved)
    rcases undoable.pages path with same | ⟨entry, inRemaining, change⟩ | ⟨_, isFolder⟩ | ⟨member, _⟩
    · rw [isNone, wasFolder] at same
      cases same
    · have inCommand := Accepted.mem_intents (undoable.remainingListed entry inRemaining)
      exact absurd wasFolder (accepted.not_folder inCommand (mem_paths change))
    · rw [isNone] at isFolder
      cases isFolder
    · exact member
  refine { undoable with
    pages := ?_
    rubbish := ?_
    remainingListed := remainingListed
    createdListed := createdListed
    removedListed := removedListed
    installed := ?_
    createdOrder := ?_
    removedOrder := ?_ }
  · intro path
    rcases undoable.pages path with same | ⟨entry, inRemaining, change⟩ | ⟨member, isFolder⟩
      | ⟨member, isNone⟩
    · exact .inl same
    · exact .inr (.inl ⟨entry, moreRemaining entry inRemaining, change⟩)
    · exact .inr (.inr (.inl ⟨moreCreated.subset member, isFolder⟩))
    · exact .inr (.inr (.inr ⟨moreRemoved.subset member, isNone⟩))
  · intro item
    rcases undoable.rubbish item with same | ⟨entry, inRemaining, isItem⟩
    · exact .inl same
    · exact .inr ⟨entry, moreRemaining entry inRemaining, isItem⟩
  · intro path inCreated isFolder
    exact undoable.installed path (stillCreated path inCreated isFolder) isFolder
  · intro upper lower above inUpper inLower upperFolder lowerFolder
    exact (undoable.createdOrder upper lower above (stillCreated upper inUpper upperFolder)
      (stillCreated lower inLower lowerFolder) upperFolder lowerFolder).trans moreCreated
  · intro upper lower above inUpper inLower upperNone lowerNone
    exact (undoable.removedOrder upper lower above (stillRemoved upper inUpper upperNone)
      (stillRemoved lower inLower lowerNone) upperNone lowerNone).trans moreRemoved

theorem reset {pages : Tree}
    (lookup : pages.nodeAt = update disk.pages.nodeAt path (origin.pages.nodeAt path)) :
    Undoable origin command id manifest remaining created removed { disk with pages := pages } := by
  have here : pages.nodeAt path = origin.pages.nodeAt path := by rw [lookup, update_self]
  have elsewhere : ∀ other, other ≠ path → pages.nodeAt other = disk.pages.nodeAt other := by
    intro other different
    rw [lookup, update_of_ne different]
  have createdSame : ∀ other ∈ created, pages.nodeAt other = some .folder →
      disk.pages.nodeAt other = some .folder := by
    intro other inCreated isFolder
    by_cases isHere : other = path
    · have wasAbsent := (accepted.create other (undoable.createdListed other inCreated)).1
      rw [isHere] at isFolder wasAbsent
      rw [here, wasAbsent] at isFolder
      cases isFolder
    · exact (elsewhere other isHere).symm.trans isFolder
  have removedSame : ∀ other ∈ removed, pages.nodeAt other = none →
      disk.pages.nodeAt other = none := by
    intro other inRemoved isNone
    by_cases isHere : other = path
    · have wasFolder := accepted.remove other (undoable.removedListed other inRemoved)
      rw [isHere] at isNone wasFolder
      rw [here, wasFolder] at isNone
      cases isNone
    · exact (elsewhere other isHere).symm.trans isNone
  refine { undoable with
    pages := ?_
    installed := ?_
    createdOrder := ?_
    removedOrder := ?_ }
  · intro other
    show pages.nodeAt other = _ ∨ _
    by_cases isHere : other = path
    · rw [isHere]
      exact .inl here
    · simp only [elsewhere other isHere]
      exact undoable.pages other
  · intro other inCreated isFolder
    exact undoable.installed other inCreated (createdSame other inCreated isFolder)
  · intro upper lower above inUpper inLower upperFolder lowerFolder
    exact undoable.createdOrder upper lower above inUpper inLower
      (createdSame upper inUpper upperFolder) (createdSame lower inLower lowerFolder)
  · intro upper lower above inUpper inLower upperNone lowerNone
    exact undoable.removedOrder upper lower above inUpper inLower
      (removedSame upper inUpper upperNone) (removedSame lower inLower lowerNone)

omit accepted undoable

private theorem pair_sublist_of_ne {first second head : VaultPath} {tail : List VaultPath}
    (ordered : [first, second].Sublist (head :: tail)) (different : first ≠ head) :
    [first, second].Sublist tail := by
  cases ordered with
  | cons _ inTail => exact inTail
  | cons_cons _ inTail => exact absurd rfl different

theorem dropRemoved
    (undoable : Undoable origin command id manifest remaining created (path :: removed) disk)
    (present : disk.pages.nodeAt path ≠ none) :
    Undoable origin command id manifest remaining created removed disk := by
  refine { undoable with
    pages := ?_
    removedListed := ?_
    removedOrder := ?_ }
  · intro other
    rcases undoable.pages other with same | change | isCreated | ⟨inRemoved, isNone⟩
    · exact .inl same
    · exact .inr (.inl change)
    · exact .inr (.inr (.inl isCreated))
    · rcases mem_cons.1 inRemoved with isPath | inRest
      · rw [isPath] at isNone
        exact absurd isNone present
      · exact .inr (.inr (.inr ⟨inRest, isNone⟩))
  · exact fun other inRest => undoable.removedListed other (mem_cons_of_mem _ inRest)
  · intro upper lower above inUpper inLower upperNone lowerNone
    apply pair_sublist_of_ne (undoable.removedOrder upper lower above
      (mem_cons_of_mem _ inUpper) (mem_cons_of_mem _ inLower) upperNone lowerNone)
    intro isPath
    rw [isPath] at upperNone
    exact present upperNone

theorem dropCreated
    (undoable : Undoable origin command id manifest remaining (path :: created) removed disk)
    (gone : disk.pages.nodeAt path ≠ some .folder) :
    Undoable origin command id manifest remaining created removed disk := by
  refine { undoable with
    pages := ?_
    createdListed := ?_
    installed := ?_
    createdOrder := ?_ }
  · intro other
    rcases undoable.pages other with same | change | ⟨inCreated, isFolder⟩ | isRemoved
    · exact .inl same
    · exact .inr (.inl change)
    · rcases mem_cons.1 inCreated with isPath | inRest
      · rw [isPath] at isFolder
        exact absurd isFolder gone
      · exact .inr (.inr (.inl ⟨inRest, isFolder⟩))
    · exact .inr (.inr (.inr isRemoved))
  · exact fun other inRest => undoable.createdListed other (mem_cons_of_mem _ inRest)
  · exact fun other inRest => undoable.installed other (mem_cons_of_mem _ inRest)
  · intro upper lower above inUpper inLower upperFolder lowerFolder
    apply pair_sublist_of_ne (undoable.createdOrder upper lower above
      (mem_cons_of_mem _ inUpper) (mem_cons_of_mem _ inLower) upperFolder lowerFolder)
    intro isPath
    rw [isPath] at lowerFolder
    exact gone lowerFolder

theorem removed_folder_or_none
    (undoable : Undoable origin command id manifest remaining created removed disk)
    (accepted : Accepted origin command) (listed : path ∈ command.removeDirectories) :
    disk.pages.nodeAt path = some .folder ∨ disk.pages.nodeAt path = none := by
  have wasFolder := accepted.remove path listed
  rcases undoable.pages path with same | ⟨entry, inRemaining, change⟩ | ⟨_, isFolder⟩ | ⟨_, isNone⟩
  · exact .inl (same.trans wasFolder)
  · have inCommand := Accepted.mem_intents (undoable.remainingListed entry inRemaining)
    exact absurd wasFolder (accepted.not_folder inCommand (mem_paths change))
  · exact .inl isFolder
  · exact .inr isNone

/-- The folders above the next missing directory are back, if it was listed after them. -/
theorem removed_inFolders
    (undoable : Undoable origin command id manifest remaining created (path :: removed) disk)
    (accepted : Accepted origin command) (straight : Straight (path :: removed))
    (isNone : disk.pages.nodeAt path = none) :
    ∀ ancestor ∈ path.ancestors, disk.pages.nodeAt ancestor = some .folder := by
  intro ancestor above
  have wasFolder := accepted.remove path (undoable.removedListed path mem_cons_self)
  have aboveFolder := Tree.nodeAt_ancestor wasFolder above
  rcases undoable.pages ancestor with same | ⟨entry, inRemaining, change⟩ | ⟨_, isFolder⟩
    | ⟨inRemoved, ancestorNone⟩
  · exact same.trans aboveFolder
  · have inCommand := Accepted.mem_intents (undoable.remainingListed entry inRemaining)
    exact absurd aboveFolder (accepted.not_folder inCommand (mem_paths change))
  · exact isFolder
  · have ordered := undoable.removedOrder ancestor path above inRemoved mem_cons_self
      ancestorNone isNone
    have different : ancestor ≠ path := by
      intro same
      rw [same] at above
      exact VaultPath.not_mem_ancestors_self path above
    have inTail := pair_sublist_of_ne ordered different
    exact absurd (inTail.cons_cons path) (straight ancestor path above)

theorem created_isEmpty
    (undoable : Undoable origin command id manifest [] (path :: created) [] disk)
    (accepted : Accepted origin command) (distinct : (path :: created).Nodup)
    (isFolder : disk.pages.nodeAt path = some .folder) :
    ∀ below, path ∈ below.ancestors → disk.pages.nodeAt below = none := by
  intro below above
  have wasAbsent := (accepted.create path (undoable.createdListed path mem_cons_self)).1
  have belowAbsent : origin.pages.nodeAt below = none := by
    apply Tree.nodeAt_below _ above
    rw [wasAbsent]
    simp
  rcases undoable.pages below with same | ⟨entry, inRemaining, _⟩ | ⟨inCreated, belowFolder⟩
    | ⟨inRemoved, _⟩
  · exact same.trans belowAbsent
  · exact absurd inRemaining not_mem_nil
  · have ordered := undoable.createdOrder path below above mem_cons_self inCreated isFolder
      belowFolder
    have different : below ≠ path := by
      intro same
      rw [same] at above
      exact VaultPath.not_mem_ancestors_self path above
    have inTail := pair_sublist_of_ne ordered different
    have again : path ∈ created := inTail.subset (mem_cons_of_mem _ mem_cons_self)
    exact absurd again (nodup_cons.1 distinct).1
  · exact absurd inRemoved not_mem_nil

theorem created_isOpen (undoable : Undoable origin command id manifest [] created removed disk)
    (accepted : Accepted origin command) (listed : path ∈ command.createDirectories) :
    disk.pages.Open path := by
  intro ancestor above content isFile
  rcases undoable.pages ancestor with same | ⟨entry, inRemaining, _⟩ | ⟨_, isFolder⟩ | ⟨_, isNone⟩
  · rw [same] at isFile
    exact (accepted.create path listed).2 ancestor above content isFile
  · exact absurd inRemaining not_mem_nil
  · rw [isFile] at isFolder
    cases isFolder
  · rw [isFile] at isNone
    cases isNone

theorem restored (undoable : Undoable origin command id manifest [] [] [] disk) :
    disk.pages.nodeAt = origin.pages.nodeAt ∧ disk.rubbish = origin.rubbish := by
  constructor
  · funext path
    rcases undoable.pages path with same | ⟨entry, inRemaining, _⟩ | ⟨inCreated, _⟩ | ⟨inRemoved, _⟩
    · exact same
    · exact absurd inRemaining not_mem_nil
    · exact absurd inCreated not_mem_nil
    · exact absurd inRemoved not_mem_nil
  · funext item
    rcases undoable.rubbish item with same | ⟨entry, inRemaining, _⟩
    · exact same
    · exact absurd inRemaining not_mem_nil

end Undoable

end Clepsydra.Mutate
