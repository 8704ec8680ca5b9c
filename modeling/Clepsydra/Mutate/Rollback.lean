import Clepsydra.Mutate.Undo

/-!
Owns: what `rollback_manifest` does from a state that can be undone: every crash leaves a state that
can be undone, and without faults the vault ends as it was.
-/

namespace Clepsydra.Mutate

open Library Library.Faulty Vault List

def UndoneTo (origin : Disk) (command : BatchMutationCommand) (id : Uuid)
    (manifest : TransactionManifest) (remaining : List (BatchPathIntent × Nat))
    (created removed : List VaultPath) (machine : Machine) : Prop :=
  Undoable origin command id manifest remaining created removed machine.disk

theorem StableAt.and_page {path other : VaultPath} {node found : Option Node}
    {assertion : Machine → Prop} (stable : StableAt path node assertion) (different : other ≠ path) :
    StableAt path node fun machine => assertion machine ∧ machine.disk.pages.nodeAt other = found := by
  intro machine pages both lookup
  refine ⟨stable machine pages both.1 lookup, ?_⟩
  show pages.nodeAt other = found
  rw [lookup, Function.update_of_ne different]
  exact both.2

theorem StableAt.and_rubbish {path : VaultPath} {node : Option Node} {assertion : Machine → Prop}
    {item : Uuid} {found : Option ItemNode} (stable : StableAt path node assertion) :
    StableAt path node fun machine => assertion machine ∧ machine.disk.rubbish item = found :=
  fun machine pages both lookup => ⟨stable machine pages both.1 lookup, both.2⟩

section Intents

variable {contentHash : Bytes → Hash} {permits : Fault Bool → Prop} {invariant : Machine → Prop}
  {origin : Disk} {command : BatchMutationCommand} {id : Uuid} {manifest : TransactionManifest}
  {entry : BatchPathIntent × Nat} {remaining : List (BatchPathIntent × Nat)}
  {created removed : List VaultPath}

/-! ### One intent -/

theorem stableAt_undone (accepted : Accepted origin command) (member : entry ∈ remaining)
    {path : VaultPath} {node : Option Node} (isPath : path ∈ entry.1.paths)
    (isOne : node = origin.pages.nodeAt path ∨ (path, node) ∈ entry.1.pageAfter) :
    StableAt path node (UndoneTo origin command id manifest remaining created removed) :=
  fun _ _ undoable lookup => undoable.setPage accepted member isPath isOne lookup

theorem settled_of_existed {disk : Disk}
    (undoable : Undoable origin command id manifest remaining created removed disk)
    (accepted : Accepted origin command) (member : entry ∈ command.intents.zipIdx)
    {path : VaultPath} {content : Bytes} (isPath : path ∈ entry.1.paths)
    (existed : origin.pages.nodeAt path = some (.file content))
    (removes : ∀ node, (path, node) ∈ entry.1.pageAfter → node = none) :
    Settled contentHash disk.pages path (contentHash content) := by
  rcases undoable.between accepted member isPath with same | change
  · exact .inr ⟨content, same.trans existed, rfl⟩
  · have isNone := removes _ change
    refine .inl ⟨isNone, undoable.isOpen accepted member isPath ?_⟩
    intro ancestor above bytes isFile
    rw [Tree.nodeAt_ancestor existed above] at isFile
    cases isFile

theorem settled_of_missing {disk : Disk}
    (undoable : Undoable origin command id manifest remaining created removed disk)
    (accepted : Accepted origin command) (member : entry ∈ command.intents.zipIdx)
    {path : VaultPath} {content : Bytes} (isPath : path ∈ entry.1.paths)
    (missing : origin.pages.nodeAt path = none) (wasOpen : origin.pages.Open path)
    (writes : ∀ node, (path, node) ∈ entry.1.pageAfter → node = some (.file content)) :
    Settled contentHash disk.pages path (contentHash content) := by
  rcases undoable.between accepted member isPath with same | change
  · exact .inl ⟨same.trans missing, undoable.isOpen accepted member isPath wasOpen⟩
  · exact .inr ⟨content, writes _ change, rfl⟩

variable {slot : Slot} {item : RubbishItem}

theorem itemSettled {disk : Disk}
    (undoable : Undoable origin command id manifest remaining created removed disk)
    (accepted : Accepted origin command) (member : entry ∈ command.intents.zipIdx)
    (isSlot : entry.1.itemSlot entry.2 = some (slot, item)) :
    ItemSettled disk id slot item := by
  refine ⟨?_, undoable.items entry member slot item isSlot⟩
  have observed := accepted.observed entry.1 (Accepted.mem_intents member)
  have ⟨intent, index⟩ := entry
  cases intent with
  | write | move | delete => cases isSlot
  | archivePage path expectedSource manifest =>
    cases isSlot
    exact observed.2.2
  | restorePage destination item =>
    cases isSlot
    exact observed.2.2.2

theorem stable_install (accepted : Accepted origin command) (member : entry ∈ remaining)
    (isSlot : entry.1.itemSlot entry.2 = some (slot, item)) :
    ∀ (machine : Machine) (disk : Disk),
      UndoneTo origin command id manifest remaining created removed machine →
      installItem id slot item.manifest.itemId machine.disk = .ok disk →
      UndoneTo origin command id manifest remaining created removed { machine with disk := disk } := by
  intro machine disk undoable moved
  have ⟨node, inSlot, outOfStore, pages, rubbish, workspaces⟩ := installItem_ok moved
  have isItem : node = item.toNode := by
    rcases undoable.items entry (undoable.remainingListed entry member) slot item isSlot with
      ⟨_, present⟩ | ⟨present, _⟩
    · rw [inSlot] at present
      exact Option.some.inj present
    · rw [outOfStore] at present
      cases present
  rw [isItem] at rubbish
  exact undoable.moveItem accepted member isSlot pages rubbish workspaces (.inr ⟨rfl, rfl⟩)

theorem stable_withdraw (accepted : Accepted origin command) (member : entry ∈ remaining)
    (isSlot : entry.1.itemSlot entry.2 = some (slot, item)) :
    ∀ (machine : Machine) (disk : Disk),
      UndoneTo origin command id manifest remaining created removed machine →
      withdrawItem id slot item.manifest.itemId machine.disk = .ok disk →
      UndoneTo origin command id manifest remaining created removed { machine with disk := disk } := by
  intro machine disk undoable moved
  have ⟨node, inStore, outOfSlot, pages, rubbish, workspaces⟩ := withdrawItem_ok moved
  have isItem : node = item.toNode := by
    rcases undoable.items entry (undoable.remainingListed entry member) slot item isSlot with
      ⟨present, _⟩ | ⟨present, _⟩
    · rw [inStore] at present
      cases present
    · rw [inStore] at present
      exact Option.some.inj present
  rw [isItem] at workspaces
  exact undoable.moveItem accepted member isSlot pages rubbish workspaces (.inl ⟨rfl, rfl⟩)

/-! ### Undoing one intent -/

variable (accepted : Accepted origin command) (listed : entry ∈ command.intents.zipIdx)

section Pages

variable {before : Machine → Prop} {path : VaultPath} (undone : ∀ machine, before machine →
    UndoneTo origin command id manifest (entry :: remaining) created [] machine)
  (holds : ∀ machine, UndoneTo origin command id manifest (entry :: remaining) created [] machine →
    invariant machine)
  (isPath : path ∈ entry.1.paths)

include accepted listed undone holds isPath

theorem keeps_removeWritten {content : Bytes}
    (missing : origin.pages.nodeAt path = none) (wasOpen : origin.pages.Open path)
    (writes : ∀ node, (path, node) ∈ entry.1.pageAfter → node = some (.file content))
    (stable : StableAt path none before) :
    Keeps permits invariant before (removeAfterState contentHash path (contentHash content))
      fun _ machine => before machine
        ∧ machine.disk.pages.nodeAt path = origin.pages.nodeAt path := by
  rw [missing]
  apply keeps_removeIfHash (fun machine pre => holds machine (undone machine pre)) stable
  intro machine pre
  exact .inr (settled_of_missing (undone machine pre) accepted listed isPath missing wasOpen writes)

theorem keeps_restoreExisted (injective : Function.Injective contentHash) {content : Bytes}
    (existed : origin.pages.nodeAt path = some (.file content))
    (removes : ∀ node, (path, node) ∈ entry.1.pageAfter → node = none)
    (stable : StableAt path (some (.file content)) before) :
    Keeps permits invariant before
      (restoreMissingFile contentHash path (contentHash content) content)
      fun _ machine => before machine
        ∧ machine.disk.pages.nodeAt path = origin.pages.nodeAt path := by
  rw [existed]
  apply keeps_restoreMissingFile (fun machine pre => holds machine (undone machine pre)) injective
    stable
  · intro machine pre
    exact .inr (settled_of_existed (undone machine pre) accepted listed isPath existed removes)
  · intro machine pre
    exact .inr ((undone machine pre).inFolders accepted existed)

end Pages

include listed in
theorem keeps_withUndo {before : Machine → Prop} {content : Bytes} {next : Bytes → Batch Unit}
    {ok : Unit → Machine → Prop} (isUndo : entry.1.undoEntry entry.2 = some (slot, content))
    (undone : ∀ machine, before machine →
      UndoneTo origin command id manifest remaining created removed machine)
    (continues : Keeps permits invariant before (next content) ok) :
    Keeps permits invariant before (withVerified contentHash id slot (contentHash content) next)
      ok :=
  keeps_withVerified rfl
    (fun machine pre => (undone machine pre).files entry listed slot content isUndo) continues

theorem undone_of_back {machine : Machine}
    (undoable : UndoneTo origin command id manifest (entry :: remaining) created removed machine)
    (pagesBack : ∀ path ∈ entry.1.paths, machine.disk.pages.nodeAt path = origin.pages.nodeAt path)
    (itemBack : ∀ item, entry.1.item = some item →
      machine.disk.rubbish item = origin.rubbish item) :
    UndoneTo origin command id manifest remaining created removed machine :=
  undoable.discharge pagesBack itemBack

theorem undone_of_pages {machine : Machine} (noItem : entry.1.item = none)
    (undoable : UndoneTo origin command id manifest (entry :: remaining) created removed machine)
    (pagesBack : ∀ path ∈ entry.1.paths,
      machine.disk.pages.nodeAt path = origin.pages.nodeAt path) :
    UndoneTo origin command id manifest remaining created removed machine :=
  undone_of_back undoable pagesBack fun _ isItem => nomatch noItem.symm.trans isItem

end Intents

section Kinds

variable {contentHash : Bytes → Hash} {permits : Fault Bool → Prop} {invariant : Machine → Prop}
  {origin : Disk} {command : BatchMutationCommand} {id : Uuid} {manifest : TransactionManifest}
  {entry : BatchPathIntent × Nat} {remaining : List (BatchPathIntent × Nat)}
  {created : List VaultPath} (injective : Function.Injective contentHash)
  (accepted : Accepted origin command) (listed : entry ∈ command.intents.zipIdx)
  (holds : ∀ machine, UndoneTo origin command id manifest (entry :: remaining) created [] machine →
    invariant machine)

include injective accepted listed holds

theorem keeps_rollbackWrite {path : VaultPath} {expected : ExpectedPathState} {content : Bytes}
    (isWrite : entry.1 = .write path expected content) :
    Keeps permits invariant (UndoneTo origin command id manifest (entry :: remaining) created [])
      (rollbackIntent contentHash id entry.2 (manifestIntent contentHash entry.1))
      fun _ => UndoneTo origin command id manifest remaining created [] := by
  have observed := accepted.observed _ (Accepted.mem_intents listed)
  rw [isWrite] at observed ⊢
  have isPath : path ∈ entry.1.paths := by
    simp [isWrite, BatchPathIntent.paths, BatchPathIntent.pageAfter]
  have writes : ∀ node, (path, node) ∈ entry.1.pageAfter → node = some (.file content) := by
    simp [isWrite, BatchPathIntent.pageAfter]
  have stable : StableAt path (origin.pages.nodeAt path)
      (UndoneTo origin command id manifest (entry :: remaining) created []) :=
    stableAt_undone accepted mem_cons_self isPath (.inl rfl)
  have post : ∀ (_ : Unit) (machine : Machine),
      (UndoneTo origin command id manifest (entry :: remaining) created [] machine
        ∧ machine.disk.pages.nodeAt path = origin.pages.nodeAt path) →
      UndoneTo origin command id manifest remaining created [] machine := by
    intro _ machine both
    apply undone_of_pages (isWrite ▸ rfl) both.1
    simpa [isWrite, BatchPathIntent.paths, BatchPathIntent.pageAfter] using both.2
  cases expected with
  | missing =>
    obtain ⟨missing, wasOpen⟩ := observed
    rw [missing] at stable
    apply keeps_mono (keeps_removeWritten accepted listed (fun _ undone => undone) holds isPath
      missing wasOpen writes stable) (fun _ undone => undone) post
  | bytes before =>
    have existed : origin.pages.nodeAt path = some (.file before) := observed
    rw [existed] at stable post
    apply keeps_withUndo listed (isWrite ▸ rfl) fun _ undone => undone
    apply keeps_mono (keeps_restoreFileState holds injective stable _) (fun _ undone => undone) post
    intro machine undone
    rcases undone.between accepted listed isPath with same | change
    · exact .inr ⟨before, same.trans existed, .inl rfl⟩
    · exact .inr ⟨content, writes _ change, .inr rfl⟩

theorem keeps_rollbackDelete {path : VaultPath} {expected : Bytes}
    (isDelete : entry.1 = .delete path expected) :
    Keeps permits invariant (UndoneTo origin command id manifest (entry :: remaining) created [])
      (rollbackIntent contentHash id entry.2 (manifestIntent contentHash entry.1))
      fun _ => UndoneTo origin command id manifest remaining created [] := by
  have existed := accepted.observed _ (Accepted.mem_intents listed)
  rw [isDelete] at existed ⊢
  have isPath : path ∈ entry.1.paths := by
    simp [isDelete, BatchPathIntent.paths, BatchPathIntent.pageAfter]
  have removes : ∀ node, (path, node) ∈ entry.1.pageAfter → node = none := by
    simp [isDelete, BatchPathIntent.pageAfter]
  apply keeps_withUndo listed (isDelete ▸ rfl) fun _ undone => undone
  apply keeps_mono (keeps_restoreExisted accepted listed (fun _ undone => undone) holds isPath
    injective existed removes (stableAt_undone accepted mem_cons_self isPath (.inl existed.symm)))
    (fun _ undone => undone)
  intro _ machine both
  apply undone_of_pages (isDelete ▸ rfl) both.1
  simpa [isDelete, BatchPathIntent.paths, BatchPathIntent.pageAfter] using both.2

theorem keeps_rollbackMove {source destination : VaultPath} {expectedSource : Bytes}
    (isMove : entry.1 = .move source destination expectedSource) :
    Keeps permits invariant (UndoneTo origin command id manifest (entry :: remaining) created [])
      (rollbackIntent contentHash id entry.2 (manifestIntent contentHash entry.1))
      fun _ => UndoneTo origin command id manifest remaining created [] := by
  have observed := accepted.observed _ (Accepted.mem_intents listed)
  rw [isMove] at observed ⊢
  have ⟨existed, missing, wasOpen⟩ := observed
  have different : source ≠ destination := by
    intro same
    rw [same, missing] at existed
    cases existed
  have sourcePath : source ∈ entry.1.paths := by
    simp [isMove, BatchPathIntent.paths, BatchPathIntent.pageAfter]
  have destinationPath : destination ∈ entry.1.paths := by
    simp [isMove, BatchPathIntent.paths, BatchPathIntent.pageAfter]
  have removes : ∀ node, (source, node) ∈ entry.1.pageAfter → node = none := by
    simp [isMove, BatchPathIntent.pageAfter, different]
  have writes : ∀ node, (destination, node) ∈ entry.1.pageAfter →
      node = some (.file expectedSource) := by
    simp [isMove, BatchPathIntent.pageAfter, different.symm]
  apply keeps_withUndo listed (isMove ▸ rfl) fun _ undone => undone
  apply keeps_andThen (keeps_preflight holds fun machine undone =>
    .inr (settled_of_existed undone accepted listed sourcePath existed removes))
  intro _
  apply keeps_andThen (keeps_preflight holds fun machine undone =>
    .inr (settled_of_missing undone accepted listed destinationPath missing wasOpen writes))
  intro _
  apply keeps_andThen (keeps_restoreExisted accepted listed (fun _ undone => undone) holds
    sourcePath injective existed removes
    (stableAt_undone accepted mem_cons_self sourcePath (.inl existed.symm)))
  intro _
  apply keeps_mono (keeps_removeWritten accepted listed (fun _ both => both.1) holds
    destinationPath missing wasOpen writes
    ((stableAt_undone accepted mem_cons_self destinationPath (.inl missing.symm)).and_page
      different)) (fun _ both => both)
  intro _ machine both
  apply undone_of_pages (isMove ▸ rfl) both.1.1
  simpa [isMove, BatchPathIntent.paths, BatchPathIntent.pageAfter] using ⟨both.2, both.1.2⟩

theorem keeps_rollbackArchive {path : VaultPath} {expectedSource : Bytes}
    {itemManifest : RubbishManifest}
    (isArchive : entry.1 = .archivePage path expectedSource itemManifest) :
    Keeps permits invariant (UndoneTo origin command id manifest (entry :: remaining) created [])
      (rollbackIntent contentHash id entry.2 (manifestIntent contentHash entry.1))
      fun _ => UndoneTo origin command id manifest remaining created [] := by
  have observed := accepted.observed _ (Accepted.mem_intents listed)
  rw [isArchive] at observed ⊢
  have ⟨existed, noItem, _⟩ := observed
  have isPath : path ∈ entry.1.paths := by
    simp [isArchive, BatchPathIntent.paths, BatchPathIntent.pageAfter]
  have removes : ∀ node, (path, node) ∈ entry.1.pageAfter → node = none := by
    simp [isArchive, BatchPathIntent.pageAfter]
  apply keeps_withUndo listed (isArchive ▸ rfl) fun _ undone => undone
  apply keeps_andThen (keeps_preflight holds fun machine undone =>
    .inr (settled_of_existed undone accepted listed isPath existed removes))
  intro _
  apply keeps_andThen (keeps_withdrawTransactionItem holds
    (stable_withdraw accepted mem_cons_self (isArchive ▸ rfl))
    fun machine undone => .inr (itemSettled undone accepted listed (isArchive ▸ rfl)))
  intro _
  apply keeps_mono (keeps_restoreExisted accepted listed (fun _ both => both.1) holds isPath
    injective existed removes
    (stableAt_undone accepted mem_cons_self isPath (.inl existed.symm)).and_rubbish)
    (fun _ both => both)
  intro _ machine both
  apply undone_of_back both.1.1
  · simpa [isArchive, BatchPathIntent.paths, BatchPathIntent.pageAfter] using both.2
  · intro item isItem
    rw [isArchive] at isItem
    cases isItem
    exact both.1.2.trans noItem.symm

omit injective in
theorem keeps_rollbackRestore {destination : VaultPath} {item : RubbishItem}
    (isRestore : entry.1 = .restorePage destination item) :
    Keeps permits invariant (UndoneTo origin command id manifest (entry :: remaining) created [])
      (rollbackIntent contentHash id entry.2 (manifestIntent contentHash entry.1))
      fun _ => UndoneTo origin command id manifest remaining created [] := by
  have observed := accepted.observed _ (Accepted.mem_intents listed)
  rw [isRestore] at observed ⊢
  have ⟨missing, wasOpen, inStore, _⟩ := observed
  have isPath : destination ∈ entry.1.paths := by
    simp [isRestore, BatchPathIntent.paths, BatchPathIntent.pageAfter]
  have writes : ∀ node, (destination, node) ∈ entry.1.pageAfter →
      node = some (.file item.bytes) := by
    simp [isRestore, BatchPathIntent.pageAfter]
  apply keeps_withUndo listed (isRestore ▸ rfl) fun _ undone => undone
  apply keeps_andThen (keeps_preflight holds fun machine undone =>
    .inr (settled_of_missing undone accepted listed isPath missing wasOpen writes))
  intro _
  apply keeps_andThen (keeps_publishTransactionItem holds
    (stable_install accepted mem_cons_self (isRestore ▸ rfl))
    fun machine undone => .inr (itemSettled undone accepted listed (isRestore ▸ rfl)))
  intro _
  apply keeps_mono (keeps_removeWritten accepted listed (fun _ both => both.1) holds isPath
    missing wasOpen writes
    (stableAt_undone accepted mem_cons_self isPath (.inl missing.symm)).and_rubbish)
    (fun _ both => both)
  intro _ machine both
  apply undone_of_back both.1.1
  · simpa [isRestore, BatchPathIntent.paths, BatchPathIntent.pageAfter] using both.2
  · intro other isItem
    rw [isRestore] at isItem
    cases isItem
    exact both.1.2.trans inStore.symm

omit listed in
theorem keeps_rollbackIntent :
    Keeps permits invariant (UndoneTo origin command id manifest (entry :: remaining) created [])
      (rollbackIntent contentHash id entry.2 (manifestIntent contentHash entry.1))
      fun _ => UndoneTo origin command id manifest remaining created [] := by
  apply keeps_known fun machine undone => undone.remainingListed entry mem_cons_self
  intro listed
  cases isIntent : entry.1 with
  | write path expected content =>
    exact isIntent ▸ keeps_rollbackWrite injective accepted listed holds isIntent
  | move source destination expectedSource =>
    exact isIntent ▸ keeps_rollbackMove injective accepted listed holds isIntent
  | delete path expected =>
    exact isIntent ▸ keeps_rollbackDelete injective accepted listed holds isIntent
  | archivePage path expectedSource itemManifest =>
    exact isIntent ▸ keeps_rollbackArchive injective accepted listed holds isIntent
  | restorePage destination item =>
    exact isIntent ▸ keeps_rollbackRestore accepted listed holds isIntent

end Kinds

/-! ### Directories -/

section Directories

variable {permits : Fault Bool → Prop} {invariant : Machine → Prop}
  {origin : Disk} {command : BatchMutationCommand} {id : Uuid} {manifest : TransactionManifest}
  {remaining : List (BatchPathIntent × Nat)} {created removed : List VaultPath}
  (accepted : Accepted origin command)

include accepted

theorem keeps_restoreDirectory {path : VaultPath}
    (holds : ∀ machine, UndoneTo origin command id manifest remaining created (path :: removed)
      machine → invariant machine) (straight : Straight (path :: removed)) :
    Keeps permits invariant
      (UndoneTo origin command id manifest remaining created (path :: removed))
      (restoreDirectory path)
      fun _ => UndoneTo origin command id manifest remaining created removed := by
  unfold restoreDirectory
  apply keeps_branch
  intro machine undone
  have listed := undone.removedListed path mem_cons_self
  have wasFolder := accepted.remove path listed
  rcases undone.removed_folder_or_none accepted listed with isFolder | isNone
  · have present : machine.disk.pages.isPresent path = true := by simp [Tree.isPresent_eq, isFolder]
    rw [if_pos present, if_pos (Tree.isDir_iff.2 isFolder)]
    apply keeps_done
    intro current same
    rw [same]
    exact undone.dropRemoved (by simp [isFolder])
  · have absent : ¬machine.disk.pages.isPresent path = true := by simp [Tree.isPresent_eq, isNone]
    rw [if_neg absent]
    have inFolders := undone.removed_inFolders accepted straight isNone
    have stable : StableAt path (some .folder)
        (UndoneTo origin command id manifest remaining created (path :: removed)) := by
      intro current pages pre lookup
      exact pre.reset accepted (wasFolder ▸ lookup)
    have creates : Keeps permits invariant (fun current =>
          UndoneTo origin command id manifest remaining created (path :: removed) current
            ∧ current.disk.pages.nodeAt path = none
            ∧ ∀ ancestor ∈ path.ancestors, current.disk.pages.nodeAt ancestor = some .folder)
        (perform (.filesystem "create directory" (.page path))
          (onPages fun pages => pages.create path .folder))
        fun _ current =>
          UndoneTo origin command id manifest remaining created (path :: removed) current
            ∧ current.disk.pages.nodeAt path = some .folder := by
      apply keeps_onPages holds stable
      · exact fun _ _ known => .inr (Tree.create_succeeds known.1 known.2)
      · exact fun _ _ works => (Tree.create_ok works).2
    apply keeps_mono creates
    · intro current same
      rw [same]
      exact ⟨undone, isNone, inFolders⟩
    · intro _ current both
      exact both.1.dropRemoved (by simp [both.2])

/-- The directories recorded on disk are among those it still goes through. -/
def WithdrawnTo (origin : Disk) (command : BatchMutationCommand) (id : Uuid)
    (manifest : TransactionManifest) (recorded listed : List VaultPath) (machine : Machine) : Prop :=
  listed.Nodup ∧ ∃ created : List VaultPath, created.Sublist listed ∧ created.Sublist recorded
    ∧ UndoneTo origin command id manifest [] created [] machine

variable {recorded : List VaultPath}

omit accepted in
theorem WithdrawnTo.drop {listed : List VaultPath} {path : VaultPath} {machine : Machine}
    (withdrawn : WithdrawnTo origin command id manifest recorded (path :: listed) machine)
    (gone : machine.disk.pages.nodeAt path ≠ some .folder) :
    WithdrawnTo origin command id manifest recorded listed machine := by
  have ⟨distinct, created, inListed, inRecorded, undone⟩ := withdrawn
  refine ⟨(nodup_cons.1 distinct).2, ?_⟩
  cases inListed with
  | cons _ inTail => exact ⟨created, inTail, inRecorded, undone⟩
  | cons_cons _ inTail =>
    exact ⟨_, inTail, (sublist_cons_self _ _).trans inRecorded, undone.dropCreated gone⟩

omit accepted in
theorem WithdrawnTo.head_of_folder {listed : List VaultPath} {path : VaultPath} {machine : Machine}
    (accepted : Accepted origin command)
    (withdrawn : WithdrawnTo origin command id manifest recorded (path :: listed) machine)
    (isListed : path ∈ command.createDirectories)
    (isFolder : machine.disk.pages.nodeAt path = some .folder) :
    ∃ created : List VaultPath, (path :: created).Sublist recorded ∧ created.Sublist listed
      ∧ UndoneTo origin command id manifest [] (path :: created) [] machine := by
  have ⟨distinct, created, inListed, inRecorded, undone⟩ := withdrawn
  have member : path ∈ created := by
    rcases undone.pages path with same | ⟨entry, inRemaining, _⟩ | ⟨inCreated, _⟩ | ⟨inRemoved, _⟩
    · rw [isFolder, (accepted.create path isListed).1] at same
      cases same
    · exact absurd inRemaining not_mem_nil
    · exact inCreated
    · exact absurd inRemoved not_mem_nil
  cases inListed with
  | cons _ inTail => exact absurd (inTail.subset member) (nodup_cons.1 distinct).1
  | cons_cons _ inTail => exact ⟨_, inRecorded, inTail, undone⟩

omit accepted in
theorem WithdrawnTo.folder_or_none {listed : List VaultPath} {path : VaultPath} {machine : Machine}
    (accepted : Accepted origin command)
    (withdrawn : WithdrawnTo origin command id manifest recorded listed machine)
    (isListed : path ∈ command.createDirectories) :
    machine.disk.pages.nodeAt path = some .folder
      ∨ (machine.disk.pages.nodeAt path = none ∧ machine.disk.pages.Open path) := by
  have ⟨_, created, _, _, undone⟩ := withdrawn
  have isOpen := undone.created_isOpen accepted isListed
  rcases undone.pages path with same | ⟨entry, inRemaining, _⟩ | ⟨_, isFolder⟩ | ⟨_, isNone⟩
  · exact .inr ⟨same.trans (accepted.create path isListed).1, isOpen⟩
  · exact absurd inRemaining not_mem_nil
  · exact .inl isFolder
  · exact .inr ⟨isNone, isOpen⟩

omit accepted in
theorem stableAt_withdrawn {listed : List VaultPath} {path : VaultPath}
    (accepted : Accepted origin command) (isListed : path ∈ command.createDirectories) :
    StableAt path none (WithdrawnTo origin command id manifest recorded listed) := by
  intro machine pages withdrawn lookup
  have ⟨distinct, created, inListed, inRecorded, undone⟩ := withdrawn
  rw [← (accepted.create path isListed).1] at lookup
  exact ⟨distinct, created, inListed, inRecorded, undone.reset accepted lookup⟩

theorem keeps_withdrawDirectory {listed : List VaultPath} {path : VaultPath}
    (isListed : path ∈ command.createDirectories)
    (holds : ∀ machine, WithdrawnTo origin command id manifest recorded (path :: listed) machine →
      invariant machine) :
    Keeps permits invariant (WithdrawnTo origin command id manifest recorded (path :: listed))
      (withdrawDirectory id command.createDirectories path)
      fun _ => WithdrawnTo origin command id manifest recorded listed := by
  have leave : ∀ machine, WithdrawnTo origin command id manifest recorded (path :: listed) machine →
      machine.disk.pages.nodeAt path ≠ some .folder →
      Keeps permits invariant (fun current => current = machine) (Program.done () : Batch Unit)
        fun _ => WithdrawnTo origin command id manifest recorded listed := by
    intro machine withdrawn gone
    apply keeps_done
    intro current same
    rw [same]
    exact withdrawn.drop gone
  unfold withdrawDirectory
  cases found : command.createDirectories.findIdx? (· = path) with
  | none =>
    have absent := findIdx?_eq_none_iff.1 found path isListed
    simp at absent
  | some index =>
    simp only
    apply keeps_branch
    intro machine withdrawn
    rcases withdrawn.folder_or_none accepted isListed with isFolder | ⟨isNone, isOpen⟩
    · have ⟨created, inRecorded, inListed, undone⟩ :=
        withdrawn.head_of_folder accepted isListed isFolder
      have notStaged := undone.installed path mem_cons_self isFolder index found
      have distinct : (path :: created).Nodup := withdrawn.1.sublist (inListed.cons_cons path)
      have isEmpty := undone.created_isEmpty accepted distinct isFolder
      have ⟨pages, works⟩ := Tree.removeDir_succeeds isFolder isEmpty
      rw [notStaged, works]
      have removes : Keeps permits invariant
          (fun current => WithdrawnTo origin command id manifest recorded (path :: listed) current
            ∧ current = machine)
          (perform (.filesystem "remove prepared directory" (.page path))
            (onPages fun pages => pages.removeDir path))
          fun _ current => WithdrawnTo origin command id manifest recorded (path :: listed) current
            ∧ current.disk.pages.nodeAt path = none := by
        apply keeps_onPages holds (stableAt_withdrawn accepted isListed)
        · intro current _ same
          rw [same]
          exact .inr ⟨pages, works⟩
        · exact fun _ _ removed => (Tree.removeDir_ok removed).2.2
      apply keeps_mono removes
      · intro current same
        rw [same]
        exact ⟨withdrawn, rfl⟩
      · intro _ current both
        exact both.1.drop (by simp [both.2])
    · rw [Tree.removeDir_of_open isOpen isNone]
      split_ifs
      · exact leave machine withdrawn (by simp [isNone])
      · exact leave machine withdrawn (by simp [isNone])

end Directories

/-! ### The whole rollback -/

/-- What `prepare` recorded, at any phase and with any of the directories created. -/
structure TransactionManifest.Follows (contentHash : Bytes → Hash) (command : BatchMutationCommand)
    (manifest : TransactionManifest) : Prop where
  removeDirectories : manifest.removeDirectories = command.removeDirectories
  createDirectories : manifest.createDirectories = command.createDirectories
  intents : manifest.intents = command.intents.map (manifestIntent contentHash)
  createdListed : ∀ path ∈ manifest.createdDirectories, path ∈ command.createDirectories
  createdDistinct : manifest.createdDirectories.Nodup

def Undone (origin : Disk) (command : BatchMutationCommand) (id : Uuid)
    (manifest : TransactionManifest) (disk : Disk) : Prop :=
  Undoable origin command id manifest command.intents.zipIdx manifest.createdDirectories.reverse
    command.removeDirectories disk

section Rollback

variable {contentHash : Bytes → Hash} {permits : Fault Bool → Prop} {invariant : Machine → Prop}
  {origin : Disk} {command : BatchMutationCommand} {id : Uuid}
  {manifest followed : TransactionManifest}

/-- `rollback_manifest`, by a manifest that lists at least the recorded directories. -/
theorem keeps_rollbackManifest (injective : Function.Injective contentHash)
    (accepted : Accepted origin command) (straight : Straight command.removeDirectories)
    (follows : followed.Follows contentHash command)
    (listsMore : manifest.createdDirectories.Sublist followed.createdDirectories)
    (holds : ∀ machine : Machine, Undone origin command id manifest machine.disk →
      invariant machine) :
    Keeps permits invariant (fun machine => Undone origin command id manifest machine.disk)
      (rollbackManifest contentHash id followed)
      fun _ machine => Undoable origin command id manifest [] [] [] machine.disk := by
  unfold rollbackManifest
  rw [follows.removeDirectories, follows.createDirectories, follows.intents, zipIdx_map,
    ← map_reverse, Program.forEach_map]
  have recordedListed : ∀ path ∈ manifest.createdDirectories.reverse,
      path ∈ command.createDirectories := by
    intro path member
    exact follows.createdListed path (listsMore.subset (mem_reverse.1 member))
  have wider : ∀ (remaining : List (BatchPathIntent × Nat)) (created removed : List VaultPath)
      (machine : Machine), created.Sublist manifest.createdDirectories.reverse →
      removed.Sublist command.removeDirectories →
      UndoneTo origin command id manifest remaining created removed machine →
      invariant machine := by
    intro remaining created removed machine lessCreated lessRemoved undone
    apply holds
    exact undone.mono accepted undone.remainingListed (fun _ member => member) lessCreated
      recordedListed lessRemoved (fun _ member => member)
  -- Removed directories come back, in the order in which they are listed.
  have directoriesBack : Keeps permits invariant
      (fun machine => Undone origin command id manifest machine.disk)
      (Program.forEach restoreDirectory command.removeDirectories)
      fun _ => UndoneTo origin command id manifest command.intents.zipIdx
        manifest.createdDirectories.reverse [] := by
    apply keeps_forEach (UndoneTo origin command id manifest command.intents.zipIdx
      manifest.createdDirectories.reverse)
    intro path rest isEnd
    have within := isEnd.sublist
    exact keeps_restoreDirectory accepted
      (fun machine => wider _ _ _ machine (List.Sublist.refl _) within) (straight.sublist within)
  -- The intents are undone from the last to the first.
  have intentsUndone : Keeps permits invariant
      (UndoneTo origin command id manifest command.intents.zipIdx
        manifest.createdDirectories.reverse [])
      (Program.forEach (fun entry : BatchPathIntent × Nat =>
          rollbackIntent contentHash id entry.2 (manifestIntent contentHash entry.1))
        command.intents.zipIdx.reverse)
      fun _ => UndoneTo origin command id manifest [] manifest.createdDirectories.reverse [] := by
    have loops := @keeps_forEach permits invariant _ (fun entry : BatchPathIntent × Nat =>
        rollbackIntent contentHash id entry.2 (manifestIntent contentHash entry.1))
      (fun rest => UndoneTo origin command id manifest rest manifest.createdDirectories.reverse [])
      command.intents.zipIdx.reverse fun entry rest _ =>
        keeps_rollbackIntent injective accepted fun machine =>
          wider _ _ _ machine (List.Sublist.refl _) (nil_sublist _)
    apply keeps_mono loops _ (fun _ _ post => post)
    intro machine undone
    apply undone.mono accepted (fun _ member => mem_reverse.2 member)
      (fun _ member => mem_reverse.1 member) (List.Sublist.refl _) recordedListed
      (List.Sublist.refl _)
    exact fun _ member => absurd member not_mem_nil
  -- Created directories go, innermost first.
  have directoriesGone : Keeps permits invariant
      (WithdrawnTo origin command id manifest manifest.createdDirectories.reverse
        followed.createdDirectories.reverse)
      (Program.forEach (withdrawDirectory id command.createDirectories)
        followed.createdDirectories.reverse)
      fun _ => WithdrawnTo origin command id manifest manifest.createdDirectories.reverse [] := by
    apply keeps_forEach (WithdrawnTo origin command id manifest manifest.createdDirectories.reverse)
    intro path rest isEnd
    have isListed : path ∈ command.createDirectories := by
      apply follows.createdListed
      exact mem_reverse.1 (isEnd.subset mem_cons_self)
    apply keeps_withdrawDirectory accepted isListed
    intro machine withdrawn
    have ⟨_, created, _, inRecorded, undone⟩ := withdrawn
    exact wider _ _ _ machine inRecorded (nil_sublist _) undone
  apply keeps_andThen directoriesBack
  intro _
  apply keeps_andThen intentsUndone
  intro _
  apply keeps_mono directoriesGone
  · intro machine undone
    exact ⟨nodup_reverse.2 follows.createdDistinct, _, reverse_sublist.2 listsMore,
      List.Sublist.refl _, undone⟩
  · intro _ machine withdrawn
    have ⟨_, created, inNone, _, undone⟩ := withdrawn
    rw [sublist_nil.1 inNone] at undone
    exact undone

end Rollback

end Clepsydra.Mutate
