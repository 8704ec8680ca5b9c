import Clepsydra.Mutate.Recovery

/-!
Owns: the two statements about crashes of batch mutations: a batch that is stopped anywhere is
undone or complete after recovery; and so it is when recovery is itself stopped.
-/

namespace Clepsydra.Mutate

open Library Library.Faulty Vault List Function

/-! ### Small vaults -/

def emptyDigest : Hash :=
  [0xaf, 0x13, 0x49, 0xb9, 0xf5, 0xf9, 0xa1, 0xa6, 0xa0, 0x40, 0x4d, 0xea, 0x36, 0xdc, 0xc9, 0x49,
    0x9b, 0xcb, 0x25, 0xc9, 0xad, 0xc1, 0x12, 0xb7, 0xcc, 0x9a, 0x93, 0xca, 0xe4, 0x1f, 0x32, 0x62]

def sampleHash (content : Bytes) : Hash := emptyDigest ++ content

theorem sampleHash_injective : Injective sampleHash := fun _ _ same => append_cancel_left same

theorem isComponent_sample {component : String} (member : component ∈ ["a.md", "q", "d"]) :
    IsComponent component := by
  simp only [mem_cons, not_mem_nil, or_false] at member
  rcases member with same | same | same <;> rw [same] <;>
    exact ⟨by decide, by decide, by decide, by decide⟩

theorem isComponent_samplePage : IsComponent "a.md" := isComponent_sample (by simp)

def samplePage : VaultPath := .single "a.md" isComponent_samplePage

def upperFolder : VaultPath := ⟨["q"], by decide, fun _ member => isComponent_sample (by simp_all)⟩

def lowerFolder : VaultPath :=
  ⟨["q", "d"], by decide, fun _ member => isComponent_sample (by simp_all)⟩

def sampleId : Uuid := .repeated 0

def pageDisk : Disk where
  pages := ⟨⟨[⟨samplePage, .file []⟩], by decide⟩, by decide⟩
  rubbish := fun _ => none
  transactions := Table.empty

def deletePage : BatchMutationCommand := ⟨[.delete samplePage []], [], [], [], []⟩

def folderDisk : Disk where
  pages := ⟨⟨[⟨upperFolder, .folder⟩, ⟨lowerFolder, .folder⟩], by decide⟩, by decide⟩
  rubbish := fun _ => none
  transactions := Table.empty

def removeFolders : BatchMutationCommand :=
  ⟨[], [], [lowerFolder, upperFolder, lowerFolder], [], []⟩

def samplePrepared : PreparedBatch := ⟨preparedManifest sampleHash deletePage, false⟩

theorem planned_deletePage : Planned deletePage where
  apart := pairwise_singleton _ _
  directories := fun _ member => absurd member not_mem_nil

theorem planned_removeFolders : Planned removeFolders where
  apart := .nil
  directories := fun _ member => absurd member not_mem_nil

theorem straight_deletePage : Straight deletePage.removeDirectories := by
  intro upper lower _ listed
  cases listed

/-! ### Uninterrupted recovery -/

section Uninterrupted

variable {contentHash : Bytes → Hash} {origin : Disk} {command : BatchMutationCommand} {id : Uuid}

theorem keeps_halt {permits : Fault Bool → Prop} {leaving : Prop} (mayCrash : permits .crash) :
    Keeps permits (fun machine => Crashed contentHash origin command id leaving machine.disk)
      (fun machine => Removable contentHash origin command id machine.disk)
      (Program.halt : Batch Unit)
      fun _ machine => Crashed contentHash origin command id leaving machine.disk :=
  triple_halt fun _ removable => ⟨removable.crashed, mayCrash⟩

theorem crashed_executeBatch (injective : Injective contentHash)
    (planned : Planned command) (straight : Straight command.removeDirectories)
    (fresh : origin.workspace id = none)
    (quiet : ∀ other, origin.durablePhase other ≠ some .committing) (reindexed : Bool)
    (script : List (Fault Bool)) (prepared : PreparedBatch) :
    Crashed contentHash origin command id False
      (executeBatch contentHash id Program.halt command reindexed script ⟨origin, prepared⟩).state.disk := by
  have mayFail : MayFail fun _ : Fault Bool => True := ⟨true, trivial⟩
  have othersQuiet : origin.OthersQuiet id := othersQuiet_iff.2 fun other _ => quiet other
  have halts : Keeps (fun _ : Fault Bool => True)
      (fun machine => Crashed contentHash origin command id False machine.disk)
      (fun machine => Removable contentHash origin command id machine.disk) Program.halt
      fun _ machine => Crashed contentHash origin command id False machine.disk :=
    keeps_halt trivial
  have keeps := keeps_executeBatch injective mayFail straight halts planned fresh othersQuiet
    reindexed
  have start : (⟨origin, prepared⟩ : Machine).disk = origin := rfl
  exact keeps.always (fun _ _ crashed => crashed) start fun _ _ => trivial

theorem settled_eraseTransaction {disk : Disk}
    {target : (VaultPath → Option Node) × (Uuid → Option ItemNode)} (quiet : disk.OthersQuiet id)
    (vault : disk.vault = target) :
    SettledTo id target (disk.eraseTransaction id)
      ∧ (disk.eraseTransaction id).durablePhase id = none := by
  have phase : (disk.eraseTransaction id).durablePhase id = none := by
    rw [Disk.durablePhase, workspace_eraseTransaction, if_pos rfl]
    rfl
  refine ⟨⟨?_, vault, by simp [phase]⟩, phase⟩
  intro other different
  rw [workspace_eraseTransaction, if_neg different]
  exact quiet other different

theorem recoverPending_succeeds {target : (VaultPath → Option Node) × (Uuid → Option ItemNode)}
    {disk : Disk} (injective : Injective contentHash)
    (straight : Straight command.removeDirectories)
    (recovers : RecoversTo contentHash origin command id target disk)
    (removal : Uuid → List WorkName) (prepared : PreparedBatch) :
    ∃ batches, (recoverPending contentHash removal [] ⟨disk, prepared⟩).outcome = .ok batches
      ∧ (recoverPending contentHash removal [] ⟨disk, prepared⟩).state.disk.vault = target := by
  have keeps : Keeps (fun _ : Fault Bool => False) (fun _ => True)
      (fun machine => RecoversTo contentHash origin command id target machine.disk)
      (recoverPending contentHash removal)
      fun _ machine => SettledTo id target machine.disk := by
    apply keeps_recoverPending injective straight (fun _ _ => trivial)
    intro accepted manifest follows committing isTarget
    -- While the undone transaction is deleted, only the vault matters.
    have removes : Keeps (fun _ : Fault Bool => False) (fun _ => True)
        (fun machine => machine.disk.OthersQuiet id ∧ machine.disk.vault = target)
        (removeWorkspace id (removal id)) fun _ machine => SettledTo id target machine.disk := by
      apply keeps_removeWorkspace (fun _ disk => disk.OthersQuiet id ∧ disk.vault = target)
        (SettledTo id target)
      · exact fun _ _ _ => trivial
      · exact fun _ _ => trivial
      · intro name _ disk both
        exact ⟨othersQuiet_update both.1, both.2⟩
      · exact fun disk both => (settled_eraseTransaction both.1 both.2).1
    apply keeps_mono removes _ fun _ _ settled => settled
    intro machine undoable
    refine ⟨undoable.othersQuiet, ?_⟩
    rw [isTarget, Disk.vault, Disk.vault, undoable.restored.1, undoable.restored.2]
  have start : RecoversTo contentHash origin command id target (⟨disk, prepared⟩ : Machine).disk :=
    recovers
  obtain ⟨batches, outcome, settled⟩ := keeps.succeeds (fun _ permitted => permitted) start
  exact ⟨batches, outcome, settled.2.1⟩

/-- **A batch that stops anywhere is all or nothing**, by the commit mark on disk. -/
theorem recovery_all_or_nothing (injective : Injective contentHash)
    (planned : Planned command) (straight : Straight command.removeDirectories)
    (fresh : origin.workspace id = none)
    (quiet : ∀ other, origin.durablePhase other ≠ some .committing) (reindexed : Bool)
    (script : List (Fault Bool)) (prepared : PreparedBatch) (removal : Uuid → List WorkName) :
    let crashed := (executeBatch contentHash id Program.halt command reindexed script
      ⟨origin, prepared⟩).state.disk
    let recovery := recoverPending contentHash removal [] ⟨crashed, prepared⟩
    (∃ batches, recovery.outcome = .ok batches) ∧ recovery.state.disk.vault
        = if crashed.durablePhase id = some .filesystemCommitted then vaultAfter origin command
          else origin.vault := by
  intro crashed recovery
  have isCrashed : Crashed contentHash origin command id False crashed :=
    crashed_executeBatch injective planned straight fresh quiet reindexed script prepared
  rcases isCrashed with ⟨recovers, phase⟩ | ⟨recovers, phase⟩
  · have ⟨batches, outcome, vault⟩ :=
      recoverPending_succeeds injective straight recovers removal prepared
    rw [if_neg phase]
    exact ⟨⟨batches, outcome⟩, vault⟩
  · have ⟨batches, outcome, vault⟩ :=
      recoverPending_succeeds injective straight recovers removal prepared
    rw [if_pos (phase.resolve_right not_false)]
    exact ⟨⟨batches, outcome⟩, vault⟩

end Uninterrupted

/-- Deleting a page, stopped at its removal of the transaction directory. -/
theorem recovery_all_or_nothing_delete :
    let crashed := (executeBatch sampleHash sampleId Program.halt deletePage true []
      ⟨pageDisk, samplePrepared⟩).state.disk
    let recovery := recoverPending sampleHash (fun _ => []) [] ⟨crashed, samplePrepared⟩
    (∃ batches, recovery.outcome = .ok batches) ∧ recovery.state.disk.vault
        = if crashed.durablePhase sampleId = some .filesystemCommitted
          then vaultAfter pageDisk deletePage else pageDisk.vault :=
  recovery_all_or_nothing sampleHash_injective planned_deletePage straight_deletePage rfl
    (fun _ => by simp [Disk.durablePhase, Disk.workspace, pageDisk]) true [] samplePrepared
    fun _ => []

/-- A folder listed before and after the one above it: recovery creates it too early and fails. -/
theorem reentered_folder_not_recovered :
    ¬∀ (contentHash : Bytes → Hash) (_ : Injective contentHash) (origin : Disk)
      (command : BatchMutationCommand) (_ : Planned command)
      (_ : validate origin command = .ok ()) (id : Uuid) (_ : origin.workspace id = none)
      (_ : ∀ other, origin.durablePhase other ≠ some .committing) (reindexed : Bool)
      (script : List (Fault Bool)) (prepared : PreparedBatch) (removal : Uuid → List WorkName),
      let crashed := (executeBatch contentHash id Program.halt command reindexed script
        ⟨origin, prepared⟩).state.disk
      let recovery := recoverPending contentHash removal [] ⟨crashed, prepared⟩
      (∃ batches, recovery.outcome = .ok batches) ∧ recovery.state.disk.vault
          = if crashed.durablePhase id = some .filesystemCommitted then vaultAfter origin command
            else origin.vault := by
  intro always
  -- The five steps up to the removal of the outer folder, and a crash before the commit mark.
  have recovered := always sampleHash sampleHash_injective folderDisk removeFolders
    planned_removeFolders (by decide) sampleId rfl
    (fun _ => by simp [Disk.durablePhase, Disk.workspace, folderDisk]) true
    (List.replicate 5 .proceed ++ [.crash]) samplePrepared fun _ => []
  obtain ⟨batches, outcome⟩ := recovered.1
  have failed : (recoverPending sampleHash (fun _ => []) []
      ⟨(executeBatch sampleHash sampleId Program.halt removeFolders true
        (List.replicate 5 .proceed ++ [.crash]) ⟨folderDisk, samplePrepared⟩).state.disk,
        samplePrepared⟩).outcome.isOk = false := by
    decide +kernel
  rw [outcome] at failed
  cases failed

/-! ### Interrupted recovery -/

def BatchPathIntent.undoReads (index : Nat) : BatchPathIntent → List WorkName
  | .write _ .missing _ => []
  | .write _ (.bytes _) _ => [.entry (.rollback index)]
  | .move _ _ _ => [.entry (.rollback index)]
  | .delete _ _ => [.entry (.rollback index)]
  | .archivePage _ _ _ =>
    [.entry (.rollback index), .page (.staged index), .itemManifest (.staged index)]
  | .restorePage _ _ => [.entry (.staged index)]

def BatchMutationCommand.undoReads (command : BatchMutationCommand) : List WorkName :=
  command.intents.zipIdx.flatMap fun entry => entry.1.undoReads entry.2

def ManifestFirst (command : BatchMutationCommand) (order : List WorkName) : Prop :=
  ∀ name ∈ order.takeWhile (· ≠ .manifest), name ∉ command.undoReads

section Interrupted

variable {contentHash : Bytes → Hash} {origin : Disk} {command : BatchMutationCommand} {id : Uuid}
  {slot : Slot}

theorem undoEntry_mem_undoReads {intent : BatchPathIntent} {index : Nat} {content : Bytes}
    (isEntry : intent.undoEntry index = some (slot, content)) :
    WorkName.entry slot ∈ intent.undoReads index := by
  cases intent with
  | write path expected bytes =>
    cases expected with
    | missing => cases isEntry
    | bytes before =>
      cases isEntry
      exact mem_cons_self
  | move | delete | archivePage | restorePage =>
    cases isEntry
    exact mem_cons_self

variable {name : WorkName}

theorem entries_unlink_file {workspace : Workspace} {content : Bytes}
    (isFile : workspace.entries slot = some (.file content)) (notIt : name ≠ .entry slot) :
    (workspace.unlink name).entries slot = some (.file content) := by
  cases name with
  | manifest => exact isFile
  | created index => exact isFile
  | entry other =>
    have different : slot ≠ other := fun same => notIt (by rw [same])
    show update workspace.entries other _ slot = _
    rw [update_of_ne different]
    exact isFile
  | page other | itemManifest other =>
    show update workspace.entries other _ slot = _
    by_cases same : slot = other
    · rw [← same, update_self, isFile]
      rfl
    · rw [update_of_ne same]
      exact isFile

theorem entries_unlink_item {workspace : Workspace} {item : RubbishItem}
    (isItem : workspace.entries slot = some item.toNode) (notPage : name ≠ .page slot)
    (notManifest : name ≠ .itemManifest slot) :
    (workspace.unlink name).entries slot = some item.toNode := by
  cases name with
  | manifest => exact isItem
  | created index => exact isItem
  | entry other =>
    show update workspace.entries other _ slot = _
    by_cases same : slot = other
    · rw [← same, update_self, isItem]
      rfl
    · rw [update_of_ne same]
      exact isItem
  | page other =>
    have different : slot ≠ other := fun same => notPage (by rw [same])
    show update workspace.entries other _ slot = _
    rw [update_of_ne different]
    exact isItem
  | itemManifest other =>
    have different : slot ≠ other := fun same => notManifest (by rw [same])
    show update workspace.entries other _ slot = _
    rw [update_of_ne different]
    exact isItem

theorem entries_unlink_none {workspace : Workspace} (isNone : workspace.entries slot = none) :
    (workspace.unlink name).entries slot = none := by
  cases name with
  | manifest => exact isNone
  | created index => exact isNone
  | entry other | page other | itemManifest other =>
    show update workspace.entries other _ slot = _
    by_cases same : slot = other
    · rw [← same, update_self, isNone]
      rfl
    · rw [update_of_ne same]
      exact isNone

variable {disk : Disk} {manifest : TransactionManifest}

theorem Undoable.unlink (undoable : Undoable origin command id manifest [] [] [] disk)
    (accepted : Accepted origin command) (notRead : name ∉ command.undoReads)
    (notManifest : name ≠ .manifest) :
    Undoable origin command id manifest [] [] [] (disk.update id (Workspace.unlink name)) := by
  obtain ⟨workspace, found, isManifest⟩ := undoable.workspace_eq
  have here : (disk.update id (Workspace.unlink name)).workspace id
      = some (workspace.unlink name) := by
    rw [Disk.workspace_update, if_pos rfl, found]
    rfl
  have entryBefore : ∀ slot, disk.entry id slot = workspace.entries slot := by
    intro slot
    simp [Disk.entry, found]
  have entryAfter : ∀ slot, (disk.update id (Workspace.unlink name)).entry id slot
      = (workspace.unlink name).entries slot := by
    intro slot
    simp [Disk.entry, here]
  have reads : ∀ entry ∈ command.intents.zipIdx, ∀ other ∈ entry.1.undoReads entry.2,
      name ≠ other := by
    intro entry listed other isRead same
    rw [same] at notRead
    exact notRead (mem_flatMap.2 ⟨entry, listed, isRead⟩)
  refine { undoable with
    files := ?_
    items := ?_
    installed := fun _ member => absurd member not_mem_nil
    recorded := ?_
    othersQuiet := othersQuiet_update undoable.othersQuiet }
  · intro entry listed slot content isEntry
    have isFile := undoable.files entry listed slot content isEntry
    rw [entryBefore] at isFile
    rw [entryAfter]
    exact entries_unlink_file isFile (reads entry listed _ (undoEntry_mem_undoReads isEntry))
  · intro entry listed slot item isSlot
    have isPlaced := undoable.items entry listed slot item isSlot
    have isRestored := congrFun undoable.restored.2 item.manifest.itemId
    have observed := accepted.observed entry.1 (Accepted.mem_intents listed)
    rw [entryBefore] at isPlaced
    rw [entryAfter]
    show (disk.rubbish item.manifest.itemId = none ∧ _) ∨ (disk.rubbish item.manifest.itemId = _ ∧ _)
    rcases isPlaced with ⟨outOfStore, inSlot⟩ | ⟨inStore, outOfSlot⟩
    · refine .inl ⟨outOfStore, ?_⟩
      -- A restored item is back in the store, so this is an archived one.
      obtain ⟨intent, index⟩ := entry
      cases intent with
      | write | move | delete => cases isSlot
      | archivePage path expectedSource itemManifest =>
        cases isSlot
        apply entries_unlink_item inSlot
        · exact reads _ listed _ (by simp [BatchPathIntent.undoReads])
        · exact reads _ listed _ (by simp [BatchPathIntent.undoReads])
      | restorePage destination restored =>
        cases isSlot
        rw [outOfStore, observed.2.2.1] at isRestored
        cases isRestored
    · exact .inr ⟨inStore, entries_unlink_none outOfSlot⟩
  · rw [here]
    show (workspace.unlink name).manifest = some manifest
    cases name with
    | manifest => exact absurd rfl notManifest
    | entry | page | itemManifest | created => exact isManifest

theorem Undoable.vault (undoable : Undoable origin command id manifest [] [] [] disk) :
    disk.vault = origin.vault := by
  rw [Disk.vault, Disk.vault, undoable.restored.1, undoable.restored.2]

theorem ManifestFirst.tail {rest : List WorkName} (first : ManifestFirst command (name :: rest))
    (notManifest : name ≠ .manifest) :
    name ∉ command.undoReads ∧ ManifestFirst command rest := by
  have taken : (name :: rest).takeWhile (· ≠ .manifest)
      = name :: rest.takeWhile (· ≠ .manifest) := by
    rw [takeWhile_cons, if_pos (by simpa using notManifest)]
  unfold ManifestFirst at first ⊢
  rw [taken] at first
  exact forall_mem_cons.1 first

theorem keeps_removeUndone {permits : Fault Bool → Prop} {invariant : Machine → Prop}
    {order : List WorkName} (accepted : Accepted origin command)
    (follows : manifest.Follows contentHash command) (committing : manifest.phase = .committing)
    (first : ManifestFirst command order)
    (holds : ∀ machine : Machine, RecoversTo contentHash origin command id origin.vault machine.disk →
      machine.disk.durablePhase id ≠ some .filesystemCommitted → invariant machine) :
    Keeps permits invariant
      (fun machine => Undoable origin command id manifest [] [] [] machine.disk)
      (removeWorkspace id order)
      fun _ machine => SettledTo id origin.vault machine.disk
        ∧ machine.disk.durablePhase id = none := by
  have holdsSettled : ∀ machine : Machine, SettledTo id origin.vault machine.disk
      ∧ machine.disk.durablePhase id = none → invariant machine :=
    fun machine settled => holds machine (.inl settled.1) (by simp [settled.2])
  have removes : Keeps permits invariant (fun machine => (ManifestFirst command order
          ∧ Undoable origin command id manifest [] [] [] machine.disk)
        ∨ (SettledTo id origin.vault machine.disk ∧ machine.disk.durablePhase id = none))
      (removeWorkspace id order)
      fun _ machine => SettledTo id origin.vault machine.disk
        ∧ machine.disk.durablePhase id = none := by
    apply keeps_removeWorkspace (fun rest disk =>
      (ManifestFirst command rest ∧ Undoable origin command id manifest [] [] [] disk)
        ∨ (SettledTo id origin.vault disk ∧ disk.durablePhase id = none))
      (fun disk => SettledTo id origin.vault disk ∧ disk.durablePhase id = none)
    · intro rest machine isOne
      rcases isOne with ⟨_, undoable⟩ | settled
      · have isCommitting : Committing contentHash origin command id machine.disk :=
          ⟨accepted, manifest, follows, committing, undone_of_undoable accepted follows undoable
            (nil_sublist _) (nil_sublist _)⟩
        exact holds machine (.inr ⟨rfl, isCommitting⟩) (by simp [isCommitting.durablePhase])
      · exact holdsSettled machine settled
    · exact holdsSettled
    · intro name rest disk isOne
      rcases isOne with ⟨isFirst, undoable⟩ | settled
      · by_cases isManifest : name = .manifest
        · obtain ⟨workspace, found, _⟩ := undoable.workspace_eq
          have phase : (disk.update id (Workspace.unlink name)).durablePhase id = none := by
            rw [Disk.durablePhase, Disk.workspace_update, if_pos rfl, found, isManifest]
            rfl
          exact .inr ⟨⟨othersQuiet_update undoable.othersQuiet, undoable.vault, by simp [phase]⟩, phase⟩
        · obtain ⟨notRead, restFirst⟩ := isFirst.tail isManifest
          exact .inl ⟨restFirst, undoable.unlink accepted notRead isManifest⟩
      · refine .inr ⟨settled.1.less rfl fun other => durablePhase_unlink disk name, ?_⟩
        have phase : (disk.update id (Workspace.unlink name)).durablePhase id = disk.durablePhase id
            ∨ (disk.update id (Workspace.unlink name)).durablePhase id = none :=
          durablePhase_unlink disk name
        exact phase.elim (fun same => same.trans settled.2) fun gone => gone
    · intro disk isOne
      rcases isOne with ⟨_, undoable⟩ | settled
      · exact settled_eraseTransaction undoable.othersQuiet undoable.vault
      · exact settled_eraseTransaction settled.1.1 settled.1.2.1
  exact keeps_mono removes (fun _ undoable => .inl ⟨first, undoable⟩) fun _ _ post => post

theorem Undone.finished (undone : Undone origin command id manifest disk)
    (vault : disk.vault = origin.vault) :
    Undoable origin command id manifest [] [] [] disk := by
  have pages : disk.pages.nodeAt = origin.pages.nodeAt := congrArg Prod.fst vault
  have rubbish : disk.rubbish = origin.rubbish := congrArg Prod.snd vault
  exact
    { pages := fun path => .inl (congrFun pages path)
      rubbish := fun item => .inl (congrFun rubbish item)
      remainingListed := fun _ member => absurd member not_mem_nil
      createdListed := fun _ member => absurd member not_mem_nil
      removedListed := fun _ member => absurd member not_mem_nil
      files := undone.files
      items := undone.items
      installed := fun _ member => absurd member not_mem_nil
      createdOrder := fun _ _ _ member => absurd member not_mem_nil
      removedOrder := fun _ _ _ member => absurd member not_mem_nil
      recorded := undone.recorded
      othersQuiet := undone.othersQuiet }

theorem keeps_removeInProcess {permits : Fault Bool → Prop} {order : List WorkName}
    (first : ManifestFirst command order) :
    Keeps permits (fun machine => Crashed contentHash origin command id True machine.disk)
      (fun machine => Removable contentHash origin command id machine.disk)
      (removeWorkspace id order)
      fun _ machine => Crashed contentHash origin command id True machine.disk := by
  -- Before the commit mark the vault is as it was, after it as the command describes it.
  have settledBefore : Keeps permits
      (fun machine => Crashed contentHash origin command id True machine.disk)
      (fun machine => SettledTo id origin.vault machine.disk
        ∧ machine.disk.durablePhase id ≠ some .filesystemCommitted)
      (removeWorkspace id order)
      fun _ machine => SettledTo id origin.vault machine.disk
        ∧ machine.disk.durablePhase id ≠ some .filesystemCommitted := by
    have less : ∀ disk next : Disk,
        (SettledTo id origin.vault disk ∧ disk.durablePhase id ≠ some .filesystemCommitted) →
        next.vault = disk.vault →
        (∀ other, next.durablePhase other = disk.durablePhase other
          ∨ next.durablePhase other = none) →
        SettledTo id origin.vault next ∧ next.durablePhase id ≠ some .filesystemCommitted := by
      intro disk next settled vault phases
      refine ⟨settled.1.less vault phases, ?_⟩
      rcases phases id with same | gone
      · rw [same]
        exact settled.2
      · simp [gone]
    apply keeps_removeWorkspace (fun _ disk => SettledTo id origin.vault disk
        ∧ disk.durablePhase id ≠ some .filesystemCommitted)
      (fun disk => SettledTo id origin.vault disk
        ∧ disk.durablePhase id ≠ some .filesystemCommitted)
    · exact fun _ machine settled => .inl ⟨.inl settled.1, settled.2⟩
    · exact fun machine settled => .inl ⟨.inl settled.1, settled.2⟩
    · exact fun name _ disk settled =>
        less disk _ settled rfl fun other => durablePhase_unlink disk name
    · exact fun disk settled =>
        less disk _ settled rfl fun other => durablePhase_eraseTransaction disk
  have settledAfter : Keeps permits
      (fun machine => Crashed contentHash origin command id True machine.disk)
      (fun machine => SettledTo id (vaultAfter origin command) machine.disk)
      (removeWorkspace id order)
      fun _ machine => SettledTo id (vaultAfter origin command) machine.disk :=
    keeps_removeSettled fun machine settled => .inr ⟨.inl settled, .inr trivial⟩
  apply keeps_branchOn
  intro machine removable
  rcases removable with ⟨settled | ⟨_, accepted, manifest, follows, committing, undone⟩, vault, phase⟩
    | ⟨quiet, vault, phase⟩
  · exact keeps_at (keeps_mono settledBefore (fun _ pre => pre)
      fun _ _ post => .inl ⟨.inl post.1, post.2⟩) ⟨settled, phase⟩
  · have removes : Keeps permits
        (fun machine => Crashed contentHash origin command id True machine.disk)
        (fun machine => Undoable origin command id manifest [] [] [] machine.disk)
        (removeWorkspace id order)
        fun _ machine => SettledTo id origin.vault machine.disk
          ∧ machine.disk.durablePhase id = none := by
      apply keeps_removeUndone accepted follows committing first
      exact fun _ recovers notMarked => .inl ⟨recovers, notMarked⟩
    exact keeps_at (keeps_mono removes (fun _ pre => pre)
      fun _ _ post => .inl ⟨.inl post.1, by simp [post.2]⟩) (undone.finished vault)
  · exact keeps_at (keeps_mono settledAfter (fun _ pre => pre)
      fun _ _ post => .inr ⟨.inl post, .inr trivial⟩) ⟨quiet, vault, by simp [phase]⟩

/-! ### Repeated recovery -/

structure RecoveryRun where
  script : List (Fault Bool)
  removal : Uuid → List WorkName

def recoverRepeatedly (contentHash : Bytes → Hash) (prepared : PreparedBatch) (disk : Disk)
    (runs : List RecoveryRun) : Disk :=
  runs.foldl
    (fun disk run => (recoverPending contentHash run.removal run.script ⟨disk, prepared⟩).state.disk)
    disk

theorem recoversTo_recoverPending {target : (VaultPath → Option Node) × (Uuid → Option ItemNode)}
    (injective : Injective contentHash) (straight : Straight command.removeDirectories)
    (recovers : RecoversTo contentHash origin command id target disk) (run : RecoveryRun)
    (first : ManifestFirst command (run.removal id)) (prepared : PreparedBatch) :
    RecoversTo contentHash origin command id target
      (recoverPending contentHash run.removal run.script ⟨disk, prepared⟩).state.disk := by
  have keeps : Keeps (fun _ : Fault Bool => True)
      (fun machine => RecoversTo contentHash origin command id target machine.disk)
      (fun machine => RecoversTo contentHash origin command id target machine.disk)
      (recoverPending contentHash run.removal)
      fun _ machine => SettledTo id target machine.disk := by
    apply keeps_recoverPending injective straight fun _ isRecovering => isRecovering
    intro accepted manifest follows committing isTarget
    rw [isTarget]
    apply keeps_mono (keeps_removeUndone accepted follows committing first
      fun _ isRecovering _ => isRecovering) (fun _ pre => pre)
    exact fun _ _ settled => settled.1
  have start : RecoversTo contentHash origin command id target (⟨disk, prepared⟩ : Machine).disk :=
    recovers
  exact keeps.always (fun _ _ settled => .inl settled) start fun _ _ => trivial

theorem recoversTo_recoverRepeatedly {target : (VaultPath → Option Node) × (Uuid → Option ItemNode)}
    (injective : Injective contentHash) (straight : Straight command.removeDirectories)
    (recovers : RecoversTo contentHash origin command id target disk) (runs : List RecoveryRun)
    (first : ∀ run ∈ runs, ManifestFirst command (run.removal id)) (prepared : PreparedBatch) :
    RecoversTo contentHash origin command id target
      (recoverRepeatedly contentHash prepared disk runs) := by
  induction runs generalizing disk with
  | nil => exact recovers
  | cons run rest ih =>
    have ⟨runFirst, restFirst⟩ := forall_mem_cons.1 first
    exact ih (recoversTo_recoverPending injective straight recovers run runFirst prepared) restFirst

/-- **Recovery may itself be stopped**: a last one leaves what an uninterrupted one leaves, if no
removal takes what an undo reads before the manifest. -/
theorem interrupted_recovery_same (injective : Injective contentHash)
    (planned : Planned command) (straight : Straight command.removeDirectories)
    (fresh : origin.workspace id = none)
    (quiet : ∀ other, origin.durablePhase other ≠ some .committing) (reindexed : Bool)
    (script : List (Fault Bool)) (prepared : PreparedBatch) (order : List WorkName)
    (ownFirst : ManifestFirst command order) (runs : List RecoveryRun)
    (first : ∀ run ∈ runs, ManifestFirst command (run.removal id))
    (last direct : Uuid → List WorkName) :
    let crashed := (executeBatch contentHash id (removeWorkspace id order) command reindexed script
      ⟨origin, prepared⟩).state.disk
    let interrupted := recoverPending contentHash last []
      ⟨recoverRepeatedly contentHash prepared crashed runs, prepared⟩
    let uninterrupted := recoverPending contentHash direct [] ⟨crashed, prepared⟩
    (∃ batches, interrupted.outcome = .ok batches)
      ∧ (∃ batches, uninterrupted.outcome = .ok batches)
      ∧ interrupted.state.disk.vault = uninterrupted.state.disk.vault := by
  intro crashed interrupted uninterrupted
  have mayFail : MayFail fun _ : Fault Bool => True := ⟨true, trivial⟩
  have othersQuiet : origin.OthersQuiet id := othersQuiet_iff.2 fun other _ => quiet other
  have removes : Keeps (fun _ : Fault Bool => True)
      (fun machine => Crashed contentHash origin command id True machine.disk)
      (fun machine => Removable contentHash origin command id machine.disk)
      (removeWorkspace id order)
      fun _ machine => Crashed contentHash origin command id True machine.disk :=
    keeps_removeInProcess ownFirst
  have keeps := keeps_executeBatch injective mayFail straight removes planned fresh othersQuiet
    reindexed
  have start : (⟨origin, prepared⟩ : Machine).disk = origin := rfl
  have isCrashed : Crashed contentHash origin command id True crashed :=
    keeps.always (fun _ _ crashed => crashed) start fun _ _ => trivial
  have leads : ∃ target, RecoversTo contentHash origin command id target crashed := by
    rcases isCrashed with ⟨recovers, _⟩ | ⟨recovers, _⟩
    · exact ⟨_, recovers⟩
    · exact ⟨_, recovers⟩
  have ⟨target, recovers⟩ := leads
  have stillRecovers := recoversTo_recoverRepeatedly injective straight recovers runs first prepared
  have ⟨batches, outcome, vault⟩ :=
    recoverPending_succeeds injective straight stillRecovers last prepared
  have ⟨directBatches, directOutcome, directVault⟩ :=
    recoverPending_succeeds injective straight recovers direct prepared
  exact ⟨⟨batches, outcome⟩, ⟨directBatches, directOutcome⟩, vault.trans directVault.symm⟩

end Interrupted

def entriesFirst : List WorkName := [.entry (.rollback 0), .entry (.staged 0), .manifest]

def manifestFirst : List WorkName := [.manifest, .entry (.rollback 0), .entry (.staged 0)]

/-- Deleting a page, stopped before the commit mark, and a recovery stopped in its removal. -/
theorem interrupted_recovery_same_delete : ManifestFirst deletePage manifestFirst
      ∧ let crashed := (executeBatch sampleHash sampleId (removeWorkspace sampleId manifestFirst)
          deletePage true (List.replicate 6 .proceed ++ [.crash]) ⟨pageDisk, samplePrepared⟩).state.disk
        let interrupted := recoverPending sampleHash (fun _ => entriesFirst) []
          ⟨recoverRepeatedly sampleHash samplePrepared crashed
            [⟨[.proceed, .proceed, .crash], fun _ => manifestFirst⟩], samplePrepared⟩
        let uninterrupted := recoverPending sampleHash (fun _ => entriesFirst) []
          ⟨crashed, samplePrepared⟩
        (∃ batches, interrupted.outcome = .ok batches)
          ∧ (∃ batches, uninterrupted.outcome = .ok batches)
          ∧ interrupted.state.disk.vault = uninterrupted.state.disk.vault := by
  have first : ManifestFirst deletePage manifestFirst := fun _ member => absurd member not_mem_nil
  have runsFirst : ∀ run ∈ [(⟨[.proceed, .proceed, .crash], fun _ => manifestFirst⟩ : RecoveryRun)],
      ManifestFirst deletePage (run.removal sampleId) := by
    intro run member
    rw [mem_singleton.1 member]
    exact first
  have noneCommitting : ∀ other, pageDisk.durablePhase other ≠ some .committing :=
    fun _ => by simp [Disk.durablePhase, Disk.workspace, pageDisk]
  have fresh : pageDisk.workspace sampleId = none := rfl
  have same := interrupted_recovery_same sampleHash_injective planned_deletePage
    straight_deletePage fresh noneCommitting true (List.replicate 6 .proceed ++ [.crash])
    samplePrepared manifestFirst first [⟨[.proceed, .proceed, .crash], fun _ => manifestFirst⟩]
    runsFirst (fun _ => entriesFirst) fun _ => entriesFirst
  exact ⟨first, same⟩

/-- A recovery is stopped once its rollback copy is deleted: the next one finds no copy. -/
theorem partial_removal_not_recovered :
    ¬∀ (contentHash : Bytes → Hash) (_ : Injective contentHash) (origin : Disk)
      (command : BatchMutationCommand) (_ : Planned command)
      (_ : Straight command.removeDirectories) (_ : validate origin command = .ok ()) (id : Uuid)
      (_ : origin.workspace id = none)
      (_ : ∀ other, origin.durablePhase other ≠ some .committing) (reindexed : Bool)
      (script : List (Fault Bool)) (prepared : PreparedBatch) (run : RecoveryRun)
      (_ : ∀ fault ∈ run.script, fault = .proceed ∨ fault = .crash)
      (last direct : Uuid → List WorkName),
      let crashed := (executeBatch contentHash id Program.halt command reindexed script
        ⟨origin, prepared⟩).state.disk
      let interrupted := recoverPending contentHash last []
        ⟨recoverRepeatedly contentHash prepared crashed [run], prepared⟩
      let uninterrupted := recoverPending contentHash direct [] ⟨crashed, prepared⟩
      (∃ batches, interrupted.outcome = .ok batches)
        ∧ interrupted.state.disk.vault = uninterrupted.state.disk.vault := by
  intro always
  have recovered := always sampleHash sampleHash_injective pageDisk deletePage planned_deletePage
    straight_deletePage (by decide) sampleId rfl
    (fun _ => by simp [Disk.durablePhase, Disk.workspace, pageDisk]) true
    (List.replicate 6 .proceed ++ [.crash]) samplePrepared
    ⟨[.proceed, .proceed, .crash], fun _ => entriesFirst⟩ (by simp) (fun _ => entriesFirst)
    fun _ => entriesFirst
  obtain ⟨batches, outcome⟩ := recovered.1
  have failed : (recoverPending sampleHash (fun _ => entriesFirst) []
      ⟨recoverRepeatedly sampleHash samplePrepared
        (executeBatch sampleHash sampleId Program.halt deletePage true
          (List.replicate 6 .proceed ++ [.crash]) ⟨pageDisk, samplePrepared⟩).state.disk
        [⟨[.proceed, .proceed, .crash], fun _ => entriesFirst⟩], samplePrepared⟩).outcome.isOk
        = false := by
    decide +kernel
  rw [outcome] at failed
  cases failed

end Clepsydra.Mutate
