import Clepsydra.Mutate.Publish

/-!
Owns: the end of a publication, the changes of phase, and whole batches. The transaction directory
says whether the vault is to be put back or stays, and the vault fits what it says.
-/

namespace Clepsydra.Mutate

open Library Library.Faulty Vault List Function

/-! ### Removed directories -/

theorem Undoable.clear {origin disk : Disk} {command : BatchMutationCommand} {id : Uuid}
    {manifest : TransactionManifest} {remaining : List (BatchPathIntent × Nat)}
    {created removed : List VaultPath} {path : VaultPath} {pages : Tree}
    (undoable : Undoable origin command id manifest remaining created removed disk)
    (listed : path ∈ command.removeDirectories)
    (wasFolder : disk.pages.nodeAt path = some .folder)
    (lookup : pages.nodeAt = update disk.pages.nodeAt path none) :
    Undoable origin command id manifest remaining created (path :: removed)
      { disk with pages := pages } := by
  have here : pages.nodeAt path = none := by rw [lookup, update_self]
  have elsewhere : ∀ other, other ≠ path → pages.nodeAt other = disk.pages.nodeAt other := by
    intro other different
    rw [lookup, update_of_ne different]
  have stillFolder : ∀ other, pages.nodeAt other = some .folder →
      disk.pages.nodeAt other = some .folder := by
    intro other isFolder
    have different : other ≠ path := by
      intro same
      rw [same, here] at isFolder
      cases isFolder
    exact (elsewhere other different).symm.trans isFolder
  refine { undoable with
    pages := ?_
    removedListed := ?_
    installed := ?_
    createdOrder := ?_
    removedOrder := ?_ }
  · intro other
    show pages.nodeAt other = _ ∨ _
    by_cases isPath : other = path
    · rw [isPath]
      exact .inr (.inr (.inr ⟨mem_cons_self, here⟩))
    · simp only [elsewhere other isPath]
      rcases undoable.pages other with same | change | isCreated | ⟨inRemoved, isNone⟩
      · exact .inl same
      · exact .inr (.inl change)
      · exact .inr (.inr (.inl isCreated))
      · exact .inr (.inr (.inr ⟨mem_cons_of_mem _ inRemoved, isNone⟩))
  · exact forall_mem_cons.2 ⟨listed, undoable.removedListed⟩
  · intro other inCreated isFolder
    exact undoable.installed other inCreated (stillFolder other isFolder)
  · intro upper lower above inUpper inLower upperFolder lowerFolder
    exact undoable.createdOrder upper lower above inUpper inLower
      (stillFolder upper upperFolder) (stillFolder lower lowerFolder)
  · intro upper lower above inUpper inLower upperNone lowerNone
    have upperOrLower : lower ≠ path := by
      intro isLower
      -- Nothing above a folder is gone.
      rw [isLower] at above
      have aboveFolder := Tree.nodeAt_ancestor wasFolder above
      have different : upper ≠ path := by
        intro isUpper
        rw [isUpper] at above
        exact VaultPath.not_mem_ancestors_self path above
      have stillThere := (elsewhere upper different).trans aboveFolder
      have gone : pages.nodeAt upper = none := upperNone
      rw [stillThere] at gone
      cases gone
    have inRemoved := (mem_cons.1 inLower).resolve_left upperOrLower
    by_cases isUpper : upper = path
    · rw [isUpper]
      exact (singleton_sublist.2 inRemoved).cons_cons path
    · have lowerGone := (elsewhere lower upperOrLower).symm.trans lowerNone
      have upperGone := (elsewhere upper isUpper).symm.trans upperNone
      exact (undoable.removedOrder upper lower above
        ((mem_cons.1 inUpper).resolve_left isUpper) inRemoved upperGone lowerGone).cons path

structure Clearing (contentHash : Bytes → Hash) (origin : Disk) (command : BatchMutationCommand)
    (id : Uuid) (remaining : List VaultPath) (machine : Machine) : Prop where
  certain : machine.prepared.phaseUncertain = false
  follows : machine.prepared.manifest.Follows contentHash command
  committing : machine.prepared.manifest.phase = .committing
  removed : ∃ removed, remaining.reverse ++ removed = command.removeDirectories
    ∧ Undoable origin command id machine.prepared.manifest command.intents.zipIdx
      machine.prepared.manifest.createdDirectories.reverse removed machine.disk
    ∧ ∀ path ∈ removed, machine.disk.pages.nodeAt path = none
  folders : ∀ path ∈ command.createDirectories, machine.disk.pages.nodeAt path = some .folder
  applied : ∀ entry ∈ command.intents.zipIdx, entry.1.Applied machine.disk

section Clearing

variable {contentHash : Bytes → Hash} {permits : Fault Bool → Prop} {invariant : Machine → Prop}
  {origin : Disk} {command : BatchMutationCommand} {id : Uuid} {remaining : List VaultPath}
  {path : VaultPath} {machine : Machine}

theorem Clearing.underway (clearing : Clearing contentHash origin command id remaining machine)
    (accepted : Accepted origin command) : Underway contentHash origin command id machine := by
  have ⟨removed, split, undoable, _⟩ := clearing.removed
  refine ⟨clearing.certain, clearing.follows, clearing.committing, machine.prepared.manifest,
    clearing.follows, clearing.committing, ?_, List.Sublist.refl _⟩
  apply undone_of_undoable accepted clearing.follows undoable (List.Sublist.refl _)
  rw [← split]
  exact sublist_append_right _ _

theorem Clearing.skip (accepted : Accepted origin command)
    (clearing : Clearing contentHash origin command id (path :: remaining) machine)
    (isNone : machine.disk.pages.nodeAt path = none) :
    Clearing contentHash origin command id remaining machine := by
  have ⟨removed, split, undoable, gone⟩ := clearing.removed
  rw [reverse_cons, append_assoc, singleton_append] at split
  refine { clearing with removed := ⟨path :: removed, split, ?_, ?_⟩ }
  · apply undoable.mono accepted (fun _ member => member) undoable.remainingListed
      (List.Sublist.refl _) undoable.createdListed (sublist_cons_self path removed)
    intro other member
    rw [← split]
    exact mem_append_right _ member
  · exact forall_mem_cons.2 ⟨isNone, gone⟩

theorem Clearing.remove {pages : Tree} (accepted : Accepted origin command)
    (clearing : Clearing contentHash origin command id (path :: remaining) machine)
    (removes : machine.disk.pages.removeDir path = .ok pages) :
    Clearing contentHash origin command id remaining (machine.withPages pages) := by
  have ⟨removed, split, undoable, gone⟩ := clearing.removed
  rw [reverse_cons, append_assoc, singleton_append] at split
  have ⟨wasFolder, _, lookup⟩ := Tree.removeDir_ok removes
  have listed : path ∈ command.removeDirectories := by
    rw [← split]
    exact mem_append_right _ mem_cons_self
  have here : pages.nodeAt path = none := by rw [lookup, update_self]
  have elsewhere : ∀ other, other ≠ path → pages.nodeAt other = machine.disk.pages.nodeAt other := by
    intro other different
    rw [lookup, update_of_ne different]
  refine ⟨clearing.certain, clearing.follows, clearing.committing, ⟨path :: removed, split, ?_, ?_⟩,
    ?_, ?_⟩
  · exact undoable.clear listed wasFolder lookup
  · intro other member
    show pages.nodeAt other = none
    by_cases isPath : other = path
    · rw [isPath]
      exact here
    · rw [elsewhere other isPath]
      exact gone other ((mem_cons.1 member).resolve_left isPath)
  · intro other inCreated
    have different : other ≠ path := by
      intro same
      have absent := (accepted.create other inCreated).1
      rw [same, accepted.remove path listed] at absent
      cases absent
    exact (elsewhere other different).trans (clearing.folders other inCreated)
  · intro entry inEntries
    refine ⟨fun change inChange => ?_, (clearing.applied entry inEntries).2⟩
    have different : change.1 ≠ path := by
      intro same
      have notRemoved := accepted.path_not_removed (Accepted.mem_intents inEntries)
        (Undoable.mem_paths inChange)
      rw [same] at notRemoved
      exact notRemoved listed
    exact (elsewhere change.1 different).trans ((clearing.applied entry inEntries).1 change inChange)

theorem absent_of_removeDir {tree : Tree} (removes : tree.removeDir path = .error .notFound) :
    tree.nodeAt path = none := by
  by_contra present
  have ⟨node, found⟩ := Option.ne_none_iff_exists'.1 present
  rw [Tree.removeDir, Tree.look_of_nodeAt found] at removes
  cases node with
  | file content => cases removes
  | folder =>
    simp only at removes
    split_ifs at removes
    cases removes

theorem keeps_removeEmptySyncedDirectory (mayFail : MayFail permits)
    (accepted : Accepted origin command)
    (holds : ∀ machine, Underway contentHash origin command id machine → invariant machine) :
    Keeps permits invariant (Clearing contentHash origin command id (path :: remaining))
      (removeEmptySyncedDirectory path)
      fun _ => Clearing contentHash origin command id remaining := by
  unfold removeEmptySyncedDirectory
  apply keeps_branch
  intro machine clearing
  have removes : Keeps permits invariant (fun current => current = machine)
      (perform (.filesystem "remove empty directory" (.page path))
        (onPages fun pages => pages.removeDir path))
      fun _ => Clearing contentHash origin command id remaining := by
    apply keeps_perform
    · intro current same
      rw [same]
      exact holds machine (clearing.underway accepted)
    · exact fun _ _ => .inl mayFail
    · intro current disk same changed
      rw [same] at changed ⊢
      cases works : machine.disk.pages.removeDir path with
      | error source => simp [onPages, works, Except.map] at changed
      | ok pages =>
        simp only [onPages, works, Except.map, Except.ok.injEq] at changed
        subst changed
        have after := clearing.remove accepted works
        exact ⟨after, holds _ (after.underway accepted)⟩
  split
  · rename_i notFound
    apply keeps_done
    intro current same
    rw [same]
    exact clearing.skip accepted (absent_of_removeDir notFound)
  · exact removes

end Clearing

/-! ### The state a command leads to -/

def Disk.vault (disk : Disk) : (VaultPath → Option Node) × (Uuid → Option ItemNode) :=
  (disk.pages.nodeAt, disk.rubbish)

def vaultAfter (origin : Disk) (command : BatchMutationCommand) :
    (VaultPath → Option Node) × (Uuid → Option ItemNode) :=
  (pageAfter origin command, rubbishAfter origin command)

section Published

variable {contentHash : Bytes → Hash} {origin : Disk} {command : BatchMutationCommand} {id : Uuid}
  {machine : Machine}

theorem mem_zipIdx_of_mem {intent : BatchPathIntent} (member : intent ∈ command.intents) :
    ∃ index, (intent, index) ∈ command.intents.zipIdx := by
  have ⟨index, found⟩ := mem_iff_getElem?.1 member
  exact ⟨index, mem_zipIdx_iff_getElem?.2 found⟩

theorem Clearing.vault (clearing : Clearing contentHash origin command id [] machine) :
    machine.disk.vault = vaultAfter origin command := by
  have ⟨removed, split, undoable, gone⟩ := clearing.removed
  rw [reverse_nil, nil_append] at split
  rw [split] at undoable gone
  have applied : ∀ intent ∈ command.intents, intent.Applied machine.disk := by
    intro intent member
    have ⟨index, listed⟩ := mem_zipIdx_of_mem member
    exact clearing.applied _ listed
  unfold Disk.vault vaultAfter
  congr 1
  · funext path
    unfold pageAfter
    split_ifs with inCreated inRemoved
    · exact clearing.folders path inCreated
    · exact gone path inRemoved
    · split
      · rename_i change found
        have isPath : change.1 = path := by simpa using find?_some found
        have ⟨intent, inCommand, inChanges⟩ := mem_flatMap.1 (mem_of_find?_eq_some found)
        rw [← isPath]
        exact (applied intent inCommand).1 change inChanges
      · rename_i notFound
        rcases undoable.pages path with same | ⟨entry, inEntries, change⟩ | ⟨member, _⟩ | ⟨member, _⟩
        · exact same
        · have inCommand := Accepted.mem_intents inEntries
          have missing := find?_eq_none.1 notFound _ (mem_flatMap.2 ⟨entry.1, inCommand, change⟩)
          simp at missing
        · exact absurd (undoable.createdListed path member) inCreated
        · exact absurd member inRemoved
  · funext item
    unfold rubbishAfter
    split
    · rename_i change found
      have isItem : change.1 = item := by simpa using find?_some found
      have ⟨intent, inCommand, isChange⟩ := mem_filterMap.1 (mem_of_find?_eq_some found)
      rw [← isItem]
      exact (applied intent inCommand).2 change isChange
    · rename_i notFound
      rcases undoable.rubbish item with same | ⟨entry, inEntries, isItem⟩
      · exact same
      · have inCommand := Accepted.mem_intents inEntries
        have ⟨change, isChange, same⟩ := Option.map_eq_some_iff.1 isItem
        have missing := find?_eq_none.1 notFound change
          (mem_filterMap.2 ⟨entry.1, inCommand, isChange⟩)
        simp [same] at missing

end Published

/-! ### What the transaction directory promises -/

def Disk.durablePhase (disk : Disk) (id : Uuid) : Option TransactionPhase :=
  ((disk.workspace id).bind Workspace.manifest).map TransactionManifest.phase

def SettledTo (id : Uuid) (target : (VaultPath → Option Node) × (Uuid → Option ItemNode))
    (disk : Disk) : Prop :=
  disk.OthersQuiet id ∧ disk.vault = target ∧ disk.durablePhase id ≠ some .committing

/-- All is settled, or the transaction is committing and its undo leads there. -/
def RecoversTo (contentHash : Bytes → Hash) (origin : Disk) (command : BatchMutationCommand)
    (id : Uuid) (target : (VaultPath → Option Node) × (Uuid → Option ItemNode)) (disk : Disk) :
    Prop :=
  SettledTo id target disk ∨ (target = origin.vault ∧ Committing contentHash origin command id disk)

/-- What every crash of a batch leaves. -/
def Crashed (contentHash : Bytes → Hash) (origin : Disk) (command : BatchMutationCommand)
    (id : Uuid) (leaving : Prop) (disk : Disk) : Prop :=
  (RecoversTo contentHash origin command id origin.vault disk
      ∧ disk.durablePhase id ≠ some .filesystemCommitted)
    ∨ (RecoversTo contentHash origin command id (vaultAfter origin command) disk
      ∧ (disk.durablePhase id = some .filesystemCommitted ∨ leaving))

def InProcess (contentHash : Bytes → Hash) (origin : Disk) (command : BatchMutationCommand)
    (id : Uuid) (leaving : Prop) (machine : Machine) : Prop :=
  (machine.prepared.phaseUncertain = false ∧ machine.prepared.manifest.phase = .prepared
      ∧ Untouched origin id machine.disk)
    ∨ Underway contentHash origin command id machine
    ∨ (machine.prepared.phaseUncertain = true
      ∧ Crashed contentHash origin command id leaving machine.disk)

section Promises

variable {contentHash : Bytes → Hash} {origin : Disk} {command : BatchMutationCommand} {id : Uuid}
  {leaving : Prop} {disk : Disk}

theorem Holding.vault {property : Workspace → Prop} (holding : Holding origin id property disk) :
    disk.vault = origin.vault := by
  rw [Disk.vault, Disk.vault, holding.1, holding.2.1]

theorem Untouched.durablePhase (untouched : Untouched origin id disk) :
    disk.durablePhase id = none ∨ disk.durablePhase id = some .prepared := by
  have ⟨_, _, _, workspace, found, known⟩ := untouched
  rw [Disk.durablePhase, found]
  cases isManifest : workspace.manifest with
  | none => exact .inl (by simp [isManifest])
  | some manifest => exact .inr (by simp [isManifest, known manifest isManifest])

theorem Untouched.recoversTo (untouched : Untouched origin id disk) :
    RecoversTo contentHash origin command id origin.vault disk
      ∧ disk.durablePhase id ≠ some .filesystemCommitted := by
  rcases untouched.durablePhase with isNone | isPrepared
  · exact ⟨.inl ⟨untouched.2.2.1, untouched.vault, by simp [isNone]⟩, by simp [isNone]⟩
  · exact ⟨.inl ⟨untouched.2.2.1, untouched.vault, by simp [isPrepared]⟩, by simp [isPrepared]⟩

theorem Committing.durablePhase (committing : Committing contentHash origin command id disk) :
    disk.durablePhase id = some .committing := by
  have ⟨_, manifest, _, isCommitting, undone⟩ := committing
  rw [Disk.durablePhase, undone.recorded, Option.map_some, isCommitting]

theorem crashed_of_committing (committing : Committing contentHash origin command id disk) :
    Crashed contentHash origin command id leaving disk :=
  .inl ⟨.inr ⟨rfl, committing⟩, by simp [committing.durablePhase]⟩

theorem Underway.committingDisk {machine : Machine} (accepted : Accepted origin command)
    (underway : Underway contentHash origin command id machine) :
    Committing contentHash origin command id machine.disk := by
  have ⟨manifest, follows, committing, undone, _⟩ := underway.undone
  exact ⟨accepted, manifest, follows, committing, undone⟩

theorem InProcess.crashed {machine : Machine} (accepted : Accepted origin command)
    (inProcess : InProcess contentHash origin command id leaving machine) :
    Crashed contentHash origin command id leaving machine.disk := by
  rcases inProcess with ⟨_, _, untouched⟩ | underway | ⟨_, crashed⟩
  · exact .inl untouched.recoversTo
  · exact crashed_of_committing (underway.committingDisk accepted)
  · exact crashed

end Promises

/-! ### Publication -/

/-- What `prepare` leaves. -/
def Ready (contentHash : Bytes → Hash) (origin : Disk) (command : BatchMutationCommand) (id : Uuid)
    (machine : Machine) : Prop :=
  machine.prepared = ⟨preparedManifest contentHash command, false⟩
    ∧ Holding origin id (Staged command (preparedManifest contentHash command)) machine.disk

def committingManifest (contentHash : Bytes → Hash) (command : BatchMutationCommand) :
    TransactionManifest :=
  { preparedManifest contentHash command with phase := .committing }

theorem follows_committingManifest (contentHash : Bytes → Hash) (command : BatchMutationCommand) :
    (committingManifest contentHash command).Follows contentHash command where
  removeDirectories := rfl
  createDirectories := rfl
  intents := rfl
  createdListed := fun _ member => absurd member not_mem_nil
  createdDistinct := nodup_nil

def Marked (origin : Disk) (command : BatchMutationCommand) (id : Uuid) (machine : Machine) : Prop :=
  machine.prepared.phaseUncertain = false ∧ machine.prepared.manifest.phase = .filesystemCommitted
    ∧ machine.disk.OthersQuiet id ∧ machine.disk.vault = vaultAfter origin command
    ∧ machine.disk.durablePhase id = some .filesystemCommitted

section Publication

variable {contentHash : Bytes → Hash} {permits : Fault Bool → Prop} {invariant : Machine → Prop}
  {origin : Disk} {command : BatchMutationCommand} {id : Uuid} {leaving : Prop}

theorem keeps_ensurePhaseCertain {before : Machine → Prop}
    (certain : ∀ machine, before machine → machine.prepared.phaseUncertain = false) :
    Keeps permits invariant before ensurePhaseCertain fun _ => before := by
  unfold ensurePhaseCertain
  apply keeps_branch
  intro machine pre
  rw [certain machine pre]
  apply keeps_done
  intro current same
  rw [same]
  exact pre

theorem keeps_changePhase {before : Machine → Prop} {ok : Unit → Machine → Prop}
    {phase : TransactionPhase} (mayFail : MayFail permits)
    (holds : ∀ machine, before machine → invariant machine)
    (changed : ∀ machine disk, before machine →
      putManifest id { machine.prepared.manifest with phase := phase } machine.disk = .ok disk →
      ok () ⟨disk, ⟨{ machine.prepared.manifest with phase := phase }, false⟩⟩
        ∧ invariant ⟨disk, ⟨{ machine.prepared.manifest with phase := phase }, true⟩⟩) :
    Keeps permits invariant before (changePhase id phase) ok := by
  unfold changePhase
  apply keeps_step mayFail holds
  · intro machine value pre result
    cases put : putManifest id { machine.prepared.manifest with phase := phase } machine.disk with
    | error source => simp [put] at result
    | ok disk => simpa only [put] using (changed machine disk pre put).1
  · intro machine failure pre result
    cases put : putManifest id { machine.prepared.manifest with phase := phase } machine.disk with
    | error source => simpa only [put] using holds machine pre
    | ok disk => simp [put] at result
  · intro machine applied pre
    cases applied with
    | false => exact holds machine pre
    | true =>
      simp only [if_true]
      cases put : putManifest id { machine.prepared.manifest with phase := phase }
          machine.disk with
      | error source => exact holds machine pre
      | ok disk => exact (changed machine disk pre put).2

variable (injective : Injective contentHash) (mayFail : MayFail permits)
  (accepted : Accepted origin command)

include accepted in
theorem directing_of_staged {disk : Disk}
    (holding : Holding origin id (Staged command (committingManifest contentHash command)) disk) :
    Directing contentHash origin command id command.createDirectories.zipIdx []
      ⟨disk, ⟨committingManifest contentHash command, false⟩⟩ := by
  have undoable := undoable_of_staged accepted holding
  have ⟨workspace, found, staged, _⟩ := holding.entry
  refine ⟨⟨rfl, follows_committingManifest contentHash command, rfl, undoable⟩, ?_, ?_, ?_⟩
  · intro entry member
    have inItems := mem_zipIdx_iff_getElem?.1 member
    have inRange := (List.getElem?_eq_some_iff.1 inItems).1
    show (disk.workspace id).any _ = true
    rw [found]
    exact staged.flags entry.2 inRange
  · exact fun _ member => absurd member not_mem_nil
  · exact fun _ member => .inl member

include mayFail accepted in
theorem keeps_beginPublish : Keeps permits (InProcess contentHash origin command id leaving)
      (Ready contentHash origin command id) (changePhase id .committing)
      fun _ => Directing contentHash origin command id command.createDirectories.zipIdx [] := by
  apply keeps_changePhase mayFail
  · intro machine ready
    refine .inl ⟨by rw [ready.1], by rw [ready.1]; rfl, ?_⟩
    apply ready.2.mono
    intro workspace staged manifest isManifest
    rw [staged.isManifest] at isManifest
    rw [← Option.some.inj isManifest]
    rfl
  · intro machine disk ready put
    rw [ready.1] at put ⊢
    have holding : Holding origin id (Staged command (committingManifest contentHash command)) disk := by
      rw [putManifest_ok put]
      apply ready.2.update
      intro workspace _ staged
      exact ⟨rfl, staged.flags, staged.written, staged.unwritten⟩
    have directing := directing_of_staged accepted holding
    refine ⟨directing, .inr (.inr ⟨rfl, ?_⟩)⟩
    have underway := directing.inStep.underway accepted (nil_sublist _)
    have committing : Committing contentHash origin command id disk :=
      underway.committingDisk accepted
    exact crashed_of_committing committing

include injective mayFail accepted in
theorem keeps_publish : Keeps permits (InProcess contentHash origin command id leaving)
      (Ready contentHash origin command id) (publish contentHash id)
      fun _ => Clearing contentHash origin command id [] := by
  have holds : ∀ machine, Underway contentHash origin command id machine →
      InProcess contentHash origin command id leaving machine :=
    fun _ underway => .inr (.inl underway)
  have directories : Keeps permits (InProcess contentHash origin command id leaving)
      (Directing contentHash origin command id command.createDirectories.zipIdx [])
      (Program.branch fun machine =>
        Program.forEach (publishDirectory id) machine.prepared.manifest.createDirectories.zipIdx)
      fun _ => Publishing contentHash origin command id command.intents.zipIdx := by
    apply keeps_branch
    intro machine directing
    rw [directing.inStep.follows.createDirectories]
    have loops : Keeps permits (InProcess contentHash origin command id leaving)
        (Directing contentHash origin command id command.createDirectories.zipIdx [])
        (Program.forEach (publishDirectory id) command.createDirectories.zipIdx)
        fun _ => Directing contentHash origin command id [] [] := by
      apply keeps_forEach fun rest => Directing contentHash origin command id rest []
      intro entry rest isEnd
      exact keeps_publishDirectory mayFail accepted holds isEnd
    apply keeps_mono (keeps_at loops directing) (fun _ same => same)
    intro _ current directed
    have inStep := directed.inStep
    refine ⟨⟨inStep.certain, inStep.follows, inStep.committing, ?_⟩, ?_, fun _ member => .inl member⟩
    · apply inStep.undoable.mono accepted (fun _ member => absurd member not_mem_nil)
        (fun _ member => member) (List.Sublist.refl _) inStep.undoable.createdListed
        (List.Sublist.refl _)
      exact fun _ member => absurd member not_mem_nil
    · intro path listed
      obtain ⟨index, found⟩ := mem_iff_getElem?.1 listed
      have inEntries : (path, index) ∈ command.createDirectories.zipIdx :=
        mem_zipIdx_iff_getElem?.2 found
      exact (directed.progress _ inEntries).resolve_left not_mem_nil
  have intents : Keeps permits (InProcess contentHash origin command id leaving)
      (Publishing contentHash origin command id command.intents.zipIdx)
      (Program.branch fun machine =>
        Program.forEach
          (fun (entry : ManifestIntent × Nat) => publishIntent contentHash id entry.2 entry.1)
          machine.prepared.manifest.intents.zipIdx)
      fun _ => Clearing contentHash origin command id command.removeDirectories.reverse := by
    apply keeps_branch
    intro machine publishing
    rw [publishing.inStep.follows.intents, zipIdx_map, Program.forEach_map]
    have loops : Keeps permits (InProcess contentHash origin command id leaving)
        (Publishing contentHash origin command id command.intents.zipIdx)
        (Program.forEach (fun entry : BatchPathIntent × Nat =>
            publishIntent contentHash id entry.2 (manifestIntent contentHash entry.1))
          command.intents.zipIdx)
        fun _ => Publishing contentHash origin command id [] := by
      apply keeps_forEach (Publishing contentHash origin command id)
      intro entry rest isEnd
      exact keeps_publishIntent injective mayFail accepted
        (fun machine publishing =>
          holds machine (publishing.inStep.underway accepted (nil_sublist _)))
        (isEnd.subset mem_cons_self)
    apply keeps_mono (keeps_at loops publishing) (fun _ same => same)
    intro _ current published
    have inStep := published.inStep
    refine ⟨inStep.certain, inStep.follows, inStep.committing, ⟨[], ?_, inStep.undoable, ?_⟩,
      published.folders, ?_⟩
    · rw [reverse_reverse, append_nil]
    · exact fun _ member => absurd member not_mem_nil
    · exact fun entry listed =>
        (published.progress entry listed).resolve_left not_mem_nil
  have clears : Keeps permits (InProcess contentHash origin command id leaving)
      (Clearing contentHash origin command id command.removeDirectories.reverse)
      (Program.branch fun machine =>
        Program.forEach removeEmptySyncedDirectory
          machine.prepared.manifest.removeDirectories.reverse)
      fun _ => Clearing contentHash origin command id [] := by
    apply keeps_branch
    intro machine clearing
    rw [clearing.follows.removeDirectories]
    have loops : Keeps permits (InProcess contentHash origin command id leaving)
        (Clearing contentHash origin command id command.removeDirectories.reverse)
        (Program.forEach removeEmptySyncedDirectory command.removeDirectories.reverse)
        fun _ => Clearing contentHash origin command id [] := by
      apply keeps_forEach (Clearing contentHash origin command id)
      intro path rest _
      exact keeps_removeEmptySyncedDirectory mayFail accepted holds
    exact keeps_at loops clearing
  unfold publish
  apply keeps_andThen (keeps_ensurePhaseCertain fun machine ready => by rw [ready.1])
  intro _
  refine @keeps_andThen _ _ _ _ _ _ _
    (fun _ => Directing contentHash origin command id command.createDirectories.zipIdx []) _ ?_ ?_
  · apply keeps_branch
    intro machine ready
    have phase : machine.prepared.manifest.phase = .prepared := by rw [ready.1]; rfl
    rw [phase]
    exact keeps_at (keeps_beginPublish mayFail accepted) ready
  intro _
  apply keeps_andThen directories
  intro _
  apply keeps_andThen intents
  intro _
  exact clears

include mayFail accepted in
theorem keeps_markFilesystemCommitted :
    Keeps permits (InProcess contentHash origin command id leaving)
      (Clearing contentHash origin command id []) (markFilesystemCommitted id)
      fun _ => Marked origin command id := by
  unfold markFilesystemCommitted
  apply keeps_andThen (keeps_ensurePhaseCertain fun machine clearing => clearing.certain)
  intro _
  apply keeps_branch
  intro machine clearing
  rw [if_pos clearing.committing]
  refine keeps_at (keeps_changePhase mayFail ?_ ?_) clearing
  · exact fun machine clearing => .inr (.inl (clearing.underway accepted))
  · intro machine disk clearing put
    have same := putManifest_ok put
    have ⟨_, _, undoable, _⟩ := clearing.removed
    have ⟨workspace, found, _⟩ := undoable.workspace_eq
    have quiet : disk.OthersQuiet id := by
      rw [same]
      exact othersQuiet_update undoable.othersQuiet
    have vault : disk.vault = vaultAfter origin command := by
      rw [same]
      exact clearing.vault
    have phase : disk.durablePhase id = some .filesystemCommitted := by
      rw [Disk.durablePhase, same, Disk.workspace_update, if_pos rfl, found]
      rfl
    refine ⟨⟨rfl, rfl, quiet, vault, phase⟩, .inr (.inr ⟨rfl, .inr ⟨.inl ⟨quiet, vault, ?_⟩, .inl phase⟩⟩)⟩
    simp [phase]

end Publication

end Clepsydra.Mutate
