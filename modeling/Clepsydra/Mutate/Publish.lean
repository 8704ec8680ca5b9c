import Clepsydra.Mutate.Prepare

/-!
Owns: what `publish` does from a prepared transaction: every failure and crash leaves a state that
can be undone, and a success leaves exactly the state the command describes.
-/

namespace Clepsydra.Mutate

open Library Library.Faulty Vault List Function

/-! ### A transaction under way -/

def Committing (contentHash : Bytes → Hash) (origin : Disk) (command : BatchMutationCommand)
    (id : Uuid) (disk : Disk) : Prop :=
  Accepted origin command ∧ ∃ manifest : TransactionManifest,
    manifest.Follows contentHash command ∧ manifest.phase = .committing
      ∧ Undone origin command id manifest disk

/-- The process knows that it is committing; it may remember one directory more than the disk. -/
structure Underway (contentHash : Bytes → Hash) (origin : Disk) (command : BatchMutationCommand)
    (id : Uuid) (machine : Machine) : Prop where
  certain : machine.prepared.phaseUncertain = false
  follows : machine.prepared.manifest.Follows contentHash command
  committing : machine.prepared.manifest.phase = .committing
  undone : ∃ manifest : TransactionManifest, manifest.Follows contentHash command
    ∧ manifest.phase = .committing ∧ Undone origin command id manifest machine.disk
    ∧ manifest.createdDirectories.Sublist machine.prepared.manifest.createdDirectories

structure InStep (contentHash : Bytes → Hash) (origin : Disk) (command : BatchMutationCommand)
    (id : Uuid) (remaining : List (BatchPathIntent × Nat)) (removed : List VaultPath)
    (machine : Machine) : Prop where
  certain : machine.prepared.phaseUncertain = false
  follows : machine.prepared.manifest.Follows contentHash command
  committing : machine.prepared.manifest.phase = .committing
  undoable : Undoable origin command id machine.prepared.manifest remaining
    machine.prepared.manifest.createdDirectories.reverse removed machine.disk

section

variable {contentHash : Bytes → Hash} {origin : Disk} {command : BatchMutationCommand} {id : Uuid}
  {remaining : List (BatchPathIntent × Nat)} {removed : List VaultPath} {machine : Machine}

theorem undone_of_undoable {manifest : TransactionManifest} {created : List VaultPath} {disk : Disk}
    (accepted : Accepted origin command) (follows : manifest.Follows contentHash command)
    (undoable : Undoable origin command id manifest remaining created removed disk)
    (lessCreated : created.Sublist manifest.createdDirectories.reverse)
    (lessRemoved : removed.Sublist command.removeDirectories) :
    Undone origin command id manifest disk := by
  apply undoable.mono accepted undoable.remainingListed (fun _ member => member) lessCreated
    _ lessRemoved (fun _ member => member)
  exact fun path member => follows.createdListed path (mem_reverse.1 member)

theorem InStep.underway (inStep : InStep contentHash origin command id remaining removed machine)
    (accepted : Accepted origin command) (lessRemoved : removed.Sublist command.removeDirectories) :
    Underway contentHash origin command id machine where
  certain := inStep.certain
  follows := inStep.follows
  committing := inStep.committing
  undone := ⟨machine.prepared.manifest, inStep.follows, inStep.committing,
    undone_of_undoable accepted inStep.follows inStep.undoable (List.Sublist.refl _) lessRemoved,
    List.Sublist.refl _⟩

end

theorem Undoable.rewrite {origin disk : Disk} {command : BatchMutationCommand} {id : Uuid}
    {manifest next : TransactionManifest} {remaining : List (BatchPathIntent × Nat)}
    {created removed : List VaultPath}
    (undoable : Undoable origin command id manifest remaining created removed disk) :
    Undoable origin command id next remaining created removed
      (disk.update id fun workspace => { workspace with manifest := some next }) := by
  have ⟨workspace, found, _⟩ := undoable.workspace_eq
  have here : (disk.update id fun workspace => { workspace with manifest := some next }).workspace id
      = some { workspace with manifest := some next } := by
    rw [Disk.workspace_update, if_pos rfl, found]
    rfl
  have entries : ∀ slot,
      (disk.update id fun workspace => { workspace with manifest := some next }).entry id slot
        = disk.entry id slot := by
    intro slot
    simp [Disk.entry, here, found]
  refine { undoable with
    files := ?_
    items := ?_
    installed := ?_
    recorded := ?_
    othersQuiet := othersQuiet_update undoable.othersQuiet }
  · intro entry listed slot content isEntry
    rw [entries]
    exact undoable.files entry listed slot content isEntry
  · intro entry listed slot item isSlot
    rw [entries]
    exact undoable.items entry listed slot item isSlot
  · intro path inCreated isFolder index isIndex
    have notStaged := undoable.installed path inCreated isFolder index isIndex
    rw [found] at notStaged
    rw [here]
    exact notStaged
  · rw [here]
    rfl

/-! ### Directories -/

theorem installCreated_ok {disk next : Disk} {id : Uuid} {index : Nat} {path : VaultPath}
    (installed : installCreated id index path disk = .ok next) :
    ∃ workspace, disk.workspace id = some workspace ∧ disk.pages.nodeAt path = none
      ∧ next.pages.nodeAt = update disk.pages.nodeAt path (some .folder)
      ∧ next.rubbish = disk.rubbish
      ∧ (∀ other, next.workspace other = if other = id then
              some { workspace with created := update workspace.created index false }
            else disk.workspace other) := by
  unfold installCreated at installed
  split at installed
  · cases installed
  · rename_i workspace found
    split_ifs at installed
    cases created : disk.pages.create path .folder with
    | error source => simp [created, Except.map] at installed
    | ok pages =>
      simp only [created, Except.map, Except.ok.injEq] at installed
      have effect := Tree.create_ok created
      rw [← installed]
      refine ⟨workspace, found, effect.1, effect.2, rfl, ?_⟩
      intro other
      rw [Disk.workspace_update]
      split_ifs
      · have same : ({ disk with pages := pages } : Disk).workspace id = disk.workspace id := rfl
        rw [same, found]
        rfl
      · rfl

theorem Undoable.install {origin disk next : Disk} {command : BatchMutationCommand} {id : Uuid}
    {manifest : TransactionManifest} {created : List VaultPath} {path : VaultPath} {index : Nat}
    (undoable : Undoable origin command id manifest [] (path :: created) [] disk)
    (isFirst : command.createDirectories.findIdx? (· = path) = some index)
    (installed : installCreated id index path disk = .ok next) :
    Undoable origin command id manifest [] (path :: created) [] next := by
  have ⟨workspace, found, absent, pages, rubbish, workspaces⟩ := installCreated_ok installed
  have here : next.workspace id
      = some { workspace with created := update workspace.created index false } := by
    rw [workspaces, if_pos rfl]
  have entries : ∀ slot, next.entry id slot = disk.entry id slot := by
    intro slot
    simp [Disk.entry, here, found]
  have nodeHere : next.pages.nodeAt path = some .folder := by rw [pages, update_self]
  have elsewhere : ∀ other, other ≠ path → next.pages.nodeAt other = disk.pages.nodeAt other := by
    intro other different
    rw [pages, update_of_ne different]
  refine { undoable with
    pages := ?_
    rubbish := ?_
    files := ?_
    items := ?_
    installed := ?_
    createdOrder := ?_
    removedOrder := fun _ _ _ member => absurd member not_mem_nil
    recorded := ?_
    othersQuiet := ?_ }
  · intro other
    by_cases isPath : other = path
    · rw [isPath]
      exact .inr (.inr (.inl ⟨mem_cons_self, nodeHere⟩))
    · simp only [elsewhere other isPath]
      exact undoable.pages other
  · rw [rubbish]
    exact undoable.rubbish
  · intro entry listed slot content isEntry
    rw [entries]
    exact undoable.files entry listed slot content isEntry
  · intro entry listed slot item isSlot
    rw [entries, rubbish]
    exact undoable.items entry listed slot item isSlot
  · intro other inCreated isFolder otherIndex isIndex
    rw [here]
    show update workspace.created index false otherIndex = false
    by_cases isPath : other = path
    · rw [isPath, isFirst] at isIndex
      rw [← Option.some.inj isIndex, update_self]
    · rw [elsewhere other isPath] at isFolder
      have notStaged := undoable.installed other inCreated isFolder otherIndex isIndex
      rw [found] at notStaged
      by_cases sameIndex : otherIndex = index
      · rw [sameIndex, update_self]
      · rw [update_of_ne sameIndex]
        exact notStaged
  · intro upper lower above inUpper inLower upperFolder lowerFolder
    have upperNotPath : upper ≠ path ∨ lower = path := by
      by_cases isLower : lower = path
      · exact .inr isLower
      · refine .inl fun isUpper => ?_
        rw [elsewhere lower isLower] at lowerFolder
        have wasFolder := Tree.nodeAt_ancestor lowerFolder above
        rw [isUpper, absent] at wasFolder
        cases wasFolder
    have different : upper ≠ lower := by
      intro same
      rw [same] at above
      exact VaultPath.not_mem_ancestors_self lower above
    by_cases isLower : lower = path
    · -- The new folder comes first, and the one above it was there.
      rw [isLower] at different ⊢
      have inTail := (mem_cons.1 inUpper).resolve_left different
      exact (singleton_sublist.2 inTail).cons_cons path
    · have isUpper := upperNotPath.resolve_right isLower
      rw [elsewhere lower isLower] at lowerFolder
      rw [elsewhere upper isUpper] at upperFolder
      exact undoable.createdOrder upper lower above inUpper inLower upperFolder lowerFolder
  · have recorded := undoable.recorded
    rw [found] at recorded
    rw [here]
    exact recorded
  · intro other different
    rw [workspaces, if_neg different]
    exact undoable.othersQuiet other different

/-- All directories but the remaining ones are there, and all but one of them recorded. -/
structure Directing (contentHash : Bytes → Hash) (origin : Disk) (command : BatchMutationCommand)
    (id : Uuid) (remaining : List (VaultPath × Nat)) (atHand : List VaultPath)
    (machine : Machine) : Prop where
  inStep : InStep contentHash origin command id [] [] machine
  flags : ∀ entry ∈ remaining,
    (machine.disk.workspace id).any (fun workspace => workspace.created entry.2) = true
  folders : ∀ path ∈ machine.prepared.manifest.createdDirectories,
    path ∈ atHand ∨ machine.disk.pages.nodeAt path = some .folder
  progress : ∀ entry ∈ command.createDirectories.zipIdx,
    entry ∈ remaining ∨ machine.disk.pages.nodeAt entry.1 = some .folder

theorem zipIdx_increasing {α : Type} (items : List α) :
    items.zipIdx.Pairwise fun left right => left.2 < right.2 := by
  have increasing : (items.zipIdx.map Prod.snd).Pairwise (· < ·) := by
    rw [zipIdx_map_snd]
    exact pairwise_lt_range'
  exact pairwise_map.1 increasing

theorem first_of_remaining {items : List VaultPath} (present : VaultPath → Prop) {path : VaultPath}
    {index : Nat} {rest : List (VaultPath × Nat)} (isEnd : ((path, index) :: rest) <:+ items.zipIdx)
    (progress : ∀ entry ∈ items.zipIdx, entry ∈ (path, index) :: rest ∨ present entry.1)
    (absent : ¬present path) : items.findIdx? (· = path) = some index := by
  have inItems := mem_zipIdx_iff_getElem?.1 (isEnd.subset mem_cons_self)
  simp only at inItems
  have increasing := (zipIdx_increasing items).sublist isEnd.sublist
  have ⟨isLength, isPath⟩ := List.getElem?_eq_some_iff.1 inItems
  rw [findIdx?_eq_some_iff_getElem]
  refine ⟨isLength, by simpa using isPath, ?_⟩
  intro earlier isBefore
  simp only [decide_eq_true_eq]
  intro isSame
  have listed : (path, earlier) ∈ items.zipIdx := by
    apply mem_zipIdx_iff_getElem?.2
    simp only
    rw [getElem?_eq_getElem (isBefore.trans isLength), isSame]
  rcases progress (path, earlier) listed with inRemaining | isPresent
  · rcases mem_cons.1 inRemaining with isHead | inRest
    · have sameIndex : earlier = index := congrArg Prod.snd isHead
      omega
    · have later := (pairwise_cons.1 increasing).1 _ inRest
      simp only at later
      omega
  · exact absent isPresent

section Directories

variable {contentHash : Bytes → Hash} {permits : Fault Bool → Prop} {invariant : Machine → Prop}
  {origin : Disk} {command : BatchMutationCommand} {id : Uuid} {path : VaultPath} {index : Nat}
  {rest : List (VaultPath × Nat)}

def TransactionManifest.push (manifest : TransactionManifest) (path : VaultPath) :
    TransactionManifest :=
  { manifest with createdDirectories := manifest.createdDirectories ++ [path] }

theorem TransactionManifest.Follows.push {manifest : TransactionManifest}
    (follows : manifest.Follows contentHash command) (listed : path ∈ command.createDirectories)
    (isNew : path ∉ manifest.createdDirectories) :
    (manifest.push path).Follows contentHash command where
  removeDirectories := follows.removeDirectories
  createDirectories := follows.createDirectories
  intents := follows.intents
  createdListed := by
    intro other member
    rcases mem_append.1 member with before | isPath
    · exact follows.createdListed other before
    · rw [mem_singleton.1 isPath]
      exact listed
  createdDistinct := by
    apply follows.createdDistinct.append (nodup_singleton path)
    simpa [disjoint_singleton] using isNew

def Machine.remember (machine : Machine) (path : VaultPath) : Machine := { machine with
    prepared := { machine.prepared with manifest := machine.prepared.manifest.push path } }

theorem recordCreated_eq : recordCreated id path = Program.step (fun machine =>
        match putManifest id (machine.prepared.manifest.push path) machine.disk with
        | .ok disk => (.ok (), { machine.remember path with disk := disk })
        | .error source => (.error (manifestFailure source), machine.remember path))
      (fun applied machine =>
        (manifestFailure .device,
          if applied then
            (machine.remember path).apply (putManifest id (machine.prepared.manifest.push path))
          else machine.remember path)) := rfl

theorem Directing.remember {machine : Machine} (accepted : Accepted origin command)
    (directing : Directing contentHash origin command id ((path, index) :: rest) [] machine)
    (listed : path ∈ command.createDirectories)
    (isNew : path ∉ machine.prepared.manifest.createdDirectories) :
    Underway contentHash origin command id (machine.remember path) where
  certain := directing.inStep.certain
  follows := directing.inStep.follows.push listed isNew
  committing := directing.inStep.committing
  undone := by
    have ⟨_, follows, committing, undone, _⟩ :=
      (directing.inStep.underway accepted (nil_sublist _)).undone
    exact ⟨machine.prepared.manifest, directing.inStep.follows, directing.inStep.committing,
      undone_of_undoable accepted directing.inStep.follows directing.inStep.undoable
        (List.Sublist.refl _) (nil_sublist _),
      sublist_append_left _ _⟩

theorem Directing.record {machine : Machine} {disk : Disk} (accepted : Accepted origin command)
    (directing : Directing contentHash origin command id ((path, index) :: rest) [] machine)
    (listed : path ∈ command.createDirectories)
    (isNew : path ∉ machine.prepared.manifest.createdDirectories)
    (put : putManifest id (machine.prepared.manifest.push path) machine.disk = .ok disk) :
    Directing contentHash origin command id ((path, index) :: rest) [path]
      { machine.remember path with disk := disk } := by
  have inStep := directing.inStep
  have follows := inStep.follows.push listed isNew
  have reversed : (machine.prepared.manifest.push path).createdDirectories.reverse
      = path :: machine.prepared.manifest.createdDirectories.reverse := by
    simp [TransactionManifest.push]
  have same := putManifest_ok put
  have widened := inStep.undoable.mono accepted (fun _ member => member)
    (fun _ member => absurd member not_mem_nil)
    (sublist_cons_self path machine.prepared.manifest.createdDirectories.reverse)
    (fun other member => follows.createdListed other (mem_reverse.1 (reversed ▸ member)))
    (List.Sublist.refl _) (fun _ member => absurd member not_mem_nil)
  have ⟨workspace, found, _⟩ := inStep.undoable.workspace_eq
  refine ⟨⟨inStep.certain, follows, inStep.committing, ?_⟩, ?_, ?_, ?_⟩
  · show Undoable _ _ _ _ _ (machine.prepared.manifest.push path).createdDirectories.reverse _ disk
    rw [reversed, same]
    exact widened.rewrite
  · intro entry inRemaining
    have flag := directing.flags entry inRemaining
    show (disk.workspace id).any _ = true
    rw [found] at flag
    rw [same, Disk.workspace_update, if_pos rfl, found]
    exact flag
  · intro other member
    rcases mem_append.1 member with before | isPath
    · have isFolder := (directing.folders other before).resolve_left not_mem_nil
      refine .inr ?_
      show disk.pages.nodeAt other = _
      rw [same]
      exact isFolder
    · exact .inl isPath
  · intro entry inEntries
    show _ ∨ disk.pages.nodeAt entry.1 = _
    rw [same]
    exact directing.progress entry inEntries

theorem Directing.install {machine : Machine} {disk : Disk} {before : List VaultPath}
    (isEnd : ((path, index) :: rest) <:+ command.createDirectories.zipIdx)
    (directing : Directing contentHash origin command id ((path, index) :: rest) [path] machine)
    (isLast : machine.prepared.manifest.createdDirectories = before ++ [path])
    (installed : installCreated id index path machine.disk = .ok disk) :
    Directing contentHash origin command id rest [] { machine with disk := disk } := by
  have inStep := directing.inStep
  have ⟨workspace, found, absent, pages, _, workspaces⟩ := installCreated_ok installed
  have isFirst : command.createDirectories.findIdx? (· = path) = some index :=
    first_of_remaining (fun other => machine.disk.pages.nodeAt other = some .folder) isEnd
      directing.progress (by simp [absent])
  have undoable := inStep.undoable
  rw [isLast, reverse_append, reverse_singleton, singleton_append] at undoable
  have nodeHere : disk.pages.nodeAt path = some .folder := by rw [pages, update_self]
  have stillFolder : ∀ other, machine.disk.pages.nodeAt other = some .folder →
      disk.pages.nodeAt other = some .folder := by
    intro other isFolder
    by_cases isPath : other = path
    · rw [isPath]
      exact nodeHere
    · rw [pages, update_of_ne isPath]
      exact isFolder
  refine ⟨⟨inStep.certain, inStep.follows, inStep.committing, ?_⟩, ?_, ?_, ?_⟩
  · show Undoable _ _ _ _ _ machine.prepared.manifest.createdDirectories.reverse _ disk
    rw [isLast, reverse_append, reverse_singleton, singleton_append]
    exact undoable.install isFirst installed
  · intro entry inRest
    have flag := directing.flags entry (mem_cons_of_mem _ inRest)
    have increasing := (zipIdx_increasing command.createDirectories).sublist isEnd.sublist
    have later := (pairwise_cons.1 increasing).1 entry inRest
    have different : entry.2 ≠ index := by
      simp only at later
      omega
    rw [found] at flag
    show (disk.workspace id).any _ = true
    rw [workspaces, if_pos rfl]
    show update workspace.created index false entry.2 = true
    rw [update_of_ne different]
    exact flag
  · intro other member
    refine .inr ?_
    rcases directing.folders other member with isPath | isFolder
    · rw [mem_singleton.1 isPath]
      exact nodeHere
    · exact stillFolder other isFolder
  · intro entry inEntries
    rcases directing.progress entry inEntries with inRemaining | isFolder
    · rcases mem_cons.1 inRemaining with isHead | inRest
      · rw [isHead]
        exact .inr nodeHere
      · exact .inl inRest
    · exact .inr (stillFolder entry.1 isFolder)

variable (mayFail : MayFail permits) (accepted : Accepted origin command)
  (holds : ∀ machine, Underway contentHash origin command id machine → invariant machine)

include mayFail accepted holds

theorem keeps_recordCreated (listed : path ∈ command.createDirectories) : Keeps permits invariant
      (fun machine => Directing contentHash origin command id ((path, index) :: rest) [] machine
        ∧ path ∉ machine.prepared.manifest.createdDirectories)
      (recordCreated id path)
      fun _ machine =>
        Directing contentHash origin command id ((path, index) :: rest) [path] machine
          ∧ ∃ before, machine.prepared.manifest.createdDirectories = before ++ [path] := by
  have recorded : ∀ machine : Machine, ∀ disk,
      (Directing contentHash origin command id ((path, index) :: rest) [] machine
        ∧ path ∉ machine.prepared.manifest.createdDirectories) →
      putManifest id (machine.prepared.manifest.push path) machine.disk = .ok disk →
      Directing contentHash origin command id ((path, index) :: rest) [path]
        { machine.remember path with disk := disk } :=
    fun machine disk pre put => pre.1.record accepted listed pre.2 put
  have remembered : ∀ machine : Machine,
      (Directing contentHash origin command id ((path, index) :: rest) [] machine
        ∧ path ∉ machine.prepared.manifest.createdDirectories) →
      invariant (machine.remember path) :=
    fun machine pre => holds _ (pre.1.remember accepted listed pre.2)
  have underway : ∀ machine : Machine,
      Directing contentHash origin command id ((path, index) :: rest) [path] machine →
      invariant machine :=
    fun machine directing => holds _ (directing.inStep.underway accepted (nil_sublist _))
  rw [recordCreated_eq]
  apply keeps_step mayFail
  · exact fun machine pre => holds _ (pre.1.inStep.underway accepted (nil_sublist _))
  · intro machine value pre result
    cases put : putManifest id (machine.prepared.manifest.push path) machine.disk with
    | error source => simp [put] at result
    | ok disk => exact ⟨recorded machine disk pre put, _, rfl⟩
  · intro machine failure pre result
    cases put : putManifest id (machine.prepared.manifest.push path) machine.disk with
    | error source => exact remembered machine pre
    | ok disk => simp [put] at result
  · intro machine applied pre
    cases applied with
    | false => exact remembered machine pre
    | true =>
      simp only [if_true, Machine.apply]
      cases put : putManifest id (machine.prepared.manifest.push path)
          (machine.remember path).disk with
      | error source => exact remembered machine pre
      | ok disk => exact underway _ (recorded machine disk pre put)

theorem keeps_publishDirectory (isEnd : ((path, index) :: rest) <:+ command.createDirectories.zipIdx) :
    Keeps permits invariant (Directing contentHash origin command id ((path, index) :: rest) [])
      (publishDirectory id (path, index))
      fun _ => Directing contentHash origin command id rest [] := by
  have listed : path ∈ command.createDirectories := by
    have inItems := mem_zipIdx_iff_getElem?.1 (isEnd.subset mem_cons_self)
    exact mem_of_getElem? inItems
  have underway : ∀ machine,
      Directing contentHash origin command id ((path, index) :: rest) [path] machine →
      invariant machine :=
    fun machine directing => holds _ (directing.inStep.underway accepted (nil_sublist _))
  have records : Keeps permits invariant
      (Directing contentHash origin command id ((path, index) :: rest) [])
      (Program.branch fun machine =>
        if path ∈ machine.prepared.manifest.createdDirectories then Program.done ()
        else recordCreated id path)
      fun _ machine =>
        Directing contentHash origin command id ((path, index) :: rest) [path] machine
          ∧ ((∃ before, machine.prepared.manifest.createdDirectories = before ++ [path])
            ∨ machine.disk.pages.nodeAt path = some .folder) := by
    apply keeps_branch
    intro machine directing
    split_ifs with isRecorded
    · apply keeps_done
      intro current same
      have isFolder := (directing.folders path isRecorded).resolve_left not_mem_nil
      rw [same]
      refine ⟨{ directing with folders := fun other member => ?_ }, .inr isFolder⟩
      exact .inr ((directing.folders other member).resolve_left not_mem_nil)
    · apply keeps_mono (keeps_recordCreated mayFail accepted holds listed)
      · intro current same
        rw [same]
        exact ⟨directing, isRecorded⟩
      · exact fun _ _ post => ⟨post.1, .inl post.2⟩
  apply keeps_andThen records
  intro _
  apply keeps_branch
  intro machine both
  have ⟨directing, isLast⟩ := both
  have ⟨workspace, found, _⟩ := directing.inStep.undoable.workspace_eq
  have flag := directing.flags (path, index) mem_cons_self
  rw [found] at flag
  have isFlag : workspace.created index = true := flag
  simp only [found, isFlag, if_true]
  apply keeps_perform
  · intro current same
    rw [same]
    exact underway machine directing
  · exact fun _ _ => .inl mayFail
  · intro current disk same installed
    rw [same] at installed ⊢
    have after : Directing contentHash origin command id rest [] { machine with disk := disk } := by
      rcases isLast with ⟨before, isLast⟩ | isFolder
      · exact directing.install isEnd isLast installed
      · have ⟨_, _, absent, _⟩ := installCreated_ok installed
        rw [isFolder] at absent
        cases absent
    exact ⟨after, holds _ (after.inStep.underway accepted (nil_sublist _))⟩

end Directories

/-! ### Intents -/

def BatchPathIntent.Applied (intent : BatchPathIntent) (disk : Disk) : Prop :=
  (∀ change ∈ intent.pageAfter, disk.pages.nodeAt change.1 = change.2)
    ∧ ∀ change, intent.itemAfter = some change → disk.rubbish change.1 = change.2

structure Publishing (contentHash : Bytes → Hash) (origin : Disk) (command : BatchMutationCommand)
    (id : Uuid) (remaining : List (BatchPathIntent × Nat)) (machine : Machine) : Prop where
  inStep : InStep contentHash origin command id command.intents.zipIdx [] machine
  folders : ∀ path ∈ command.createDirectories, machine.disk.pages.nodeAt path = some .folder
  progress : ∀ entry ∈ command.intents.zipIdx, entry ∈ remaining ∨ entry.1.Applied machine.disk

section Intents

variable {contentHash : Bytes → Hash} {permits : Fault Bool → Prop} {invariant : Machine → Prop}
  {origin : Disk} {command : BatchMutationCommand} {id : Uuid} {entry : BatchPathIntent × Nat}
  {remaining : List (BatchPathIntent × Nat)}

theorem stableAt_publishing (accepted : Accepted origin command)
    (listed : entry ∈ command.intents.zipIdx) {path : VaultPath} {node : Option Node}
    (change : (path, node) ∈ entry.1.pageAfter) :
    StableAt path node (Publishing contentHash origin command id (entry :: remaining)) := by
  intro machine pages publishing lookup
  have isPath := Undoable.mem_paths change
  have elsewhere : ∀ other, other ≠ path → pages.nodeAt other = machine.disk.pages.nodeAt other := by
    intro other different
    rw [lookup, update_of_ne different]
  have inStep := publishing.inStep
  refine ⟨⟨inStep.certain, inStep.follows, inStep.committing, ?_⟩, ?_, ?_⟩
  · exact inStep.undoable.setPage accepted listed isPath (.inr change) lookup
  · intro other inCreated
    have different : other ≠ path := by
      intro same
      rw [same] at inCreated
      exact accepted.path_not_created (Accepted.mem_intents listed) isPath inCreated
    exact (elsewhere other different).trans (publishing.folders other inCreated)
  · intro other inOther
    by_cases isEntry : other = entry
    · rw [isEntry]
      exact .inl mem_cons_self
    · rcases publishing.progress other inOther with inRemaining | applied
      · exact .inl inRemaining
      · refine .inr ⟨fun pair inPair => ?_, applied.2⟩
        have apart := accepted.entries_apart inOther listed isEntry pair.1
          (Undoable.mem_paths inPair) path isPath
        exact (elsewhere pair.1 apart.1).trans (applied.1 pair inPair)

theorem Publishing.moveItem (accepted : Accepted origin command)
    (listed : entry ∈ command.intents.zipIdx) {slot : Slot} {item : RubbishItem}
    (isSlot : entry.1.itemSlot entry.2 = some (slot, item)) {machine : Machine} {next : Disk}
    (publishing : Publishing contentHash origin command id (entry :: remaining) machine)
    (undoable : UndoneTo origin command id machine.prepared.manifest command.intents.zipIdx
      machine.prepared.manifest.createdDirectories.reverse [] { machine with disk := next })
    (pages : next.pages = machine.disk.pages)
    (rubbish : ∀ other, other ≠ item.manifest.itemId → next.rubbish other = machine.disk.rubbish other) :
    Publishing contentHash origin command id (entry :: remaining) { machine with disk := next } := by
  have inStep := publishing.inStep
  refine ⟨⟨inStep.certain, inStep.follows, inStep.committing, undoable⟩, ?_, ?_⟩
  · intro other inCreated
    show next.pages.nodeAt other = _
    rw [pages]
    exact publishing.folders other inCreated
  · intro other inOther
    by_cases isEntry : other = entry
    · rw [isEntry]
      exact .inl mem_cons_self
    · rcases publishing.progress other inOther with inRemaining | applied
      · exact .inl inRemaining
      · refine .inr ⟨fun pair inPair => ?_, fun pair isPair => ?_⟩
        · show next.pages.nodeAt pair.1 = _
          rw [pages]
          exact applied.1 pair inPair
        · have different : pair.1 ≠ item.manifest.itemId := by
            intro same
            have otherItem : other.1.item = some item.manifest.itemId := by
              rw [BatchPathIntent.item, isPair, ← same]
              rfl
            exact accepted.entries_items listed inOther (Ne.symm isEntry) (item_of_itemSlot isSlot)
              otherItem
          exact (rubbish pair.1 different).trans (applied.2 pair isPair)

theorem Publishing.finish {machine : Machine}
    (publishing : Publishing contentHash origin command id (entry :: remaining) machine)
    (applied : entry.1.Applied machine.disk) :
    Publishing contentHash origin command id remaining machine := by
  refine { publishing with progress := fun other inOther => ?_ }
  rcases publishing.progress other inOther with inRemaining | isApplied
  · rcases mem_cons.1 inRemaining with isEntry | inRest
    · rw [isEntry]
      exact .inr applied
    · exact .inl inRest
  · exact .inr isApplied

end Intents

section Kinds

variable {contentHash : Bytes → Hash} {permits : Fault Bool → Prop} {invariant : Machine → Prop}
  {origin : Disk} {command : BatchMutationCommand} {id : Uuid} {index : Nat}
  {remaining : List (BatchPathIntent × Nat)} (injective : Injective contentHash)
  (mayFail : MayFail permits) (accepted : Accepted origin command)
  (underway : ∀ {entries} machine, Publishing contentHash origin command id entries machine →
    invariant machine)

include injective mayFail accepted underway

theorem keeps_publishWrite {path : VaultPath} {expected : ExpectedPathState} {content : Bytes}
    (listed : (.write path expected content, index) ∈ command.intents.zipIdx) :
    Keeps permits invariant
      (Publishing contentHash origin command id ((.write path expected content, index) :: remaining))
      (publishIntent contentHash id index (manifestIntent contentHash (.write path expected content)))
      fun _ => Publishing contentHash origin command id remaining := by
  have stable : StableAt path (some (.file content)) (Publishing contentHash origin command id
      ((.write path expected content, index) :: remaining)) :=
    stableAt_publishing accepted listed (by simp [BatchPathIntent.pageAfter])
  have post : ∀ (_ : Unit) machine, (Publishing contentHash origin command id
          ((.write path expected content, index) :: remaining) machine
        ∧ machine.disk.pages.nodeAt path = some (.file content)) →
      Publishing contentHash origin command id remaining machine := by
    intro _ machine both
    apply both.1.finish
    constructor
    · simpa [BatchPathIntent.pageAfter] using both.2
    · intro change isItem
      cases isItem
  cases expected with
  | missing | bytes =>
    apply keeps_withRead underway injective mayFail
    exact keeps_mono (keeps_publishFileState underway injective mayFail stable)
      (fun _ pre => pre) post

omit injective in
theorem keeps_publishDelete {path : VaultPath} {expected : Bytes}
    (listed : (.delete path expected, index) ∈ command.intents.zipIdx) :
    Keeps permits invariant
      (Publishing contentHash origin command id ((.delete path expected, index) :: remaining))
      (publishIntent contentHash id index (manifestIntent contentHash (.delete path expected)))
      fun _ => Publishing contentHash origin command id remaining := by
  apply keeps_mono (keeps_removeIfHash underway
    (stableAt_publishing accepted listed (by simp [BatchPathIntent.pageAfter]))
    fun _ _ => .inl mayFail) (fun _ pre => pre)
  intro _ machine both
  apply both.1.finish
  constructor
  · simpa [BatchPathIntent.pageAfter] using both.2
  · intro change isItem
    cases isItem

theorem keeps_publishMove {source destination : VaultPath} {expectedSource : Bytes}
    (listed : (.move source destination expectedSource, index) ∈ command.intents.zipIdx) :
    Keeps permits invariant (Publishing contentHash origin command id
        ((.move source destination expectedSource, index) :: remaining))
      (publishIntent contentHash id index
        (manifestIntent contentHash (.move source destination expectedSource)))
      fun _ => Publishing contentHash origin command id remaining := by
  have ⟨existed, missing, _⟩ := accepted.observed _ (Accepted.mem_intents listed)
  have different : destination ≠ source := by
    intro same
    rw [← same, missing] at existed
    cases existed
  apply keeps_withRead underway injective mayFail
  apply keeps_andThen (keeps_publishFileState underway injective mayFail
    (stableAt_publishing accepted listed (by simp [BatchPathIntent.pageAfter])))
  intro _
  apply keeps_mono (keeps_removeIfHash (fun machine both => underway machine both.1)
    ((stableAt_publishing accepted listed (by simp [BatchPathIntent.pageAfter])).and_page different)
    fun _ _ => .inl mayFail) (fun _ pre => pre)
  intro _ machine both
  apply both.1.1.finish
  constructor
  · simpa [BatchPathIntent.pageAfter] using ⟨both.1.2, both.2⟩
  · intro change isItem
    cases isItem

theorem keeps_publishArchive {path : VaultPath} {expectedSource : Bytes}
    {itemManifest : RubbishManifest}
    (listed : (.archivePage path expectedSource itemManifest, index) ∈ command.intents.zipIdx) :
    Keeps permits invariant (Publishing contentHash origin command id
        ((.archivePage path expectedSource itemManifest, index) :: remaining))
      (publishIntent contentHash id index
        (manifestIntent contentHash (.archivePage path expectedSource itemManifest)))
      fun _ => Publishing contentHash origin command id remaining := by
  have stable : ∀ (machine : Machine) (disk : Disk), Publishing contentHash origin command id
      ((.archivePage path expectedSource itemManifest, index) :: remaining) machine →
      installItem id (.staged index) itemManifest.itemId machine.disk = .ok disk →
      Publishing contentHash origin command id
        ((.archivePage path expectedSource itemManifest, index) :: remaining)
        { machine with disk := disk } := by
    intro machine disk publishing moved
    have undone := stable_install accepted listed rfl machine disk publishing.inStep.undoable moved
    have ⟨_, _, _, pages, rubbish, _⟩ := installItem_ok moved
    apply publishing.moveItem accepted listed rfl undone pages
    intro other isOther
    rw [rubbish, update_of_ne isOther]
  have applies : Keeps permits invariant (Publishing contentHash origin command id
        ((.archivePage path expectedSource itemManifest, index) :: remaining))
      (do
        publishTransactionItem "publish archive" id ⟨itemManifest, expectedSource⟩ (.staged index)
        removeIfHash contentHash path (contentHash expectedSource))
      fun _ => Publishing contentHash origin command id remaining := by
    apply keeps_andThen (keeps_publishTransactionItem underway stable fun _ _ => .inl mayFail)
    intro _
    apply keeps_mono (keeps_removeIfHash (fun machine both => underway machine both.1)
      (stableAt_publishing accepted listed (by simp [BatchPathIntent.pageAfter])).and_rubbish
      fun _ _ => .inl mayFail) (fun _ pre => pre)
    intro _ machine both
    apply both.1.1.finish
    constructor
    · simpa [BatchPathIntent.pageAfter] using both.2
    · intro change isItem
      cases isItem
      exact both.1.2
  unfold publishIntent manifestIntent
  simp only
  apply keeps_branch
  intro machine publishing
  split
  · rename_i bytes _
    split_ifs with hashes
    · rw [injective hashes]
      exact keeps_at applies publishing
    · exact keeps_refuse underway publishing mayFail
  · exact keeps_refuse underway publishing mayFail

theorem keeps_publishRestore {destination : VaultPath} {item : RubbishItem}
    (listed : (.restorePage destination item, index) ∈ command.intents.zipIdx) :
    Keeps permits invariant
      (Publishing contentHash origin command id ((.restorePage destination item, index) :: remaining))
      (publishIntent contentHash id index
        (manifestIntent contentHash (.restorePage destination item)))
      fun _ => Publishing contentHash origin command id remaining := by
  have stable : ∀ (machine : Machine) (disk : Disk), (Publishing contentHash origin command id
          ((.restorePage destination item, index) :: remaining) machine
        ∧ machine.disk.pages.nodeAt destination = some (.file item.bytes)) →
      withdrawItem id (.rollback index) item.manifest.itemId machine.disk = .ok disk →
      Publishing contentHash origin command id
          ((.restorePage destination item, index) :: remaining) { machine with disk := disk }
        ∧ disk.pages.nodeAt destination = some (.file item.bytes) := by
    intro machine disk both moved
    have undone := stable_withdraw accepted listed rfl machine disk both.1.inStep.undoable moved
    have ⟨_, _, _, pages, rubbish, _⟩ := withdrawItem_ok moved
    refine ⟨both.1.moveItem accepted listed rfl undone pages ?_, ?_⟩
    · intro other isOther
      rw [rubbish, update_of_ne isOther]
    · rw [pages]
      exact both.2
  apply keeps_withRead underway injective mayFail
  apply keeps_andThen (keeps_publishFileState underway injective mayFail
    (stableAt_publishing accepted listed (by simp [BatchPathIntent.pageAfter])))
  intro _
  apply keeps_mono (keeps_withdrawTransactionItem (fun machine both => underway machine both.1)
    stable fun _ _ => .inl mayFail) (fun _ pre => pre)
  intro _ machine both
  apply both.1.1.finish
  constructor
  · simpa [BatchPathIntent.pageAfter] using both.1.2
  · intro change isItem
    cases isItem
    exact both.2

theorem keeps_publishIntent {entry : BatchPathIntent × Nat}
    (listed : entry ∈ command.intents.zipIdx) :
    Keeps permits invariant (Publishing contentHash origin command id (entry :: remaining))
      (publishIntent contentHash id entry.2 (manifestIntent contentHash entry.1))
      fun _ => Publishing contentHash origin command id remaining := by
  have ⟨intent, index⟩ := entry
  cases intent with
  | write path expected content =>
    exact keeps_publishWrite injective mayFail accepted underway listed
  | move source destination expectedSource =>
    exact keeps_publishMove injective mayFail accepted underway listed
  | delete path expected => exact keeps_publishDelete mayFail accepted underway listed
  | archivePage path expectedSource itemManifest =>
    exact keeps_publishArchive injective mayFail accepted underway listed
  | restorePage destination item =>
    exact keeps_publishRestore injective mayFail accepted underway listed

end Kinds

end Clepsydra.Mutate
