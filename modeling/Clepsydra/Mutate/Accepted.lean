import Clepsydra.Mutate.Batch

/-!
Owns: what the acceptance of a command says about the state it is accepted in, and the state a
command leads to.
-/

namespace Clepsydra.Mutate

open Library Library.Fallible Vault List

/-! ### Effects of an intent -/

def BatchPathIntent.pageAfter : BatchPathIntent → List (VaultPath × Option Node)
  | .write path _ content => [(path, some (.file content))]
  | .move source destination expectedSource =>
    [(destination, some (.file expectedSource)), (source, none)]
  | .delete path _ => [(path, none)]
  | .archivePage path _ _ => [(path, none)]
  | .restorePage destination item => [(destination, some (.file item.bytes))]

def BatchPathIntent.paths (intent : BatchPathIntent) : List VaultPath :=
  intent.pageAfter.map Prod.fst

def BatchPathIntent.itemAfter : BatchPathIntent → Option (Uuid × Option ItemNode)
  | .archivePage _ expectedSource manifest =>
    some (manifest.itemId, some (RubbishItem.toNode ⟨manifest, expectedSource⟩))
  | .restorePage _ item => some (item.manifest.itemId, none)
  | _ => none

def BatchPathIntent.item (intent : BatchPathIntent) : Option Uuid := intent.itemAfter.map Prod.fst

def BatchPathIntent.Observed (disk : Disk) : BatchPathIntent → Prop
  | .write path .missing _ => disk.pages.nodeAt path = none ∧ disk.pages.Open path
  | .write path (.bytes expected) _ => disk.pages.nodeAt path = some (.file expected)
  | .move source destination expectedSource =>
    disk.pages.nodeAt source = some (.file expectedSource)
      ∧ disk.pages.nodeAt destination = none ∧ disk.pages.Open destination
  | .delete path expected => disk.pages.nodeAt path = some (.file expected)
  | .archivePage path expectedSource manifest =>
    disk.pages.nodeAt path = some (.file expectedSource)
      ∧ disk.rubbish manifest.itemId = none ∧ manifest.validate = .ok ()
  | .restorePage destination item =>
    disk.pages.nodeAt destination = none ∧ disk.pages.Open destination
      ∧ disk.rubbish item.manifest.itemId = some item.toNode
      ∧ item.manifest.validate = .ok ()

def BatchPathIntent.Apart (left right : BatchPathIntent) : Prop :=
  ∀ path ∈ left.paths, ∀ other ∈ right.paths,
    path ≠ other ∧ path ∉ other.ancestors ∧ other ∉ path.ancestors

/-- Intents are apart from each other, and no created directory is a path of an intent. -/
structure Planned (command : BatchMutationCommand) : Prop where
  apart : command.intents.Pairwise BatchPathIntent.Apart
  directories : ∀ path ∈ command.createDirectories, ∀ intent ∈ command.intents, path ∉ intent.paths

def Straight (directories : List VaultPath) : Prop :=
  ∀ upper lower : VaultPath, upper ∈ lower.ancestors → ¬[lower, upper, lower].Sublist directories

theorem Straight.sublist {directories part : List VaultPath} (straight : Straight directories)
    (within : part.Sublist directories) : Straight part :=
  fun upper lower above listed => straight upper lower above (listed.trans within)

/-! ### The state after a command -/

def pageAfter (disk : Disk) (command : BatchMutationCommand) (path : VaultPath) : Option Node :=
  if path ∈ command.createDirectories then some .folder
  else if path ∈ command.removeDirectories then none
  else
    match (command.intents.flatMap BatchPathIntent.pageAfter).find? fun change => change.1 = path with
    | some change => change.2
    | none => disk.pages.nodeAt path

def rubbishAfter (disk : Disk) (command : BatchMutationCommand) (item : Uuid) : Option ItemNode :=
  match (command.intents.filterMap BatchPathIntent.itemAfter).find? fun change => change.1 = item with
  | some change => change.2
  | none => disk.rubbish item

/-! ### What validation checks -/

variable {path : VaultPath} {disk : Disk} {seen : Seen}

theorem checkAll_ok {β : Type} {check : β → Except BatchMutationError Unit} {items : List β}
    (checked : checkAll check items = .ok ()) : ∀ item ∈ items, check item = .ok () := by
  induction items with
  | nil => exact fun _ member => absurd member not_mem_nil
  | cons first rest ih =>
    have ⟨_, firstOk, restOk⟩ := of_bind_ok checked
    intro item member
    rcases mem_cons.1 member with isFirst | inRest
    · rw [isFirst]
      exact firstOk
    · exact ih restOk item inRest

theorem nodeAt_of_readOptional {pages : Tree} {content : Bytes}
    (read : readOptional pages path = .ok (some content)) :
    pages.nodeAt path = some (.file content) := by
  unfold readOptional at read
  split at read
  · rename_i found reads
    cases read
    exact Tree.readFile_ok_iff.1 reads
  · cases read
  · cases read

theorem absent_of_readOptional {pages : Tree} (read : readOptional pages path = .ok none) :
    pages.nodeAt path = none ∧ pages.Open path := by
  unfold readOptional at read
  split at read
  · cases read
  · rename_i failed
    exact ⟨Tree.absent_of_readFile failed, Tree.open_of_readFile failed⟩
  · cases read

theorem created_of_checkCreate (checked : checkCreate disk path = .ok ()) :
    disk.pages.nodeAt path = none ∧ disk.pages.Open path := by
  unfold checkCreate at checked
  split at checked
  · rename_i absent
    exact ⟨Tree.absent_of_tryExists absent, Tree.open_of_tryExists absent⟩
  · cases checked
  · cases checked

theorem folder_of_checkRemove (checked : checkRemove disk path = .ok ()) :
    disk.pages.nodeAt path = some .folder := by
  unfold checkRemove at checked
  split_ifs at checked with isFolder
  exact Tree.isDir_iff.1 isFolder

theorem ok_of_storeError {operation : String} {item : Uuid} {α : Type}
    {result : Except RubbishStoreError α} {value : α}
    (read : storeError operation item result = .ok value) : result = .ok value := by
  cases result with
  | error failure => cases read
  | ok found =>
    cases read
    rfl

theorem observed_of_checkObserved {intent : BatchPathIntent}
    (checked : checkObserved disk intent = .ok ())
    (valid : ∀ manifest, (∃ path bytes, intent = .archivePage path bytes manifest)
      ∨ (∃ path bytes, intent = .restorePage path ⟨manifest, bytes⟩) → manifest.validate = .ok ()) :
    intent.Observed disk := by
  cases intent with
  | write path expected content =>
    have ⟨observed, read, rest⟩ := of_bind_ok checked
    cases expected with
    | missing =>
      cases observed with
      | none => exact absent_of_readOptional read
      | some bytes => cases rest
    | bytes wanted =>
      cases observed with
      | none => cases rest
      | some bytes =>
        simp only at rest
        split_ifs at rest with same
        rw [same] at read
        exact nodeAt_of_readOptional read
  | move source destination expectedSource =>
    have ⟨observed, read, rest⟩ := of_bind_ok checked
    split_ifs at rest with stale
    rw [not_not.1 stale] at read
    have ⟨occupied, readDestination, last⟩ := of_bind_ok rest
    split_ifs at last with present
    rw [not_not.1 present] at readDestination
    exact ⟨nodeAt_of_readOptional read, absent_of_readOptional readDestination⟩
  | delete path expected =>
    have ⟨observed, read, rest⟩ := of_bind_ok checked
    split_ifs at rest with stale
    rw [not_not.1 stale] at read
    exact nodeAt_of_readOptional read
  | archivePage path expectedSource manifest =>
    have ⟨observed, read, rest⟩ := of_bind_ok checked
    cases observed with
    | none => cases rest
    | some bytes =>
      simp only at rest
      split_ifs at rest with changed
      rw [not_not.1 changed] at read
      have ⟨found, readItem, last⟩ := of_bind_ok rest
      cases found with
      | some item => cases last
      | none =>
        exact ⟨nodeAt_of_readOptional read, readItemIfExists_none (ok_of_storeError readItem),
          valid manifest (.inl ⟨path, expectedSource, rfl⟩)⟩
  | restorePage destination item =>
    have ⟨occupied, read, rest⟩ := of_bind_ok checked
    split_ifs at rest with present
    rw [not_not.1 present] at read
    have ⟨found, readItem, last⟩ := of_bind_ok rest
    cases found with
    | none => cases last
    | some observed =>
      simp only at last
      split_ifs at last with same
      rw [same] at readItem
      have parts := readItemIfExists_some (ok_of_storeError readItem)
      have missing := absent_of_readOptional read
      exact ⟨missing.1, missing.2, parts.1, parts.2.1⟩

def BatchPathIntent.archived : BatchPathIntent → Option Uuid
  | .archivePage _ _ manifest => some manifest.itemId
  | _ => none

def BatchPathIntent.restored : BatchPathIntent → Option Uuid
  | .restorePage _ item => some item.manifest.itemId
  | _ => none

def BatchPathIntent.ManifestValid : BatchPathIntent → Prop
  | .archivePage _ _ manifest => manifest.validate = .ok ()
  | .restorePage _ item => item.manifest.validate = .ok ()
  | _ => True

theorem valid_of_checkManifest {manifest : RubbishManifest}
    (checked : checkManifest manifest path = .ok ()) : manifest.validate = .ok () := by
  unfold checkManifest at checked
  split at checked
  · cases checked
  · assumption

private theorem addDestination_ok {next : Seen} (added : seen.addDestination path = .ok next) :
    next.finalRubbishItems = seen.finalRubbishItems
      ∧ next.sourceRubbishItems = seen.sourceRubbishItems := by
  unfold Seen.addDestination at added
  split_ifs at added
  cases added
  exact ⟨rfl, rfl⟩

private theorem addSource_ok {next : Seen} (added : seen.addSource path = .ok next) :
    next.finalRubbishItems = seen.finalRubbishItems
      ∧ next.sourceRubbishItems = seen.sourceRubbishItems := by
  unfold Seen.addSource at added
  split_ifs at added
  cases added
  exact ⟨rfl, rfl⟩

theorem checkIntent_ok {next : Seen} {intent : BatchPathIntent}
    (checked : checkIntent seen intent = .ok next) :
    intent.ManifestValid ∧ next.finalRubbishItems = intent.archived.toList ++ seen.finalRubbishItems
      ∧ next.sourceRubbishItems = intent.restored.toList ++ seen.sourceRubbishItems
      ∧ (∀ item, intent.archived = some item → item ∉ seen.finalRubbishItems)
      ∧ ∀ item, intent.restored = some item → item ∉ seen.sourceRubbishItems := by
  cases intent with
  | write path expected content =>
    have ⟨middle, first, second⟩ := of_bind_ok checked
    have firstItems := addDestination_ok first
    have secondItems := addSource_ok second
    refine ⟨trivial, secondItems.1.trans firstItems.1, secondItems.2.trans firstItems.2, ?_, ?_⟩
    · simp [BatchPathIntent.archived]
    · simp [BatchPathIntent.restored]
  | move source destination expectedSource =>
    simp only [checkIntent] at checked
    split_ifs at checked
    have ⟨middle, first, second⟩ := of_bind_ok checked
    have firstItems := addDestination_ok first
    have secondItems := addSource_ok second
    refine ⟨trivial, secondItems.1.trans firstItems.1, secondItems.2.trans firstItems.2, ?_, ?_⟩
    · simp [BatchPathIntent.archived]
    · simp [BatchPathIntent.restored]
  | delete path expected =>
    have items := addSource_ok checked
    refine ⟨trivial, items.1, items.2, ?_, ?_⟩
    · simp [BatchPathIntent.archived]
    · simp [BatchPathIntent.restored]
  | archivePage path expectedSource manifest =>
    have ⟨_, manifestOk, rest⟩ := of_bind_ok checked
    have ⟨middle, first, second⟩ := of_bind_ok rest
    unfold Seen.addFinalItem at first
    split_ifs at first with present
    cases first
    have secondItems := addSource_ok second
    refine ⟨valid_of_checkManifest manifestOk, secondItems.1, secondItems.2, ?_, ?_⟩
    · intro item isItem
      cases isItem
      exact present
    · simp [BatchPathIntent.restored]
  | restorePage destination item =>
    have ⟨_, manifestOk, rest⟩ := of_bind_ok checked
    have ⟨middle, first, second⟩ := of_bind_ok rest
    unfold Seen.addSourceItem at first
    split_ifs at first with present
    cases first
    have secondItems := addDestination_ok second
    refine ⟨valid_of_checkManifest manifestOk, secondItems.1, secondItems.2, ?_, ?_⟩
    · simp [BatchPathIntent.archived]
    · intro other isItem
      cases isItem
      exact present

theorem checkIntents_ok {last : Seen} {intents : List BatchPathIntent}
    (checked : checkIntents seen intents = .ok last) :
    (∀ intent ∈ intents, intent.ManifestValid)
      ∧ (∀ intent ∈ intents, ∀ item, intent.archived = some item → item ∉ seen.finalRubbishItems)
      ∧ (∀ intent ∈ intents, ∀ item, intent.restored = some item → item ∉ seen.sourceRubbishItems)
      ∧ intents.Pairwise fun left right =>
          (∀ item, left.archived = some item → right.archived ≠ some item)
            ∧ ∀ item, left.restored = some item → right.restored ≠ some item := by
  induction intents generalizing seen with
  | nil => exact ⟨by simp, by simp, by simp, .nil⟩
  | cons first rest ih =>
    have ⟨next, firstOk, restOk⟩ := of_bind_ok checked
    have ⟨valid, finals, sources, newFinal, newSource⟩ := checkIntent_ok firstOk
    have ⟨restValid, restFinal, restSource, distinct⟩ := ih restOk
    refine ⟨?_, ?_, ?_, ?_⟩
    · exact forall_mem_cons.2 ⟨valid, restValid⟩
    · refine forall_mem_cons.2 ⟨newFinal, ?_⟩
      intro intent member item isItem seenBefore
      apply restFinal intent member item isItem
      rw [finals]
      exact mem_append_right _ seenBefore
    · refine forall_mem_cons.2 ⟨newSource, ?_⟩
      intro intent member item isItem seenBefore
      apply restSource intent member item isItem
      rw [sources]
      exact mem_append_right _ seenBefore
    · refine pairwise_cons.2 ⟨?_, distinct⟩
      intro other member
      constructor
      · intro item isItem same
        apply restFinal other member item same
        rw [finals, isItem]
        exact mem_append_left _ (by simp)
      · intro item isItem same
        apply restSource other member item same
        rw [sources, isItem]
        exact mem_append_left _ (by simp)

/-! ### Accepted commands -/

variable {command : BatchMutationCommand}

/-- What is known of a planned command that `prepare` accepted. -/
structure Accepted (disk : Disk) (command : BatchMutationCommand) : Prop where
  planned : Planned command
  observed : ∀ intent ∈ command.intents, intent.Observed disk
  create : ∀ path ∈ command.createDirectories, disk.pages.nodeAt path = none ∧ disk.pages.Open path
  remove : ∀ path ∈ command.removeDirectories, disk.pages.nodeAt path = some .folder
  items : command.intents.Pairwise fun left right =>
    ∀ item, left.item = some item → right.item ≠ some item

theorem checkIntents_of_validate (checked : validate disk command = .ok ())
    (some : command.intents ≠ []) :
    ∃ last, checkIntents Seen.none command.intents = .ok last := by
  have ⟨_, intents, _⟩ := of_bind_ok checked
  rw [validateCommand, if_pos (.inl some), validateIntents, if_neg some] at intents
  cases result : checkIntents Seen.none command.intents with
  | error failure => simp [result, bind, Except.bind] at intents
  | ok last => exact ⟨last, rfl⟩

private theorem observedState_of_validate (checked : validate disk command = .ok ()) :
    validateObservedState disk command = .ok () := by
  have ⟨_, _, observed⟩ := of_bind_ok checked
  exact observed

private theorem item_apart {left right : BatchPathIntent} (observedLeft : left.Observed disk)
    (observedRight : right.Observed disk)
    (distinct : (∀ item, left.archived = some item → right.archived ≠ some item)
      ∧ ∀ item, left.restored = some item → right.restored ≠ some item) :
    ∀ item, left.item = some item → right.item ≠ some item := by
  intro item isLeft isRight
  cases left with
  | write | move | delete => cases isLeft
  | archivePage path expectedSource manifest =>
    cases isLeft
    cases right with
    | write | move | delete => cases isRight
    | archivePage otherPath otherSource otherManifest => exact distinct.1 _ rfl isRight
    | restorePage destination restored =>
      have same : restored.manifest.itemId = manifest.itemId := Option.some.inj isRight
      have present := observedRight.2.2.1
      rw [same, observedLeft.2.1] at present
      cases present
  | restorePage destination restored =>
    cases isLeft
    cases right with
    | write | move | delete => cases isRight
    | archivePage otherPath otherSource otherManifest =>
      have same : otherManifest.itemId = restored.manifest.itemId := Option.some.inj isRight
      have absent := observedRight.2.1
      rw [same, observedLeft.2.2.1] at absent
      cases absent
    | restorePage otherDestination otherItem => exact distinct.2 _ rfl isRight

variable (checked : validate disk command = .ok ())

include checked

private theorem intents_of_validate :
    (∀ intent ∈ command.intents, intent.ManifestValid) ∧ command.intents.Pairwise fun left right =>
          (∀ item, left.archived = some item → right.archived ≠ some item)
            ∧ ∀ item, left.restored = some item → right.restored ≠ some item := by
  by_cases none : command.intents = []
  · rw [none]
    exact ⟨by simp, .nil⟩
  · have ⟨last, checkedIntents⟩ := checkIntents_of_validate checked none
    have parts := checkIntents_ok checkedIntents
    exact ⟨parts.1, parts.2.2.2⟩

theorem observed_of_validate :
    ∀ intent ∈ command.intents, intent.Observed disk := by
  have observedState := observedState_of_validate checked
  have ⟨_, _, rest⟩ := of_bind_ok observedState
  have ⟨_, _, intents⟩ := of_bind_ok rest
  intro intent member
  apply observed_of_checkObserved (checkAll_ok intents intent member)
  intro manifest kind
  have valid := (intents_of_validate checked).1 intent member
  rcases kind with ⟨path, bytes, isArchive⟩ | ⟨path, bytes, isRestore⟩
  · rw [isArchive] at valid
    exact valid
  · rw [isRestore] at valid
    exact valid

theorem removed_of_validate :
    ∀ path ∈ command.removeDirectories, disk.pages.nodeAt path = some .folder := by
  have observedState := observedState_of_validate checked
  have ⟨_, _, rest⟩ := of_bind_ok observedState
  have ⟨_, removes, _⟩ := of_bind_ok rest
  exact fun path member => folder_of_checkRemove (checkAll_ok removes path member)

theorem items_of_validate :
    command.intents.Pairwise fun left right =>
      ∀ item, left.item = some item → right.item ≠ some item := by
  have observed := observed_of_validate checked
  apply List.Pairwise.imp_of_mem _ (intents_of_validate checked).2
  intro left right inLeft inRight distinct
  exact item_apart (observed left inLeft) (observed right inRight) distinct

omit checked

theorem accepted_of_validate (planned : Planned command) (checked : validate disk command = .ok ()) :
    Accepted disk command := by
  have observedState := observedState_of_validate checked
  have ⟨_, creates, _⟩ := of_bind_ok observedState
  refine ⟨planned, observed_of_validate checked, ?_, removed_of_validate checked,
    items_of_validate checked⟩
  intro path member
  exact created_of_checkCreate (checkAll_ok creates path member)

namespace Accepted

variable {disk : Disk} {command : BatchMutationCommand} (accepted : Accepted disk command)

include accepted

theorem not_folder {intent : BatchPathIntent} (member : intent ∈ command.intents) {path : VaultPath}
    (isPath : path ∈ intent.paths) :
    disk.pages.nodeAt path ≠ some .folder := by
  have observed := accepted.observed intent member
  intro isFolder
  cases intent with
  | write target expected content =>
    have same : path = target := by simpa [BatchPathIntent.paths, BatchPathIntent.pageAfter] using isPath
    rw [same] at isFolder
    cases expected with
    | missing => rw [observed.1] at isFolder; cases isFolder
    | bytes bytes =>
      have found : disk.pages.nodeAt target = some (.file bytes) := observed
      rw [found] at isFolder
      cases isFolder
  | move source destination expectedSource =>
    have same : path = destination ∨ path = source := by
      simpa [BatchPathIntent.paths, BatchPathIntent.pageAfter] using isPath
    rcases same with isDestination | isSource
    · rw [isDestination, observed.2.1] at isFolder
      cases isFolder
    · rw [isSource, observed.1] at isFolder
      cases isFolder
  | delete target expected =>
    have same : path = target := by simpa [BatchPathIntent.paths, BatchPathIntent.pageAfter] using isPath
    have found : disk.pages.nodeAt target = some (.file expected) := observed
    rw [same, found] at isFolder
    cases isFolder
  | archivePage target expectedSource manifest =>
    have same : path = target := by simpa [BatchPathIntent.paths, BatchPathIntent.pageAfter] using isPath
    rw [same, observed.1] at isFolder
    cases isFolder
  | restorePage destination item =>
    have same : path = destination := by
      simpa [BatchPathIntent.paths, BatchPathIntent.pageAfter] using isPath
    rw [same, observed.1] at isFolder
    cases isFolder

theorem path_not_created {intent : BatchPathIntent} (member : intent ∈ command.intents)
    {path : VaultPath} (isPath : path ∈ intent.paths) :
    path ∉ command.createDirectories :=
  fun created => accepted.planned.directories path created intent member isPath

theorem path_not_removed {intent : BatchPathIntent} (member : intent ∈ command.intents)
    {path : VaultPath} (isPath : path ∈ intent.paths) :
    path ∉ command.removeDirectories :=
  fun removed => accepted.not_folder member isPath (accepted.remove path removed)

theorem entries_apart {left right : BatchPathIntent × Nat} (inLeft : left ∈ command.intents.zipIdx)
    (inRight : right ∈ command.intents.zipIdx) (different : left ≠ right) :
    left.1.Apart right.1 := by
  have apart : command.intents.zipIdx.Pairwise fun first second => first.1.Apart second.1 := by
    rw [← pairwise_map, zipIdx_map_fst]
    exact accepted.planned.apart
  have symmetric : Std.Symm fun first second : BatchPathIntent × Nat => first.1.Apart second.1 := by
    constructor
    intro first second apartFirst path inSecond other inFirst
    have facts := apartFirst other inFirst path inSecond
    exact ⟨facts.1.symm, facts.2.2, facts.2.1⟩
  exact List.Pairwise.forall apart inLeft inRight different

theorem entries_items {left right : BatchPathIntent × Nat} (inLeft : left ∈ command.intents.zipIdx)
    (inRight : right ∈ command.intents.zipIdx) (different : left ≠ right) {item : Uuid}
    (isItem : left.1.item = some item) :
    right.1.item ≠ some item := by
  have apart : command.intents.zipIdx.Pairwise fun first second =>
      ∀ item, first.1.item = some item → second.1.item ≠ some item := by
    rw [← @pairwise_map _ _ Prod.fst (fun first second : BatchPathIntent =>
      ∀ item, first.item = some item → second.item ≠ some item), zipIdx_map_fst]
    exact accepted.items
  have symmetric : Std.Symm fun first second : BatchPathIntent × Nat =>
      ∀ item, first.1.item = some item → second.1.item ≠ some item := by
    constructor
    intro first second distinct item isSecond isFirst
    exact distinct item isFirst isSecond
  exact List.Pairwise.forall apart inLeft inRight different item isItem

omit accepted

theorem mem_intents {entry : BatchPathIntent × Nat} (member : entry ∈ command.intents.zipIdx) :
    entry.1 ∈ command.intents := by
  have mapped : entry.1 ∈ command.intents.zipIdx.map Prod.fst := mem_map_of_mem member
  rwa [zipIdx_map_fst] at mapped

end Accepted

end Clepsydra.Mutate
