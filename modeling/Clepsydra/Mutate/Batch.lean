import Clepsydra.Mutate.Disk

/-!
Owns: batch mutations as the transaction code runs them.

Does not own: BLAKE3, the parameter `contentHash`; the order in which a removal deletes entries, a
parameter; and the index. A failed read leaves what a failure of the step it guards leaves.
-/

namespace Clepsydra.Mutate

open Library Library.Faulty Vault

/-! ### Commands -/

inductive ExpectedPathState where
  | missing
  | bytes (content : Bytes)
deriving DecidableEq

inductive BatchPathIntent where
  | write (path : VaultPath) (expected : ExpectedPathState) (content : Bytes)
  | move (source destination : VaultPath) (expectedSource : Bytes)
  | delete (path : VaultPath) (expected : Bytes)
  | archivePage (path : VaultPath) (expectedSource : Bytes) (manifest : RubbishManifest)
  | restorePage (destination : VaultPath) (item : RubbishItem)
deriving DecidableEq

structure BatchMutationCommand where
  intents : List BatchPathIntent
  createDirectories : List VaultPath
  removeDirectories : List VaultPath
  indexEvents : List ChangeEvent
  movedPages : List (VaultPath × VaultPath)

def BatchPathIntent.isRubbishLifecycle : BatchPathIntent → Bool
  | .archivePage _ _ _ => true
  | .restorePage _ _ => true
  | _ => false

def BatchMutationCommand.containsRubbishLifecycle (command : BatchMutationCommand) : Bool :=
  command.intents.any BatchPathIntent.isRubbishLifecycle

/-! ### Validation -/

structure Seen where
  finalDestinations : List VaultPath
  sources : List VaultPath
  finalRubbishItems : List Uuid
  sourceRubbishItems : List Uuid

def Seen.none : Seen := ⟨[], [], [], []⟩

def Seen.addDestination (seen : Seen) (destination : VaultPath) :
    Except IntentValidationError Seen :=
  if destination ∈ seen.finalDestinations then .error (.duplicateFinalDestination destination)
  else .ok { seen with finalDestinations := destination :: seen.finalDestinations }

def Seen.addSource (seen : Seen) (source : VaultPath) : Except IntentValidationError Seen :=
  if source ∈ seen.sources then .error (.conflictingSource source)
  else .ok { seen with sources := source :: seen.sources }

def Seen.addFinalItem (seen : Seen) (item : Uuid) : Except IntentValidationError Seen :=
  if item ∈ seen.finalRubbishItems then .error (.duplicateFinalItem item)
  else .ok { seen with finalRubbishItems := item :: seen.finalRubbishItems }

def Seen.addSourceItem (seen : Seen) (item : Uuid) : Except IntentValidationError Seen :=
  if item ∈ seen.sourceRubbishItems then .error (.conflictingSourceItem item)
  else .ok { seen with sourceRubbishItems := item :: seen.sourceRubbishItems }

def checkManifest (manifest : RubbishManifest) (path : VaultPath) :
    Except IntentValidationError Unit :=
  match manifest.validate with
  | .error failure => .error (.invalidManifest failure)
  | .ok () =>
    if manifest.originalPath ≠ path then .error (.originalPathMismatch manifest.originalPath path)
    else .ok ()

def checkIntent (seen : Seen) : BatchPathIntent → Except IntentValidationError Seen
  | .write path _ _ => do (← seen.addDestination path).addSource path
  | .move source destination _ =>
    if source = destination then .error (.unchangedMove source)
    else do (← seen.addDestination destination).addSource source
  | .delete path _ => seen.addSource path
  | .archivePage path _ manifest => do
      checkManifest manifest path
      (← seen.addFinalItem manifest.itemId).addSource path
  | .restorePage destination item => do
      checkManifest item.manifest destination
      (← seen.addSourceItem item.manifest.itemId).addDestination destination

def checkIntents (seen : Seen) : List BatchPathIntent → Except IntentValidationError Seen
  | [] => .ok seen
  | intent :: rest => do checkIntents (← checkIntent seen intent) rest

/-- `validate_intents`. -/
def validateIntents (intents : List BatchPathIntent) : Except IntentValidationError Unit :=
  if intents = [] then .error .emptyCommand
  else do
    let seen ← checkIntents Seen.none intents
    match seen.finalRubbishItems.find? (· ∈ seen.sourceRubbishItems) with
    | some item => .error (.conflictingSourceItem item)
    | none => .ok ()

variable (contentHash : Bytes → Hash)

/-- `read_optional`. -/
def readOptional (pages : Tree) (path : VaultPath) : Except BatchMutationError (Option Bytes) :=
  match pages.readFile path with
  | .ok content => .ok (some content)
  | .error .notFound => .ok none
  | .error source => .error (.filesystem "read file" (.page path) source)

/-- `observed_hash`. -/
def observedHash (pages : Tree) (path : VaultPath) : Except BatchMutationError (Option Hash) :=
  (readOptional pages path).map fun content => content.map contentHash

def checkCreate (disk : Disk) (path : VaultPath) : Except BatchMutationError Unit :=
  match disk.pages.tryExists path with
  | .ok false => .ok ()
  | .ok true => .error (.stale path)
  | .error source => .error (.filesystem "inspect path" (.page path) source)

def checkRemove (disk : Disk) (path : VaultPath) : Except BatchMutationError Unit :=
  if disk.pages.isDir path then .ok () else .error (.stale path)

def storeError (operation : String) (item : Uuid) {α : Type} :
    Except RubbishStoreError α → Except BatchMutationError α
  | .ok value => .ok value
  | .error source => .error (.rubbish operation item source)

def checkObserved (disk : Disk) : BatchPathIntent → Except BatchMutationError Unit
  | .write path expected _ => do
      match ← readOptional disk.pages path, expected with
      | none, .missing => .ok ()
      | some observed, .bytes content => if observed = content then .ok () else .error (.stale path)
      | _, _ => .error (.stale path)
  | .move source destination expectedSource => do
      if (← readOptional disk.pages source) ≠ some expectedSource then .error (.stale source)
      else if (← readOptional disk.pages destination) ≠ none then .error (.stale destination)
      else .ok ()
  | .delete path expected => do
      if (← readOptional disk.pages path) ≠ some expected then .error (.stale path) else .ok ()
  | .archivePage path expectedSource manifest => do
      match ← readOptional disk.pages path with
      | none => .error (.pageNotFound path)
      | some observed =>
        if observed ≠ expectedSource then .error (.pageBytesChanged path)
        else
          match ← storeError "preflight archive" manifest.itemId
              (readItemIfExists (disk.rubbish manifest.itemId) manifest.itemId) with
          | some _ => .error (.rubbishItemExists manifest.itemId)
          | none => .ok ()
  | .restorePage destination item => do
      if (← readOptional disk.pages destination) ≠ none then
        .error (.restoreDestinationOccupied destination)
      else
        match ← storeError "preflight restore" item.manifest.itemId
            (readItemIfExists (disk.rubbish item.manifest.itemId) item.manifest.itemId) with
        | none => .error (.rubbishItemNotFound item.manifest.itemId)
        | some observed =>
          if observed = item then .ok () else .error (.rubbishItemChanged item.manifest.itemId)

def checkAll {β : Type} (check : β → Except BatchMutationError Unit) :
    List β → Except BatchMutationError Unit
  | [] => .ok ()
  | item :: rest => do
      check item
      checkAll check rest

/-- `validate_observed_state`. -/
def validateObservedState (disk : Disk) (command : BatchMutationCommand) :
    Except BatchMutationError Unit := do
  checkAll (checkCreate disk) command.createDirectories
  checkAll (checkRemove disk) command.removeDirectories
  checkAll (checkObserved disk) command.intents

def validateCommand (command : BatchMutationCommand) : Except BatchMutationError Unit :=
  if command.intents ≠ [] ∨ (command.createDirectories = [] ∧ command.removeDirectories = []) then
    match validateIntents command.intents with
    | .ok () => .ok ()
    | .error failure => .error (.validation failure)
  else .ok ()

/-- The checks `prepare` makes before it writes anything. -/
def validate (disk : Disk) (command : BatchMutationCommand) : Except BatchMutationError Unit := do
  validateCommand command
  validateObservedState disk command

/-! ### Preparation -/

def manifestIntent : BatchPathIntent → ManifestIntent
  | .write path .missing content => .write path none (contentHash content)
  | .write path (.bytes expected) content =>
    .write path (some (contentHash expected)) (contentHash content)
  | .move source destination expectedSource =>
    .move source destination (contentHash expectedSource) true
  | .delete path expected => .delete path (contentHash expected)
  | .archivePage path expectedSource manifest =>
    .archivePage path (contentHash expectedSource) manifest
  | .restorePage destination item => .restorePage destination (contentHash item.bytes) item.manifest

def preparedManifest (command : BatchMutationCommand) : TransactionManifest where
  phase := .prepared
  createDirectories := command.createDirectories
  createdDirectories := []
  removeDirectories := command.removeDirectories
  intents := command.intents.map (manifestIntent contentHash)
  indexEvents := command.indexEvents
  movedPages := command.movedPages

def writeFailure (slot : Slot) : IoError → BatchMutationError :=
  .filesystem "create workspace file" (.entry slot)

/-- `write_synced_file` in the transaction directory. -/
def writeEntry (id : Uuid) (slot : Slot) (content : Bytes) : Batch Unit :=
  perform (writeFailure slot) (createEntry id slot (.file content))

def ItemNode.withPage (content : Bytes) : ItemNode → ItemNode
  | .directory manifest _ => .directory manifest (some content)
  | node => node

def ItemNode.withManifest (manifest : RubbishManifest) : ItemNode → ItemNode
  | .directory _ page => .directory (some (.ok manifest)) page
  | node => node

def stageIntent (id : Uuid) (index : Nat) : BatchPathIntent → Batch Unit
  | .write _ expected content => do
      writeEntry id (.staged index) content
      match expected with
      | .missing => writeEntry id (.rollback index) []
      | .bytes bytes => writeEntry id (.rollback index) bytes
  | .move _ _ expectedSource => do
      writeEntry id (.staged index) expectedSource
      writeEntry id (.rollback index) expectedSource
  | .delete _ expected => do
      writeEntry id (.staged index) []
      writeEntry id (.rollback index) expected
  | .archivePage _ expectedSource manifest => do
      perform (.filesystem "create directory" (.entry (.staged index)))
        (createEntry id (.staged index) (.directory none none))
      perform (writeFailure (.staged index))
        (fillEntry id (.staged index) (ItemNode.withPage expectedSource))
      perform (writeFailure (.staged index))
        (fillEntry id (.staged index) (ItemNode.withManifest manifest))
      writeEntry id (.rollback index) expectedSource
  | .restorePage _ item => writeEntry id (.staged index) item.bytes

def manifestFailure : IoError → BatchMutationError := .publication .manifest

def publishManifest (id : Uuid) (manifest : TransactionManifest) : Batch Unit := Program.step
    (fun machine =>
      match putManifest id manifest machine.disk with
      | .ok disk => (.ok (), ⟨disk, ⟨manifest, false⟩⟩)
      | .error source => (.error (manifestFailure source), machine))
    (fun applied machine =>
      (manifestFailure .device,
        if applied then machine.apply (putManifest id manifest) else machine))

/-- What `prepare` does once the transaction directory exists. -/
def fillWorkspace (id : Uuid) (command : BatchMutationCommand) : Batch Unit := do
  Program.forEach
    (fun index => perform (.filesystem "create directory" (.created index)) (createCreated id index))
    (List.range command.createDirectories.length)
  Program.forEach (fun (entry : BatchPathIntent × Nat) => stageIntent id entry.2 entry.1)
    command.intents.zipIdx
  publishManifest id (preparedManifest contentHash command)

/-- `prepare`, with a new transaction identifier and a way to remove its directory. -/
def prepare (id : Uuid) (remove : Batch Unit) (command : BatchMutationCommand) : Batch Unit :=
  Program.branch fun machine =>
    match validate machine.disk command with
    | .error failure => Program.fail failure
    | .ok () => do
        perform (.filesystem "create directory" .directory) (createTransaction id)
        match ← Program.attempt (fillWorkspace contentHash id command) with
        | .ok () => Program.done ()
        | .error failure => do
            match ← Program.attempt remove with
            | .ok () => Program.fail failure
            | .error cleanup =>
              Program.branch fun machine =>
                Program.fail
                  (.preparationCleanup (machine.disk.workspace id).isSome failure cleanup)

/-! ### Reading and changing one page -/

/-- `read_verified`. -/
def readVerified (disk : Disk) (id : Uuid) (slot : Slot) (expected : Hash) :
    Except BatchMutationError Bytes :=
  match disk.entry id slot with
  | none => .error (.filesystem "read workspace file" (.entry slot) .notFound)
  | some (.directory _ _) => .error (.filesystem "read workspace file" (.entry slot) .isDirectory)
  | some (.file content) =>
    if contentHash content = expected then .ok content else .error (.corruptWorkspace (.entry slot))

def withVerified (id : Uuid) (slot : Slot) (expected : Hash) (next : Bytes → Batch Unit) :
    Batch Unit :=
  Program.branch fun machine =>
    match readVerified contentHash machine.disk id slot expected with
    | .error failure => Program.fail failure
    | .ok content => next content

def withObserved (path : VaultPath) (next : Option Hash → Batch Unit) : Batch Unit :=
  Program.branch fun machine =>
    match observedHash contentHash machine.disk.pages path with
    | .error failure => Program.fail failure
    | .ok observed => next observed

def createPage (path : VaultPath) (content : Bytes) : Batch Unit :=
  perform (.publication (.page path)) (onPages fun pages => pages.create path (.file content))

def replacePage (path : VaultPath) (content : Bytes) : Batch Unit :=
  perform (.publication (.page path)) (onPages fun pages => pages.replace path content)

/-- `remove_file_durable`. -/
def removePage (path : VaultPath) : Batch Unit :=
  perform (.filesystem "remove file" (.page path)) (onPages fun pages => pages.removeFile path)

def publishFileState (path : VaultPath) (beforeHash : Option Hash) (afterHash : Hash)
    (content : Bytes) : Batch Unit :=
  withObserved contentHash path fun observed =>
    if observed = some afterHash then Program.done ()
    else if observed ≠ beforeHash then Program.fail (.recoveryConflict path)
    else
      match beforeHash with
      | some _ => replacePage path content
      | none => createPage path content

def restoreFileState (path : VaultPath) (beforeHash afterHash : Hash) (content : Bytes) :
    Batch Unit :=
  withObserved contentHash path fun observed =>
    if observed = some beforeHash then Program.done ()
    else if observed = some afterHash then replacePage path content
    else Program.fail (.recoveryConflict path)

def expectMissingOr (path : VaultPath) (hash : Hash) (missing present : Batch Unit) : Batch Unit :=
  withObserved contentHash path fun observed =>
    match observed with
    | none => missing
    | some found => if found = hash then present else Program.fail (.recoveryConflict path)

def preflightRestoreMissingFile (path : VaultPath) (beforeHash : Hash) : Batch Unit :=
  expectMissingOr contentHash path beforeHash (Program.done ()) (Program.done ())

def restoreMissingFile (path : VaultPath) (beforeHash : Hash) (content : Bytes) : Batch Unit :=
  expectMissingOr contentHash path beforeHash (createPage path content) (Program.done ())

def preflightRemoveAfterState (path : VaultPath) (afterHash : Hash) : Batch Unit :=
  expectMissingOr contentHash path afterHash (Program.done ()) (Program.done ())

def removeAfterState (path : VaultPath) (afterHash : Hash) : Batch Unit :=
  expectMissingOr contentHash path afterHash (Program.done ()) (removePage path)

def removeIfHash (path : VaultPath) (expectedHash : Hash) : Batch Unit :=
  expectMissingOr contentHash path expectedHash (Program.done ()) (removePage path)

/-! ### Rubbish items of a transaction -/

/-- `publish_transaction_item`. -/
def publishTransactionItem (operation : String) (id : Uuid) (expected : RubbishItem) (slot : Slot) :
    Batch Unit :=
  let item := expected.manifest.itemId
  let failure := fun source => BatchMutationError.rubbish operation item source
  Program.branch fun machine =>
    match machine.disk.rubbish item, machine.disk.entry id slot with
    | some _, some _ => Program.fail (failure (.itemStateConflict item))
    | some node, none =>
      match readItemDirectory node item with
      | .error source => Program.fail (failure source)
      | .ok found =>
        if found = expected then Program.done ()
        else Program.fail (failure (.itemStateConflict item))
    | none, none =>
      Program.fail (failure (.filesystem "inspect transaction rubbish directory" .notFound))
    | none, some node =>
      match readItemDirectory node item with
      | .error source => Program.fail (failure source)
      | .ok found =>
        if found = expected then
          perform (fun source => failure (if source = .alreadyExists then .itemAlreadyExists item
                else .filesystem "publish transaction rubbish item" source))
            (installItem id slot item)
        else Program.fail (failure (.itemStateConflict item))

/-- `withdraw_transaction_item`. -/
def withdrawTransactionItem (operation : String) (id : Uuid) (expected : RubbishItem)
    (slot : Slot) : Batch Unit :=
  let item := expected.manifest.itemId
  let failure := fun source => BatchMutationError.rubbish operation item source
  Program.branch fun machine =>
    match readItemIfExists (machine.disk.rubbish item) item with
    | .error source => Program.fail (failure source)
    | .ok finalItem =>
      match readItemIfExists (machine.disk.entry id slot) item with
      | .error source => Program.fail (failure source)
      | .ok transactionItem =>
        match finalItem, transactionItem with
        | some found, none =>
          if found = expected then
            perform (fun source => failure (.filesystem "withdraw transaction rubbish item" source))
              (withdrawItem id slot item)
          else Program.fail (failure (.itemStateConflict item))
        | none, some found =>
          if found = expected then Program.done ()
          else Program.fail (failure (.itemStateConflict item))
        | _, _ => Program.fail (failure (.itemStateConflict item))

/-! ### Publication -/

def destinationNotMissing : BatchMutationError :=
  .invalidManifest "move destination was not recorded as missing"

/-- `publish_intent`. -/
def publishIntent (id : Uuid) (index : Nat) : ManifestIntent → Batch Unit
  | .write path beforeHash afterHash =>
    withVerified contentHash id (.staged index) afterHash fun content =>
      publishFileState contentHash path beforeHash afterHash content
  | .move source destination sourceHash destinationWasMissing =>
    if destinationWasMissing then
      withVerified contentHash id (.staged index) sourceHash fun content => do
        publishFileState contentHash destination none sourceHash content
        removeIfHash contentHash source sourceHash
    else Program.fail destinationNotMissing
  | .delete path beforeHash => removeIfHash contentHash path beforeHash
  | .archivePage path pageHash manifest =>
    -- The staged page stands in the item directory, or has already left with it.
    Program.branch fun machine =>
      match machine.disk.entry id (.staged index) with
      | some (.directory _ (some bytes)) =>
        if contentHash bytes = pageHash then do
          publishTransactionItem "publish archive" id ⟨manifest, bytes⟩ (.staged index)
          removeIfHash contentHash path pageHash
        else Program.fail (.corruptWorkspace (.entry (.staged index)))
      | _ =>
        Program.fail (.filesystem "read workspace file" (.entry (.staged index)) .notFound)
  | .restorePage destination pageHash manifest =>
    withVerified contentHash id (.staged index) pageHash fun bytes => do
      publishFileState contentHash destination none pageHash bytes
      withdrawTransactionItem "publish restore" id ⟨manifest, bytes⟩ (.rollback index)

/-- `change_phase`: a failure after the write leaves the process uncertain. -/
def changePhase (id : Uuid) (phase : TransactionPhase) : Batch Unit := Program.step (fun machine =>
      let next := { machine.prepared.manifest with phase := phase }
      match putManifest id next machine.disk with
      | .ok disk => (.ok (), ⟨disk, ⟨next, false⟩⟩)
      | .error source => (.error (manifestFailure source), machine))
    (fun applied machine =>
      let next := { machine.prepared.manifest with phase := phase }
      (manifestFailure .device,
        if applied then
          match putManifest id next machine.disk with
          | .ok disk => ⟨disk, ⟨next, true⟩⟩
          | .error _ => machine
        else machine))

def recordCreated (id : Uuid) (path : VaultPath) : Batch Unit :=
  let pushed := fun (machine : Machine) =>
    { machine.prepared.manifest with
      createdDirectories := machine.prepared.manifest.createdDirectories ++ [path] }
  let remembered := fun (machine : Machine) =>
    { machine with prepared := { machine.prepared with manifest := pushed machine } }
  Program.step (fun machine =>
      match putManifest id (pushed machine) machine.disk with
      | .ok disk => (.ok (), { remembered machine with disk := disk })
      | .error source => (.error (manifestFailure source), remembered machine))
    (fun applied machine =>
      (manifestFailure .device,
        if applied then (remembered machine).apply (putManifest id (pushed machine))
        else remembered machine))

def publishDirectory (id : Uuid) (entry : VaultPath × Nat) : Batch Unit := do
  Program.branch fun machine =>
    if entry.1 ∈ machine.prepared.manifest.createdDirectories then Program.done ()
    else recordCreated id entry.1
  Program.branch fun machine =>
    match machine.disk.workspace id with
    | some workspace =>
      if workspace.created entry.2 then
        perform (.filesystem "publish prepared directory" (.page entry.1))
          (installCreated id entry.2 entry.1)
      else Program.done ()
    | none => Program.done ()

/-- `remove_empty_synced_directory`. -/
def removeEmptySyncedDirectory (path : VaultPath) : Batch Unit := Program.branch fun machine =>
    match machine.disk.pages.removeDir path with
    | .error .notFound => Program.done ()
    | _ =>
      perform (.filesystem "remove empty directory" (.page path))
        (onPages fun pages => pages.removeDir path)

def ensurePhaseCertain : Batch Unit := Program.branch fun machine =>
    if machine.prepared.phaseUncertain then Program.fail .uncertainPhase else Program.done ()

/-- `PreparedBatch::publish`. -/
def publish (id : Uuid) : Batch Unit := do
  ensurePhaseCertain
  Program.branch fun machine =>
    match machine.prepared.manifest.phase with
    | .prepared => changePhase id .committing
    | .committing => Program.done ()
    | phase => Program.fail (.invalidPhase "prepared or committing" phase)
  Program.branch fun machine =>
    Program.forEach (publishDirectory id) machine.prepared.manifest.createDirectories.zipIdx
  Program.branch fun machine =>
    Program.forEach
      (fun (entry : ManifestIntent × Nat) => publishIntent contentHash id entry.2 entry.1)
      machine.prepared.manifest.intents.zipIdx
  Program.branch fun machine =>
    Program.forEach removeEmptySyncedDirectory machine.prepared.manifest.removeDirectories.reverse

/-- `mark_filesystem_committed`. -/
def markFilesystemCommitted (id : Uuid) : Batch Unit := do
  ensurePhaseCertain
  Program.branch fun machine =>
    if machine.prepared.manifest.phase = .committing then changePhase id .filesystemCommitted
    else Program.fail (.invalidPhase "committing" machine.prepared.manifest.phase)

/-! ### Rollback -/

def restoreDirectory (path : VaultPath) : Batch Unit := Program.branch fun machine =>
    if machine.disk.pages.isPresent path then
      if machine.disk.pages.isDir path then Program.done () else Program.fail (.stale path)
    else
      perform (.filesystem "create directory" (.page path))
        (onPages fun pages => pages.create path .folder)

def rollbackIntent (id : Uuid) (index : Nat) : ManifestIntent → Batch Unit
  | .write path (some beforeHash) afterHash =>
    withVerified contentHash id (.rollback index) beforeHash fun content =>
      restoreFileState contentHash path beforeHash afterHash content
  | .write path none afterHash => removeAfterState contentHash path afterHash
  | .move source destination sourceHash destinationWasMissing =>
    if destinationWasMissing then
      withVerified contentHash id (.rollback index) sourceHash fun content => do
        preflightRestoreMissingFile contentHash source sourceHash
        preflightRemoveAfterState contentHash destination sourceHash
        restoreMissingFile contentHash source sourceHash content
        removeAfterState contentHash destination sourceHash
    else Program.fail destinationNotMissing
  | .delete path beforeHash =>
    withVerified contentHash id (.rollback index) beforeHash fun content =>
      restoreMissingFile contentHash path beforeHash content
  | .archivePage path pageHash manifest =>
    withVerified contentHash id (.rollback index) pageHash fun bytes => do
      preflightRestoreMissingFile contentHash path pageHash
      withdrawTransactionItem "rollback archive" id ⟨manifest, bytes⟩ (.staged index)
      restoreMissingFile contentHash path pageHash bytes
  | .restorePage destination pageHash manifest =>
    withVerified contentHash id (.staged index) pageHash fun bytes => do
      preflightRemoveAfterState contentHash destination pageHash
      publishTransactionItem "rollback restore" id ⟨manifest, bytes⟩ (.rollback index)
      removeAfterState contentHash destination pageHash

/-- Removes a directory the transaction published, unless its staged one is there or it is gone. -/
def withdrawDirectory (id : Uuid) (createDirectories : List VaultPath) (path : VaultPath) :
    Batch Unit :=
  match createDirectories.findIdx? (· = path) with
  | none => Program.done ()
  | some index =>
    Program.branch fun machine =>
      if (machine.disk.workspace id).any fun workspace => workspace.created index then
        Program.done ()
      else
        match machine.disk.pages.removeDir path with
        | .error .notFound => Program.done ()
        | _ =>
          perform (.filesystem "remove prepared directory" (.page path))
            (onPages fun pages => pages.removeDir path)

/-- `rollback_manifest`. -/
def rollbackManifest (id : Uuid) (manifest : TransactionManifest) : Batch Unit := do
  Program.forEach restoreDirectory manifest.removeDirectories
  Program.forEach
    (fun (entry : ManifestIntent × Nat) => rollbackIntent contentHash id entry.2 entry.1)
    manifest.intents.zipIdx.reverse
  Program.forEach (withdrawDirectory id manifest.createDirectories)
    manifest.createdDirectories.reverse

/-- `PreparedBatch::rollback`. -/
def rollback (id : Uuid) (remove : Batch Unit) : Batch Unit := do
  ensurePhaseCertain
  Program.branch fun machine =>
    match machine.prepared.manifest.phase with
    | .prepared => Program.done ()
    | .committing => rollbackManifest contentHash id machine.prepared.manifest
    | phase => Program.fail (.invalidPhase "prepared or committing" phase)
  remove

/-- `PreparedBatch::finish`. -/
def finish (remove : Batch Unit) : Batch Unit := do
  ensurePhaseCertain
  Program.branch fun machine =>
    if machine.prepared.manifest.phase = .filesystemCommitted then remove
    else Program.fail (.invalidPhase "filesystem committed" machine.prepared.manifest.phase)

/-! ### A whole batch -/

/-- `publish_batch`: a failed publication is rolled back. -/
def publishBatch (id : Uuid) (remove : Batch Unit) (command : BatchMutationCommand) :
    Batch Unit := do
  prepare contentHash id remove command
  let publication ← Program.attempt do
    publish contentHash id
    if command.containsRubbishLifecycle then Program.done () else markFilesystemCommitted id
  match publication with
  | .ok () => Program.done ()
  | .error failure => do
      rollback contentHash id remove
      Program.fail failure

/-- `execute_batch_with_guard`; `reindexed` says whether the index took the events. -/
def executeBatch (id : Uuid) (remove : Batch Unit) (command : BatchMutationCommand)
    (reindexed : Bool) : Batch Bool := do
  publishBatch contentHash id remove command
  if reindexed then do
    if command.containsRubbishLifecycle then markFilesystemCommitted id else Program.done ()
    finish remove
  else if command.containsRubbishLifecycle then rollback contentHash id remove
  else Program.done ()
  Program.done reindexed

/-! ### Recovery -/

inductive RubbishCatalogEvent where
  | upsert (manifest : RubbishManifest)
  | remove (item : Uuid)

def ManifestIntent.catalogEvent : ManifestIntent → Option RubbishCatalogEvent
  | .archivePage _ _ manifest => some (.upsert manifest)
  | .restorePage _ _ manifest => some (.remove manifest.itemId)
  | _ => none

structure RecoveredBatch where
  phase : TransactionPhase
  indexEvents : List ChangeEvent
  movedPages : List (VaultPath × VaultPath)
  rubbishCatalogEvents : List RubbishCatalogEvent
  directory : Uuid

def recoverTransaction (removal : Uuid → List WorkName) (id : Uuid) :
    Batch (Option RecoveredBatch) :=
  Program.branch fun machine =>
    match (machine.disk.workspace id).bind Workspace.manifest with
    | none => do
        removeWorkspace id (removal id)
        Program.done none
    | some manifest =>
      match manifest.phase with
      | .prepared => do
          removeWorkspace id (removal id)
          Program.done none
      | .committing => do
          rollbackManifest contentHash id manifest
          removeWorkspace id (removal id)
          Program.done none
      | .filesystemCommitted =>
        Program.done
          (some
            { phase := manifest.phase
              indexEvents := manifest.indexEvents
              movedPages := manifest.movedPages
              rubbishCatalogEvents := manifest.intents.filterMap ManifestIntent.catalogEvent
              directory := id })

def Disk.directories (disk : Disk) : List Uuid :=
  (disk.transactions.rows.map Transaction.id).mergeSort fun left right =>
    decide (left.digits ≤ right.digits)

/-- `recover_pending`. -/
def recoverPending (removal : Uuid → List WorkName) : Batch (List RecoveredBatch) :=
  Program.branch fun machine =>
    Program.collect (recoverTransaction contentHash removal) machine.disk.directories

end Clepsydra.Mutate
