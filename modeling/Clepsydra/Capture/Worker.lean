import Clepsydra.Capture.Transfer
import Clepsydra.Library.JsText
import Clepsydra.Library.Transitions

/-!
Owns: the capture worker of the browser extension with its content scripts.

A handler runs up to its next `await` in one step; what follows is a task that runs later, and is
lost when the worker restarts.
-/

namespace Clepsydra.Capture

open Library Library.Transitions

/-! ### Phases -/

inductive CapturePhase where
  | capturing
  | processing
  | uploading
  | done
  | duplicate
  | conflict
  | error
deriving DecidableEq

/-- `isTerminal`. -/
def CapturePhase.isTerminal : CapturePhase → Bool
  | .done | .duplicate | .conflict | .error => true
  | .capturing | .processing | .uploading => false

/-- `describePhase`: the badge's title without the program's name. -/
def describePhase : CapturePhase → String
  | .capturing => "reading the page…"
  | .processing => "building the snapshot…"
  | .uploading => "sending to the vault…"
  | .done => "archived"
  | .duplicate => "already archived"
  | .conflict => "page changed since it was archived"
  | .error => "capture failed"

structure CaptureStatus where
  phase : CapturePhase
  detail : String
  attemptId : Nat
  startedAt : Nat
  updatedAt : Nat
  additionalTags : List String
  chunksReceived : Option Nat
  chunksTotal : Option Nat
  vaultPath : Option String
  pageId : Option String

abbrev Statuses := Nat → Option CaptureStatus

/-- `CaptureMetadata`. -/
structure CaptureMetadata where
  url : String
  canonicalUrl : Option String
  title : String
  description : Option String
  articleHtml : Option String
  articleTextLength : Nat
  byline : Option String
  siteName : Option String
  publishedTime : Option String
  lang : Option String
  excerpt : Option String

structure Captured where
  captureId : String
  metadata : CaptureMetadata
  snapshotHtml : Text

/-! ### Tags -/

def cleanTag (value : String) : String :=
  let tag := jsTrim value
  match tag.toList with
  | '#' :: rest => jsTrim (String.ofList rest)
  | _ => tag

/-- `appendNormalized` over a list without repeats. -/
def appendNormalized (output : List String) (values : List String) : List String := values.foldl
    (fun output value =>
      let tag := cleanTag value
      if tag = "" ∨ tag ∈ output then output else output ++ [tag])
    output

/-- `normalizeCaptureTags`, of the values that are texts. -/
def normalizeCaptureTags (values : List String) : List String := appendNormalized [] values

/-! ### Content scripts -/

/-- How far a script is. The flag of `erring` says that a failed send is not reported again. -/
inductive Stage where
  | reading
  | transferring (next : Nat)
  | aborting (error : String)
  | erring (error : String) (last : Bool)
  | finished
deriving DecidableEq

structure Script where
  tabId : Nat
  attemptId : Nat
  capture : Option Captured
  stage : Stage
  awaiting : Bool

inductive Message where
  | captureMeta (captureId : String) (metadata : CaptureMetadata)
  | captureChunk (chunk : CaptureChunk)
  | captureAbort (captureId error : String)
  | captureError (error : String)

def Script.message (script : Script) : Option Message :=
  match script.stage, script.capture with
  | .transferring 0, some capture => some (.captureMeta capture.captureId capture.metadata)
  | .transferring (index + 1), some capture =>
    ((splitIntoChunks capture.captureId capture.snapshotHtml)[index]?).map .captureChunk
  | .aborting error, some capture => some (.captureAbort capture.captureId error)
  | .erring error _, _ => some (.captureError error)
  | _, _ => none

def Script.advanced (script : Script) : Stage :=
  match script.stage, script.capture with
  | .transferring sent, some capture =>
    if sent < chunkTotal capture.snapshotHtml then .transferring (sent + 1) else .finished
  | .aborting error, _ => .erring error true
  | .erring _ _, _ => .finished
  | stage, _ => stage

def Script.failed (script : Script) (error : String) : Stage :=
  match script.stage with
  | .transferring _ => .aborting error
  | .aborting cause => .erring cause true
  | .erring _ false => .erring error true
  | .erring _ true => .finished
  | stage => stage

/-! ### The worker -/

structure CaptureAttempt where
  tabId : Nat
  attemptId : Nat
  additionalTags : List String

structure RecentAbort where
  error : String
  expiresAt : Nat

structure PendingTransfer where
  metadata : Option CaptureMetadata
  tabId : Nat

/-- The arguments of `processCapture`, and what it sends to the server. -/
structure Upload where
  attemptId : Nat
  additionalTags : List String
  metadata : CaptureMetadata
  snapshotHtml : Text

/-- What is left of a handler behind an `await`. -/
inductive Task where
  | fetchTab (tabId attemptId : Nat)
  | executeScript (tabId attemptId : Nat)
  | acceptMetadata (script : Nat) (stage : Stage) (tabId attemptId updatedAt : Nat)
      (captureId : String) (metadata : CaptureMetadata)
  | claimedError (script : Nat) (stage : Stage) (tabId : Nat) (detail : String)
  | respond (script : Nat) (stage : Stage)
  | loadSettings (tabId : Nat) (upload : Upload)
  | reportUploading (tabId updatedAt : Nat) (upload : Upload)
  | ingestArchive (tabId : Nat) (upload : Upload)
  | release (url : String)

structure Browser where
  clock : Nat
  /-- The tags each attempt was claimed with; attempts are numbered in this order. -/
  claims : List (List String)
  statuses : Statuses
  captureAttempts : String → Option CaptureAttempt
  recentAborts : Nat → Option RecentAbort
  transfers : String → Option PendingTransfer
  buffers : Buffers
  inFlight : List String
  tasks : List Task
  recoveries : List (Nat × Nat × Nat)
  writes : List Statuses
  stored : Statuses
  scripts : List Script
  uploads : List Upload

def Browser.initial : Browser :=
  ⟨0, [], fun _ => none, fun _ => none, fun _ => none, fun _ => none, fun _ => none, [], [], [], [],
    fun _ => none, [], []⟩

/-! ### Statuses -/

structure CaptureStatusExtra where
  chunks : Option (Nat × Nat) := none
  page : Option (Option String × Option String) := none

def reported (clock : Nat) (current : CaptureStatus) (phase : CapturePhase) (detail : String)
    (extra : CaptureStatusExtra) : CaptureStatus :=
  let page := extra.page.getD (current.vaultPath, current.pageId)
  let keepsPage := phase = .done ∨ phase = .duplicate ∨ phase = .conflict
  let given := extra.page.getD (none, none)
  { current with
    phase
    detail
    updatedAt := max clock (current.updatedAt + 1)
    chunksReceived :=
      if phase = .processing then (extra.chunks.map Prod.fst).or current.chunksReceived else none
    chunksTotal :=
      if phase = .processing then (extra.chunks.map Prod.snd).or current.chunksTotal else none
    vaultPath := if keepsPage then page.1 else given.1
    pageId := if keepsPage then page.2 else given.2 }

/-- `statuses.set` and `persistStatuses`. -/
def Browser.setStatus (browser : Browser) (tabId : Nat) (status : Option CaptureStatus) : Browser :=
  let statuses := Function.update browser.statuses tabId status
  { browser with statuses, writes := browser.writes ++ [statuses] }

/-- `reportPhase` up to its `await`: the new state, and the revision it wrote. -/
def reportPhase (browser : Browser) (tabId attemptId : Nat) (phase : CapturePhase)
    (detail : String) (extra : CaptureStatusExtra) : Browser × Option Nat :=
  match browser.statuses tabId with
  | none => (browser, none)
  | some current =>
    if current.attemptId ≠ attemptId then (browser, none)
    else
      let status := reported browser.clock current phase detail extra
      (browser.setStatus tabId (some status), some status.updatedAt)

/-- What `reportPhase` answers behind its `await`. -/
def Browser.isLatest (browser : Browser) (tabId attemptId updatedAt : Nat) : Bool :=
  (browser.statuses tabId).any fun latest =>
    latest.attemptId = attemptId && latest.updatedAt = updatedAt

/-- `claimAttempt`: the new state, and the attempt when one was started. -/
def claimAttempt (browser : Browser) (tabId : Nat) (additionalTags : List String) :
    Browser × Option Nat :=
  let running := (browser.statuses tabId).any fun current => !current.phase.isTerminal
  if running then (browser, none)
  else
    let attemptId := browser.claims.length
    let status : CaptureStatus :=
      ⟨.capturing, describePhase .capturing, attemptId, browser.clock, browser.clock,
        additionalTags, none, none, none, none⟩
    ({ browser with claims := browser.claims ++ [additionalTags] }.setStatus tabId (some status),
      some attemptId)

/-- `bindCaptureToCurrentAttempt`. -/
def bindCaptureToCurrentAttempt (browser : Browser) (tabId : Nat) (captureId : String) :
    Browser × Option CaptureAttempt :=
  match browser.captureAttempts captureId with
  | some existing =>
    let isCurrent := (browser.statuses tabId).any fun current =>
      current.attemptId = existing.attemptId && !current.phase.isTerminal
    (browser, if existing.tabId = tabId ∧ isCurrent then some existing else none)
  | none =>
    match browser.statuses tabId with
    | none => (browser, none)
    | some current =>
      if current.phase.isTerminal then (browser, none)
      else
        let bound : CaptureAttempt := ⟨tabId, current.attemptId, current.additionalTags⟩
        ({ browser with
            captureAttempts := Function.update browser.captureAttempts captureId (some bound) },
          some bound)

/-! ### Transfers -/

/-- `resetTimer`: the transfer is there, and its timer runs anew. -/
def resetTimer (browser : Browser) (captureId : String) (tabId : Nat)
    (metadata : Option CaptureMetadata) : Browser :=
  { browser with
    transfers := Function.update browser.transfers captureId (some ⟨metadata, tabId⟩) }

def Browser.metadataOf (browser : Browser) (captureId : String) : Option CaptureMetadata :=
  (browser.transfers captureId).bind PendingTransfer.metadata

/-- `PendingTransferCoordinator.cleanup`. -/
def cleanup (browser : Browser) (captureId : String) : Browser := { browser with
    transfers := Function.update browser.transfers captureId none
    buffers := Function.update browser.buffers captureId none }

def Browser.addTask (browser : Browser) (task : Task) : Browser :=
  { browser with tasks := browser.tasks ++ [task] }

/-! ### Messages -/

structure Sender where
  index : Nat
  stage : Stage
  tabId : Nat

def Browser.answer (browser : Browser) (sender : Sender) : Browser :=
  browser.addTask (.respond sender.index sender.stage)

def handleMeta (browser : Browser) (sender : Sender) (captureId : String)
    (metadata : CaptureMetadata) : Browser :=
  match bindCaptureToCurrentAttempt browser sender.tabId captureId with
  | (browser, none) => browser.answer sender
  | (browser, some captureAttempt) =>
    match reportPhase browser sender.tabId captureAttempt.attemptId .processing
        (describePhase .processing) {} with
    | (browser, none) => browser.answer sender
    | (browser, some updatedAt) =>
      browser.addTask
        (.acceptMetadata sender.index sender.stage sender.tabId captureAttempt.attemptId
          updatedAt captureId metadata)

def completeCapture (browser : Browser) (sender : Sender) (captureAttempt : CaptureAttempt)
    (tabId : Nat) (metadata : Option CaptureMetadata) (snapshotHtml : Text) : Browser :=
  match metadata with
  | none =>
    (reportPhase browser tabId captureAttempt.attemptId .error
      "Capture metadata was lost in transit." {}).1.answer sender
  | some metadata =>
    if metadata.url ∈ browser.inFlight then
      (reportPhase browser tabId captureAttempt.attemptId .duplicate
        (metadata.title ++ " is already being archived.") {}).1.answer sender
    else
      ({ browser with inFlight := browser.inFlight ++ [metadata.url] }.addTask (.loadSettings tabId
          ⟨captureAttempt.attemptId, captureAttempt.additionalTags, metadata, snapshotHtml⟩)).answer
        sender

def handleChunk (browser : Browser) (sender : Sender) (chunk : CaptureChunk) : Browser :=
  match bindCaptureToCurrentAttempt browser sender.tabId chunk.captureId with
  | (browser, none) => browser.answer sender
  | (browser, some captureAttempt) =>
    match accept browser.buffers chunk with
    | (_, .error reason) =>
      (reportPhase (cleanup browser chunk.captureId) sender.tabId captureAttempt.attemptId .error
        ("Malformed snapshot transfer: Error: " ++ reason) {}).1.answer sender
    | (buffers, .ok none) =>
      let browser := resetTimer { browser with buffers } chunk.captureId sender.tabId
        (browser.metadataOf chunk.captureId)
      (reportPhase browser sender.tabId captureAttempt.attemptId .processing
        (describePhase .processing) { chunks := some (chunk.index + 1, chunk.total) }).1.answer
        sender
    | (_, .ok (some snapshotHtml)) =>
      let tabId := ((browser.transfers chunk.captureId).map PendingTransfer.tabId).getD sender.tabId
      completeCapture (cleanup browser chunk.captureId) sender captureAttempt tabId
        (browser.metadataOf chunk.captureId) snapshotHtml

def abortErrorDeduplicationMs : Nat := 5000

def handleAbort (browser : Browser) (sender : Sender) (captureId error : String) : Browser :=
  match bindCaptureToCurrentAttempt browser sender.tabId captureId with
  | (browser, none) => (cleanup browser captureId).answer sender
  | (browser, some captureAttempt) =>
    let browser := cleanup browser captureId
    -- `rememberAbortError`
    let marker : RecentAbort := ⟨error, browser.clock + abortErrorDeduplicationMs⟩
    let browser := { browser with
        recentAborts := Function.update browser.recentAborts sender.tabId (some marker) }
    (reportPhase browser sender.tabId captureAttempt.attemptId .error
      ("Snapshot transfer " ++ captureId ++ ": " ++ error) {}).1.answer sender

/-- `consumeMatchingAbortError`. -/
def consumeMatchingAbortError (browser : Browser) (tabId : Nat) (error : String) : Browser × Bool :=
  let without := { browser with recentAborts := Function.update browser.recentAborts tabId none }
  match browser.recentAborts tabId with
  | none => (browser, false)
  | some marker =>
    if marker.expiresAt < browser.clock then (without, false)
    else if marker.error ≠ error then (browser, false)
    else (without, true)

/-- `reportUnconditionalError`; without a status it claims an attempt first. -/
def reportUnconditionalError (browser : Browser) (sender : Sender) (detail : String) : Browser :=
  match browser.statuses sender.tabId with
  | some current =>
    if current.phase = .error ∧ current.detail = detail then browser.answer sender
    else (reportPhase browser sender.tabId current.attemptId .error detail {}).1.answer sender
  | none =>
    (claimAttempt browser sender.tabId []).1.addTask
      (.claimedError sender.index sender.stage sender.tabId detail)

def handleError (browser : Browser) (sender : Sender) (error : String) : Browser :=
  match consumeMatchingAbortError browser sender.tabId error with
  | (browser, true) => browser.answer sender
  | (browser, false) => reportUnconditionalError browser sender error

/-- `handleWorkerMessage` on what content scripts send. -/
def handleMessage (browser : Browser) (sender : Sender) : Message → Browser
  | .captureMeta captureId metadata => handleMeta browser sender captureId metadata
  | .captureChunk chunk => handleChunk browser sender chunk
  | .captureAbort captureId error => handleAbort browser sender captureId error
  | .captureError error => handleError browser sender error

/-! ### Tasks -/

def Browser.setScript (browser : Browser) (index : Nat) (script : Script) : Browser :=
  { browser with scripts := browser.scripts.set index script }

def respond (browser : Browser) (index : Nat) (stage : Stage) : Browser :=
  match browser.scripts[index]? with
  | none => browser
  | some script =>
    if script.awaiting ∧ script.stage = stage then
      browser.setScript index { script with awaiting := false, stage := script.advanced }
    else browser

/-- An upload is over; the `finally` of `CaptureQueue.run` is left. -/
def finished (browser : Browser) (upload : Upload) : Browser :=
  browser.addTask (.release upload.metadata.url)

inductive Outcome where
  | ok
  | failed (error : String)
  | created (vaultPath pageId : String)
  | alreadyExists (vaultPath pageId : String)
  | alreadyInRubbish
  | conflict (vaultPath pageId : Option String)

def ingested (title : String) : Outcome → Option (CapturePhase × String × CaptureStatusExtra)
  | .created vaultPath pageId =>
    some (.done, title ++ " was archived to " ++ vaultPath ++ ".",
      { page := some (some vaultPath, some pageId) })
  | .alreadyExists vaultPath pageId =>
    some (.duplicate, title ++ " was already archived.",
      { page := some (some vaultPath, some pageId) })
  | .alreadyInRubbish =>
    some (.duplicate, title ++ " is already archived, in the Rubbish Bin.", {})
  | .conflict vaultPath pageId =>
    let detail :=
      match vaultPath with
      | some path =>
        if path = "" then
          title ++ " has changed since last capture. The existing page was left untouched."
        else
          title ++ " changed since it was archived at " ++ path
            ++ ". The existing page was left untouched."
      | none => title ++ " has changed since last capture. The existing page was left untouched."
    some (.conflict, detail, { page := some (vaultPath, pageId) })
  | .failed error => some (.error, error, {})
  | .ok => none

def runTask (browser : Browser) (outcome : Outcome) : Task → Option Browser
  | .fetchTab tabId attemptId =>
    match outcome with
    | .ok =>
      if (browser.statuses tabId).map CaptureStatus.attemptId = some attemptId then
        some (browser.addTask (.executeScript tabId attemptId))
      else some browser
    | .failed reason =>
      some (reportPhase browser tabId attemptId .error ("Capture could not start: " ++ reason) {}).1
    | _ => none
  | .executeScript tabId attemptId =>
    match outcome with
    | .ok =>
      some { browser with
        scripts := browser.scripts ++ [⟨tabId, attemptId, none, .reading, false⟩] }
    | .failed detail => some (reportPhase browser tabId attemptId .error detail {}).1
    | _ => none
  | .acceptMetadata index stage tabId attemptId updatedAt captureId metadata =>
    let browser :=
      if browser.isLatest tabId attemptId updatedAt then
        resetTimer browser captureId tabId (some metadata)
      else browser
    some (respond browser index stage)
  | .claimedError index stage tabId detail =>
    match browser.statuses tabId with
    | some current =>
      some ((reportPhase browser tabId current.attemptId .error detail {}).1.addTask
        (.respond index stage))
    | none => some (respond browser index stage)
  | .respond index stage => some (respond browser index stage)
  | .loadSettings tabId upload =>
    match outcome with
    | .ok =>
      match reportPhase browser tabId upload.attemptId .uploading (describePhase .uploading) {} with
      | (browser, none) => some (finished browser upload)
      | (browser, some updatedAt) =>
        some (browser.addTask (.reportUploading tabId updatedAt upload))
    | .failed error =>
      some (finished (reportPhase browser tabId upload.attemptId .error error {}).1 upload)
    | _ => none
  | .reportUploading tabId updatedAt upload =>
    match outcome with
    | .ok =>
      if browser.isLatest tabId upload.attemptId updatedAt then
        some ({ browser with uploads := browser.uploads ++ [upload] }.addTask
          (.ingestArchive tabId upload))
      else some (finished browser upload)
    | .failed error =>
      -- the manifest could not be built
      some (finished (reportPhase browser tabId upload.attemptId .error error {}).1 upload)
    | _ => none
  | .ingestArchive tabId upload =>
    match ingested upload.metadata.title outcome with
    | none => none
    | some (phase, detail, extra) =>
      some (finished (reportPhase browser tabId upload.attemptId phase detail extra).1 upload)
  | .release url => some { browser with inFlight := browser.inFlight.filter (· ≠ url) }

/-! ### Restarts -/

def interruptedCaptureDetail : String :=
  "Capture was interrupted when the extension worker restarted. Try again."

def capturingRecoveryDetail : String :=
  "Capture did not resume after the extension worker restarted. Try again."

def rehydrated (clock : Nat) (status : CaptureStatus) : CaptureStatus :=
  let status := { status with additionalTags := normalizeCaptureTags status.additionalTags }
  if status.phase = .processing ∨ status.phase = .uploading then
    { status with
      phase := .error
      detail := interruptedCaptureDetail
      updatedAt := max clock (status.updatedAt + 1)
      chunksReceived := none
      chunksTotal := none }
  else status

/-- The worker is gone with its memory; a new one takes up what was stored. Scripts live on. -/
def restart (browser : Browser) (tabs : List Nat) (readable : Bool) : Browser :=
  let statuses : Statuses := fun tabId =>
    if readable then (browser.stored tabId).map (rehydrated browser.clock) else none
  { browser with
    statuses
    captureAttempts := fun _ => none
    recentAborts := fun _ => none
    transfers := fun _ => none
    buffers := fun _ => none
    inFlight := []
    tasks := []
    -- written back only after a repair; otherwise it is what is stored
    writes := if readable then [statuses] else []
    -- `scheduleCapturingRecovery`
    recoveries := tabs.filterMap fun tabId =>
      match statuses tabId with
      | some status =>
        if status.phase = .capturing then some (tabId, status.attemptId, status.updatedAt)
        else none
      | none => none }

/-! ### Steps -/

inductive Step where
  | tick
  | start (tabId : Nat) (tags : List String)
  | read (script : Nat) (capture : Captured)
  | refuse (script : Nat) (error : String) (thrown : Bool)
  | deliver (script : Nat)
  | sendFails (script : Nat) (error : String)
  | resume (task : Nat) (outcome : Outcome)
  | expire (captureId : String)
  | recover (timer : Nat)
  | forgetAbort (tabId : Nat)
  | written (stored : Bool)
  | removeTab (tabId : Nat)
  | restart (tabs : List Nat) (readable : Bool)

def Browser.isFresh (browser : Browser) (captureId : String) : Bool :=
  browser.scripts.all fun script => (script.capture.map Captured.captureId) ≠ some captureId

def expire (browser : Browser) (captureId : String) (transfer : PendingTransfer) : Browser :=
  let browser := cleanup browser captureId
  match browser.captureAttempts captureId with
  | none => browser
  | some captureAttempt =>
    if captureAttempt.tabId ≠ transfer.tabId then browser
    else
      (reportPhase browser transfer.tabId captureAttempt.attemptId .error
        ("Snapshot transfer " ++ captureId ++ " expired after 30 seconds of inactivity.") {}).1

def recover (browser : Browser) (timer : Nat × Nat × Nat) : Browser :=
  match browser.statuses timer.1 with
  | none => browser
  | some current =>
    if current.attemptId = timer.2.1 ∧ current.updatedAt = timer.2.2 ∧ current.phase = .capturing then
      (reportPhase browser timer.1 timer.2.1 .error capturingRecoveryDetail {}).1
    else browser

def removeTab (browser : Browser) (tabId : Nat) : Browser :=
  let removed := fun captureId =>
    (browser.transfers captureId).any fun transfer => transfer.tabId = tabId
  { browser with
    transfers := fun captureId =>
      if removed captureId then none else browser.transfers captureId
    buffers := fun captureId =>
      if removed captureId then none else browser.buffers captureId
    recentAborts := Function.update browser.recentAborts tabId none
    captureAttempts := fun captureId =>
      (browser.captureAttempts captureId).filter fun attempt => attempt.tabId ≠ tabId }.setStatus
    tabId none

def step (browser : Browser) : Step → Option Browser
  | .tick => some { browser with clock := browser.clock + 1 }
  | .start tabId tags =>
    match claimAttempt browser tabId (normalizeCaptureTags tags) with
    | (browser, none) => some browser
    | (browser, some attemptId) => some (browser.addTask (.fetchTab tabId attemptId))
  | .read index capture =>
    match browser.scripts[index]? with
    | none => none
    | some script =>
      if script.stage = .reading ∧ browser.isFresh capture.captureId then
        some (browser.setScript index
          { script with capture := some capture, stage := .transferring 0 })
      else none
  | .refuse index error thrown =>
    match browser.scripts[index]? with
    | none => none
    | some script =>
      if script.stage = .reading then
        some (browser.setScript index { script with stage := .erring error thrown })
      else none
  | .deliver index =>
    match browser.scripts[index]? with
    | none => none
    | some script =>
      if script.awaiting then none
      else
        match script.message with
        | none => none
        | some message =>
          some (handleMessage (browser.setScript index { script with awaiting := true })
            ⟨index, script.stage, script.tabId⟩ message)
  | .sendFails index error =>
    match browser.scripts[index]? with
    | none => none
    | some script =>
      some (browser.setScript index { script with awaiting := false, stage := script.failed error })
  | .resume index outcome =>
    match browser.tasks[index]? with
    | none => none
    | some task =>
      runTask { browser with tasks := browser.tasks.eraseIdx index } outcome task
  | .expire captureId =>
    match browser.transfers captureId with
    | none => none
    | some transfer => some (expire browser captureId transfer)
  | .recover index =>
    match browser.recoveries[index]? with
    | none => none
    | some timer =>
      some (recover { browser with recoveries := browser.recoveries.eraseIdx index } timer)
  | .forgetAbort tabId =>
    match browser.recentAborts tabId with
    | none => none
    | some marker =>
      if marker.expiresAt ≤ browser.clock then
        some { browser with recentAborts := Function.update browser.recentAborts tabId none }
      else none
  | .written stored =>
    match browser.writes with
    | [] => none
    | snapshot :: rest =>
      some { browser with
        writes := rest, stored := if stored then snapshot else browser.stored }
  | .removeTab tabId => some (removeTab browser tabId)
  | .restart tabs readable => some (restart browser tabs readable)

end Clepsydra.Capture
