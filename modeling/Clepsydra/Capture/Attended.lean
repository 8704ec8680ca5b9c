import Clepsydra.Capture.Attempts
import Clepsydra.Capture.OneAttempt

/-!
Owns: content scripts that are destroyed with their page, and what is outstanding.

Proves: a message that meets its own attempt leaves every unfinished one attended to.
-/

namespace Clepsydra.Capture

open Library Library.Transitions List Function Option

/-! ### Pages that go away -/

structure Scene where
  browser : Browser
  destroyed : List Nat

def Scene.initial : Scene := ⟨Browser.initial, []⟩

inductive Event where
  | step (taken : Step)
  | destroy (script : Nat)

def actor : Step → Option Nat
  | .read index _ | .refuse index _ _ | .deliver index | .sendFails index _ => some index
  | .tick | .start _ _ | .resume _ _ | .expire _ | .recover _ | .forgetAbort _ | .written _
  | .removeTab _ | .restart _ _ => none

def act (scene : Scene) : Event → Option Scene
  | .step taken =>
    if (actor taken).any (fun index => index ∈ scene.destroyed) then none
    else (step scene.browser taken).map fun browser => { scene with browser }
  | .destroy index =>
    if index < scene.browser.scripts.length then
      some { scene with destroyed := index :: scene.destroyed }
    else none

/-! ### What is outstanding -/

def Task.startsFor (tabId attemptId : Nat) : Task → Bool
  | .fetchTab tab attempt | .executeScript tab attempt => tab = tabId && attempt = attemptId
  | _ => false

def Task.uploadsFor (tabId : Nat) (status : CaptureStatus) : Task → Bool
  | .loadSettings tab upload | .ingestArchive tab upload =>
    tab = tabId && upload.attemptId = status.attemptId
  | .reportUploading tab updatedAt upload =>
    tab = tabId && upload.attemptId = status.attemptId && updatedAt = status.updatedAt
  | _ => false

def Browser.timerFor (browser : Browser) (tabId attemptId : Nat) (captureId : String) : Bool :=
  (browser.transfers captureId).any (fun transfer => transfer.tabId = tabId)
    && (browser.captureAttempts captureId).any fun attempt =>
      attempt.tabId = tabId && attempt.attemptId = attemptId

def Browser.recoversFor (browser : Browser) (tabId : Nat) (status : CaptureStatus) : Bool :=
  status.phase = .capturing && (tabId, status.attemptId, status.updatedAt) ∈ browser.recoveries

/-- The injection, a live script, a timer, or the upload is outstanding. -/
def Outstanding (scene : Scene) (tabId : Nat) (status : CaptureStatus) : Prop :=
  (∃ task ∈ scene.browser.tasks, task.startsFor tabId status.attemptId = true)
    ∨ (∃ index script, scene.browser.scripts[index]? = some script ∧ index ∉ scene.destroyed
      ∧ script.tabId = tabId ∧ script.attemptId = status.attemptId ∧ script.stage ≠ .finished)
    ∨ (∃ captureId, scene.browser.timerFor tabId status.attemptId captureId = true)
    ∨ scene.browser.recoversFor tabId status = true
    ∨ ∃ task ∈ scene.browser.tasks, task.uploadsFor tabId status = true

/-! ### When the worker has taken over -/

def relieved (browser : Browser) (script : Script) : Bool :=
  (browser.statuses script.tabId).all fun status =>
    status.attemptId ≠ script.attemptId || status.phase.isTerminal
      || script.capture.any (fun captured =>
        browser.timerFor script.tabId status.attemptId captured.captureId)
      || browser.recoversFor script.tabId status
      || browser.tasks.any (fun task => task.uploadsFor script.tabId status)

/-- The script ends without a report: none can be sent, or it is taken for another capture's
abort. -/
def endsUnreported (browser : Browser) (script : Script) : Step → Prop
  | .sendFails _ _ => ∃ error, script.stage = .erring error true
  | .deliver _ => ∃ error last, script.stage = .erring error last
      ∧ JustAborted browser script.tabId error
  | _ => False

instance (browser : Browser) (tabId : Nat) (error : String) :
    Decidable (JustAborted browser tabId error) :=
  decidable_of_iff ((browser.recentAborts tabId).any (fun marker =>
      browser.clock ≤ marker.expiresAt && marker.error = error) = true)
    (by simp [JustAborted, Option.any_eq_true])

instance (browser : Browser) (script : Script) :
    (taken : Step) → Decidable (endsUnreported browser script taken)
  | .sendFails _ _ =>
    match isStage : script.stage with
    | .erring error true => isTrue ⟨error, isStage⟩
    | .erring _ false => isFalse fun ⟨_, same⟩ => nomatch isStage.symm.trans same
    | .reading | .transferring _ | .aborting _ | .finished =>
      isFalse fun ⟨_, same⟩ => nomatch isStage.symm.trans same
  | .deliver _ =>
    match isStage : script.stage with
    | .erring error last =>
      decidable_of_iff (JustAborted browser script.tabId error)
        ⟨fun aborted => ⟨error, last, isStage, aborted⟩, fun ⟨_, _, same, aborted⟩ => by
          rw [(Stage.erring.inj (isStage.symm.trans same)).1]
          exact aborted⟩
    | .reading | .transferring _ | .aborting _ | .finished =>
      isFalse fun ⟨_, _, same, _⟩ => nomatch isStage.symm.trans same
  | .tick | .start _ _ | .read _ _ | .refuse _ _ _ | .resume _ _ | .expire _ | .recover _
  | .forgetAbort _ | .written _ | .removeTab _ | .restart _ _ => isFalse id

def WorkerTakesOver (scene : Scene) : Event → Prop
  | .step taken => OwnMessage scene.browser taken
      ∧ ∀ index script, actor taken = some index → scene.browser.scripts[index]? = some script →
        endsUnreported scene.browser script taken → relieved scene.browser script = true
  | .destroy index => ∀ script, scene.browser.scripts[index]? = some script →
      script.stage = .finished ∨ relieved scene.browser script = true

instance (scene : Scene) : (event : Event) → Decidable (WorkerTakesOver scene event)
  | .step taken =>
    decidable_of_iff (OwnMessage scene.browser taken ∧ ∀ index ∈ actor taken,
        ∀ script ∈ scene.browser.scripts[index]?, endsUnreported scene.browser script taken →
          relieved scene.browser script = true)
      (and_congr_right fun _ =>
        ⟨fun holds index script isActor found => holds index isActor script found,
          fun holds index isActor script found => holds index script isActor found⟩)
  | .destroy index =>
    decidable_of_iff (∀ script ∈ scene.browser.scripts[index]?,
        script.stage = .finished ∨ relieved scene.browser script = true) Iff.rfl

def Event.onTab (tabId : Nat) : Event → Bool
  | .step (.start tab _) => tab = tabId
  | .step (.restart tabs _) => tabId ∈ tabs
  | _ => true

/-! ### The invariant -/

def Script.Promises (script : Script) : Prop :=
  match script.stage with
  | .reading => script.awaiting = false
  | .transferring sent => ∃ captured, script.capture = some captured
      ∧ (script.awaiting = true → sent < chunkTotal captured.snapshotHtml)
  | .aborting _ => script.awaiting = false ∧ ∃ captured, script.capture = some captured
  | .erring _ _ => script.awaiting = false
  | .finished => False

def Expected (scene : Scene) (tabId : Nat) (status : CaptureStatus) : Prop :=
  (∃ task ∈ scene.browser.tasks, task.startsFor tabId status.attemptId = true)
    ∨ (∃ index script, scene.browser.scripts[index]? = some script ∧ index ∉ scene.destroyed
      ∧ script.attemptId = status.attemptId ∧ script.Promises)
    ∨ (∃ captureId, scene.browser.timerFor tabId status.attemptId captureId = true)
    ∨ scene.browser.recoversFor tabId status = true
    ∨ ∃ task ∈ scene.browser.tasks, task.uploadsFor tabId status = true

def TaskOnTab (tabId : Nat) : Task → Prop
  | .fetchTab tab _ | .executeScript tab _ | .acceptMetadata _ _ tab _ _ _ _
  | .loadSettings tab _ | .reportUploading tab _ _ | .ingestArchive tab _ => tab = tabId
  | .claimedError _ _ _ _ | .respond _ _ | .release _ => True

structure OnTab (tabId : Nat) (destroyed : List Nat) (browser : Browser) : Prop where
  destroyed : ∀ index ∈ destroyed, index < browser.scripts.length
  scripts : ∀ script ∈ browser.scripts, script.tabId = tabId
  bound : ∀ captureId attempt, browser.captureAttempts captureId = some attempt →
    attempt.tabId = tabId
  transfers : ∀ captureId transfer, browser.transfers captureId = some transfer →
    transfer.tabId = tabId
  tasks : ∀ task ∈ browser.tasks, TaskOnTab tabId task

def Attends (tabId : Nat) (scene : Scene) : Prop :=
  ∀ status, scene.browser.statuses tabId = some status → status.phase.isTerminal = false →
    Expected scene tabId status

structure Attended (tabId : Nat) (scene : Scene) : Prop where
  separate : Separate scene.browser
  onTab : OnTab tabId scene.destroyed scene.browser
  attends : Attends tabId scene

theorem Expected.outstanding {tabId : Nat} {scene : Scene} {status : CaptureStatus}
    (onTab : OnTab tabId scene.destroyed scene.browser) (expected : Expected scene tabId status) :
    Outstanding scene tabId status := by
  rcases expected with starts | ⟨index, script, found, live, isAttempt, promising⟩ | others
  · exact .inl starts
  · refine .inr (.inl ⟨index, script, found, live, ?_, isAttempt, ?_⟩)
    · exact onTab.scripts script (mem_of_getElem? found)
    · intro isFinished
      rw [Script.Promises, isFinished] at promising
      exact promising
  · exact .inr (.inr others)

theorem Expected.mono {tabId : Nat} {scene next : Scene} {status : CaptureStatus}
    (expected : Expected scene tabId status)
    (tasks : ∀ task ∈ scene.browser.tasks,
      task.startsFor tabId status.attemptId = true ∨ task.uploadsFor tabId status = true →
      task ∈ next.browser.tasks)
    (scripts : ∀ index script, scene.browser.scripts[index]? = some script →
      index ∉ scene.destroyed → script.attemptId = status.attemptId → script.Promises →
      ∃ moved, next.browser.scripts[index]? = some moved ∧ index ∉ next.destroyed
        ∧ moved.attemptId = status.attemptId ∧ moved.Promises)
    (timers : ∀ captureId, scene.browser.timerFor tabId status.attemptId captureId = true →
      next.browser.timerFor tabId status.attemptId captureId = true)
    (recoveries : scene.browser.recoversFor tabId status = true →
      next.browser.recoversFor tabId status = true) : Expected next tabId status := by
  rcases expected with ⟨task, member, starts⟩ | ⟨index, script, found, live, isAttempt, promising⟩
    | ⟨captureId, armed⟩ | recovers | ⟨task, member, uploads⟩
  · exact .inl ⟨task, tasks task member (.inl starts), starts⟩
  · have ⟨moved, foundMoved, stillLive, sameAttempt, stillPromising⟩ :=
      scripts index script found live isAttempt promising
    exact .inr (.inl ⟨index, moved, foundMoved, stillLive, sameAttempt, stillPromising⟩)
  · exact .inr (.inr (.inl ⟨captureId, timers captureId armed⟩))
  · exact .inr (.inr (.inr (.inl (recoveries recovers))))
  · exact .inr (.inr (.inr (.inr ⟨task, tasks task member (.inr uploads), uploads⟩)))

/-! ### Reports -/

section Reports

variable {tabId attemptId : Nat} {browser : Browser} {destroyed : List Nat}

def AttendsOthers (tabId attemptId : Nat) (scene : Scene) : Prop :=
  ∀ status, scene.browser.statuses tabId = some status → status.phase.isTerminal = false →
    status.attemptId ≠ attemptId → Expected scene tabId status

theorem AttendsOthers.report (others : AttendsOthers tabId attemptId ⟨browser, destroyed⟩)
    {phase : CapturePhase} {detail : String} {extra : CaptureStatusExtra}
    (own : phase.isTerminal = true
      ∨ ∀ status, status.attemptId = attemptId → Expected ⟨browser, destroyed⟩ tabId status) :
    Attends tabId ⟨(reportPhase browser tabId attemptId phase detail extra).1, destroyed⟩ := by
  intro status isStatus running
  unfold reportPhase at isStatus ⊢
  cases found : browser.statuses tabId with
  | none =>
    simp only [found] at isStatus
    exact nomatch isStatus
  | some current =>
    simp only [found] at isStatus ⊢
    split_ifs at isStatus ⊢ with foreign
    · have isCurrent : current = status := by
        rw [found] at isStatus
        exact some.inj isStatus
      subst isCurrent
      exact others current found running foreign
    · have isReported : reported browser.clock current phase detail extra = status := by
        have updated : update browser.statuses tabId _ tabId = some status := isStatus
        rw [update_self] at updated
        exact some.inj updated
      rcases own with terminal | attended
      · rw [← isReported] at running
        exact nomatch terminal.symm.trans running
      · have isAttempt : status.attemptId = attemptId := by
          rw [← isReported]
          exact not_not.1 foreign
        exact attended status isAttempt

theorem Attends.reportElsewhere (attends : Attends tabId ⟨browser, destroyed⟩) {tab attempt : Nat}
    (elsewhere : tab ≠ tabId) {phase : CapturePhase} {detail : String}
    {extra : CaptureStatusExtra} :
    Attends tabId ⟨(reportPhase browser tab attempt phase detail extra).1, destroyed⟩ := by
  unfold reportPhase
  split
  · exact attends
  · split_ifs
    · exact attends
    · intro status isStatus running
      have isFound : update browser.statuses tab _ tabId = some status := isStatus
      rw [update_of_ne elsewhere.symm] at isFound
      exact attends status isFound running

theorem Expected.addTask {status : CaptureStatus} {task : Task}
    (expected : Expected ⟨browser, destroyed⟩ tabId status) :
    Expected ⟨browser.addTask task, destroyed⟩ tabId status := by
  apply expected.mono
  · exact fun _ member _ => mem_append_left _ member
  · exact fun index script found live isAttempt promising =>
      ⟨script, found, live, isAttempt, promising⟩
  · exact fun _ armed => armed
  · exact fun recovers => recovers

theorem Attends.addTask {task : Task} (attends : Attends tabId ⟨browser, destroyed⟩) :
    Attends tabId ⟨browser.addTask task, destroyed⟩ :=
  fun status isStatus running => (attends status isStatus running).addTask

theorem Attends.answer {sender : Sender} (attends : Attends tabId ⟨browser, destroyed⟩) :
    Attends tabId ⟨browser.answer sender, destroyed⟩ :=
  attends.addTask

variable (onTab : OnTab tabId destroyed browser)

include onTab

theorem OnTab.addTask {task : Task} (own : TaskOnTab tabId task) :
    OnTab tabId destroyed (browser.addTask task) := by
  refine { onTab with tasks := ?_ }
  intro other member
  rcases mem_append.1 member with old | new
  · exact onTab.tasks other old
  · rw [mem_singleton.1 new]
    exact own

theorem OnTab.answer {sender : Sender} :
    OnTab tabId destroyed (browser.answer sender) :=
  onTab.addTask trivial

theorem OnTab.report (tab attempt : Nat) (phase : CapturePhase) (detail : String)
    (extra : CaptureStatusExtra) :
    OnTab tabId destroyed (reportPhase browser tab attempt phase detail extra).1 := by
  unfold reportPhase
  split
  · exact onTab
  · split_ifs
    · exact onTab
    · exact { onTab with }

theorem OnTab.cleanup (captureId : String) :
    OnTab tabId destroyed (Capture.cleanup browser captureId) := by
  refine { onTab with transfers := ?_ }
  intro other transfer isTransfer
  by_cases same : other = captureId
  · simp only [Capture.cleanup, same, update_self] at isTransfer
    cases isTransfer
  · simp only [Capture.cleanup, update_of_ne same] at isTransfer
    exact onTab.transfers other transfer isTransfer

theorem OnTab.resetTimer (captureId : String) (metadata : Option CaptureMetadata) :
    OnTab tabId destroyed (Capture.resetTimer browser captureId tabId metadata) := by
  refine { onTab with transfers := ?_ }
  intro other transfer isTransfer
  by_cases same : other = captureId
  · simp only [Capture.resetTimer, same, update_self, some.injEq] at isTransfer
    rw [← isTransfer]
  · simp only [Capture.resetTimer, update_of_ne same] at isTransfer
    exact onTab.transfers other transfer isTransfer

omit onTab

theorem timerFor_resetTimer {captureId other : String} {metadata : Option CaptureMetadata}
    (armed : browser.timerFor tabId attemptId other = true) :
    (Capture.resetTimer browser captureId tabId metadata).timerFor tabId attemptId other
      = true := by
  unfold Browser.timerFor at armed ⊢
  rw [Bool.and_eq_true] at armed ⊢
  refine ⟨?_, armed.2⟩
  by_cases same : other = captureId
  · simp [Capture.resetTimer, same]
  · simp only [Capture.resetTimer, update_of_ne same]
    exact armed.1

theorem Expected.resetTimer {status : CaptureStatus} {captureId : String}
    {metadata : Option CaptureMetadata}
    (expected : Expected ⟨browser, destroyed⟩ tabId status) :
    Expected ⟨Capture.resetTimer browser captureId tabId metadata, destroyed⟩ tabId status := by
  apply expected.mono
  · exact fun _ member _ => member
  · exact fun index script found live isAttempt promising =>
      ⟨script, found, live, isAttempt, promising⟩
  · exact fun _ armed => timerFor_resetTimer armed
  · exact fun recovers => recovers

end Reports

/-! ### Binding -/

section Binding

variable {tabId attemptId : Nat} {browser : Browser} {destroyed : List Nat}

structure Binds (tabId attemptId : Nat) (browser : Browser) (captureId : String)
    (bindings : String → Option CaptureAttempt) (attempt : CaptureAttempt) : Prop where
  isAttempt : attempt.attemptId = attemptId
  isTab : attempt.tabId = tabId
  bound : bindings captureId = some attempt
  others : ∀ other, other ≠ captureId → bindings other = browser.captureAttempts other
  before : ∀ existing, browser.captureAttempts captureId = some existing → existing = attempt

theorem bind_own_cases (separate : Separate browser) (onTab : OnTab tabId destroyed browser)
    {captured : Captured} (sends : Sends browser.scripts attemptId captured)
    (own : BindsOwn browser tabId attemptId captured.captureId) :
    (bindCaptureToCurrentAttempt browser tabId captured.captureId = (browser, none)
        ∧ ∀ status, browser.statuses tabId = some status → status.phase.isTerminal = false →
          status.attemptId ≠ attemptId)
      ∨ ∃ bindings attempt, bindCaptureToCurrentAttempt browser tabId captured.captureId
          = ({ browser with captureAttempts := bindings }, some attempt)
        ∧ Binds tabId attemptId browser captured.captureId bindings attempt := by
  unfold bindCaptureToCurrentAttempt
  cases isBound : browser.captureAttempts captured.captureId with
  | some existing =>
    have ⟨_, other, isSent, isId⟩ := separate.bound _ existing isBound
    have isAttempt : existing.attemptId = attemptId := (separate.unique _ _ _ _ isSent sends isId).1
    have isTab := onTab.bound _ existing isBound
    simp only
    split_ifs with meets
    · refine .inr ⟨browser.captureAttempts, existing, rfl, isAttempt, isTab, isBound,
        fun _ _ => rfl, ?_⟩
      intro other isOther
      rw [isBound] at isOther
      exact (some.inj isOther).symm
    · refine .inl ⟨rfl, ?_⟩
      intro status isStatus running same
      apply meets
      refine ⟨isTab, ?_⟩
      rw [isStatus, any_some, same, isAttempt, running]
      simp
  | none =>
    simp only
    cases found : browser.statuses tabId with
    | none => exact .inl ⟨rfl, nofun⟩
    | some current =>
      simp only
      split_ifs with terminal
      · refine .inl ⟨rfl, ?_⟩
        intro status isStatus running
        rw [← some.inj isStatus, terminal] at running
        exact nomatch running
      · have isOwn := own isBound current found (by simpa using terminal)
        refine .inr ⟨_, _, rfl, isOwn, rfl, update_self _ _ _, ?_, ?_⟩
        · exact fun other different => update_of_ne different _ _
        · intro existing isExisting
          exact nomatch isBound.symm.trans isExisting

variable {captureId : String} {bindings : String → Option CaptureAttempt}
  {attempt : CaptureAttempt} (binds : Binds tabId attemptId browser captureId bindings attempt)

include binds

theorem Binds.onTab (onTab : OnTab tabId destroyed browser) :
    OnTab tabId destroyed { browser with captureAttempts := bindings } := by
  refine { onTab with bound := ?_ }
  intro other found isFound
  replace isFound : bindings other = some found := isFound
  by_cases isSame : other = captureId
  · rw [isSame, binds.bound] at isFound
    rw [← some.inj isFound, binds.isTab]
  · rw [binds.others other isSame] at isFound
    exact onTab.bound other found isFound

theorem Binds.timerFor {other : String} {attemptOf : Nat}
    (armed : browser.timerFor tabId attemptOf other = true) :
    ({ browser with captureAttempts := bindings } : Browser).timerFor tabId attemptOf other
      = true := by
  unfold Browser.timerFor at armed ⊢
  rw [Bool.and_eq_true] at armed ⊢
  refine ⟨armed.1, ?_⟩
  by_cases isSame : other = captureId
  · rw [isSame] at armed ⊢
    have ⟨existing, isExisting, meets⟩ := (Option.any_eq_true _ _).1 armed.2
    rw [binds.before existing isExisting] at meets
    simp only [binds.bound, any_some]
    exact meets
  · simp only [binds.others other isSame]
    exact armed.2

theorem Binds.attendsOthers (others : AttendsOthers tabId attemptId ⟨browser, destroyed⟩) :
    AttendsOthers tabId attemptId ⟨{ browser with captureAttempts := bindings }, destroyed⟩ := by
  intro status isStatus running different
  apply (others status isStatus running different).mono
  · exact fun _ member _ => member
  · exact fun place other isOther isLive sameAttempt isPromising =>
      ⟨other, isOther, isLive, sameAttempt, isPromising⟩
  · exact fun _ armed => binds.timerFor armed
  · exact fun recovers => recovers

theorem Binds.cleanup (others : AttendsOthers tabId attemptId ⟨browser, destroyed⟩) :
    AttendsOthers tabId attemptId
      ⟨Capture.cleanup { browser with captureAttempts := bindings } captureId, destroyed⟩ := by
  intro status isStatus running different
  apply (binds.attendsOthers others status isStatus running different).mono
  · exact fun _ member _ => member
  · exact fun place other isOther isLive sameAttempt isPromising =>
      ⟨other, isOther, isLive, sameAttempt, isPromising⟩
  · intro other armed
    unfold Browser.timerFor at armed ⊢
    rw [Bool.and_eq_true] at armed ⊢
    by_cases isSame : other = captureId
    · have isOf := armed.2
      simp only [isSame, binds.bound, any_some, Bool.and_eq_true, decide_eq_true_eq] at isOf
      exact absurd (isOf.2.symm.trans binds.isAttempt) different
    · refine ⟨?_, armed.2⟩
      simp only [Capture.cleanup, update_of_ne isSame]
      exact armed.1
  · exact fun recovers => recovers

end Binding

/-! ### Messages -/

section Messages

variable {tabId index : Nat} {browser : Browser} {destroyed : List Nat} {script : Script}
  {sender : Sender} {captured : Captured}

theorem AttendsOthers.all {attemptId : Nat} {scene : Scene}
    (others : AttendsOthers tabId attemptId scene)
    (none : ∀ status, scene.browser.statuses tabId = some status →
      status.phase.isTerminal = false → status.attemptId ≠ attemptId) : Attends tabId scene :=
  fun status isStatus running => others status isStatus running (none status isStatus running)

theorem attends_completeCapture {attemptId : Nat} {after : Browser} {attempt : CaptureAttempt}
    (afterTab : OnTab tabId destroyed after)
    (afterOthers : AttendsOthers tabId attemptId ⟨after, destroyed⟩)
    (isAttempt : attempt.attemptId = attemptId) (metadata : Option CaptureMetadata)
    (snapshotHtml : Text) :
    OnTab tabId destroyed (completeCapture after sender attempt tabId metadata snapshotHtml)
      ∧ Attends tabId
        ⟨completeCapture after sender attempt tabId metadata snapshotHtml, destroyed⟩ := by
  unfold completeCapture
  rw [isAttempt]
  cases metadata with
  | none => exact ⟨(afterTab.report _ _ _ _ _).answer, (afterOthers.report (.inl rfl)).answer⟩
  | some metadata =>
    simp only
    split_ifs
    · exact ⟨(afterTab.report _ _ _ _ _).answer, (afterOthers.report (.inl rfl)).answer⟩
    · have flying : OnTab tabId destroyed
          { after with inFlight := after.inFlight ++ [metadata.url] } :=
        { afterTab with }
      have own : TaskOnTab tabId (.loadSettings tabId
          ⟨attemptId, attempt.additionalTags, metadata, snapshotHtml⟩) := rfl
      refine ⟨(flying.addTask own).answer, Attends.answer ?_⟩
      intro status isStatus running
      by_cases isOwn : status.attemptId = attemptId
      · refine .inr (.inr (.inr (.inr ⟨_, mem_append_right _ (mem_singleton_self _), ?_⟩)))
        simp [Task.uploadsFor, isOwn]
      · have kept := afterOthers status isStatus running isOwn
        have flyingKept : Expected
            ⟨{ after with inFlight := after.inFlight ++ [metadata.url] }, destroyed⟩ tabId
            status :=
          kept
        exact flyingKept.addTask

section Bound

variable (separate : Separate browser) (onTab : OnTab tabId destroyed browser)
  (found : browser.scripts[index]? = some script)
  (others : AttendsOthers tabId script.attemptId ⟨browser, destroyed⟩)
  (isTab : sender.tabId = tabId) (isCaptured : script.capture = some captured)
  (own : BindsOwn browser tabId script.attemptId captured.captureId)

include separate onTab found others isTab isCaptured own

theorem attends_handleMeta (live : index ∉ destroyed) (promising : script.Promises) :
    OnTab tabId destroyed (handleMeta browser sender captured.captureId captured.metadata)
      ∧ Attends tabId
        ⟨handleMeta browser sender captured.captureId captured.metadata, destroyed⟩ := by
  have sends : Sends browser.scripts script.attemptId captured :=
    ⟨script, mem_of_getElem? found, rfl, isCaptured⟩
  unfold handleMeta
  rw [isTab]
  rcases bind_own_cases separate onTab sends own with
    ⟨isBind, none⟩ | ⟨bindings, attempt, isBind, binds⟩
  · rw [isBind]
    exact ⟨onTab.answer, (others.all none).answer⟩
  · rw [isBind]
    have reports : Attends tabId
        ⟨(reportPhase { browser with captureAttempts := bindings } tabId attempt.attemptId
          .processing (describePhase .processing) {}).1, destroyed⟩ := by
      rw [binds.isAttempt]
      apply (binds.attendsOthers others).report
      refine .inr fun status sameAttempt => .inr (.inl ?_)
      exact ⟨index, script, found, live, sameAttempt.symm, promising⟩
    have reportsTab := (binds.onTab onTab).report tabId attempt.attemptId .processing
      (describePhase .processing) {}
    simp only
    split
    · rename_i after isReport
      rw [isReport] at reports reportsTab
      exact ⟨reportsTab.answer, reports.answer⟩
    · rename_i after updatedAt isReport
      rw [isReport] at reports reportsTab
      exact ⟨reportsTab.addTask rfl, reports.addTask⟩

theorem attends_handleAbort (error : String) :
    OnTab tabId destroyed (handleAbort browser sender captured.captureId error)
      ∧ Attends tabId ⟨handleAbort browser sender captured.captureId error, destroyed⟩ := by
  have sends : Sends browser.scripts script.attemptId captured :=
    ⟨script, mem_of_getElem? found, rfl, isCaptured⟩
  unfold handleAbort
  rw [isTab]
  rcases bind_own_cases separate onTab sends own with
    ⟨isBind, none⟩ | ⟨bindings, attempt, isBind, binds⟩
  · rw [isBind]
    refine ⟨(onTab.cleanup _).answer, Attends.answer ?_⟩
    -- a timer of this capture is one of the script's own attempt
    intro status isStatus running
    have different := none status isStatus running
    apply (others status isStatus running different).mono
    · exact fun _ member _ => member
    · exact fun place other isOther isLive sameAttempt isPromising =>
        ⟨other, isOther, isLive, sameAttempt, isPromising⟩
    · intro other armed
      unfold Browser.timerFor at armed ⊢
      rw [Bool.and_eq_true] at armed ⊢
      refine ⟨?_, armed.2⟩
      by_cases isSame : other = captured.captureId
      · have ⟨existing, isExisting, meets⟩ := (Option.any_eq_true _ _).1 armed.2
        rw [isSame] at isExisting
        have ⟨_, sent, isSent, isId⟩ := separate.bound _ existing isExisting
        have isOwn := (separate.unique _ _ _ _ isSent sends isId).1
        simp only [Bool.and_eq_true, decide_eq_true_eq] at meets
        exact absurd (meets.2.symm.trans isOwn) different
      · simp only [cleanup, update_of_ne isSame]
        exact armed.1
    · exact fun recovers => recovers
  · rw [isBind]
    have marked : OnTab tabId destroyed
        { cleanup { browser with captureAttempts := bindings } captured.captureId with
          recentAborts := update browser.recentAborts tabId
            (some ⟨error, browser.clock + abortErrorDeduplicationMs⟩) } :=
      { (binds.onTab onTab).cleanup captured.captureId with }
    have reports : Attends tabId ⟨(reportPhase
          { cleanup { browser with captureAttempts := bindings } captured.captureId with
            recentAborts := update browser.recentAborts tabId
              (some ⟨error, browser.clock + abortErrorDeduplicationMs⟩) }
          tabId attempt.attemptId .error
          ("Snapshot transfer " ++ captured.captureId ++ ": " ++ error) {}).1, destroyed⟩ := by
      rw [binds.isAttempt]
      have markedOthers : AttendsOthers tabId script.attemptId
          ⟨{ cleanup { browser with captureAttempts := bindings } captured.captureId with
            recentAborts := update browser.recentAborts tabId
              (some ⟨error, browser.clock + abortErrorDeduplicationMs⟩) }, destroyed⟩ :=
        binds.cleanup others
      exact markedOthers.report (.inl rfl)
    exact ⟨(marked.report _ _ _ _ _).answer, reports.answer⟩

theorem attends_handleChunk {number : Nat} : OnTab tabId destroyed
        (handleChunk browser sender (chunkAt captured.captureId captured.snapshotHtml number))
      ∧ Attends tabId
        ⟨handleChunk browser sender (chunkAt captured.captureId captured.snapshotHtml number),
          destroyed⟩ := by
  have sends : Sends browser.scripts script.attemptId captured :=
    ⟨script, mem_of_getElem? found, rfl, isCaptured⟩
  have sameId : (chunkAt captured.captureId captured.snapshotHtml number).captureId
    = captured.captureId := rfl
  unfold handleChunk
  rw [isTab, sameId]
  rcases bind_own_cases separate onTab sends own with
    ⟨isBind, none⟩ | ⟨bindings, attempt, isBind, binds⟩
  · rw [isBind]
    exact ⟨onTab.answer, (others.all none).answer⟩
  · rw [isBind]
    have boundTab := binds.onTab onTab
    have boundOthers := binds.attendsOthers others
    have cleanTab := boundTab.cleanup captured.captureId
    have cleanOthers := binds.cleanup others
    simp only
    split
    · rw [binds.isAttempt]
      exact ⟨(cleanTab.report _ _ _ _ _).answer, (cleanOthers.report (.inl rfl)).answer⟩
    · rename_i buffers _
      have timedTab : OnTab tabId destroyed
          (resetTimer { browser with captureAttempts := bindings, buffers := buffers }
            captured.captureId tabId (browser.metadataOf captured.captureId)) :=
        { boundTab.resetTimer captured.captureId (browser.metadataOf captured.captureId) with }
      have timedOthers : AttendsOthers tabId script.attemptId
          ⟨resetTimer { browser with captureAttempts := bindings, buffers := buffers }
            captured.captureId tabId (browser.metadataOf captured.captureId), destroyed⟩ := by
        intro status isStatus running different
        have kept : Expected
            ⟨{ browser with captureAttempts := bindings, buffers := buffers }, destroyed⟩ tabId
            status :=
          boundOthers status isStatus running different
        exact kept.resetTimer
      have reports : ∀ extra, Attends tabId ⟨(reportPhase
            (resetTimer { browser with captureAttempts := bindings, buffers := buffers }
              captured.captureId tabId (browser.metadataOf captured.captureId))
            tabId attempt.attemptId .processing (describePhase .processing) extra).1,
            destroyed⟩ := by
        intro extra
        rw [binds.isAttempt]
        apply timedOthers.report
        refine .inr fun status sameAttempt => .inr (.inr (.inl ⟨captured.captureId, ?_⟩))
        simp [Browser.timerFor, resetTimer, binds.bound, binds.isTab, binds.isAttempt, sameAttempt]
      exact ⟨(timedTab.report _ _ _ _ _).answer, (reports _).answer⟩
    · have sameTab : ((browser.transfers captured.captureId).map PendingTransfer.tabId).getD tabId
            = tabId := by
        cases isTransfer : browser.transfers captured.captureId with
        | none => rfl
        | some transfer => exact onTab.transfers _ transfer isTransfer
      rw [sameTab]
      exact attends_completeCapture cleanTab cleanOthers binds.isAttempt _ _

end Bound

theorem justAborted_of_consume {error : String}
    (consumed : (consumeMatchingAbortError browser tabId error).2 = true) :
    JustAborted browser tabId error := by
  unfold consumeMatchingAbortError at consumed
  simp only at consumed
  split at consumed
  · exact nomatch consumed
  · rename_i marker isMarker
    split_ifs at consumed with late differs
    exact ⟨marker, isMarker, Nat.not_lt.1 late, not_not.1 differs⟩

theorem attends_handleError (onTab : OnTab tabId destroyed browser)
    (others : AttendsOthers tabId script.attemptId ⟨browser, destroyed⟩)
    (isTab : sender.tabId = tabId) {error : String}
    (own : ErrsOwn browser tabId script.attemptId error)
    (relief : JustAborted browser tabId error → Attends tabId ⟨browser, destroyed⟩) :
    OnTab tabId destroyed (handleError browser sender error)
      ∧ Attends tabId ⟨handleError browser sender error, destroyed⟩ := by
  have ⟨recentAborts, consumed, isConsumed⟩ := consumeMatchingAbortError_cases browser tabId error
  have markedTab : OnTab tabId destroyed { browser with recentAborts } := { onTab with }
  have markedOthers : AttendsOthers tabId script.attemptId
      ⟨{ browser with recentAborts }, destroyed⟩ := others
  unfold handleError
  rw [isTab, isConsumed]
  cases consumed with
  | true =>
    have marked : Attends tabId ⟨{ browser with recentAborts }, destroyed⟩ :=
      relief (justAborted_of_consume (by rw [isConsumed]))
    exact ⟨markedTab.answer, marked.answer⟩
  | false =>
    rcases own with aborted | ⟨current, isCurrent, meets⟩
    · have isTrue := consume_justAborted aborted
      rw [isConsumed] at isTrue
      exact nomatch isTrue
    · have isStatus : ({ browser with recentAborts } : Browser).statuses sender.tabId
          = some current := by
        rw [isTab]
        exact isCurrent
      simp only
      unfold reportUnconditionalError
      rw [isStatus]
      simp only
      split_ifs with shown
      · refine ⟨markedTab.answer, Attends.answer ?_⟩
        intro status isFound running
        rw [isTab] at isStatus
        rw [← some.inj (isStatus.symm.trans isFound), shown.1] at running
        exact nomatch running
      · rcases meets with isOwn | isShown
        · rw [isOwn, isTab]
          exact ⟨(markedTab.report _ _ _ _ _).answer, (markedOthers.report (.inl rfl)).answer⟩
        · exact absurd isShown shown

theorem Attends.awaits (attends : Attends tabId ⟨browser, destroyed⟩)
    (found : browser.scripts[index]? = some script) :
    AttendsOthers tabId script.attemptId
      ⟨browser.setScript index { script with awaiting := true }, destroyed⟩ := by
  intro status isStatus running different
  apply (attends status isStatus running).mono
  · exact fun _ member _ => member
  · intro place other isOther live isAttempt promising
    refine ⟨other, ?_, live, isAttempt, promising⟩
    show (browser.scripts.set index _)[place]? = some other
    rw [getElem?_set_ne ?_]
    · exact isOther
    · intro same
      rw [← same, found] at isOther
      rw [← some.inj isOther] at isAttempt
      exact different isAttempt.symm
  · exact fun _ armed => armed
  · exact fun recovers => recovers

theorem OnTab.setScript (onTab : OnTab tabId destroyed browser) {moved : Script}
    (isTab : moved.tabId = tabId) : OnTab tabId destroyed (browser.setScript index moved) := by
  have sameLength : (browser.setScript index moved).scripts.length = browser.scripts.length :=
    length_set
  refine { onTab with destroyed := fun place gone => ?_, scripts := ?_ }
  · rw [sameLength]
    exact onTab.destroyed place gone
  intro other member
  rcases mem_or_eq_of_mem_set member with old | new
  · exact onTab.scripts other old
  · rw [new]
    exact isTab

theorem Expected.of_relieved {status : CaptureStatus} (isTab : script.tabId = tabId)
    (isRelieved : relieved browser script = true) (isStatus : browser.statuses tabId = some status)
    (running : status.phase.isTerminal = false) (isOwn : status.attemptId = script.attemptId) :
    (∃ captureId, browser.timerFor tabId status.attemptId captureId = true)
      ∨ browser.recoversFor tabId status = true
      ∨ ∃ task ∈ browser.tasks, task.uploadsFor tabId status = true := by
  unfold relieved at isRelieved
  rw [isTab, isStatus, all_some] at isRelieved
  simp only [Bool.or_eq_true, decide_eq_true_eq] at isRelieved
  rcases isRelieved with (((other | isEnded) | timer) | recovers) | uploads
  · exact absurd isOwn other
  · exact nomatch running.symm.trans isEnded
  · have ⟨captured, _, armed⟩ := (Option.any_eq_true _ _).1 timer
    exact .inl ⟨captured.captureId, armed⟩
  · exact .inr (.inl recovers)
  · exact .inr (.inr (List.any_eq_true.1 uploads))

theorem attends_deliver (separate : Separate browser) (onTab : OnTab tabId destroyed browser)
    (attends : Attends tabId ⟨browser, destroyed⟩)
    (found : browser.scripts[index]? = some script) (live : index ∉ destroyed)
    {message : Message} (sends : script.message = some message)
    (own : MessageOwn browser script message)
    (relief : ∀ error last, script.stage = .erring error last →
      JustAborted browser script.tabId error → relieved browser script = true) :
    OnTab tabId destroyed (handleMessage (browser.setScript index { script with awaiting := true })
        ⟨index, script.stage, script.tabId⟩ message)
      ∧ Attends tabId ⟨handleMessage (browser.setScript index { script with awaiting := true })
        ⟨index, script.stage, script.tabId⟩ message, destroyed⟩ := by
  have isTab := onTab.scripts script (mem_of_getElem? found)
  have waits : Separate (browser.setScript index { script with awaiting := true }) :=
    separate.setScript found rfl rfl id
  have waitsTab : OnTab tabId destroyed
      (browser.setScript index { script with awaiting := true }) :=
    onTab.setScript isTab
  have others := attends.awaits found
  have foundWaiting : (browser.setScript index { script with awaiting := true }).scripts[index]?
      = some { script with awaiting := true } :=
    getElem?_set_self (List.getElem?_eq_some_iff.1 found).1
  rcases message_cases sends with ⟨captured, isCaptured, isStage, rfl⟩
    | ⟨captured, number, isCaptured, isStage, below, rfl⟩
    | ⟨captured, error, isCaptured, isStage, rfl⟩ | ⟨error, last, isStage, rfl⟩
  · have binds : BindsOwn browser tabId script.attemptId captured.captureId := by
      rw [← isTab]
      exact own
    have promising : ({ script with awaiting := true } : Script).Promises := by
      rw [Script.Promises]
      simp only [isStage]
      exact ⟨captured, isCaptured, fun _ => chunkTotal_pos captured.snapshotHtml⟩
    exact attends_handleMeta waits waitsTab foundWaiting others isTab isCaptured binds live
      promising
  · have binds : BindsOwn browser tabId script.attemptId captured.captureId := by
      rw [← isTab]
      exact own
    exact attends_handleChunk waits waitsTab foundWaiting others isTab isCaptured binds
  · have binds : BindsOwn browser tabId script.attemptId captured.captureId := by
      rw [← isTab]
      exact own
    exact attends_handleAbort waits waitsTab foundWaiting others isTab isCaptured binds error
  · have errs : ErrsOwn browser tabId script.attemptId error := by
      rw [← isTab]
      exact own
    refine attends_handleError waitsTab others isTab errs ?_
    intro aborted status isStatus running
    by_cases isOwn : status.attemptId = script.attemptId
    · have isRelieved := relief error last isStage (by rw [isTab]; exact aborted)
      have kept := Expected.of_relieved isTab isRelieved isStatus running isOwn
      exact .inr (.inr kept)
    · exact others status isStatus running isOwn

end Messages

end Clepsydra.Capture
